import DBindings.Identifier
import DBindings.Naming.Table
import DBindings.Proofs.Tree.Walk
import Mathlib.Data.List.Basic

/-!
# What the name table holds

Naming visits the records of a unit, except those in namespaces inside records and in method lists.
It only adds names to the table.

* `TranslationUnit.visited`       the records that are visited;
* `NameTable.Extends`             one table holds the names of another one;
* `NameTable.named_assign`        a visited record and its unnamed fields have names at the end;
* `NameTable.assign_of_settled`   where every visited record and field has a name of its own, the
                                  typedefs alone give names;
* `NameTable.get?_assign`, `NameTable.fieldsOf_assign`   which names the other steps give.
-/

namespace DBindings

/-! ## Visited records -/

namespace Decl

mutual

/-- A record and the records among its members, their members and so on. -/
def inside : Decl → List RecordDecl
  | record head info members methods => ⟨head, info, members, methods⟩ :: insideAll members
  | _ => []

def insideAll : List Decl → List RecordDecl
  | [] => []
  | d :: ds => inside d ++ insideAll ds

end

mutual

/-- The records of a declaration outside records. -/
def visited : Decl → List RecordDecl
  | space _ members => visitedAll members
  | d => inside d

def visitedAll : List Decl → List RecordDecl
  | [] => []
  | d :: ds => visited d ++ visitedAll ds

end

mutual

theorem toDecl_mem_walk_of_inside {r : RecordDecl} : (d : Decl) → r ∈ d.inside → r.toDecl ∈ d.walk
  | record head info members methods, h => by
    rw [walk]
    rcases List.mem_cons.1 h with rfl | h
    · exact List.mem_cons_self
    · exact List.mem_cons_of_mem _
        (List.mem_append_left _ (toDecl_mem_walkAll_of_insideAll members h))
  | space _ _, h | enumeration _ _, h | function _ _, h | typedef _ _, h | var _ _, h
  | macroDef _ _, h => absurd h List.not_mem_nil

theorem toDecl_mem_walkAll_of_insideAll {r : RecordDecl} :
    (ds : List Decl) → r ∈ insideAll ds → r.toDecl ∈ walkAll ds
  | [], h => absurd h List.not_mem_nil
  | d :: ds, h => by
    rw [walkAll]
    rcases List.mem_append.1 h with h | h
    · exact List.mem_append_left _ (toDecl_mem_walk_of_inside d h)
    · exact List.mem_append_right _ (toDecl_mem_walkAll_of_insideAll ds h)

end

mutual

theorem toDecl_mem_walk_of_visited {r : RecordDecl} : (d : Decl) → r ∈ d.visited → r.toDecl ∈ d.walk
  | space head members, h => by
    rw [walk]
    exact List.mem_cons_of_mem _ (toDecl_mem_walkAll_of_visitedAll members h)
  | record _ _ _ _, h | enumeration _ _, h | function _ _, h | typedef _ _, h | var _ _, h
  | macroDef _ _, h => toDecl_mem_walk_of_inside _ h

theorem toDecl_mem_walkAll_of_visitedAll {r : RecordDecl} :
    (ds : List Decl) → r ∈ visitedAll ds → r.toDecl ∈ walkAll ds
  | [], h => absurd h List.not_mem_nil
  | d :: ds, h => by
    rw [walkAll]
    rcases List.mem_append.1 h with h | h
    · exact List.mem_append_left _ (toDecl_mem_walk_of_visited d h)
    · exact List.mem_append_right _ (toDecl_mem_walkAll_of_visitedAll ds h)

end

end Decl

/-- The records that naming visits. -/
def TranslationUnit.visited (unit : TranslationUnit) : List RecordDecl :=
  unit.files.flatMap fun file => Decl.visitedAll file.decls

theorem TranslationUnit.toDecl_mem_walk {unit : TranslationUnit} {r : RecordDecl}
    (h : r ∈ unit.visited) : r.toDecl ∈ unit.walk := by
  obtain ⟨file, hfile, hr⟩ := List.mem_flatMap.1 h
  exact mem_walk.2 ⟨file, hfile, Decl.toDecl_mem_walkAll_of_visitedAll _ hr⟩

namespace NameTable

/-! ## Tables that grow -/

/-- The names of a table are kept in another one; a field may be given another name. -/
structure Extends (t t' : NameTable) : Prop where
  record : ∀ id name, t.get? id = some name → t'.get? id = some name
  field : ∀ id i, (t.fieldName? id i).isSome = true → (t'.fieldName? id i).isSome = true

theorem Extends.refl (t : NameTable) : t.Extends t := ⟨fun _ _ h => h, fun _ _ h => h⟩

theorem Extends.trans {t t' t'' : NameTable} (h : t.Extends t') (h' : t'.Extends t'') :
    t.Extends t'' :=
  ⟨fun id name hid => h'.record id name (h.record id name hid),
    fun id i hi => h'.field id i (h.field id i hi)⟩

theorem Extends.isSome {t t' : NameTable} (h : t.Extends t') {id : DeclId}
    (hid : (t.get? id).isSome = true) : (t'.get? id).isSome = true := by
  obtain ⟨name, hname⟩ := Option.isSome_iff_exists.1 hid
  rw [h.record id name hname]
  rfl

theorem get?_name (t : NameTable) (id : DeclId) (name : String) (x : DeclId) :
    (t.name id name).get? x = if x = id then some ((t.get? id).getD name) else t.get? x := by
  unfold NameTable.name
  cases hid : t.get? id with
  | some old =>
    rw [Option.isSome_some, if_pos rfl]
    split
    · next hx => rw [hx, hid, Option.getD_some]
    · rfl
  | none =>
    rw [if_neg (by decide)]
    show List.lookup x ((id, name) :: t.records) = _
    rw [List.lookup_cons]
    by_cases hx : x = id
    · rw [if_pos hx, hx, beq_self_eq_true]
      rfl
    · rw [if_neg hx, beq_false_of_ne hx]
      rfl

theorem fields_name (t : NameTable) (id : DeclId) (name : String) :
    (t.name id name).fields = t.fields := by
  unfold NameTable.name
  split <;> rfl

theorem extends_name (t : NameTable) (id : DeclId) (name : String) :
    t.Extends (t.name id name) where
  record x old h := by
    rw [get?_name]
    split
    · next hx => rw [← hx, h, Option.getD_some]
    · exact h
  field x i h := by
    unfold fieldName? at h ⊢
    rw [fields_name]
    exact h

theorem records_nameFields (t : NameTable) (record : DeclId) (position : Nat)
    (fields : List Field) : (t.nameFields record position fields).records = t.records := by
  induction fields generalizing t position with
  | nil => rfl
  | cons field rest ih =>
    unfold nameFields
    dsimp only
    rw [ih]
    split <;> rfl

theorem extends_field (t : NameTable) (key : DeclId × Nat) (name : String) :
    t.Extends { t with fields := (key, name) :: t.fields } where
  record _ _ h := h
  field id i h := by
    show ((List.lookup (id, i) ((key, name) :: t.fields))).isSome = true
    rw [List.lookup_cons]
    split
    · rfl
    · exact h

/-! ## The steps of naming -/

/-- A property of tables that is kept when an anonymous record among some records, or an unnamed
field of one of them, gets a name. -/
structure Kept (rs : List RecordDecl) (P : NameTable → Prop) : Prop where
  record : ∀ t, P t → ∀ r ∈ rs, r.head.name = none → ∀ name, P (t.name r.head.id name)
  field : ∀ t, P t → ∀ r ∈ rs, ∀ i f, r.info.fields[i]? = some f → f.name = none →
    P { t with fields := ((r.head.id, i), t.fieldNameFor f.ty i) :: t.fields }

theorem Kept.mono {rs rs' : List RecordDecl} {P : NameTable → Prop} (h : Kept rs P)
    (hrs : ∀ r ∈ rs', r ∈ rs) : Kept rs' P :=
  ⟨fun t ht r hr => h.record t ht r (hrs r hr), fun t ht r hr => h.field t ht r (hrs r hr)⟩

theorem Kept.left {rs rs' : List RecordDecl} {P : NameTable → Prop} (h : Kept (rs ++ rs') P) :
    Kept rs P := h.mono fun _ => List.mem_append_left _

theorem Kept.right {rs rs' : List RecordDecl} {P : NameTable → Prop} (h : Kept (rs ++ rs') P) :
    Kept rs' P := h.mono fun _ => List.mem_append_right _

theorem Kept.of_extends (t : NameTable) (rs : List RecordDecl) : Kept rs t.Extends where
  record _ ht _ _ _ _ := ht.trans (extends_name _ _ _)
  field _ ht _ _ _ _ _ _ := ht.trans (extends_field _ _ _)

/-- What is done for a declaration outside records that is no namespace. -/
def nameTop (c : Counter) (d : Decl) : Counter :=
  let c := c.visit "AnonType_" d
  { c with table := (nameInside ⟨c.table, 1⟩ d).table }

def nameFiles (c : Counter) (files : List SourceFile) : Counter :=
  files.foldl (fun c file => nameScopes c file.decls) c

section
variable {P : NameTable → Prop}

theorem kept_nameFields {r : RecordDecl} {rs : List RecordDecl} (h : Kept rs P) (hr : r ∈ rs)
    (position : Nat) (fields : List Field)
    (hfields : ∀ i f, fields[i]? = some f → r.info.fields[position + i]? = some f)
    (t : NameTable) (ht : P t) : P (t.nameFields r.head.id position fields) := by
  induction fields generalizing t position with
  | nil => exact ht
  | cons field rest ih =>
    have hrest : ∀ i f, rest[i]? = some f → r.info.fields[position + 1 + i]? = some f := by
      intro i f hf
      rw [show position + 1 + i = position + (i + 1) by omega]
      exact hfields (i + 1) f hf
    unfold nameFields
    dsimp only
    split
    · exact ih (position + 1) hrest t ht
    · next hcond =>
      have hname : field.name = none := by
        cases hname : field.name with
        | none => rfl
        | some name => exact absurd (by rw [hname]; rfl) hcond
      exact ih (position + 1) hrest _ (h.field t ht r hr position field (hfields 0 field rfl) hname)

theorem kept_visit {d : Decl} (h : Kept d.inside P) (c : Counter) (stem : String)
    (hc : P c.table) : P (c.visit stem d).table := by
  unfold Counter.visit
  split
  · next hcond =>
    cases d with
    | record head info members methods =>
      have hname : head.name = none := by
        cases hname : head.name with
        | none => rfl
        | some name => simp [Decl.head, hname] at hcond
      exact h.record c.table hc ⟨head, info, members, methods⟩ List.mem_cons_self hname _
    | _ => simp [Decl.isRecord] at hcond
  · exact hc

mutual

theorem kept_nameInside (c : Counter) (hc : P c.table) :
    (d : Decl) → Kept d.inside P → P (nameInside c d).table
  | .record head info members methods, h => by
    rw [nameInside]
    refine kept_nameFields h List.mem_cons_self 0 info.fields (fun i f hf => ?_) _ ?_
    · rwa [Nat.zero_add]
    · exact kept_nameMembers c hc members (h.mono fun _ => List.mem_cons_of_mem _)
  | .space _ _, _ | .enumeration _ _, _ | .function _ _, _ | .typedef _ _, _ | .var _ _, _
  | .macroDef _ _, _ => hc

theorem kept_nameMembers (c : Counter) (hc : P c.table) :
    (ds : List Decl) → Kept (Decl.insideAll ds) P → P (nameMembers c ds).table
  | [], _ => hc
  | d :: ds, h => by
    rw [nameMembers]
    have hvisit := kept_visit h.left c "_anon" hc
    exact kept_nameMembers _ (kept_nameInside _ hvisit d h.left) ds h.right

end

theorem kept_nameTop {d : Decl} (h : Kept d.inside P) (c : Counter) (hc : P c.table) :
    P (nameTop c d).table :=
  kept_nameInside ⟨_, 1⟩ (kept_visit h c "AnonType_" hc) d h

mutual

theorem kept_nameScope (c : Counter) (hc : P c.table) :
    (d : Decl) → Kept d.visited P → P (nameScope c d).table
  | .space _ members, h => by
    rw [nameScope]
    exact kept_nameScopes c hc members h
  | .record _ _ _ _, h => kept_nameTop h c hc
  | .enumeration _ _, h | .function _ _, h | .typedef _ _, h | .var _ _, h | .macroDef _ _, h =>
    kept_nameTop h c hc

theorem kept_nameScopes (c : Counter) (hc : P c.table) :
    (ds : List Decl) → Kept (Decl.visitedAll ds) P → P (nameScopes c ds).table
  | [], _ => hc
  | d :: ds, h => by
    rw [nameScopes]
    exact kept_nameScopes _ (kept_nameScope c hc d h.left) ds h.right

end

theorem kept_nameFiles (c : Counter) (hc : P c.table) (files : List SourceFile)
    (h : Kept (files.flatMap fun file => Decl.visitedAll file.decls) P) :
    P (nameFiles c files).table := by
  induction files generalizing c with
  | nil => exact hc
  | cons file files ih =>
    rw [List.flatMap_cons] at h
    exact ih _ (kept_nameScopes c hc file.decls h.left) h.right

end

theorem extends_nameFields (t : NameTable) (record : DeclId) (position : Nat)
    (fields : List Field) : t.Extends (t.nameFields record position fields) := by
  induction fields generalizing t position with
  | nil => exact .refl t
  | cons field rest ih =>
    unfold nameFields
    dsimp only
    split
    · exact ih t (position + 1)
    · exact (extends_field t _ _).trans (ih _ (position + 1))

theorem extends_nameMembers (c : Counter) (ds : List Decl) :
    c.table.Extends (nameMembers c ds).table :=
  kept_nameMembers c (.refl _) ds (.of_extends _ _)

theorem extends_nameScopes (c : Counter) (ds : List Decl) :
    c.table.Extends (nameScopes c ds).table :=
  kept_nameScopes c (.refl _) ds (.of_extends _ _)

theorem extends_nameFiles (c : Counter) (files : List SourceFile) :
    c.table.Extends (nameFiles c files).table :=
  kept_nameFiles c (.refl _) files (.of_extends _ _)

end NameTable

/-! ## What gets a name -/

/-- A record, if it is anonymous, and its unnamed fields have names in a table. -/
structure RecordDecl.NamedIn (t : NameTable) (r : RecordDecl) : Prop where
  record : r.head.name = none → (t.get? r.head.id).isSome = true
  field : ∀ i f, r.info.fields[i]? = some f → f.name = none → f.bitWidth = none →
    (t.fieldName? r.head.id i).isSome = true

theorem RecordDecl.NamedIn.mono {t t' : NameTable} {r : RecordDecl} (h : r.NamedIn t)
    (ht : t.Extends t') : r.NamedIn t' :=
  ⟨fun hr => ht.isSome (h.record hr), fun i f hf hn hw => ht.field _ _ (h.field i f hf hn hw)⟩

namespace NameTable

theorem isSome_nameFields (t : NameTable) (record : DeclId) (position : Nat) (fields : List Field)
    {i : Nat} {f : Field} (hf : fields[i]? = some f) (hname : f.name = none)
    (hwidth : f.bitWidth = none) :
    ((t.nameFields record position fields).fieldName? record (position + i)).isSome = true := by
  induction fields generalizing t position i with
  | nil => exact absurd hf (by simp)
  | cons field rest ih =>
    unfold nameFields
    dsimp only
    cases i with
    | zero =>
      have hfield : field = f := Option.some.inj hf
      rw [hfield, hname, hwidth]
      refine (extends_nameFields _ record (position + 1) rest).field record position ?_
      show ((List.lookup (record, position) (((record, position), _) :: t.fields))).isSome = true
      rw [List.lookup_cons, beq_self_eq_true]
      rfl
    | succ i =>
      rw [show position + (i + 1) = position + 1 + i by omega]
      exact ih _ (position + 1) hf

theorem isSome_visit (c : Counter) (stem : String) {d : Decl} (hrecord : d.isRecord = true)
    (hname : d.head.name = none) : ((c.visit stem d).table.get? d.id).isSome = true := by
  unfold Counter.visit
  rw [hrecord, hname]
  cases hget : c.table.get? d.id with
  | some name => exact Option.isSome_of_eq_some hget
  | none =>
    show ((c.table.name d.id _).get? d.id).isSome = true
    rw [get?_name, if_pos rfl]
    rfl

mutual

theorem named_nameInside (c : Counter) : (d : Decl) →
    (d.isRecord = true → d.head.name = none → (c.table.get? d.id).isSome = true) →
      ∀ r ∈ d.inside, r.NamedIn (nameInside c d).table
  | .record head info members methods, h => by
    rw [Decl.inside, nameInside]
    refine List.forall_mem_cons.2 ⟨⟨fun hname => ?_, fun i f hf hname hwidth => ?_⟩, fun r hr => ?_⟩
    · refine (extends_nameFields _ _ _ _).isSome ((extends_nameMembers c members).isSome ?_)
      exact h rfl hname
    · have hfield := isSome_nameFields (nameMembers c members).table head.id 0 info.fields hf hname
        hwidth
      rwa [Nat.zero_add] at hfield
    · exact (named_nameMembers c members r hr).mono (extends_nameFields _ _ _ _)
  | .space _ _, _ | .enumeration _ _, _ | .function _ _, _ | .typedef _ _, _ | .var _ _, _
  | .macroDef _ _, _ => fun r hr => absurd hr List.not_mem_nil

theorem named_nameMembers (c : Counter) :
    (ds : List Decl) → ∀ r ∈ Decl.insideAll ds, r.NamedIn (nameMembers c ds).table
  | [] => fun r hr => absurd hr List.not_mem_nil
  | d :: ds => by
    rw [Decl.insideAll, nameMembers]
    intro r hr
    rcases List.mem_append.1 hr with hr | hr
    · exact (named_nameInside (c.visit "_anon" d) d (isSome_visit c "_anon") r hr).mono
        (extends_nameMembers _ ds)
    · exact named_nameMembers _ ds r hr

end

theorem named_nameTop (c : Counter) (d : Decl) : ∀ r ∈ d.inside, r.NamedIn (nameTop c d).table :=
  named_nameInside ⟨(c.visit "AnonType_" d).table, 1⟩ d (isSome_visit c "AnonType_")

mutual

theorem named_nameScope (c : Counter) :
    (d : Decl) → ∀ r ∈ d.visited, r.NamedIn (nameScope c d).table
  | .space _ members => by
    rw [Decl.visited, nameScope]
    exact named_nameScopes c members
  | .record head info members methods => named_nameTop c (.record head info members methods)
  | .enumeration _ _ | .function _ _ | .typedef _ _ | .var _ _ | .macroDef _ _ =>
    fun r hr => absurd hr List.not_mem_nil

theorem named_nameScopes (c : Counter) :
    (ds : List Decl) → ∀ r ∈ Decl.visitedAll ds, r.NamedIn (nameScopes c ds).table
  | [] => fun r hr => absurd hr List.not_mem_nil
  | d :: ds => by
    rw [Decl.visitedAll, nameScopes]
    intro r hr
    rcases List.mem_append.1 hr with hr | hr
    · exact (named_nameScope c d r hr).mono (extends_nameScopes _ ds)
    · exact named_nameScopes _ ds r hr

end

theorem named_nameFiles (c : Counter) (files : List SourceFile) :
    ∀ r ∈ files.flatMap fun file => Decl.visitedAll file.decls,
      r.NamedIn (nameFiles c files).table := by
  induction files generalizing c with
  | nil => exact fun r hr => absurd hr List.not_mem_nil
  | cons file files ih =>
    intro r hr
    rw [List.flatMap_cons] at hr
    rcases List.mem_append.1 hr with hr | hr
    · exact (named_nameScopes c file.decls r hr).mono (extends_nameFiles _ files)
    · exact ih _ r hr

/-- The names that typedefs give. -/
def fromTypedefs (unit : TranslationUnit) : NameTable :=
  unit.walk.foldl (nameByTypedef (.ofUnit unit)) {}

theorem assign_eq (unit : TranslationUnit) :
    assign unit = (nameFiles ⟨fromTypedefs unit, 1⟩ unit.files).table := rfl

theorem extends_assign (unit : TranslationUnit) : (fromTypedefs unit).Extends (assign unit) :=
  extends_nameFiles ⟨_, 1⟩ _

/-- A record that is visited and its unnamed fields have names at the end. -/
theorem named_assign {unit : TranslationUnit} {r : RecordDecl} (h : r ∈ unit.visited) :
    r.NamedIn (assign unit) := named_nameFiles ⟨_, 1⟩ _ r h

/-! ## What is named by typedefs alone -/

theorem fields_nameByTypedef (index : DeclIndex) (t : NameTable) (d : Decl) :
    (nameByTypedef index t d).fields = t.fields := by
  unfold nameByTypedef
  split
  · split
    · split
      · split
        · exact fields_name _ _ _
        · rfl
      · rfl
    · rfl
  · split
    · exact fields_name _ _ _
    · rfl
  · rfl

theorem extends_nameByTypedef (index : DeclIndex) (t : NameTable) (d : Decl) :
    t.Extends (nameByTypedef index t d) := by
  unfold nameByTypedef
  split
  · split
    · split
      · split
        · exact extends_name _ _ _
        · exact .refl _
      · exact .refl _
    · exact .refl _
  · split
    · exact extends_name _ _ _
    · exact .refl _
  · exact .refl _

theorem extends_foldl_nameByTypedef (index : DeclIndex) (t : NameTable) (ds : List Decl) :
    t.Extends (ds.foldl (nameByTypedef index) t) := by
  induction ds generalizing t with
  | nil => exact .refl _
  | cons d ds ih => exact (extends_nameByTypedef index t d).trans (ih _)

theorem fields_fromTypedefs (unit : TranslationUnit) : (fromTypedefs unit).fields = [] := by
  have hfold : ∀ (ds : List Decl) (t : NameTable),
      (ds.foldl (nameByTypedef (.ofUnit unit)) t).fields = t.fields := by
    intro ds
    induction ds with
    | nil => exact fun t => rfl
    | cons d ds ih => exact fun t => (ih _).trans (fields_nameByTypedef _ t d)
  exact hfold unit.walk {}

end NameTable

/-- A record with a name whose fields have names or are bit-fields. -/
structure RecordDecl.Settled (r : RecordDecl) : Prop where
  record : r.head.name.isSome = true
  field : ∀ f ∈ r.info.fields, (f.name.isSome || f.bitWidth.isSome) = true

namespace NameTable

theorem nameFields_of_settled (t : NameTable) (record : DeclId) (position : Nat)
    {fields : List Field} (h : ∀ f ∈ fields, (f.name.isSome || f.bitWidth.isSome) = true) :
    t.nameFields record position fields = t := by
  induction fields generalizing position with
  | nil => rfl
  | cons field rest ih =>
    unfold nameFields
    dsimp only
    rw [if_pos (h field List.mem_cons_self)]
    exact ih (position + 1) fun f hf => h f (List.mem_cons_of_mem _ hf)

theorem visit_of_settled (c : Counter) (stem : String) {d : Decl}
    (h : ∀ r ∈ d.inside, r.Settled) : c.visit stem d = c := by
  have hcond : (d.isRecord && d.head.name.isNone) = false := by
    cases d with
    | record head info members methods =>
      have hname : head.name.isSome = true := (h _ List.mem_cons_self).record
      show head.name.isNone = false
      rw [← Option.not_isSome, hname]
      rfl
    | _ => rfl
  unfold Counter.visit
  rw [hcond]
  rfl

mutual

theorem nameInside_of_settled (c : Counter) :
    (d : Decl) → (∀ r ∈ d.inside, r.Settled) → nameInside c d = c
  | .record head info members methods, h => by
    rw [Decl.inside] at h
    obtain ⟨hself, hmembers⟩ := List.forall_mem_cons.1 h
    rw [nameInside, nameMembers_of_settled c members hmembers]
    show Counter.mk (c.table.nameFields head.id 0 info.fields) c.next = c
    rw [nameFields_of_settled _ _ _ hself.field]
  | .space _ _, _ | .enumeration _ _, _ | .function _ _, _ | .typedef _ _, _ | .var _ _, _
  | .macroDef _ _, _ => rfl

theorem nameMembers_of_settled (c : Counter) :
    (ds : List Decl) → (∀ r ∈ Decl.insideAll ds, r.Settled) → nameMembers c ds = c
  | [], _ => rfl
  | d :: ds, h => by
    rw [Decl.insideAll] at h
    obtain ⟨hd, hds⟩ := List.forall_mem_append.1 h
    rw [nameMembers, visit_of_settled c "_anon" hd, nameInside_of_settled c d hd,
      nameMembers_of_settled c ds hds]

end

theorem nameTop_of_settled (c : Counter) {d : Decl} (h : ∀ r ∈ d.inside, r.Settled) :
    nameTop c d = c := by
  unfold nameTop
  rw [visit_of_settled c "AnonType_" h]
  show Counter.mk (nameInside ⟨c.table, 1⟩ d).table c.next = c
  rw [nameInside_of_settled _ d h]

mutual

theorem nameScope_of_settled (c : Counter) :
    (d : Decl) → (∀ r ∈ d.visited, r.Settled) → nameScope c d = c
  | .space _ members, h => by
    rw [Decl.visited] at h
    rw [nameScope, nameScopes_of_settled c members h]
  | .record _ _ _ _, h => nameTop_of_settled c h
  | .enumeration _ _, h | .function _ _, h | .typedef _ _, h | .var _ _, h | .macroDef _ _, h =>
    nameTop_of_settled c h

theorem nameScopes_of_settled (c : Counter) :
    (ds : List Decl) → (∀ r ∈ Decl.visitedAll ds, r.Settled) → nameScopes c ds = c
  | [], _ => rfl
  | d :: ds, h => by
    rw [Decl.visitedAll] at h
    obtain ⟨hd, hds⟩ := List.forall_mem_append.1 h
    rw [nameScopes, nameScope_of_settled c d hd, nameScopes_of_settled c ds hds]

end

/-- Where every visited record and field has a name of its own, only typedefs give names. -/
theorem assign_of_settled {unit : TranslationUnit} (h : ∀ r ∈ unit.visited, r.Settled) :
    assign unit = fromTypedefs unit := by
  have hfiles : ∀ (files : List SourceFile) (c : Counter),
      (∀ r ∈ files.flatMap fun file => Decl.visitedAll file.decls, r.Settled) →
        nameFiles c files = c := by
    intro files
    induction files with
    | nil => exact fun c _ => rfl
    | cons file files ih =>
      intro c h
      rw [List.flatMap_cons] at h
      obtain ⟨hfile, hfiles⟩ := List.forall_mem_append.1 h
      show nameFiles (nameScopes c file.decls) files = c
      rw [nameScopes_of_settled c file.decls hfile]
      exact ih c hfiles
  rw [assign_eq, hfiles unit.files _ h]

/-! ## The entries of the table -/

theorem kept_assign {unit : TranslationUnit} {P : NameTable → Prop} (h : Kept unit.visited P)
    (ht : P (fromTypedefs unit)) : P (assign unit) := kept_nameFiles ⟨_, 1⟩ ht unit.files h

/-- Numbered names go to anonymous records that are visited, and to no other declaration. -/
theorem get?_assign {unit : TranslationUnit} {id : DeclId}
    (h : ∀ r ∈ unit.visited, r.head.name = none → r.head.id ≠ id) :
    (assign unit).get? id = (fromTypedefs unit).get? id := by
  refine kept_assign (P := fun t => t.get? id = (fromTypedefs unit).get? id) ⟨?_, ?_⟩ rfl
  · intro t ht r hr hname name
    rw [get?_name, if_neg (Ne.symm (h r hr hname)), ht]
  · exact fun t ht _ _ _ _ _ _ => ht

/-- The names that unnamed fields get. -/
def IsFieldName (name : String) : Prop :=
  ∃ n : Nat, name = "a" ++ toString n ++ "_" ∨ name = "_field" ++ toString n

theorem isFieldName_fieldNameFor (t : NameTable) (ty : Ty) (position : Nat) :
    IsFieldName (t.fieldNameFor ty position) := by
  unfold fieldNameFor
  dsimp only
  split
  · next n _ => exact ⟨n, Or.inl rfl⟩
  · exact ⟨position, Or.inr rfl⟩

theorem IsFieldName.ne_empty {name : String} (h : IsFieldName name) : name ≠ "" := by
  obtain ⟨n, rfl | rfl⟩ := h <;> simp

theorem IsFieldName.sanitize {name : String} (h : IsFieldName name) :
    Identifier.sanitize name = name := by
  have hends : ∀ w ∈ Identifier.reserved,
      w.toList.head? ≠ some '_' ∧ w.toList.getLast? ≠ some '_' := by
    decide +kernel
  have hfree : Identifier.isReserved name = false := by
    rw [Identifier.isReserved, List.contains_eq_mem, decide_eq_false_iff_not]
    intro hmem
    obtain ⟨hhead, hlast⟩ := hends name hmem
    obtain ⟨n, rfl | rfl⟩ := h
    · exact hlast (by rw [String.toList_append]; exact List.getLast?_concat ..)
    · exact hhead (by rw [String.toList_append]; rfl)
  rw [Identifier.sanitize, hfree]
  rfl

/-- The names of fields in a table belong to unnamed fields of some records. -/
def FieldsOf (rs : List RecordDecl) (t : NameTable) : Prop :=
  ∀ id i name, t.fieldName? id i = some name → IsFieldName name ∧
    ∃ r ∈ rs, r.head.id = id ∧ ∃ f, r.info.fields[i]? = some f ∧ f.name = none

theorem kept_fieldsOf (rs : List RecordDecl) : Kept rs (FieldsOf rs) where
  record t ht r _ _ new id i name h := by
    rw [fieldName?, fields_name] at h
    exact ht id i name h
  field t ht r hr j f hf hname id i name h := by
    change List.lookup (id, i) (((r.head.id, j), t.fieldNameFor f.ty j) :: t.fields) = _ at h
    rw [List.lookup_cons] at h
    split at h
    · next hkey =>
      obtain ⟨rfl, rfl⟩ := Prod.mk.inj (eq_of_beq hkey)
      rw [← Option.some.inj h]
      exact ⟨isFieldName_fieldNameFor t f.ty i, r, hr, rfl, f, hf, hname⟩
    · exact ht id i name h

theorem fieldsOf_assign (unit : TranslationUnit) : FieldsOf unit.visited (assign unit) := by
  refine kept_assign (kept_fieldsOf _) fun id i name h => ?_
  rw [fieldName?, fields_fromTypedefs] at h
  exact absurd h (by simp)

end NameTable

end DBindings
