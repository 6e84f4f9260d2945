import DBindings.Proofs.Naming.Numbering
import DBindings.Proofs.Tree.Inserted
import DBindings.Proofs.Tree.Mentions

/-!
# Names when declarations come in

A unit is compared with one that has more declarations, which the first one does not refer to and
which name none of its declarations.  The declarations of the first unit have the same names in
both, as long as the new ones take no number before them.

* `NameTable.SameBut`          two tables have the same names, apart from some declarations;
* `TranslationUnit.Gains`      declarations come into a unit;
* `NameTable.sameBut_fromTypedefs`   typedefs give the same names;
* `NameTable.SameBut.nameInside`     so do numbers inside a record;
* `NameTable.sameBut_assign`   and so do numbers of files and namespaces, if those of the first unit
                               are given first;
* `NameTable.assign_append`    declarations that are appended change no name.
-/

namespace DBindings
namespace NameTable

/-! ## Tables side by side -/

/-- Two tables have the same names, apart from some declarations. -/
structure SameBut (ids : List DeclId) (t t' : NameTable) : Prop where
  record : ∀ id, id ∉ ids → t'.get? id = t.get? id
  field : ∀ id, id ∉ ids → ∀ i, t'.fieldName? id i = t.fieldName? id i

def nameField (t : NameTable) (key : DeclId × Nat) (name : String) : NameTable :=
  { t with fields := (key, name) :: t.fields }

theorem fieldName?_nameField (t : NameTable) (key : DeclId × Nat) (name : String) (id : DeclId)
    (i : Nat) : (t.nameField key name).fieldName? id i =
      if (id, i) == key then some name else t.fieldName? id i := by
  unfold nameField fieldName?
  dsimp only
  rw [List.lookup_cons]
  cases (id, i) == key <;> rfl

namespace SameBut
variable {ids : List DeclId} {t t' : NameTable}

theorem refl (ids : List DeclId) (t : NameTable) : SameBut ids t t :=
  ⟨fun _ _ => rfl, fun _ _ _ => rfl⟩

variable (h : SameBut ids t t')
include h

theorem name (id : DeclId) (name : String) : SameBut ids (t.name id name) (t'.name id name) where
  record x hx := by
    rw [get?_name, get?_name, h.record x hx]
    by_cases hid : x = id
    · rw [if_pos hid, if_pos hid, ← hid, h.record x hx]
    · rw [if_neg hid, if_neg hid]
  field x hx i := by
    unfold fieldName?
    rw [fields_name, fields_name]
    exact h.field x hx i

theorem name_other {id : DeclId} (hid : id ∈ ids) (name : String) :
    SameBut ids t (t'.name id name) where
  record x hx := by
    have hne : id ≠ x := by
      rintro rfl
      exact hx hid
    rw [get?_name_of_ne t' hne, h.record x hx]
  field x hx i := by
    unfold fieldName?
    rw [fields_name]
    exact h.field x hx i

theorem nameField (key : DeclId × Nat) (name : String) :
    SameBut ids (t.nameField key name) (t'.nameField key name) where
  record := h.record
  field x hx i := by rw [fieldName?_nameField, fieldName?_nameField, h.field x hx i]

theorem nameField_other {key : DeclId × Nat} (hkey : key.1 ∈ ids) (name : String) :
    SameBut ids t (t'.nameField key name) where
  record := h.record
  field x hx i := by
    have hne : ((x, i) == key) = false := by
      refine beq_false_of_ne ?_
      rintro rfl
      exact hx hkey
    rw [fieldName?_nameField, hne]
    exact h.field x hx i

theorem lacks {r : RecordDecl} (hr : r.head.id ∉ ids) : t'.lacks r = t.lacks r := by
  unfold NameTable.lacks
  rw [h.record _ hr]

end SameBut
end NameTable

/-! ## Names from typedefs -/

/-- Declarations come into a unit that has none of their numbers, does not refer to them, and has no
unnamed declaration that one of them names. -/
structure TranslationUnit.Gains (new : List Decl) (unit unit' : TranslationUnit) : Prop where
  roots : Inserts (· ∈ new) unit.roots unit'.roots
  fresh : ∀ d ∈ unit.walk, d.id ∉ Decl.numbers new
  refs : ∀ id ∈ unit.refs, id ∉ Decl.numbers new
  unnamed : ∀ d ∈ unit.walk, d.head.name = none →
    ∀ x ∈ Decl.walkAll new, x.typedefName? d.id = none

theorem Decl.typedefName?_of_desugar {head : DeclHead} {underlying : Ty} {ref : DeclRef}
    (h : underlying.desugar = .record ref) :
    (Decl.typedef head underlying).typedefName? ref.id = head.name := by
  unfold typedefName?
  dsimp only
  rw [h]
  exact if_pos rfl

namespace NameTable

section
variable {new : List Decl} {unit unit' : TranslationUnit} (hgains : unit.Gains new unit')
  {t t' : NameTable} (h : SameBut (Decl.numbers new) t t')
include hgains h

/-- A declaration of both units gives the same name in both. -/
theorem SameBut.nameByTypedef_kept {d : Decl} (hd : d ∈ unit.walk) : SameBut (Decl.numbers new)
    (nameByTypedef (.ofUnit unit) t d) (nameByTypedef (.ofUnit unit') t' d) := by
  have hrefs : ∀ id ∈ d.refs, id ∉ Decl.numbers new := fun id hid =>
    hgains.refs id (List.mem_flatMap.2 ⟨d, hd, hid⟩)
  cases d with
  | typedef head underlying =>
    unfold nameByTypedef
    dsimp only
    cases head.name with
    | none => exact h
    | some name =>
      cases hunderlying : underlying.desugar with
      | record ref =>
        have hid := hrefs _ (underlying.mem_refs_of_desugar hunderlying)
        dsimp only
        rw [TranslationUnit.get?_inserts hgains.roots hid]
        cases (DeclIndex.ofUnit unit).get? ref.id with
        | none => exact h
        | some target =>
          cases htarget : target.head.name.isNone with
          | true => simpa [htarget] using h.name ref.id name
          | false => simpa [htarget] using h
      | _ => exact h
  | record head info members methods =>
    unfold nameByTypedef
    dsimp only
    cases head.name with
    | some name => exact h
    | none =>
      cases info.typedefName with
      | none => exact h
      | some name => exact h.name head.id name
  | _ => exact h

theorem SameBut.nameByTypedef_new {x : Decl} (hx : x ∈ Decl.walkAll new) :
    SameBut (Decl.numbers new) t (nameByTypedef (.ofUnit unit') t' x) := by
  cases x with
  | typedef head underlying =>
    unfold nameByTypedef
    dsimp only
    cases hname : head.name with
    | none => exact h
    | some name =>
      cases hunderlying : underlying.desugar with
      | record ref =>
        dsimp only
        by_cases hid : ref.id ∈ Decl.numbers new
        · split
          · split
            · exact h.name_other hid name
            · exact h
          · exact h
        · -- the target is a declaration of the first unit, so it has a name
          rw [TranslationUnit.get?_inserts hgains.roots hid]
          cases htarget : (DeclIndex.ofUnit unit).get? ref.id with
          | none => exact h
          | some target =>
            obtain ⟨hmem, htargetId⟩ := DeclIndex.mem_of_get? htarget
            cases htargetName : target.head.name with
            | some _ =>
              dsimp only
              rw [htargetName]
              exact h
            | none =>
              have hnone := hgains.unnamed target hmem htargetName _ hx
              rw [htargetId, Decl.typedefName?_of_desugar hunderlying, hname] at hnone
              exact nomatch hnone
      | _ => exact h
  | record head info members methods =>
    have hid : head.id ∈ Decl.numbers new := Decl.id_mem_numbers hx
    unfold nameByTypedef
    dsimp only
    split
    · exact h.name_other hid _
    · exact h
  | _ => exact h

omit h in
theorem sameBut_fromTypedefs :
    SameBut (Decl.numbers new) (fromTypedefs unit) (fromTypedefs unit') :=
  (TranslationUnit.inserts_walk hgains.roots).foldl
    (fun _ hd _ _ h => h.nameByTypedef_kept hgains hd)
    (fun _ hx _ _ h => h.nameByTypedef_new hgains hx) (.refl _ _)

end

end NameTable

/-! ## Numbers inside a record -/

/-- A record is none of some declarations, and none of its fields has one of them as its type. -/
structure RecordDecl.Outside (ids : List DeclId) (r : RecordDecl) : Prop where
  id : r.head.id ∉ ids
  fields : ∀ f ∈ r.info.fields, ∀ ref, f.ty.desugar = .record ref → ref.id ∉ ids

theorem RecordDecl.outside_of_visited {new : List Decl} {unit unit' : TranslationUnit}
    (hgains : unit.Gains new unit') {r : RecordDecl} (hr : r ∈ unit.visited) :
    r.Outside (Decl.numbers new) where
  id := hgains.fresh _ (TranslationUnit.toDecl_mem_walk hr)
  fields f hf ref href := by
    refine hgains.refs _ (List.mem_flatMap.2 ⟨_, TranslationUnit.toDecl_mem_walk hr, ?_⟩)
    refine List.mem_append_left _ (List.mem_append_right _ (List.mem_flatMap.2 ⟨f, hf, ?_⟩))
    exact List.mem_append_left _ (f.ty.mem_refs_of_desugar href)

namespace NameTable
variable {ids : List DeclId}

theorem SameBut.fieldNameFor {t t' : NameTable} (h : SameBut ids t t') {ty : Ty}
    (hty : ∀ ref, ty.desugar = .record ref → ref.id ∉ ids) (position : Nat) :
    t'.fieldNameFor ty position = t.fieldNameFor ty position := by
  unfold NameTable.fieldNameFor
  cases hdesugar : ty.desugar with
  | record ref =>
    dsimp only
    rw [h.record _ (hty ref hdesugar)]
  | _ => rfl

theorem SameBut.nameFields {t t' : NameTable} (h : SameBut ids t t') (record : DeclId)
    (position : Nat) {fields : List Field}
    (hfields : ∀ f ∈ fields, ∀ ref, f.ty.desugar = .record ref → ref.id ∉ ids) :
    SameBut ids (t.nameFields record position fields) (t'.nameFields record position fields) := by
  induction fields generalizing t t' position with
  | nil => exact h
  | cons field rest ih =>
    obtain ⟨hfield, hrest⟩ := List.forall_mem_cons.1 hfields
    unfold NameTable.nameFields
    dsimp only
    split
    · exact ih h (position + 1) hrest
    · rw [h.fieldNameFor hfield]
      exact ih (h.nameField (record, position) _) (position + 1) hrest

/-- Two counters have the same names, apart from some declarations, and the same next number. -/
structure Counter.SameBut (ids : List DeclId) (c c' : Counter) : Prop where
  table : NameTable.SameBut ids c.table c'.table
  next : c'.next = c.next

theorem Counter.SameBut.visit {c c' : Counter} (h : c.SameBut ids c') (stem : String) {d : Decl}
    (hd : ∀ r ∈ d.inside, r.Outside ids) : (c.visit stem d).SameBut ids (c'.visit stem d) := by
  cases d with
  | record head info members methods =>
    have hid : head.id ∉ ids := (hd _ List.mem_cons_self).id
    have hget : c'.table.get? head.id = c.table.get? head.id := h.table.record _ hid
    unfold Counter.visit
    rw [show (Decl.record head info members methods).id = head.id from rfl, hget, h.next]
    split
    · exact ⟨h.table.name _ _, rfl⟩
    · exact h
  | _ => exact h

mutual

/-- Numbers inside a record go on in the same way. -/
theorem Counter.SameBut.nameInside {c c' : Counter} (h : c.SameBut ids c') :
    (d : Decl) → (∀ r ∈ d.inside, r.Outside ids) →
      (NameTable.nameInside c d).SameBut ids (NameTable.nameInside c' d)
  | .record head info members _, hd => by
    rw [Decl.inside] at hd
    obtain ⟨hself, hmembers⟩ := List.forall_mem_cons.1 hd
    have hinside := h.nameMembers members hmembers
    rw [NameTable.nameInside, NameTable.nameInside]
    exact ⟨hinside.table.nameFields head.id 0 hself.fields, hinside.next⟩
  | .space _ _, _ | .enumeration _ _, _ | .function _ _, _ | .typedef _ _, _ | .var _ _, _
  | .macroDef _ _, _ => h

theorem Counter.SameBut.nameMembers {c c' : Counter} (h : c.SameBut ids c') :
    (ds : List Decl) → (∀ r ∈ Decl.insideAll ds, r.Outside ids) →
      (NameTable.nameMembers c ds).SameBut ids (NameTable.nameMembers c' ds)
  | [], _ => h
  | d :: ds, hds => by
    rw [Decl.insideAll] at hds
    obtain ⟨hd, hds⟩ := List.forall_mem_append.1 hds
    have hinside := (h.visit "_anon" hd).nameInside d hd
    rw [NameTable.nameMembers, NameTable.nameMembers]
    exact hinside.nameMembers ds hds

end

/-! ## Numbers of files and namespaces -/

theorem lacks_of_extends {t t' : NameTable} (h : t.Extends t') {r : RecordDecl}
    (hr : t'.lacks r = true) : t.lacks r = true := by
  obtain ⟨hname, hget⟩ := Bool.and_eq_true_iff.1 hr
  refine Bool.and_eq_true_iff.2 ⟨hname, ?_⟩
  cases hid : t.get? r.head.id with
  | none => rfl
  | some name =>
    rw [h.record _ _ hid] at hget
    exact nomatch hget

theorem next_nameTop_of_not_lacks {c : Counter} {r : RecordDecl} (h : ¬ c.table.lacks r = true) :
    (nameTop c r.toDecl).next = c.next := numbers_nameTop.skipped c r h

theorem SameBut.nameTop {c c' : Counter} (h : SameBut ids c.table c'.table) {r : RecordDecl}
    (hr : ∀ x ∈ r.toDecl.inside, x.Outside ids)
    (hnext : c.table.lacks r = true → c'.next = c.next) :
    SameBut ids (nameTop c r.toDecl).table (nameTop c' r.toDecl).table := by
  have hlacks : c'.table.lacks r = c.table.lacks r := h.lacks (hr r List.mem_cons_self).id
  have hvisit : SameBut ids (c.visit "AnonType_" r.toDecl).table
      (c'.visit "AnonType_" r.toDecl).table := by
    by_cases hr : c.table.lacks r = true
    · rw [visit_of_lacks hr, visit_of_lacks (hlacks.trans hr), hnext hr]
      exact h.name _ _
    · rw [visit_of_not_lacks hr, visit_of_not_lacks (hlacks ▸ hr)]
      exact h
  have hcounter : Counter.SameBut ids ⟨(c.visit "AnonType_" r.toDecl).table, 1⟩
      ⟨(c'.visit "AnonType_" r.toDecl).table, 1⟩ := ⟨hvisit, rfl⟩
  exact (hcounter.nameInside r.toDecl hr).table

theorem SameBut.next_nameTop {c c' : Counter} (h : SameBut ids c.table c'.table) {r : RecordDecl}
    (hr : r.head.id ∉ ids) (hnext : c'.next = c.next) :
    (NameTable.nameTop c' r.toDecl).next = (NameTable.nameTop c r.toDecl).next := by
  have hlacks : c'.table.lacks r = c.table.lacks r := h.lacks hr
  by_cases hr : c.table.lacks r = true
  · rw [(numbers_nameTop.named c r hr).1, (numbers_nameTop.named c' r (hlacks.trans hr)).1, hnext]
  · rw [next_nameTop_of_not_lacks hr, next_nameTop_of_not_lacks (hlacks ▸ hr), hnext]

theorem SameBut.nameTop_new {t : NameTable} {c : Counter} (h : SameBut ids t c.table)
    {r : RecordDecl} (hr : ∀ x ∈ r.toDecl.inside, x.head.id ∈ ids) :
    SameBut ids t (NameTable.nameTop c r.toDecl).table :=
  kept_nameTop ⟨fun _ ht x hx _ name => ht.name_other (hr x hx) name,
    fun _ ht x hx _ _ _ _ => ht.nameField_other (hr x hx) _⟩ c h

theorem filter_prefix_of_not_mem {α : Type} {p q : α → Bool} {a : α} {l l' : List α} (ha : a ∉ l)
    (hne : l.filter p ≠ []) (h : l.filter p <+: (a :: l').filter q) :
    ¬ q a = true ∧ l.filter p <+: l'.filter q := by
  have hnot : ¬ q a = true := by
    intro hq
    obtain ⟨first, rest, hfirst⟩ := List.exists_cons_of_ne_nil hne
    rw [List.filter_cons_of_pos hq, hfirst, List.cons_prefix_cons] at h
    have hmem : first ∈ l := (List.mem_filter.1 (hfirst ▸ List.mem_cons_self)).1
    exact ha (h.1 ▸ hmem)
  rw [List.filter_cons_of_neg hnot] at h
  exact ⟨hnot, h⟩

/-- Records are named side by side.  Numbers are the same for as long as the first unit has records
to be numbered: those that come in are numbered after them. -/
theorem sameBut_foldl {rs rs' : List RecordDecl}
    (hrs : Inserts (fun r => ∀ x ∈ r.toDecl.inside, x.head.id ∈ ids) rs rs')
    (houtside : ∀ r ∈ rs, ∀ x ∈ r.toDecl.inside, x.Outside ids)
    {t₀ t₀' : NameTable} (h₀ : SameBut ids t₀ t₀') {c c' : Counter}
    (hc : t₀.Extends c.table) (hc' : t₀'.Extends c'.table) (h : SameBut ids c.table c'.table)
    (hnext : rs.filter t₀.lacks ≠ [] →
      c'.next = c.next ∧ rs.filter t₀.lacks <+: rs'.filter t₀'.lacks) :
    SameBut ids (rs.foldl (fun c r => nameTop c r.toDecl) c).table
      (rs'.foldl (fun c r => nameTop c r.toDecl) c').table := by
  induction hrs generalizing c c' with
  | nil => exact h
  | @keep r rs rs' _ ih =>
    obtain ⟨hr, houtside⟩ := List.forall_mem_cons.1 houtside
    have hid : r.head.id ∉ ids := (hr r List.mem_cons_self).id
    have hlacks₀ : t₀'.lacks r = t₀.lacks r := h₀.lacks hid
    rw [List.foldl_cons, List.foldl_cons]
    by_cases hlacks : t₀.lacks r = true
    · rw [List.filter_cons_of_pos hlacks, List.filter_cons_of_pos (hlacks₀.trans hlacks)] at hnext
      obtain ⟨hnext, hfilter⟩ := hnext (List.cons_ne_nil _ _)
      refine ih houtside (hc.trans (numbers_nameTop.kept c r))
        (hc'.trans (numbers_nameTop.kept c' r)) (h.nameTop hr fun _ => hnext) fun _ => ⟨?_, ?_⟩
      · exact h.next_nameTop hid hnext
      · exact (List.prefix_cons_inj r).1 hfilter
    · have hnot : ¬ c.table.lacks r = true := fun hr => hlacks (lacks_of_extends hc hr)
      rw [List.filter_cons_of_neg hlacks, List.filter_cons_of_neg (hlacks₀ ▸ hlacks)] at hnext
      refine ih houtside (hc.trans (numbers_nameTop.kept c r))
        (hc'.trans (numbers_nameTop.kept c' r)) (h.nameTop hr fun hr => absurd hr hnot)
        fun hne => ?_
      obtain ⟨hnext, hfilter⟩ := hnext hne
      exact ⟨h.next_nameTop hid hnext, hfilter⟩
  | @insert r rs rs' hr _ ih =>
    have hother : r ∉ rs := fun hmem =>
      (houtside r hmem r List.mem_cons_self).id (hr r List.mem_cons_self)
    rw [List.foldl_cons]
    refine ih houtside hc (hc'.trans (numbers_nameTop.kept c' r)) (h.nameTop_new hr) fun hne => ?_
    obtain ⟨hnext, hfilter⟩ := hnext hne
    -- the record takes no number here: it would be in front of one that the first unit numbers
    obtain ⟨hlacks, hfilter⟩ := filter_prefix_of_not_mem hother hne hfilter
    have hnot : ¬ c'.table.lacks r = true := fun hr => hlacks (lacks_of_extends hc' hr)
    exact ⟨(next_nameTop_of_not_lacks hnot).trans hnext, hfilter⟩

end NameTable

/-- The records of files and namespaces that get a number: they have no name, neither of their own
nor from a typedef. -/
def TranslationUnit.unnamedOuter (unit : TranslationUnit) : List RecordDecl :=
  unit.outerRecords.filter (NameTable.fromTypedefs unit).lacks

namespace NameTable

section
variable {new : List Decl} {unit unit' : TranslationUnit} (hgains : unit.Gains new unit')
include hgains

/-- The first unit has the same names in both tables, if those that come in are numbered last. -/
theorem sameBut_assign (hnumbered : unit.unnamedOuter <+: unit'.unnamedOuter) :
    SameBut (Decl.numbers new) (assign unit) (assign unit') := by
  rw [assign_eq_foldl, assign_eq_foldl]
  have hrs : Inserts (fun r => ∀ x ∈ r.toDecl.inside, x.head.id ∈ Decl.numbers new)
      unit.outerRecords unit'.outerRecords := by
    refine (TranslationUnit.inserts_outerRecords hgains.roots).mono fun r hr x hx => ?_
    have hwalk := Decl.toDecl_mem_walk_of_inside _ hx
    exact Decl.id_mem_numbers (Decl.mem_walkAll_trans hwalk new hr)
  have houtside : ∀ r ∈ unit.outerRecords, ∀ x ∈ r.toDecl.inside,
      x.Outside (Decl.numbers new) := by
    intro r hr x hx
    refine RecordDecl.outside_of_visited hgains ?_
    rw [TranslationUnit.visited_eq]
    exact List.mem_flatMap.2 ⟨r, hr, hx⟩
  have htypedefs := sameBut_fromTypedefs hgains
  exact sameBut_foldl hrs houtside htypedefs (.refl _) (.refl _) htypedefs fun _ => ⟨rfl, hnumbered⟩

theorem get?_assign_new {id : DeclId} (hid : id ∈ Decl.numbers new) :
    (assign unit).get? id = none := by
  have hvisited : ∀ r ∈ unit.visited, r.head.name = none → r.head.id ≠ id := by
    rintro r hr - rfl
    exact hgains.fresh _ (TranslationUnit.toDecl_mem_walk hr) hid
  rw [get?_assign hvisited]
  cases hget : (fromTypedefs unit).get? id with
  | none => rfl
  | some name =>
    obtain ⟨d, hd, -, rfl⟩ := isUnnamed_of_fromTypedefs (Option.isSome_of_eq_some hget)
    exact absurd hid (hgains.fresh d hd)

theorem fieldName?_assign_new {id : DeclId} (hid : id ∈ Decl.numbers new) (i : Nat) :
    (assign unit).fieldName? id i = none := by
  cases hget : (assign unit).fieldName? id i with
  | none => rfl
  | some name =>
    obtain ⟨-, r, hr, rfl, -⟩ := fieldsOf_assign unit id i name hget
    exact absurd hid (hgains.fresh _ (TranslationUnit.toDecl_mem_walk hr))

end

/-! ## Declarations that are appended -/

section
variable {new : List Decl} {unit unit' : TranslationUnit}

/-- Declarations that are appended are numbered last. -/
theorem unnamedOuter_append (hgains : unit.Gains new unit')
    (happend : unit'.roots = unit.roots ++ new) : unit.unnamedOuter <+: unit'.unnamedOuter := by
  have htypedefs := sameBut_fromTypedefs hgains
  have hsame : unit.outerRecords.filter (fromTypedefs unit').lacks = unit.unnamedOuter := by
    refine List.filter_congr fun r hr => htypedefs.lacks (hgains.fresh r.toDecl ?_)
    refine TranslationUnit.toDecl_mem_walk (r := r) ?_
    rw [TranslationUnit.visited_eq]
    exact List.mem_flatMap.2 ⟨r, hr, List.mem_cons_self⟩
  have hrecords : unit'.outerRecords =
      unit.outerRecords ++ (new.flatMap Decl.outer).filterMap Decl.record? := by
    unfold TranslationUnit.outerRecords
    rw [TranslationUnit.outer_eq_flatMap, TranslationUnit.outer_eq_flatMap, happend,
      List.flatMap_append, List.filterMap_append]
  rw [← hsame]
  unfold TranslationUnit.unnamedOuter
  rw [hrecords, List.filter_append]
  exact List.prefix_append _ _

/-- Declarations appended to a unit that does not refer to them, and of whose unnamed declarations
they name none, change no name of the unit: every name in its table is in the table of the longer
unit, which has more names only for the declarations appended, and declarations and references of
the unit are written with the same names. -/
theorem assign_append (happend : unit'.roots = unit.roots ++ new)
    (hids : (unit'.walk.map Decl.id).Nodup) (hrefs : ∀ id ∈ unit.refs, id ∉ Decl.numbers new)
    (hunnamed : ∀ d ∈ unit.walk, d.head.name = none →
      ∀ x ∈ Decl.walkAll new, x.typedefName? d.id = none) :
    (∀ id name, (assign unit).get? id = some name → (assign unit').get? id = some name) ∧
    (∀ id i name, (assign unit).fieldName? id i = some name →
      (assign unit').fieldName? id i = some name) ∧
    (∀ id name, (assign unit').get? id = some name →
      (assign unit).get? id = some name ∨ ∃ d ∈ Decl.walkAll new, d.id = id) ∧
    (∀ id i name, (assign unit').fieldName? id i = some name →
      (assign unit).fieldName? id i = some name ∨ ∃ d ∈ Decl.walkAll new, d.id = id) ∧
    (∀ d ∈ unit.walk, (assign unit').declName d.head = (assign unit).declName d.head) ∧
    ∀ ref : DeclRef, ref.id ∈ unit.refs →
      (assign unit').refName ref = (assign unit).refName ref := by
  have hroots : Inserts (· ∈ new) unit.roots unit'.roots := by
    have h := (Inserts.refl (P := (· ∈ new)) unit.roots).append
      (Inserts.of_forall new fun x hx => hx)
    rwa [List.append_nil, ← happend] at h
  have hfresh : ∀ d ∈ unit.walk, d.id ∉ Decl.numbers new := by
    rw [TranslationUnit.walk_eq_walkAll, happend, Decl.walkAll_append, List.map_append,
      ← TranslationUnit.walk_eq_walkAll] at hids
    exact fun d hd hnew =>
      (List.nodup_append.1 hids).2.2 _ (List.mem_map_of_mem hd) _ hnew rfl
  have hgains : unit.Gains new unit' := ⟨hroots, hfresh, hrefs, hunnamed⟩
  have hsame := sameBut_assign hgains (unnamedOuter_append hgains happend)
  refine ⟨fun id name h => ?_, fun id i name h => ?_, fun id name h => ?_, fun id i name h => ?_,
    fun d hd => ?_, fun ref href => ?_⟩
  · rw [hsame.record id fun hid => ?_, h]
    rw [get?_assign_new hgains hid] at h
    exact nomatch h
  · rw [hsame.field id (fun hid => ?_) i, h]
    rw [fieldName?_assign_new hgains hid] at h
    exact nomatch h
  · by_cases hid : id ∈ Decl.numbers new
    · exact Or.inr (List.mem_map.1 hid)
    · exact Or.inl ((hsame.record id hid).symm.trans h)
  · by_cases hid : id ∈ Decl.numbers new
    · exact Or.inr (List.mem_map.1 hid)
    · exact Or.inl ((hsame.field id hid i).symm.trans h)
  · unfold declName
    rw [hsame.record d.head.id (hfresh d hd)]
  · unfold refName
    rw [hsame.record ref.id (hrefs ref.id href)]

end

/-- An anonymous struct with an unnamed field, whose type is the anonymous union inside it. -/
def pairUnit : TranslationUnit :=
  ⟨[⟨"pair.h", [.record { id := 1 } { tag := .struct, fields := [{ ty := .record ⟨2, ""⟩ }] }
    [.record { id := 2 } { tag := .union } [] []] []]⟩]⟩

/-- An anonymous union, and an anonymous struct with a typedef. -/
def laterDecls : List Decl :=
  [.record { id := 3 } { tag := .union } [] [], .record { id := 4 } { tag := .struct } [] [],
    .typedef { id := 5, name := some "Later" } (.record ⟨4, ""⟩)]

def laterUnit : TranslationUnit := ⟨pairUnit.files ++ [⟨"later.h", laterDecls⟩]⟩

theorem laterUnit_names :
    laterUnit.roots = pairUnit.roots ++ laterDecls ∧ (laterUnit.walk.map Decl.id).Nodup ∧
    (∀ id ∈ pairUnit.refs, id ∉ Decl.numbers laterDecls) ∧
    (∀ d ∈ pairUnit.walk, d.head.name = none →
      ∀ x ∈ Decl.walkAll laterDecls, x.typedefName? d.id = none) ∧
    [1, 2].map (assign pairUnit).get? = [some "AnonType_1", some "_anon1"] ∧
    [1, 2, 3, 4].map (assign laterUnit).get? =
      [some "AnonType_1", some "_anon1", some "AnonType_2", some "Later"] ∧
    (assign laterUnit).fieldName? 1 0 = some "a1_" := by
  have happend : laterUnit.roots = pairUnit.roots ++ laterDecls := rfl
  have hids : (laterUnit.walk.map Decl.id).Nodup := by decide
  have hrefs : ∀ id ∈ pairUnit.refs, id ∉ Decl.numbers laterDecls := by decide
  have hunnamed : ∀ d ∈ pairUnit.walk, d.head.name = none →
      ∀ x ∈ Decl.walkAll laterDecls, x.typedefName? d.id = none := by decide
  obtain ⟨hnames, hfields, -⟩ := assign_append happend hids hrefs hunnamed
  have hfirst : (assign pairUnit).get? 1 = some "AnonType_1" := by decide +kernel
  have hsecond : (assign pairUnit).get? 2 = some "_anon1" := by decide +kernel
  have hlater : [3, 4].map (assign laterUnit).get? = [some "AnonType_2", some "Later"] := by
    decide +kernel
  refine ⟨happend, hids, hrefs, hunnamed, congrArg₂ _ hfirst (congrArg₂ _ hsecond rfl),
    congrArg₂ _ (hnames 1 _ hfirst) (congrArg₂ _ (hnames 2 _ hsecond) hlater), hfields 1 0 _ ?_⟩
  decide +kernel

/-- An unnamed enum. -/
def modeUnit : TranslationUnit :=
  ⟨[⟨"mode.h", [.enumeration { id := 1 } ⟨.builtin .int, []⟩]⟩]⟩

/-- A typedef of the enum, as if it were a record. -/
def modeAlias : Decl := .typedef { id := 2, name := some "Mode" } (.record ⟨1, ""⟩)

def modeAliasUnit : TranslationUnit := ⟨modeUnit.files ++ [⟨"alias.h", [modeAlias]⟩]⟩

/-- The typedef names a declaration of the first unit, which has no record. -/
theorem modeAliasUnit_named :
    modeAliasUnit.roots = modeUnit.roots ++ [modeAlias] ∧
    (modeAliasUnit.walk.map Decl.id).Nodup ∧
    (∀ id ∈ modeUnit.refs, id ∉ Decl.numbers [modeAlias]) ∧
    (∀ d ∈ modeUnit.walk, d.isRecord = true → d.head.name = none →
      ∀ x ∈ Decl.walkAll [modeAlias], x.typedefName? d.id = none) ∧
    (assign modeUnit).get? 1 = none ∧ (assign modeAliasUnit).get? 1 = some "Mode" ∧
    ∀ d ∈ Decl.walkAll [modeAlias], d.id ≠ 1 :=
  ⟨rfl, by decide⟩

end NameTable

end DBindings
