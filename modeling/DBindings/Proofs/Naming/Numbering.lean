import DBindings.Proofs.Naming.Records
import DBindings.Proofs.Naming.Typedefs
import DBindings.Proofs.Text.Brackets

/-!
# Numbered names

Anonymous records that no typedef names are numbered: those of files and namespaces over the whole
unit, and those inside one of these over that one.

* `NameTable.Numbers`          a step that gives the next number to a record that has no name;
* `NameTable.Numbers.names`    after some steps the numbers have no gaps;
* `NameTable.same_nameMembers`   inside a record, records are visited in the order of the document;
* `NameTable.nameScopes_eq`    outside records, one declaration is taken after the other;
* `NameTable.assign_names`     the names of a unit.
-/

namespace DBindings
namespace NameTable

/-- The names with a stem and some numbers in a row. -/
def numbered (stem : String) (first count : Nat) : List String :=
  (List.range' first count).map fun n => stem ++ toString n

theorem numbered_succ (stem : String) (first count : Nat) :
    numbered stem first (count + 1) =
      (stem ++ toString first) :: numbered stem (first + 1) count := rfl

theorem nodup_numbered (stem : String) (first count : Nat) : (numbered stem first count).Nodup := by
  refine List.Nodup.map (fun m n h => ?_) List.nodup_range'
  exact toString_injective (String.append_right_inj stem |>.1 h)

/-- A record needs a name that a table does not have. -/
def lacks (t : NameTable) (r : RecordDecl) : Bool :=
  r.head.name.isNone && (t.get? r.head.id).isNone

/-- The names that a table has for records. -/
def namesOf (t : NameTable) (rs : List RecordDecl) : List (Option String) :=
  rs.map fun r => t.get? r.head.id

theorem Extends.namesOf {t t' : NameTable} (h : t.Extends t') {rs : List RecordDecl}
    {names : List String} (hnames : t.namesOf rs = names.map some) :
    t'.namesOf rs = names.map some := by
  rw [← hnames]
  refine List.map_congr_left fun r hr => ?_
  have hmem : t.get? r.head.id ∈ names.map some := hnames ▸ List.mem_map_of_mem hr
  obtain ⟨name, -, hname⟩ := List.mem_map.1 hmem
  rw [← hname]
  exact h.record _ _ hname.symm

/-! ## Records one after the other -/

/-- A step that gives the next number to a record without a name, and leaves all declarations alone
but those that it touches. -/
structure Numbers (stem : String) (step : Counter → RecordDecl → Counter)
    (touched : RecordDecl → List DeclId) : Prop where
  named : ∀ (c : Counter) r, c.table.lacks r = true → (step c r).next = c.next + 1 ∧
    (step c r).table.get? r.head.id = some (stem ++ toString c.next)
  skipped : ∀ (c : Counter) r, ¬ c.table.lacks r = true → (step c r).next = c.next
  kept : ∀ (c : Counter) r, c.table.Extends (step c r).table
  untouched : ∀ c r id, id ∉ touched r → (step c r).table.get? id = c.table.get? id

namespace Numbers
variable {stem : String} {step : Counter → RecordDecl → Counter}
  {touched : RecordDecl → List DeclId} (h : Numbers stem step touched)
include h

theorem extends_foldl (c : Counter) (rs : List RecordDecl) :
    c.table.Extends (rs.foldl step c).table := by
  induction rs generalizing c with
  | nil => exact .refl _
  | cons r rs ih => exact (h.kept c r).trans (ih _)

theorem filter_lacks {rs : List RecordDecl} {r : RecordDecl}
    (hrs : ∀ x ∈ rs, x.head.id ∉ touched r) (c : Counter) :
    rs.filter (step c r).table.lacks = rs.filter c.table.lacks := by
  refine List.filter_congr fun x hx => ?_
  unfold lacks
  rw [h.untouched c r _ (hrs x hx)]

/-- Records are numbered without gaps, and those that have names consume no number. -/
theorem names {rs : List RecordDecl} (hrs : rs.Pairwise fun r x => x.head.id ∉ touched r)
    (c : Counter) :
    (rs.foldl step c).table.namesOf (rs.filter c.table.lacks) =
      (numbered stem c.next (rs.filter c.table.lacks).length).map some := by
  induction rs generalizing c with
  | nil => rfl
  | cons r rs ih =>
    obtain ⟨hr, hrs⟩ := List.pairwise_cons.1 hrs
    have hrest := ih hrs (step c r)
    rw [h.filter_lacks hr c] at hrest
    rw [List.foldl_cons]
    by_cases hlacks : c.table.lacks r = true
    · obtain ⟨hnext, hname⟩ := h.named c r hlacks
      rw [hnext] at hrest
      rw [List.filter_cons_of_pos hlacks, List.length_cons, numbered_succ]
      exact congrArg₂ List.cons ((h.extends_foldl _ rs).record _ _ hname) hrest
    · rw [h.skipped c r hlacks] at hrest
      rw [List.filter_cons_of_neg hlacks]
      exact hrest

end Numbers

theorem visit_of_lacks {c : Counter} {r : RecordDecl} (h : c.table.lacks r = true) (stem : String) :
    c.visit stem r.toDecl =
      ⟨c.table.name r.head.id (stem ++ toString c.next), c.next + 1⟩ := if_pos h

theorem visit_of_not_lacks {c : Counter} {r : RecordDecl} (h : ¬ c.table.lacks r = true)
    (stem : String) : c.visit stem r.toDecl = c := if_neg h

theorem numbers_visit (stem : String) :
    Numbers stem (fun c r => c.visit stem r.toDecl) (fun r => [r.head.id]) where
  named c r h := by
    have hnone : c.table.get? r.head.id = none :=
      Option.isNone_iff_eq_none.1 (Bool.and_eq_true_iff.1 h).2
    rw [visit_of_lacks h, get?_name_self, hnone, Option.none_or]
    exact ⟨rfl, rfl⟩
  skipped c r h := by rw [visit_of_not_lacks h]
  kept c r := by
    by_cases h : c.table.lacks r = true
    · rw [visit_of_lacks h]
      exact extends_name _ _ _
    · rw [visit_of_not_lacks h]
      exact .refl _
  untouched c r id hid := by
    by_cases h : c.table.lacks r = true
    · rw [visit_of_lacks h]
      exact get?_name_of_ne _ (fun heq => hid (List.mem_singleton.2 heq.symm)) _
    · rw [visit_of_not_lacks h]

/-! ## What is inside a record -/

def visitAll (c : Counter) (rs : List RecordDecl) : Counter :=
  rs.foldl (fun c r => c.visit "_anon" r.toDecl) c

/-- Two counters that give the same names. -/
def Counter.Same (c c' : Counter) : Prop := c.table.records = c'.table.records ∧ c.next = c'.next

theorem Counter.Same.get? {c c' : Counter} (h : c.Same c') (id : DeclId) :
    c.table.get? id = c'.table.get? id := congrArg (List.lookup id) h.1

theorem Counter.Same.visit {c c' : Counter} (h : c.Same c') (stem : String) (d : Decl) :
    (c.visit stem d).Same (c'.visit stem d) := by
  unfold Counter.visit NameTable.name
  rw [h.get?, h.2]
  split
  · split
    · exact ⟨h.1, rfl⟩
    · exact ⟨congrArg (List.cons _) h.1, rfl⟩
  · exact h

/-- The records below a declaration. -/
def below : Decl → List RecordDecl
  | .record _ _ members _ => Decl.insideAll members
  | _ => []

theorem visitAll_inside (c : Counter) (d : Decl) :
    visitAll c d.inside = visitAll (c.visit "_anon" d) (below d) := by
  cases d <;> rfl

mutual

/-- Below a record the records are visited in the order of the document. -/
theorem same_nameInside {c c' : Counter} (h : c.Same c') :
    (d : Decl) → (nameInside c d).Same (visitAll c' (below d))
  | .record head info members _ => by
    obtain ⟨hrecords, hnext⟩ := same_nameMembers h members
    rw [nameInside]
    exact ⟨(records_nameFields _ _ _ _).trans hrecords, hnext⟩
  | .space _ _ | .enumeration _ _ | .function _ _ | .typedef _ _ | .var _ _ | .macroDef _ _ => h

theorem same_nameMembers {c c' : Counter} (h : c.Same c') :
    (ds : List Decl) → (nameMembers c ds).Same (visitAll c' (Decl.insideAll ds))
  | [] => h
  | d :: ds => by
    have hd := same_nameInside (h.visit "_anon" d) d
    rw [← visitAll_inside] at hd
    have hds := same_nameMembers hd ds
    rw [nameMembers, Decl.insideAll]
    unfold visitAll at hds ⊢
    rwa [List.foldl_append]

end

theorem names_nameInside {r : RecordDecl}
    (hids : ((Decl.insideAll r.members).map (·.head.id)).Nodup) (t : NameTable) :
    (nameInside ⟨t, 1⟩ r.toDecl).table.namesOf ((Decl.insideAll r.members).filter t.lacks) =
      (numbered "_anon" 1 ((Decl.insideAll r.members).filter t.lacks).length).map some := by
  have hpairwise := (List.pairwise_map.1 hids).imp fun {r x : RecordDecl}
    (hne : r.head.id ≠ x.head.id) (hx : x.head.id ∈ [r.head.id]) =>
      hne (List.mem_singleton.1 hx).symm
  refine Eq.trans ?_ ((numbers_visit "_anon").names hpairwise ⟨t, 1⟩)
  exact List.map_congr_left fun x _ => (same_nameInside ⟨rfl, rfl⟩ r.toDecl).get? x.head.id

/-! ## Declarations outside records -/

mutual

theorem nameScope_eq (c : Counter) : (d : Decl) → nameScope c d = d.outer.foldl nameTop c
  | .space _ members => nameScopes_eq c members
  | .record _ _ _ _ | .enumeration _ _ | .function _ _ | .typedef _ _ | .var _ _
  | .macroDef _ _ => rfl

theorem nameScopes_eq (c : Counter) :
    (ds : List Decl) → nameScopes c ds = (Decl.outerAll ds).foldl nameTop c
  | [] => rfl
  | d :: ds => by
    rw [nameScopes, Decl.outerAll, List.foldl_append, nameScope_eq c d, nameScopes_eq _ ds]

end

/-- Only records are named there. -/
theorem foldl_nameTop (c : Counter) (ds : List Decl) : ds.foldl nameTop c =
    (ds.filterMap Decl.record?).foldl (fun c r => nameTop c r.toDecl) c := by
  induction ds generalizing c with
  | nil => rfl
  | cons d ds ih =>
    rw [List.foldl_cons, ih]
    cases d <;> rfl

theorem assign_eq_foldl (unit : TranslationUnit) : assign unit =
    (unit.outerRecords.foldl (fun c r => nameTop c r.toDecl) ⟨fromTypedefs unit, 1⟩).table := by
  have hfiles : ∀ (files : List SourceFile) (c : Counter), nameFiles c files =
      (files.flatMap fun file => Decl.outerAll file.decls).foldl nameTop c := by
    intro files
    induction files with
    | nil => exact fun _ => rfl
    | cons file files ih =>
      intro c
      rw [List.flatMap_cons, List.foldl_append, ← nameScopes_eq]
      exact ih _
  rw [assign_eq, hfiles, foldl_nameTop]
  rfl

theorem extends_nameInside (c : Counter) (d : Decl) :
    c.table.Extends (nameInside c d).table :=
  kept_nameInside c (.refl _) d (.of_extends _ _)

theorem numbers_nameTop : Numbers "AnonType_" (fun c r => nameTop c r.toDecl)
    (fun r => r.toDecl.inside.map (·.head.id)) where
  named c r h := by
    obtain ⟨hnext, hname⟩ := (numbers_visit "AnonType_").named c r h
    exact ⟨hnext, (extends_nameInside _ _).record _ _ hname⟩
  skipped c r h := (numbers_visit "AnonType_").skipped c r h
  kept c r := kept_nameTop (.of_extends _ _) c (.refl _)
  untouched c r id hid := by
    refine kept_nameTop (P := fun t => t.get? id = c.table.get? id)
      ⟨fun t ht x hx _ name => ?_, fun t ht _ _ _ _ _ _ => ht⟩ c rfl
    have hne : x.head.id ≠ id := fun heq => hid (List.mem_map.2 ⟨x, hx, heq⟩)
    rw [get?_name_of_ne t hne, ht]

theorem names_nameTop {r : RecordDecl} (hids : (r.toDecl.inside.map (·.head.id)).Nodup)
    (c : Counter) :
    (nameTop c r.toDecl).table.namesOf ((Decl.insideAll r.members).filter c.table.lacks) =
      (numbered "_anon" 1 ((Decl.insideAll r.members).filter c.table.lacks).length).map some := by
  obtain ⟨hr, hids⟩ := List.nodup_cons.1 hids
  have hother : ∀ x ∈ Decl.insideAll r.members, x.head.id ∉ [r.head.id] := fun x hx hmem =>
    hr (List.mem_map.2 ⟨x, hx, List.mem_singleton.1 hmem⟩)
  rw [← (numbers_visit "AnonType_").filter_lacks hother c]
  exact names_nameInside hids (c.visit "AnonType_" r.toDecl).table

/-- Numbers start anew inside each of several records. -/
theorem names_inside {rs : List RecordDecl}
    (hids : ∀ r ∈ rs, (r.toDecl.inside.map (·.head.id)).Nodup)
    (hrs : rs.Pairwise fun r x =>
      ∀ y ∈ x.toDecl.inside, y.head.id ∉ r.toDecl.inside.map (·.head.id))
    (c : Counter) {top : RecordDecl} (htop : top ∈ rs) :
    (rs.foldl (fun c r => nameTop c r.toDecl) c).table.namesOf
        ((Decl.insideAll top.members).filter c.table.lacks) =
      (numbered "_anon" 1
        ((Decl.insideAll top.members).filter c.table.lacks).length).map some := by
  induction rs generalizing c with
  | nil => exact absurd htop List.not_mem_nil
  | cons r rs ih =>
    obtain ⟨hr, hrs⟩ := List.pairwise_cons.1 hrs
    obtain ⟨hself, hids⟩ := List.forall_mem_cons.1 hids
    rcases List.mem_cons.1 htop with rfl | htop
    · exact (numbers_nameTop.extends_foldl _ rs).namesOf (names_nameTop hself c)
    · have hrest := ih hids hrs (nameTop c r.toDecl) htop
      rwa [numbers_nameTop.filter_lacks (fun y hy => hr top htop y (List.mem_cons_of_mem _ hy)) c]
        at hrest

end NameTable

/-! ## The names of a unit -/

namespace TranslationUnit

/-- A record is anonymous, and no typedef names it. -/
def isNumbered (unit : TranslationUnit) (r : RecordDecl) : Bool :=
  r.head.name.isNone && (unit.typedefNames r.head.id).isEmpty

/-- The records of files and namespaces that are numbered, in the order of the document. -/
def numberedOuter (unit : TranslationUnit) : List RecordDecl :=
  unit.outerRecords.filter unit.isNumbered

/-- The records inside a record that are numbered, in the order of the document. -/
def numberedInside (unit : TranslationUnit) (top : RecordDecl) : List RecordDecl :=
  (Decl.insideAll top.members).filter unit.isNumbered

end TranslationUnit

namespace NameTable

section
variable {unit : TranslationUnit} (hids : (unit.walk.map Decl.id).Nodup)
include hids

theorem filter_isNumbered {rs : List RecordDecl} (hrs : ∀ r ∈ rs, r ∈ unit.visited) :
    rs.filter unit.isNumbered = rs.filter (fromTypedefs unit).lacks := by
  refine List.filter_congr fun r hr => ?_
  unfold lacks TranslationUnit.isNumbered
  cases hname : r.head.name with
  | some name => rfl
  | none =>
    have hget : (fromTypedefs unit).get? r.head.id = (unit.typedefNames r.head.id).head? :=
      get?_fromTypedefs hids (TranslationUnit.toDecl_mem_walk (hrs r hr)) hname
    rw [hget]
    cases unit.typedefNames r.head.id <;> rfl

/-- Numbers go on over the records of files and namespaces, and start anew inside each of them. -/
theorem namesOf_assign :
    (assign unit).namesOf unit.numberedOuter =
        (numbered "AnonType_" 1 unit.numberedOuter.length).map some ∧
      ∀ top ∈ unit.outerRecords, (assign unit).namesOf (unit.numberedInside top) =
        (numbered "_anon" 1 (unit.numberedInside top).length).map some := by
  have hmem {r x : RecordDecl} (hr : r ∈ unit.outerRecords) (hx : x ∈ r.toDecl.inside) :
      x ∈ unit.visited := by
    rw [TranslationUnit.visited_eq]
    exact List.mem_flatMap.2 ⟨r, hr, hx⟩
  have hvisited := TranslationUnit.nodup_visited hids
  rw [TranslationUnit.visited_eq, List.map_flatMap, List.nodup_flatMap] at hvisited
  obtain ⟨hnodup, hdisjoint⟩ := hvisited
  have hpairwise : unit.outerRecords.Pairwise fun r x =>
      ∀ y ∈ x.toDecl.inside, y.head.id ∉ r.toDecl.inside.map (·.head.id) :=
    hdisjoint.imp fun (h : List.Disjoint _ _) y hy hmem => h hmem (List.mem_map.2 ⟨y, hy, rfl⟩)
  rw [assign_eq_foldl]
  refine ⟨?_, fun top htop => ?_⟩
  · unfold TranslationUnit.numberedOuter
    rw [filter_isNumbered hids fun r hr => hmem hr List.mem_cons_self]
    exact numbers_nameTop.names (hpairwise.imp fun h => h _ List.mem_cons_self) ⟨_, 1⟩
  · unfold TranslationUnit.numberedInside
    rw [filter_isNumbered hids fun r hr => hmem htop (List.mem_cons_of_mem _ hr)]
    exact names_inside hnodup hpairwise ⟨_, 1⟩ htop

/-- The first name that typedefs have for an unnamed declaration counts. -/
theorem get?_assign_of_typedef {d : Decl} (hd : d ∈ unit.walk) (hname : d.head.name = none)
    (htypedefs : unit.typedefNames d.id ≠ []) :
    (assign unit).get? d.id = (unit.typedefNames d.id).head? := by
  have hhead := List.head?_eq_some_head htypedefs
  rw [hhead]
  exact (extends_assign unit).record _ _ ((get?_fromTypedefs hids hd hname).trans hhead)

/-- A declaration has a name in the table if it is an anonymous record or if a typedef names it. -/
theorem isSome_assign_iff (hplain : ∀ r : RecordDecl, r.toDecl ∈ unit.walk → r.IsPlain)
    (id : DeclId) : ((assign unit).get? id).isSome = true ↔ ∃ d ∈ unit.walk, d.id = id ∧
      d.head.name = none ∧ (d.isRecord = true ∨ unit.typedefNames id ≠ []) := by
  constructor
  · intro h
    by_cases hvisited : ∃ r ∈ unit.visited, r.head.name = none ∧ r.head.id = id
    · obtain ⟨r, hr, hname, hid⟩ := hvisited
      exact ⟨r.toDecl, TranslationUnit.toDecl_mem_walk hr, hid, hname, Or.inl rfl⟩
    · rw [get?_assign fun r hr hname hid => hvisited ⟨r, hr, hname, hid⟩] at h
      obtain ⟨d, hd, hname, rfl⟩ := isUnnamed_of_fromTypedefs h
      rw [get?_fromTypedefs hids hd hname] at h
      refine ⟨d, hd, rfl, hname, Or.inr fun hnil => ?_⟩
      rw [hnil] at h
      exact nomatch h
  · rintro ⟨d, hd, rfl, hname, hrecord | htypedefs⟩
    · cases d with
      | record head info members methods =>
        have hvisited := TranslationUnit.mem_visited (r := ⟨head, info, members, methods⟩) hplain hd
        exact (named_assign hvisited).record hname
      | _ => exact nomatch hrecord
    · rw [get?_assign_of_typedef hids hd hname htypedefs, List.head?_eq_some_head htypedefs]
      rfl

/-- Every anonymous record gets a name, and of the other unnamed declarations those that a typedef
has a name for.  The first name from a typedef counts; the other anonymous records of files and
namespaces are numbered without gaps, and so are those inside each of their records. -/
theorem assign_names (hplain : ∀ r : RecordDecl, r.toDecl ∈ unit.walk → r.IsPlain) :
    (∀ id, ((assign unit).get? id).isSome = true ↔ ∃ d ∈ unit.walk, d.id = id ∧
      d.head.name = none ∧ (d.isRecord = true ∨ unit.typedefNames id ≠ [])) ∧
    (∀ d ∈ unit.walk, d.head.name = none → unit.typedefNames d.id ≠ [] →
      (assign unit).get? d.id = (unit.typedefNames d.id).head?) ∧
    (assign unit).namesOf unit.numberedOuter =
      (numbered "AnonType_" 1 unit.numberedOuter.length).map some ∧
    (∀ top ∈ unit.outerRecords,
      (assign unit).namesOf (unit.numberedInside top) =
        (numbered "_anon" 1 (unit.numberedInside top).length).map some ∧
      ((assign unit).namesOf (unit.numberedInside top)).Nodup) ∧
    ∀ d ∈ unit.walk, d.isRecord = true → d.head.name = none → ∀ ref : DeclRef, ref.id = d.id →
      (assign unit).declName d.head = (assign unit).refName ref := by
  obtain ⟨houter, hinside⟩ := namesOf_assign hids
  have hsome := isSome_assign_iff hids hplain
  refine ⟨hsome, fun d hd hname htypedefs => get?_assign_of_typedef hids hd hname htypedefs, houter,
    fun top htop => ⟨hinside top htop, ?_⟩, fun d hd hrecord hname ref href => ?_⟩
  · rw [hinside top htop]
    exact (nodup_numbered _ _ _).map fun a b h => Option.some.inj h
  · have hid := (hsome d.id).2 ⟨d, hd, rfl, hname, Or.inl hrecord⟩
    obtain ⟨name, hgiven⟩ := Option.isSome_iff_exists.1 hid
    unfold declName refName
    rw [href, show d.head.id = d.id from rfl, hgiven]
    rfl

end

/-- An anonymous record in an anonymous one, with a typedef behind it, and two more of them. -/
def innerRecord : RecordDecl := ⟨{ id := 3 }, { tag := .struct }, [], []⟩

def siblingRecord : RecordDecl := ⟨{ id := 4 }, { tag := .union }, [], []⟩

def middleRecord : RecordDecl := ⟨{ id := 2 }, { tag := .struct }, [innerRecord.toDecl], []⟩

def outerRecord : RecordDecl :=
  ⟨{ id := 1 }, { tag := .struct }, [middleRecord.toDecl, siblingRecord.toDecl], []⟩

def lastRecord : RecordDecl := ⟨{ id := 6 }, { tag := .struct }, [], []⟩

def layeredUnit : TranslationUnit :=
  ⟨[⟨"layers.h", [outerRecord.toDecl,
    .typedef { id := 5, name := some "Inner" } (.record ⟨3, ""⟩), lastRecord.toDecl]⟩]⟩

theorem layeredUnit_names :
    (layeredUnit.walk.map Decl.id).Nodup ∧
    (∀ r : RecordDecl, r.toDecl ∈ layeredUnit.walk → r.IsPlain) ∧
    layeredUnit.numberedOuter = [outerRecord, lastRecord] ∧
    (assign layeredUnit).namesOf [outerRecord, lastRecord] =
      [some "AnonType_1", some "AnonType_2"] ∧
    layeredUnit.numberedInside outerRecord = [middleRecord, siblingRecord] ∧
    (assign layeredUnit).namesOf [middleRecord, siblingRecord] = [some "_anon1", some "_anon2"] ∧
    (assign layeredUnit).get? innerRecord.head.id = some "Inner" := by
  have hids : (layeredUnit.walk.map Decl.id).Nodup := by decide
  have hplain : ∀ r : RecordDecl, r.toDecl ∈ layeredUnit.walk → r.IsPlain := by
    intro r hr
    have hr : r.toDecl ∈ [outerRecord, middleRecord, innerRecord, siblingRecord].map
        RecordDecl.toDecl ++ [.typedef _ _, lastRecord.toDecl] := hr
    rw [List.mem_append, List.mem_map_of_injective RecordDecl.toDecl_injective] at hr
    simp only [List.mem_cons, List.not_mem_nil, or_false,
      RecordDecl.toDecl_injective.eq_iff] at hr
    rcases hr with (rfl | rfl | rfl | rfl) | h | rfl
    case inr.inl => exact nomatch h
    all_goals exact ⟨by decide, by decide⟩
  obtain ⟨-, htypedef, houter, hinside, -⟩ := assign_names hids hplain
  refine ⟨hids, hplain, rfl, houter, rfl, (hinside outerRecord List.mem_cons_self).1, ?_⟩
  exact htypedef innerRecord.toDecl (.tail _ (.tail _ (.head _))) rfl (by decide)

/-- A name goes to a declaration that is no record. -/
def colorUnit : TranslationUnit :=
  ⟨[⟨"color.h", [.enumeration { id := 1 } ⟨.builtin .int, []⟩,
    .typedef { id := 2, name := some "Color" } (.record ⟨1, ""⟩)]⟩]⟩

theorem colorUnit_named :
    (colorUnit.walk.map Decl.id).Nodup ∧
    (∀ d ∈ colorUnit.walk, d.head.name ≠ some "") ∧
    (∀ d ∈ colorUnit.walk, d.isRecord = false) ∧
    (assign colorUnit).get? 1 = some "Color" := by
  decide

end NameTable
end DBindings
