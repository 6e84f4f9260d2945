import DBindings.Proofs.Naming.Numbering

/-!
# Names to declare and to refer to

A reference carries the number and the own name of a declaration.  The table is asked in the same
way for a declaration and for a reference to it, and it leaves no record without a name.

* `NameTable.refName_eq_declName`   a declaration is referred to by the name that it is declared
                                    with;
* `TranslationUnit.WellNamed`       the names that a unit has are not empty;
* `NameTable.declName_ne_empty`     in such a unit every record is declared with a name.
-/

namespace DBindings

/-- The reference carries the number and the own name of a declaration. -/
structure DeclRef.RefersTo (ref : DeclRef) (head : DeclHead) : Prop where
  id : ref.id = head.id
  name : ref.name = head.name.getD ""

namespace NameTable

theorem refName_eq_declName (names : NameTable) {ref : DeclRef} {head : DeclHead}
    (h : ref.RefersTo head) : names.refName ref = names.declName head := by
  unfold refName declName
  rw [h.id, h.name]

end NameTable

/-- Numbers are used once, records are plain, and names are not empty. -/
structure TranslationUnit.WellNamed (unit : TranslationUnit) : Prop where
  ids : (unit.walk.map Decl.id).Nodup
  plain : ∀ r : RecordDecl, r.toDecl ∈ unit.walk → r.IsPlain
  names : ∀ d ∈ unit.walk, d.head.name ≠ some ""
  typedefNames : ∀ r : RecordDecl, r.toDecl ∈ unit.walk → r.info.typedefName ≠ some ""

namespace TranslationUnit.WellNamed
variable {unit : TranslationUnit} (h : unit.WellNamed)
include h

theorem typedefName?_ne_empty {d : Decl} (hd : d ∈ unit.walk) (id : DeclId) :
    d.typedefName? id ≠ some "" := by
  unfold Decl.typedefName?
  split
  · split
    · split
      · exact h.names _ hd
      · exact (Option.some_ne_none "").symm
    · exact (Option.some_ne_none "").symm
  · split
    · exact h.typedefNames ⟨_, _, _, _⟩ hd
    · exact (Option.some_ne_none "").symm
  · exact (Option.some_ne_none "").symm

theorem ne_empty_of_mem_typedefNames {id : DeclId} {name : String}
    (hname : name ∈ unit.typedefNames id) : name ≠ "" := by
  rintro rfl
  obtain ⟨d, hd, hname⟩ := List.mem_filterMap.1 hname
  exact h.typedefName?_ne_empty hd id hname

end TranslationUnit.WellNamed

namespace NameTable

theorem ne_empty_of_mem_numbered {stem name : String} {first count : Nat} (hstem : stem ≠ "")
    (h : name ∈ numbered stem first count) : name ≠ "" := by
  obtain ⟨n, -, rfl⟩ := List.mem_map.1 h
  exact fun hempty => hstem (String.append_eq_empty_iff.1 hempty).1

theorem get?_ne_empty_of_namesOf {t : NameTable} {rs : List RecordDecl} {names : List String}
    (hnames : t.namesOf rs = names.map some) (hnonempty : ∀ name ∈ names, name ≠ "")
    {r : RecordDecl} (hr : r ∈ rs) : t.get? r.head.id ≠ some "" := by
  intro hget
  have hmem : some "" ∈ names.map some := by
    rw [← hnames, ← hget]
    exact List.mem_map.2 ⟨r, hr, rfl⟩
  exact hnonempty "" (List.mem_map_of_injective (fun _ _ => Option.some.inj) |>.1 hmem) rfl

variable {unit : TranslationUnit} (h : unit.WellNamed)
include h

theorem get?_ne_empty {r : RecordDecl} (hr : r.toDecl ∈ unit.walk) (hname : r.head.name = none) :
    (assign unit).get? r.head.id ≠ some "" := by
  by_cases htypedefs : unit.typedefNames r.head.id = []
  · have hnumbered : unit.isNumbered r = true := by
      unfold TranslationUnit.isNumbered
      rw [hname, htypedefs]
      rfl
    obtain ⟨houter, hinside⟩ := namesOf_assign h.ids
    have hvisited : r ∈ unit.visited := TranslationUnit.mem_visited h.plain hr
    rw [TranslationUnit.visited_eq] at hvisited
    obtain ⟨top, htop, hvisited⟩ := List.mem_flatMap.1 hvisited
    rcases List.mem_cons.1 hvisited with rfl | hvisited
    · refine get?_ne_empty_of_namesOf houter (fun _ => ne_empty_of_mem_numbered (by decide)) ?_
      exact List.mem_filter.2 ⟨htop, hnumbered⟩
    · refine get?_ne_empty_of_namesOf (hinside top htop)
        (fun _ => ne_empty_of_mem_numbered (by decide)) ?_
      exact List.mem_filter.2 ⟨hvisited, hnumbered⟩
  · intro hempty
    have hget := get?_assign_of_typedef h.ids hr hname htypedefs
    exact h.ne_empty_of_mem_typedefNames (List.mem_of_head? (hget.symm.trans hempty)) rfl

/-- Every record is declared with a name. -/
theorem declName_ne_empty {r : RecordDecl} (hr : r.toDecl ∈ unit.walk) :
    (assign unit).declName r.head ≠ "" := by
  unfold declName
  cases hget : (assign unit).get? r.head.id with
  | some name =>
    obtain ⟨d, hd, hid, hunnamed, -⟩ :=
      (isSome_assign_iff h.ids h.plain r.head.id).1 (Option.isSome_of_eq_some hget)
    have heq : d = r.toDecl := TranslationUnit.eq_of_id h.ids hd hr hid
    rw [heq] at hunnamed
    rintro rfl
    exact get?_ne_empty h hr hunnamed hget
  | none =>
    cases hname : r.head.name with
    | some name =>
      rintro rfl
      exact h.names _ hr hname
    | none =>
      have hsome := (isSome_assign_iff h.ids h.plain r.head.id).2 ⟨_, hr, rfl, hname, Or.inl rfl⟩
      rw [hget] at hsome
      exact nomatch hsome

end NameTable

end DBindings
