import DBindings.Proofs.Naming.Visited
import DBindings.Proofs.Tree.Scopes

/-!
# Names from typedefs

* `TranslationUnit.typedefNames`   the names that typedefs have for a declaration, in the order of
                                   the document;
* `NameTable.get?_fromTypedefs`    an unnamed declaration takes the first of them.
-/

namespace DBindings

/-- The name that a declaration has for the declaration with a number: that of a typedef for the
record below it, or that which a record carries from its typedef. -/
def Decl.typedefName? (id : DeclId) : Decl → Option String
  | typedef head underlying =>
    match underlying.desugar with
    | .record ref => if ref.id = id then head.name else none
    | _ => none
  | record head info _ _ => if head.id = id then info.typedefName else none
  | _ => none

/-- The names that typedefs have for a declaration. -/
def TranslationUnit.typedefNames (unit : TranslationUnit) (id : DeclId) : List String :=
  unit.walk.filterMap (Decl.typedefName? id)

namespace NameTable

theorem get?_name_self (t : NameTable) (id : DeclId) (name : String) :
    (t.name id name).get? id = (t.get? id).or (some name) := by
  rw [get?_name, if_pos rfl]
  cases t.get? id <;> rfl

theorem get?_name_of_ne (t : NameTable) {id x : DeclId} (h : id ≠ x) (name : String) :
    (t.name id name).get? x = t.get? x := by
  rw [get?_name, if_neg (Ne.symm h)]

section
variable {unit : TranslationUnit} (hids : (unit.walk.map Decl.id).Nodup)
include hids

/-- A declaration has at most one name for an unnamed one, which gets it if it has none. -/
theorem get?_nameByTypedef {d : Decl} (hd : d ∈ unit.walk) (hname : d.head.name = none)
    {x : Decl} (hx : x ∈ unit.walk) (t : NameTable) :
    (nameByTypedef (.ofUnit unit) t x).get? d.id = (t.get? d.id).or (x.typedefName? d.id) := by
  have hget := DeclIndex.get?_of_mem hids hd
  cases x with
  | typedef head underlying =>
    unfold nameByTypedef Decl.typedefName?
    dsimp only
    cases underlying.desugar with
    | record ref =>
      cases head.name with
      | none => simp
      | some name =>
        dsimp only
        by_cases hid : ref.id = d.id
        · rw [hid, hget]
          simp [hname, get?_name_self]
        · rw [if_neg hid, Option.or_none]
          split
          · split
            · exact get?_name_of_ne t hid name
            · rfl
          · rfl
    | _ => cases head.name <;> simp
  | record head info members methods =>
    unfold nameByTypedef Decl.typedefName?
    dsimp only
    by_cases hid : head.id = d.id
    · have heq : Decl.record head info members methods = d :=
        TranslationUnit.eq_of_id hids hx hd hid
      have hhead : head.name = none := (congrArg (·.head.name) heq).trans hname
      rw [hhead, hid, if_pos rfl]
      cases info.typedefName with
      | none => simp
      | some name => exact get?_name_self t d.id name
    · rw [if_neg hid, Option.or_none]
      split
      · exact get?_name_of_ne t hid _
      · rfl
  | _ => simp [nameByTypedef, Decl.typedefName?]

/-- An unnamed declaration takes the first name that typedefs have for it. -/
theorem get?_fromTypedefs {d : Decl} (hd : d ∈ unit.walk) (hname : d.head.name = none) :
    (fromTypedefs unit).get? d.id = (unit.typedefNames d.id).head? := by
  have hfold : ∀ (ds : List Decl) (t : NameTable), (∀ x ∈ ds, x ∈ unit.walk) →
      (ds.foldl (nameByTypedef (.ofUnit unit)) t).get? d.id =
        (t.get? d.id).or (ds.filterMap (Decl.typedefName? d.id)).head? := by
    intro ds
    induction ds with
    | nil => exact fun t _ => (Option.or_none).symm
    | cons x ds ih =>
      intro t hds
      obtain ⟨hx, hds⟩ := List.forall_mem_cons.1 hds
      rw [List.foldl_cons, ih _ hds, get?_nameByTypedef hids hd hname hx, Option.or_assoc,
        List.filterMap_cons]
      cases x.typedefName? d.id <;> simp
  exact hfold unit.walk {} fun _ hx => hx

end

/-- A number is that of an unnamed declaration of a unit. -/
def IsUnnamed (unit : TranslationUnit) (id : DeclId) : Prop :=
  ∃ d ∈ unit.walk, d.head.name = none ∧ d.id = id

theorem isUnnamed_of_name {unit : TranslationUnit} {t : NameTable} {id : DeclId} {name : String}
    (hid : IsUnnamed unit id) (ht : ∀ x, (t.get? x).isSome = true → IsUnnamed unit x) (x : DeclId)
    (h : ((t.name id name).get? x).isSome = true) : IsUnnamed unit x := by
  rw [get?_name] at h
  split at h
  · next hx => exact hx ▸ hid
  · exact ht x h

theorem isUnnamed_of_nameByTypedef {unit : TranslationUnit} {t : NameTable} {d : Decl}
    (hd : d ∈ unit.walk) (ht : ∀ x, (t.get? x).isSome = true → IsUnnamed unit x) (x : DeclId)
    (h : ((nameByTypedef (.ofUnit unit) t d).get? x).isSome = true) : IsUnnamed unit x := by
  unfold nameByTypedef at h
  split at h
  · split at h
    · split at h
      · next target htarget =>
        split at h
        · next hname =>
          obtain ⟨hmem, hid⟩ := DeclIndex.mem_of_get? htarget
          exact isUnnamed_of_name ⟨target, hmem, Option.isNone_iff_eq_none.1 hname, hid⟩ ht x h
        · exact ht x h
      · exact ht x h
    · exact ht x h
  · split at h
    · next hname _ => exact isUnnamed_of_name ⟨_, hd, hname, rfl⟩ ht x h
    · exact ht x h
  · exact ht x h

theorem isUnnamed_of_fromTypedefs {unit : TranslationUnit} {id : DeclId}
    (h : ((fromTypedefs unit).get? id).isSome = true) : IsUnnamed unit id := by
  have hfold : ∀ (ds : List Decl) (t : NameTable), (∀ x ∈ ds, x ∈ unit.walk) →
      (∀ x, (t.get? x).isSome = true → IsUnnamed unit x) →
        ∀ x, ((ds.foldl (nameByTypedef (.ofUnit unit)) t).get? x).isSome = true →
          IsUnnamed unit x := by
    intro ds
    induction ds with
    | nil => exact fun t _ ht => ht
    | cons d ds ih =>
      intro t hds ht
      obtain ⟨hd, hds⟩ := List.forall_mem_cons.1 hds
      exact ih _ hds (isUnnamed_of_nameByTypedef hd ht)
  exact hfold unit.walk {} (fun _ hx => hx) (fun x hx => nomatch hx) id h

end NameTable

end DBindings
