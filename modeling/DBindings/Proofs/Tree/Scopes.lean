import DBindings.Proofs.Tree.Walk
import Mathlib.Data.List.Nodup

/-!
# Where declarations stand

A declaration of a unit stands in a file, or it is a child of exactly one other declaration: a
member of a namespace or record, or a method of a record.

* `Decl.children`          what stands directly inside a declaration;
* `Decl.walkAll_perm`      a walk meets the roots, and the children of what it meets;
* `TranslationUnit.outer`  the declarations of files and namespaces;
* `TranslationUnit.not_mem_children_of_outer`  these are no members of a record;
* `TranslationUnit.nodup_children`  different declarations have different children;
* `DeclIndex.get?_of_mem`  a declaration is found by its number.
-/

namespace DBindings

theorem RecordDecl.toDecl_injective : Function.Injective RecordDecl.toDecl := by
  rintro ⟨head, info, members, methods⟩ ⟨head', info', members', methods'⟩ h
  obtain ⟨rfl, rfl, rfl, rfl⟩ := Decl.record.inj h
  rfl

namespace Decl

/-- What stands directly inside a declaration. -/
def children : Decl → List Decl
  | space _ members => members
  | record _ _ members methods => members ++ methods
  | _ => []

theorem walkAll_append (a b : List Decl) : walkAll (a ++ b) = walkAll a ++ walkAll b := by
  induction a with
  | nil => rfl
  | cons d a ih => rw [List.cons_append, walkAll, walkAll, ih, List.append_assoc]

mutual

/-- What a walk meets is the declaration itself and the children of what it meets. -/
theorem walk_perm : (d : Decl) → d.walk.Perm (d :: d.walk.flatMap children)
  | space head members => by
    have h := walkAll_perm members
    exact h.cons (.space head members)
  | record head info members methods => by
    have hmembers := walkAll_perm members
    have hmethods := walkAll_perm methods
    have h : (walkAll members ++ walkAll methods).Perm
        ((members ++ methods) ++ (walkAll members ++ walkAll methods).flatMap children) := by
      rw [List.flatMap_append, List.append_assoc]
      refine (hmembers.append hmethods).trans ?_
      rw [List.append_assoc]
      exact (List.perm_append_comm_assoc _ _ _).append_left members
    exact h.cons (.record head info members methods)
  | enumeration _ _ | function _ _ | typedef _ _ | var _ _ | macroDef _ _ => List.Perm.refl _

theorem walkAll_perm : (ds : List Decl) → (walkAll ds).Perm (ds ++ (walkAll ds).flatMap children)
  | [] => List.Perm.refl _
  | d :: ds => by
    have h := (walk_perm d).append (walkAll_perm ds)
    rw [walkAll, List.flatMap_append]
    refine h.trans ?_
    exact (List.perm_append_comm_assoc _ _ _).cons d

end

mutual

/-- The declaration, or those inside it if it is a namespace. -/
def outer : Decl → List Decl
  | space _ members => outerAll members
  | d => [d]

/-- The declarations of a list that stand outside records. -/
def outerAll : List Decl → List Decl
  | [] => []
  | d :: ds => outer d ++ outerAll ds

end

mutual

theorem outer_cases {x : Decl} : (d : Decl) → x ∈ d.outer →
    x = d ∨ ∃ head members, .space head members ∈ d.walk ∧ x ∈ members
  | space head members, h => by
    rcases outerAll_cases members h with h | ⟨head', members', hspace, hx⟩
    · exact Or.inr ⟨head, members, mem_walk_self _, h⟩
    · exact Or.inr ⟨head', members', List.mem_cons_of_mem _ hspace, hx⟩
  | record _ _ _ _, h | enumeration _ _, h | function _ _, h | typedef _ _, h | var _ _, h
  | macroDef _ _, h => Or.inl (List.mem_singleton.1 h)

theorem outerAll_cases {x : Decl} : (ds : List Decl) → x ∈ outerAll ds →
    x ∈ ds ∨ ∃ head members, .space head members ∈ walkAll ds ∧ x ∈ members
  | [], h => absurd h List.not_mem_nil
  | d :: ds, h => by
    rw [walkAll]
    rcases List.mem_append.1 h with h | h
    · rcases outer_cases d h with rfl | ⟨head, members, hspace, hx⟩
      · exact Or.inl List.mem_cons_self
      · exact Or.inr ⟨head, members, List.mem_append_left _ hspace, hx⟩
    · rcases outerAll_cases ds h with h | ⟨head, members, hspace, hx⟩
      · exact Or.inl (List.mem_cons_of_mem _ h)
      · exact Or.inr ⟨head, members, List.mem_append_right _ hspace, hx⟩

end

end Decl

namespace TranslationUnit
variable {unit : TranslationUnit}

def roots (unit : TranslationUnit) : List Decl := unit.files.flatMap (·.decls)

def outer (unit : TranslationUnit) : List Decl :=
  unit.files.flatMap fun file => Decl.outerAll file.decls

theorem walk_eq_walkAll (unit : TranslationUnit) : unit.walk = Decl.walkAll unit.roots := by
  unfold walk roots
  induction unit.files with
  | nil => rfl
  | cons file files ih => rw [List.flatMap_cons, List.flatMap_cons, Decl.walkAll_append, ih]

theorem walk_perm (unit : TranslationUnit) :
    unit.walk.Perm (unit.roots ++ unit.walk.flatMap Decl.children) := by
  rw [walk_eq_walkAll]
  exact Decl.walkAll_perm unit.roots

theorem outer_cases {x : Decl} (h : x ∈ unit.outer) :
    x ∈ unit.roots ∨ ∃ head members, .space head members ∈ unit.walk ∧ x ∈ members := by
  obtain ⟨file, hfile, hx⟩ := List.mem_flatMap.1 h
  rcases Decl.outerAll_cases file.decls hx with hx | ⟨head, members, hspace, hx⟩
  · exact Or.inl (List.mem_flatMap.2 ⟨file, hfile, hx⟩)
  · exact Or.inr ⟨head, members, mem_walk.2 ⟨file, hfile, hspace⟩, hx⟩

theorem mem_walk_of_outer {x : Decl} (h : x ∈ unit.outer) : x ∈ unit.walk := by
  rw [(walk_perm unit).mem_iff, List.mem_append]
  rcases outer_cases h with h | ⟨head, members, hspace, hx⟩
  · exact Or.inl h
  · exact Or.inr (List.mem_flatMap.2 ⟨_, hspace, hx⟩)

section
variable (hids : (unit.walk.map Decl.id).Nodup)
include hids

theorem eq_of_id {d e : Decl} (hd : d ∈ unit.walk) (he : e ∈ unit.walk) (h : d.id = e.id) : d = e :=
  List.inj_on_of_nodup_map hids hd he h

theorem nodup_roots_children :
    ((unit.roots ++ unit.walk.flatMap Decl.children).map Decl.id).Nodup :=
  (unit.walk_perm.map Decl.id).nodup_iff.1 hids

theorem nodup_children : ((unit.walk.flatMap Decl.children).map Decl.id).Nodup := by
  have h := nodup_roots_children hids
  rw [List.map_append] at h
  exact (List.nodup_append.1 h).2.1

theorem eq_of_mem_children {x d e : Decl} (hd : d ∈ unit.walk) (he : e ∈ unit.walk)
    (hxd : x ∈ d.children) (hxe : x ∈ e.children) : d = e := by
  have h := List.nodup_flatMap.1 (nodup_children hids).of_map
  by_contra hne
  have hwalk := hids.of_map
  obtain ⟨i, hi, rfl⟩ := List.getElem_of_mem hd
  obtain ⟨j, hj, rfl⟩ := List.getElem_of_mem he
  have hpair := List.pairwise_iff_getElem.1 h.2
  rcases Nat.lt_trichotomy i j with hij | rfl | hij
  · exact (hpair i j hi hj hij) hxd hxe
  · exact hne rfl
  · exact (hpair j i hj hi hij) hxe hxd

theorem not_mem_children_of_outer {x : Decl} (hx : x ∈ unit.outer) {r : RecordDecl}
    (hr : r.toDecl ∈ unit.walk) : x ∉ r.toDecl.children := by
  intro hmem
  rcases outer_cases hx with hroot | ⟨head, members, hspace, hxspace⟩
  · have h := (nodup_roots_children hids).of_map
    exact (List.nodup_append.1 h).2.2 x hroot x (List.mem_flatMap.2 ⟨_, hr, hmem⟩) rfl
  · have h : (.space head members : Decl) = r.toDecl :=
      eq_of_mem_children hids hspace hr hxspace hmem
    exact nomatch h

end

end TranslationUnit

/-- Where every number is used once, a declaration is found by its number. -/
theorem DeclIndex.get?_of_mem {unit : TranslationUnit} (hids : (unit.walk.map Decl.id).Nodup)
    {d : Decl} (hd : d ∈ unit.walk) : (ofUnit unit).get? d.id = some d := by
  cases h : (ofUnit unit).get? d.id with
  | none => exact absurd (List.find?_eq_none.1 h d hd) (by simp)
  | some e =>
    obtain ⟨he, hid⟩ := mem_of_get? h
    rw [TranslationUnit.eq_of_id hids he hd hid]

end DBindings
