import DBindings.Naming.Index
import Mathlib.Data.List.Basic

/-!
# Declarations inside declarations

* `Decl.mem_walk_self`     a declaration is part of its own walk;
* `Decl.mem_walkAll_trans`   what is inside a declaration of a list is inside the list;
* `DeclIndex.toDecl_mem`   a record that is found by its number is one of the unit.
-/

namespace DBindings

def RecordDecl.toDecl (r : RecordDecl) : Decl := .record r.head r.info r.members r.methods

namespace Decl

theorem record?_eq_some {d : Decl} {r : RecordDecl} (h : d.record? = some r) : d = r.toDecl := by
  cases d with
  | record head info members methods =>
    rw [← Option.some.inj h]
    rfl
  | _ => exact absurd h (by simp [record?])

theorem mem_walk_self (d : Decl) : d ∈ d.walk := by
  cases d <;> exact List.mem_cons_self

theorem mem_walkAll {d : Decl} {ds : List Decl} :
    d ∈ walkAll ds ↔ ∃ e ∈ ds, d ∈ e.walk := by
  induction ds with
  | nil => exact ⟨fun h => absurd h List.not_mem_nil, fun ⟨_, h, _⟩ => absurd h List.not_mem_nil⟩
  | cons x ds ih =>
    rw [walkAll, List.mem_append, ih]
    constructor
    · rintro (h | ⟨e, he, h⟩)
      · exact ⟨x, List.mem_cons_self, h⟩
      · exact ⟨e, List.mem_cons_of_mem _ he, h⟩
    · rintro ⟨e, he, h⟩
      rcases List.mem_cons.1 he with rfl | he
      · exact Or.inl h
      · exact Or.inr ⟨e, he, h⟩

theorem mem_walkAll_of_mem {d : Decl} {ds : List Decl} (h : d ∈ ds) : d ∈ walkAll ds :=
  mem_walkAll.2 ⟨d, h, mem_walk_self d⟩

mutual

theorem mem_walk_trans {x e : Decl} (hx : x ∈ e.walk) : (d : Decl) → e ∈ d.walk → x ∈ d.walk
  | space head members, he => by
    rw [walk] at he ⊢
    rcases List.mem_cons.1 he with rfl | he
    · rwa [walk] at hx
    · exact List.mem_cons_of_mem _ (mem_walkAll_trans hx members he)
  | record head info members methods, he => by
    rw [walk] at he ⊢
    rcases List.mem_cons.1 he with rfl | he
    · rwa [walk] at hx
    · refine List.mem_cons_of_mem _ (List.mem_append.2 ?_)
      rcases List.mem_append.1 he with he | he
      · exact Or.inl (mem_walkAll_trans hx members he)
      · exact Or.inr (mem_walkAll_trans hx methods he)
  | enumeration _ _, he | function _ _, he | typedef _ _, he | var _ _, he | macroDef _ _, he => by
    rw [walk] at he
    rwa [List.mem_singleton.1 he] at hx

theorem mem_walkAll_trans {x e : Decl} (hx : x ∈ e.walk) :
    (ds : List Decl) → e ∈ walkAll ds → x ∈ walkAll ds
  | [], he => absurd he List.not_mem_nil
  | d :: ds, he => by
    rw [walkAll, List.mem_append] at he ⊢
    rcases he with he | he
    · exact Or.inl (mem_walk_trans hx d he)
    · exact Or.inr (mem_walkAll_trans hx ds he)

end

theorem mem_walk_members {r : RecordDecl} {d : Decl} (h : d ∈ r.members) : d ∈ r.toDecl.walk :=
  List.mem_cons_of_mem _ (List.mem_append_left _ (mem_walkAll_of_mem h))

end Decl

namespace TranslationUnit

theorem mem_walk {unit : TranslationUnit} {d : Decl} :
    d ∈ unit.walk ↔ ∃ file ∈ unit.files, d ∈ Decl.walkAll file.decls := List.mem_flatMap

theorem mem_walk_trans {unit : TranslationUnit} {x e : Decl} (hx : x ∈ e.walk)
    (he : e ∈ unit.walk) : x ∈ unit.walk := by
  obtain ⟨file, hfile, he⟩ := mem_walk.1 he
  exact mem_walk.2 ⟨file, hfile, Decl.mem_walkAll_trans hx file.decls he⟩

end TranslationUnit

namespace DeclIndex

theorem mem_of_get? {index : DeclIndex} {id : DeclId} {d : Decl} (h : index.get? id = some d) :
    d ∈ index.decls ∧ d.id = id :=
  ⟨List.mem_of_find?_eq_some h, by simpa using List.find?_some h⟩

theorem toDecl_mem {index : DeclIndex} {id : DeclId} {r : RecordDecl}
    (h : index.record? id = some r) : r.toDecl ∈ index.decls := by
  obtain ⟨d, hd, hr⟩ := Option.bind_eq_some_iff.1 h
  rw [← Decl.record?_eq_some hr]
  exact (mem_of_get? hd).1

end DeclIndex

end DBindings
