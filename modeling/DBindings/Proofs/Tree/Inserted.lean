import DBindings.Proofs.Naming.Records
import Mathlib.Data.List.Forall2

/-!
# Declarations put into a unit

* `Inserts`                  one list is another one with elements put in;
* `Inserts.foldl`            two folds over such lists side by side;
* `TranslationUnit.Inserted`  one unit is another one with declarations put into its files;
* `TranslationUnit.get?_inserts`   what is found by another number than theirs stays.
-/

namespace DBindings

/-- The second list is the first one with elements put in that have a property. -/
inductive Inserts {α : Type} (P : α → Prop) : List α → List α → Prop where
  | nil : Inserts P [] []
  | keep (x : α) {l l' : List α} : Inserts P l l' → Inserts P (x :: l) (x :: l')
  | insert {x : α} {l l' : List α} (hx : P x) : Inserts P l l' → Inserts P l (x :: l')

namespace Inserts

section
variable {α β : Type} {P : α → Prop} {Q : β → Prop} {l l' k k' : List α}

theorem refl : (l : List α) → Inserts P l l
  | [] => .nil
  | x :: l => .keep x (refl l)

theorem of_forall : (l : List α) → (∀ x ∈ l, P x) → Inserts P [] l
  | [], _ => .nil
  | _ :: l, h => .insert (h _ List.mem_cons_self)
      (of_forall l fun x hx => h x (List.mem_cons_of_mem _ hx))

theorem mono {P' : α → Prop} (h : Inserts P l l') (hP : ∀ x, P x → P' x) : Inserts P' l l' := by
  induction h with
  | nil => exact .nil
  | keep x _ ih => exact .keep x ih
  | insert hx _ ih => exact .insert (hP _ hx) ih

theorem append (h : Inserts P l l') (hk : Inserts P k k') : Inserts P (l ++ k) (l' ++ k') := by
  induction h with
  | nil => exact hk
  | keep x _ ih => exact .keep x ih
  | insert hx _ ih => exact .insert hx ih

theorem subset (h : Inserts P l l') : l ⊆ l' := by
  induction h with
  | nil => exact List.Subset.refl _
  | keep x _ ih => exact List.cons_subset_cons x ih
  | insert _ _ ih => exact List.subset_cons_of_subset _ ih

theorem flatMap (h : Inserts P l l') {f : α → List β} (hf : ∀ x, P x → ∀ y ∈ f x, Q y) :
    Inserts Q (l.flatMap f) (l'.flatMap f) := by
  induction h with
  | nil => exact .nil
  | keep x _ ih => exact (refl (f x)).append ih
  | insert hx _ ih => exact (of_forall _ (hf _ hx)).append ih

theorem filterMap (h : Inserts P l l') {f : α → Option β} (hf : ∀ x, P x → ∀ y ∈ f x, Q y) :
    Inserts Q (l.filterMap f) (l'.filterMap f) := by
  rw [List.filterMap_eq_flatMap_toList, List.filterMap_eq_flatMap_toList]
  exact h.flatMap fun x hx y hy => hf x hx y (Option.mem_toList.1 hy)

theorem find? (h : Inserts P l l') {p : α → Bool} (hp : ∀ x, P x → p x = false) :
    l'.find? p = l.find? p := by
  induction h with
  | nil => rfl
  | keep x _ ih => rw [List.find?_cons, List.find?_cons, ih]
  | insert hx _ ih => rw [List.find?_cons, hp _ hx, ih]

/-- Folds stay related if a step for an element of both lists keeps the relation, and one for an
element that is put in does. -/
theorem foldl {σ : Type} {R : σ → σ → Prop} {f g : σ → α → σ} (h : Inserts P l l')
    (hkeep : ∀ x ∈ l, ∀ s s', R s s' → R (f s x) (g s' x))
    (hinsert : ∀ x, P x → ∀ s s', R s s' → R s (g s' x)) {s s' : σ} (hs : R s s') :
    R (l.foldl f s) (l'.foldl g s') := by
  induction h generalizing s s' with
  | nil => exact hs
  | keep x _ ih =>
    exact ih (fun y hy => hkeep y (List.mem_cons_of_mem x hy)) (hkeep x List.mem_cons_self s s' hs)
  | insert hx _ ih => exact ih hkeep (hinsert _ hx s s' hs)

end

end Inserts

/-! ## Units -/

/-- The numbers of the declarations of a list, at any depth. -/
def Decl.numbers (ds : List Decl) : List DeclId := (walkAll ds).map id

theorem Decl.id_mem_numbers {d : Decl} {ds : List Decl} (h : d ∈ walkAll ds) : d.id ∈ numbers ds :=
  List.mem_map_of_mem h

theorem Decl.walkAll_eq_flatMap (ds : List Decl) : walkAll ds = ds.flatMap walk := by
  induction ds with
  | nil => rfl
  | cons d ds ih => rw [walkAll, List.flatMap_cons, ih]

theorem Decl.outerAll_eq_flatMap (ds : List Decl) : outerAll ds = ds.flatMap outer := by
  induction ds with
  | nil => rfl
  | cons d ds ih => rw [outerAll, List.flatMap_cons, ih]

theorem Decl.mem_walk_of_outer {x d : Decl} (h : x ∈ d.outer) : x ∈ d.walk := by
  rcases outer_cases d h with rfl | ⟨head, members, hspace, hx⟩
  · exact mem_walk_self x
  · exact mem_walk_trans (List.mem_cons_of_mem _ (mem_walkAll_of_mem hx)) d hspace

namespace TranslationUnit

theorem outer_eq_flatMap (unit : TranslationUnit) : unit.outer = unit.roots.flatMap Decl.outer := by
  unfold outer roots
  rw [List.flatMap_assoc]
  exact congrArg (unit.files.flatMap ·) (funext fun file => Decl.outerAll_eq_flatMap file.decls)

/-- A unit is another one with declarations of a list put into its files. -/
def Inserted (new : List Decl) (unit unit' : TranslationUnit) : Prop :=
  List.Forall₂ (fun file file' : SourceFile => file'.path = file.path ∧
    Inserts (· ∈ new) file.decls file'.decls) unit.files unit'.files

section
variable {new : List Decl} {unit unit' : TranslationUnit}

theorem Inserted.roots (h : unit.Inserted new unit') :
    Inserts (· ∈ new) unit.roots unit'.roots := by
  obtain ⟨files⟩ := unit
  obtain ⟨files'⟩ := unit'
  unfold Inserted at h
  dsimp only at h
  unfold TranslationUnit.roots
  induction h with
  | nil => exact .nil
  | cons hfile _ ih => exact hfile.2.append ih

variable (h : Inserts (· ∈ new) unit.roots unit'.roots)
include h

theorem inserts_walk : Inserts (· ∈ Decl.walkAll new) unit.walk unit'.walk := by
  rw [walk_eq_walkAll, walk_eq_walkAll, Decl.walkAll_eq_flatMap unit.roots,
    Decl.walkAll_eq_flatMap unit'.roots]
  exact h.flatMap fun d hd x hx => Decl.mem_walkAll.2 ⟨d, hd, hx⟩

theorem inserts_outerRecords : Inserts (fun r => r.toDecl ∈ Decl.walkAll new)
    unit.outerRecords unit'.outerRecords := by
  unfold outerRecords
  rw [outer_eq_flatMap, outer_eq_flatMap]
  have hroots := h.flatMap (Q := (· ∈ Decl.walkAll new)) (f := Decl.outer) fun d hd x hx =>
    Decl.mem_walkAll.2 ⟨d, hd, Decl.mem_walk_of_outer hx⟩
  exact hroots.filterMap fun d hd r hr => Decl.record?_eq_some hr ▸ hd

theorem get?_inserts {id : DeclId} (hid : id ∉ Decl.numbers new) :
    (DeclIndex.ofUnit unit').get? id = (DeclIndex.ofUnit unit).get? id := by
  refine (inserts_walk h).find? fun d hd => ?_
  have hne : d.id ≠ id := fun heq => hid (heq ▸ Decl.id_mem_numbers hd)
  simpa using hne

theorem record?_inserts {id : DeclId} (hid : id ∉ Decl.numbers new) :
    (DeclIndex.ofUnit unit').record? id = (DeclIndex.ofUnit unit).record? id := by
  unfold DeclIndex.record?
  rw [get?_inserts h hid]

end

end TranslationUnit

end DBindings
