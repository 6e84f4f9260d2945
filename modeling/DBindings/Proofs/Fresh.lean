import Mathlib.Data.Finset.Card
import Mathlib.Data.List.Induction

/-!
# What is new in a list

Where elements are put behind others unless they are there, those come in that are new, each at its
first occurrence.

* `fresh`               the elements of a list that another one does not have, each once;
* `eraseDups_concat`    a last element is left out if it occurs before;
* `length_eraseDups`    the number of elements that differ.
-/

namespace DBindings

variable {α : Type} [DecidableEq α] {present xs : List α} {x : α}

/-- The elements that are not there, each at its first occurrence. -/
def fresh (present xs : List α) : List α := (xs.filter (· ∉ present)).eraseDups

theorem fresh_cons_of_mem (h : x ∈ present) : fresh present (x :: xs) = fresh present xs := by
  unfold fresh
  rw [List.filter_cons_of_neg (by simpa using h)]

theorem fresh_cons_of_not_mem (h : x ∉ present) :
    fresh present (x :: xs) = x :: fresh (present ++ [x]) xs := by
  have hlater : xs.filter (· ∉ present ++ [x]) =
      (xs.filter (· ∉ present)).filter fun y => !y == x := by
    rw [List.filter_filter]
    exact List.filter_congr fun y _ => by simp [and_comm, beq_eq_decide]
  unfold fresh
  rw [List.filter_cons_of_pos (by simpa using h), List.eraseDups_cons, hlater]

theorem eraseDups_concat (xs : List α) (x : α) :
    (xs ++ [x]).eraseDups = if x ∈ xs then xs.eraseDups else xs.eraseDups ++ [x] := by
  rw [List.eraseDups_append, List.removeAll]
  by_cases h : x ∈ xs
  · rw [if_pos h, List.filter_cons_of_neg (by simpa using h)]
    exact List.append_nil _
  · rw [if_neg h, List.filter_cons_of_pos (by simpa using h)]
    rfl

theorem nodup_eraseDups (xs : List α) : xs.eraseDups.Nodup := by
  induction xs using List.reverseRecOn with
  | nil => exact List.nodup_nil
  | append_singleton xs x ih =>
    rw [eraseDups_concat]
    split
    · exact ih
    · next h => exact List.nodup_append.2 ⟨ih, List.nodup_singleton x, fun y hy z hz => by
        rw [List.mem_singleton.1 hz]
        rintro rfl
        exact h (List.mem_eraseDups.1 hy)⟩

theorem length_eraseDups (xs : List α) : xs.eraseDups.length = xs.toFinset.card := by
  rw [← List.toFinset_card_of_nodup (nodup_eraseDups xs)]
  congr 1
  ext x
  rw [List.mem_toFinset, List.mem_toFinset, List.mem_eraseDups]

end DBindings
