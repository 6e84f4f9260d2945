import DBindings.Proofs.Text.Pairs
import Mathlib.Data.List.Infix

/-!
# How often a text occurs in another one

Where two texts meet, a part may begin in the one and end in the other.  If it cannot, it occurs in
both together as often as in each of them.

* `Text.occurrences`            the number of places where a part occurs;
* `Text.contains_eq_false_iff`  no place at all;
* `Text.Splits`                 a part begins in one text and ends in the next one;
* `Text.places_append`          otherwise the places are those of the two texts;
* `Text.occurrences_mark`       two texts with a mark between them;
* `Text.places_replacePair`     pairs and a character that the part has not make no difference.
-/

namespace DBindings.Text

/-- The number of places where a part occurs in a list of characters. -/
def places (part : List Char) : List Char → Nat
  | [] => if part.isEmpty then 1 else 0
  | c :: cs => (if part.isPrefixOf (c :: cs) then 1 else 0) + places part cs

/-- The number of places where a part occurs in a text. -/
def occurrences (part s : String) : Nat := places part.toList s.toList

variable {part a b : List Char}

theorem containsChars_eq (part cs : List Char) :
    containsChars part cs = decide (0 < places part cs) := by
  induction cs with
  | nil =>
    unfold containsChars places
    cases part <;> rfl
  | cons c cs ih =>
    unfold containsChars places
    rw [ih]
    cases part.isPrefixOf (c :: cs) with
    | true =>
      rw [if_pos rfl, Bool.true_or, decide_eq_true]
      omega
    | false => rw [if_neg Bool.false_ne_true, Bool.false_or, Nat.zero_add]

theorem contains_eq_false_iff {s part : String} :
    contains s part = false ↔ occurrences part s = 0 := by
  unfold contains occurrences
  rw [containsChars_eq, decide_eq_false_iff_not, Nat.pos_iff_ne_zero, not_not]

/-! ## Composed texts -/

/-- The part begins in the first text and ends in the second one. -/
def Splits (part a b : List Char) : Prop :=
  ∃ x y, part = x ++ y ∧ x ≠ [] ∧ y ≠ [] ∧ x <:+ a ∧ y <+: b

theorem Splits.cons {c : Char} (h : Splits part a b) : Splits part (c :: a) b := by
  obtain ⟨x, y, hpart, hx, hy, hxa, hyb⟩ := h
  exact ⟨x, y, hpart, hx, hy, hxa.trans (List.suffix_cons c a), hyb⟩

theorem isPrefixOf_append {c : Char} (h : ¬ Splits part (c :: a) b) :
    part.isPrefixOf (c :: a ++ b) = part.isPrefixOf (c :: a) := by
  rw [Bool.eq_iff_iff, List.isPrefixOf_iff_prefix, List.isPrefixOf_iff_prefix]
  refine ⟨fun hprefix => ?_, fun hprefix => hprefix.trans (List.prefix_append _ _)⟩
  rcases List.prefix_or_prefix_of_prefix hprefix (List.prefix_append (c :: a) b) with h' | ⟨y, hy⟩
  · exact h'
  · -- the first text is used up within the part
    subst hy
    cases y with
    | nil => rw [List.append_nil]
    | cons d y =>
      have hrest := (List.prefix_append_right_inj _).1 hprefix
      exact absurd ⟨c :: a, d :: y, rfl, List.cons_ne_nil _ _, List.cons_ne_nil _ _,
        List.suffix_rfl, hrest⟩ h

/-- A part that is not split occurs in two texts together as often as in each of them. -/
theorem places_append (hpart : part ≠ []) (h : ¬ Splits part a b) :
    places part (a ++ b) = places part a + places part b := by
  induction a with
  | nil =>
    have hnil : places part [] = 0 := if_neg (mt List.isEmpty_iff.1 hpart)
    rw [List.nil_append, hnil, Nat.zero_add]
  | cons c a ih =>
    show (if part.isPrefixOf (c :: a ++ b) then 1 else 0) + places part (a ++ b) = _ + _
    rw [isPrefixOf_append h, ih (mt Splits.cons h), ← Nat.add_assoc]
    rfl

theorem not_splits_of_head (h : ∀ c ∈ b.head?, c ∉ part.tail) : ¬ Splits part a b := by
  rintro ⟨x, y, rfl, hx, hy, -, hyb⟩
  obtain ⟨c, y, rfl⟩ := List.exists_cons_of_ne_nil hy
  obtain ⟨d, x, rfl⟩ := List.exists_cons_of_ne_nil hx
  obtain ⟨rest, rfl⟩ := hyb
  exact h c rfl (List.mem_append_right x List.mem_cons_self)

theorem not_splits_of_last (h : ∀ c ∈ a.getLast?, c ∉ part.dropLast) : ¬ Splits part a b := by
  rintro ⟨x, y, rfl, hx, hy, ⟨rest, rfl⟩, -⟩
  have hlast : x.getLast hx ∈ (rest ++ x).getLast? := by
    rw [List.getLast?_append, List.getLast?_eq_some_getLast hx]
    rfl
  refine h _ hlast ?_
  rw [List.dropLast_append_of_ne_nil hy]
  exact List.mem_append_left _ (List.getLast_mem hx)

/-- A part may neither begin in front of a mark and go on in it nor begin in it and go on behind. -/
def Apart (part m : String) : Prop :=
  m.toList ≠ [] ∧ (∀ c ∈ m.toList.head?, c ∉ part.toList.tail) ∧
    ∀ c ∈ m.toList.getLast?, c ∉ part.toList.dropLast

instance (part m : String) : Decidable (Apart part m) :=
  decidable_of_iff (m.toList ≠ [] ∧ m.toList.head?.all (· ∉ part.toList.tail) = true ∧
    m.toList.getLast?.all (· ∉ part.toList.dropLast) = true) (by
      simp only [Apart, Option.all_eq_true, decide_eq_true_iff]
      rfl)

/-- A part occurs in two texts with a mark between them as often as in each of the three. -/
theorem occurrences_mark {part m : String} (hpart : part.toList ≠ []) (h : Apart part m)
    (s t : String) : occurrences part (s ++ m ++ t) =
      occurrences part s + occurrences part m + occurrences part t := by
  obtain ⟨hm, hhead, hlast⟩ := h
  have hfront : ∀ c ∈ (m.toList ++ t.toList).head?, c ∉ part.toList.tail := by
    rwa [List.head?_append_of_ne_nil _ hm]
  unfold occurrences
  rw [String.toList_append, String.toList_append, List.append_assoc,
    places_append hpart (not_splits_of_head hfront),
    places_append hpart (not_splits_of_last hlast), Nat.add_assoc]

theorem places_eq_zero {c : Char} (hc : c ∈ part) {cs : List Char} (h : c ∉ cs) :
    places part cs = 0 := by
  induction cs with
  | nil => exact if_neg (mt List.isEmpty_iff.1 (List.ne_nil_of_mem hc))
  | cons d cs ih =>
    have hprefix : part.isPrefixOf (d :: cs) ≠ true :=
      fun hprefix => h ((List.isPrefixOf_iff_prefix.1 hprefix).subset hc)
    rw [places, if_neg hprefix, ih fun hmem => h (List.mem_cons_of_mem _ hmem)]

/-! ## Pairs of characters as one -/

/-- One character for pairs of others leaves a part alone that has none of them. -/
theorem places_replacePair {x y z : Char} (hpart : part ≠ []) (hx : x ∉ part) (hy : y ∉ part)
    (hz : z ∉ part) (cs : List Char) : places part (replacePair x y z cs) = places part cs := by
  obtain ⟨c, p, rfl⟩ := List.exists_cons_of_ne_nil hpart
  have hskip : ∀ d, d ∉ c :: p → ∀ l, places (c :: p) (d :: l) = places (c :: p) l := by
    intro d hd l
    have hne : (c == d) = false := beq_false_of_ne fun hcd => hd (hcd ▸ List.mem_cons_self)
    rw [places, List.isPrefixOf_cons_cons, hne, Bool.false_and, if_neg Bool.false_ne_true,
      Nat.zero_add]
  fun_induction replacePair x y z cs with
  | case1 u v rest h ih =>
    obtain ⟨rfl, rfl⟩ := h
    rw [hskip z hz, hskip u hx, hskip v hy, ih]
  | case2 u v rest h ih =>
    have hprefix := isPrefixOf_replacePair (b := y) hx hz (u :: v :: rest)
    rw [replacePair, if_neg h] at hprefix
    rw [places, places, ih, hprefix]
  | case3 rest _ => rfl

end DBindings.Text
