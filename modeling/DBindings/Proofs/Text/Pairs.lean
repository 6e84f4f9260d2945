import DBindings.Text.Contains
import DBindings.Text.Dotted
import Mathlib.Data.List.Basic

/-!
# Pairs of characters in a text

Scope and arrow symbols are pairs of characters, which are replaced by a dot.

* `Text.replacePair_eq_self_iff`   a text is kept exactly if the pair does not occur in it;
* `Text.containsChars_replacePair`   the pair is gone from the text;
* `Text.containsChars_flatMap`     a pair occurs in an escaped text exactly if it does in the text;
* `Text.rewritten_eq_self_iff`     a text without scope and arrow symbols is kept, and no other.
-/

namespace DBindings.Text

section
variable {a b c : Char}

theorem mem_replacePair {x : Char} {cs : List Char} (h : x ∈ replacePair a b c cs) :
    x = c ∨ x ∈ cs := by
  fun_induction replacePair a b c cs with
  | case1 y z rest _ ih =>
    rcases List.mem_cons.1 h with h | h
    · exact Or.inl h
    · exact (ih h).imp_right fun h => List.mem_cons_of_mem _ (List.mem_cons_of_mem _ h)
  | case2 y z rest _ ih =>
    rcases List.mem_cons.1 h with h | h
    · exact Or.inr (h ▸ List.mem_cons_self)
    · exact (ih h).imp_right (List.mem_cons_of_mem _)
  | case3 rest _ => exact Or.inr h

theorem containsChars_pair (x : Char) (cs : List Char) : containsChars [a, b] (x :: cs) =
    (decide (x = a ∧ cs.head? = some b) || containsChars [a, b] cs) := by
  rw [containsChars]
  congr 1
  cases cs with
  | nil =>
    show (a == x && false) = _
    simp
  | cons y cs =>
    show (a == x && (b == y && true)) = _
    rw [Bool.and_true, Bool.beq_eq_decide_eq, Bool.beq_eq_decide_eq, ← Bool.decide_and]
    simp [eq_comm]

theorem isPrefixOf_replacePair {p : List Char} (ha : a ∉ p) (hc : c ∉ p)
    (cs : List Char) : p.isPrefixOf (replacePair a b c cs) = p.isPrefixOf cs := by
  fun_induction replacePair a b c cs generalizing p with
  | case1 x y rest h ih =>
    cases p with
    | nil => rfl
    | cons d p =>
      have hx : (d == x) = false := beq_false_of_ne fun hd => ha (h.1 ▸ hd ▸ List.mem_cons_self)
      have hdot : (d == c) = false := beq_false_of_ne fun hd => hc (hd ▸ List.mem_cons_self)
      rw [List.isPrefixOf_cons_cons, List.isPrefixOf_cons_cons, hx, hdot, Bool.false_and,
        Bool.false_and]
  | case2 x y rest h ih =>
    cases p with
    | nil => rfl
    | cons d p =>
      have hrest :=
        ih (fun h => ha (List.mem_cons_of_mem _ h)) fun h => hc (List.mem_cons_of_mem _ h)
      rw [List.isPrefixOf_cons_cons, List.isPrefixOf_cons_cons, hrest]
  | case3 rest _ => rfl

theorem length_replacePair_le (cs : List Char) : (replacePair a b c cs).length ≤ cs.length := by
  fun_induction replacePair a b c cs with
  | case1 x y rest _ ih =>
    simp only [List.length_cons]
    omega
  | case2 x y rest _ ih => exact Nat.succ_le_succ ih
  | case3 rest _ => exact Nat.le_refl _

theorem length_replacePair_lt {cs : List Char} (h : containsChars [a, b] cs = true) :
    (replacePair a b c cs).length < cs.length := by
  fun_induction replacePair a b c cs with
  | case1 x y rest _ _ =>
    have hle : (replacePair a b c rest).length ≤ rest.length := length_replacePair_le rest
    simp only [List.length_cons]
    omega
  | case2 x y rest hpair ih =>
    rw [containsChars_pair, decide_eq_false (by simpa using hpair), Bool.false_or] at h
    exact Nat.succ_lt_succ (ih h)
  | case3 rest hshort =>
    match rest with
    | [] => exact nomatch h
    | [x] =>
      rw [containsChars_pair, decide_eq_false (by simp)] at h
      exact nomatch h
    | x :: y :: rest => exact absurd rfl (hshort x y rest)

/-- A text is kept exactly if the pair does not occur in it. -/
theorem replacePair_eq_self_iff {cs : List Char} :
    replacePair a b c cs = cs ↔ containsChars [a, b] cs = false := by
  constructor
  · intro h
    rw [← Bool.not_eq_true]
    intro hpair
    have hlt : (replacePair a b c cs).length < cs.length := length_replacePair_lt hpair
    rw [h] at hlt
    exact Nat.lt_irrefl _ hlt
  · intro h
    fun_induction replacePair a b c cs with
    | case1 x y rest hpair _ =>
      rw [containsChars_pair, decide_eq_true (by simpa using hpair)] at h
      exact nomatch h
    | case2 x y rest hpair ih =>
      rw [containsChars_pair, Bool.or_eq_false_iff] at h
      rw [ih h.2]
    | case3 rest _ => rfl

theorem head_replacePair (x : Char) (cs : List Char) :
    (replacePair a b c (x :: cs)).head? = some x ∨
      (replacePair a b c (x :: cs)).head? = some c := by
  cases cs with
  | nil => exact Or.inl rfl
  | cons y rest =>
    rw [replacePair]
    split
    · exact Or.inr rfl
    · exact Or.inl rfl

theorem containsChars_replacePair (ha : c ≠ a) (hb : c ≠ b) (cs : List Char) :
    containsChars [a, b] (replacePair a b c cs) = false := by
  fun_induction replacePair a b c cs with
  | case1 x y rest _ ih =>
    rw [containsChars_pair, decide_eq_false fun h => ha h.1, Bool.false_or]
    exact ih
  | case2 x y rest h ih =>
    have hpair : ¬ (x = a ∧ (replacePair a b c (y :: rest)).head? = some b) := by
      rintro ⟨hx, hhead⟩
      rcases head_replacePair y rest with hy | hc
      · exact h ⟨hx, Option.some.inj (hy.symm.trans hhead)⟩
      · exact hb (Option.some.inj (hc.symm.trans hhead))
    rw [containsChars_pair, decide_eq_false hpair, Bool.false_or]
    exact ih
  | case3 rest hshort =>
    match rest with
    | [] => rfl
    | [x] => rw [containsChars_pair, decide_eq_false (by simp), containsChars, List.isEmpty_cons,
        Bool.false_or]
    | x :: y :: rest => exact absurd rfl (hshort x y rest)

/-! ## Escaped texts -/

theorem containsChars_append {l : List Char} (hl : a ∉ l) (cs : List Char) :
    containsChars [a, b] (l ++ cs) = containsChars [a, b] cs := by
  induction l with
  | nil => rfl
  | cons x l ih =>
    have hx : x ≠ a := fun h => hl (h ▸ List.mem_cons_self)
    rw [List.cons_append, containsChars_pair, ih fun h => hl (List.mem_cons_of_mem _ h),
      decide_eq_false fun h => hx h.1, Bool.false_or]

theorem containsChars_concat {x : Char} (ha : x ≠ a) (hb : x ≠ b) (cs : List Char) :
    containsChars [a, b] (cs ++ [x]) = containsChars [a, b] cs := by
  induction cs with
  | nil =>
    rw [List.nil_append, containsChars_pair, decide_eq_false fun h => ha h.1]
    rfl
  | cons y cs ih =>
    rw [List.cons_append, containsChars_pair, containsChars_pair, ih]
    cases cs with
    | nil => simp [hb]
    | cons z cs => rfl

/-- An escape of characters that leaves a pair alone and brings no new one. -/
structure Keeps (escape : Char → List Char) (a b : Char) : Prop where
  first : escape a = [a]
  second : escape b = [b]
  fresh : ∀ x, x ≠ a → a ∉ escape x
  head : ∀ x, x ≠ b → (escape x).head? ≠ some b
  nonempty : ∀ x, escape x ≠ []

/-- A pair occurs in an escaped text exactly if it does in the text. -/
theorem containsChars_flatMap {escape : Char → List Char} (h : Keeps escape a b)
    (cs : List Char) : containsChars [a, b] (cs.flatMap escape) = containsChars [a, b] cs := by
  induction cs with
  | nil => rfl
  | cons x cs ih =>
    rw [List.flatMap_cons, containsChars_pair]
    by_cases hx : x = a
    · have hhead : (cs.flatMap escape).head? = some b ↔ cs.head? = some b := by
        cases cs with
        | nil => exact Iff.rfl
        | cons y cs =>
          obtain ⟨z, l, hz⟩ := List.exists_cons_of_ne_nil (h.nonempty y)
          rw [List.flatMap_cons, List.head?_cons, Option.some_inj]
          by_cases hy : y = b
          · rw [hy, h.second]
            exact iff_of_true rfl rfl
          · refine iff_of_false (fun hhead => ?_) hy
            rw [hz] at hhead
            exact h.head y hy (hz ▸ hhead)
      rw [hx, h.first, List.singleton_append, containsChars_pair, ih]
      simp only [hhead]
    · rw [containsChars_append (h.fresh x hx), ih, decide_eq_false fun h => hx h.1, Bool.false_or]

end

/-! ## Scope and arrow symbols -/

variable {s : String}

theorem toList_dotted (s : String) : (dotted s).toList = replacePair ':' ':' '.' s.toList :=
  String.toList_ofList

theorem contains_scope_dotted (s : String) : contains (dotted s) "::" = false := by
  unfold contains
  rw [toList_dotted]
  exact containsChars_replacePair (by decide) (by decide) s.toList

theorem dotted_eq_self_iff : dotted s = s ↔ contains s "::" = false := by
  rw [dotted, ← String.toList_inj, String.toList_ofList]
  exact replacePair_eq_self_iff

theorem dottedArrows_eq_self_iff : dottedArrows s = s ↔ contains s "->" = false := by
  rw [dottedArrows, ← String.toList_inj, String.toList_ofList]
  exact replacePair_eq_self_iff

theorem rewritten_eq_self_iff :
    dottedArrows (dotted s) = s ↔ contains s "::" = false ∧ contains s "->" = false := by
  constructor
  · intro h
    have hscope : contains s "::" = false := by
      rw [← Bool.not_eq_true]
      intro hpair
      -- a dot for a scope symbol is a character less, and no arrow makes up for it
      have hlt : (dotted s).toList.length < s.toList.length := by
        rw [dotted, String.toList_ofList]
        exact length_replacePair_lt hpair
      have hle : (dottedArrows (dotted s)).toList.length ≤ (dotted s).toList.length := by
        rw [dottedArrows, String.toList_ofList]
        exact length_replacePair_le _
      rw [h] at hle
      omega
    rw [dotted_eq_self_iff.2 hscope] at h
    exact ⟨hscope, dottedArrows_eq_self_iff.1 h⟩
  · rintro ⟨hscope, harrow⟩
    rw [dotted_eq_self_iff.2 hscope, dottedArrows_eq_self_iff.2 harrow]

end DBindings.Text
