import DBindings.Proofs.Printing.StmtLandmarks

/-!
# Null pointer constants in the code of functions that return a pointer

In such code every implicit cast over a null pointer constant is printed as `null`, whatever it
converts to.  This makes no difference to the text where the constant is printed as `null` anyway.

* `Expr.writesNull`              the constant is printed as `null` in any code;
* `Nulled`                       two texts that differ in the casts over null pointer constants;
* `Nulled.eq_iff`                they are one text if each of these casts is `null` anyway;
* `PrintContext.returning_iff`   so it is for all expressions, variables and statements.
-/

set_option linter.unusedSectionVars false

namespace DBindings
open Printed Text

/-- The implicit cast that is printed as `null`. -/
def Landmark.cast? : Landmark → Option Expr
  | null cast => some cast
  | _ => none

namespace Expr

/-- A null pointer, below implicit casts that print nothing. -/
def writesNull : Expr → Bool
  | nullPtr => true
  | implicitCast kind inner _ => kind == .nullToPointer ||
      (kind != .arrayToPointerDecay || inner.ignoreImplicit.isStringLiteral) && writesNull inner
  | _ => false

end Expr

/-- Not the text `null`: it begins with another letter, or goes on without a further `n`. -/
def Deviates (t : String) : Prop :=
  (∃ c ∈ t.toList.head?, c ≠ 'n') ∨ ∃ r, t.toList = "null".toList ++ r ∧ r ≠ [] ∧ 'n' ∉ r

theorem deviates_append {s : String} (t : String) {c : Char} (hs : c ∈ s.toList.head?)
    (hc : c ≠ 'n') : Deviates (s ++ t) := by
  refine Or.inl ⟨c, ?_, hc⟩
  rw [String.toList_append, List.head?_append, hs]
  rfl

theorem deviates_ptr {t : String} (h : Deviates t) : Deviates (t ++ ".ptr") := by
  rcases h with ⟨c, ht, hc⟩ | ⟨r, ht, hr, hn⟩
  · exact deviates_append _ ht hc
  · refine Or.inr ⟨r ++ ".ptr".toList, ?_, by simp, ?_⟩
    · rw [String.toList_append, ht, List.append_assoc]
    · rw [List.mem_append, not_or]
      exact ⟨hn, by decide⟩

namespace Expr

/-- How a null pointer constant is printed where the code is not that of a pointer function. -/
theorem text_of_isNullPointerConstant (cx : PrintContext) : (e : Expr) →
    e.isNullPointerConstant = true →
    if e.writesNull then (e.print (cx.returning false)).text = "null"
    else Deviates (e.print (cx.returning false)).text
  | nullPtr, _ => text_ofText "null"
  | integerLiteral value kind, h => by
    have hzero : value = 0 := by simpa [isNullPointerConstant] using h
    have hprint : (integerLiteral value kind).print (cx.returning false) =
        ofText (toString (0 : Int) ++ Literal.integerSuffix kind) := hzero ▸ rfl
    show Deviates _
    rw [hprint, text_ofText]
    exact deviates_append _ (by decide : '0' ∈ _) (by decide)
  | paren inner, _ => by
    have hprint : (paren inner).print (cx.returning false) =
        ofText "(" ++ inner.print (cx.returning false) ++ ofText ")" := rfl
    show Deviates _
    rw [hprint, text_append, text_append, text_ofText, String.append_assoc]
    exact deviates_append _ (by decide : '(' ∈ _) (by decide)
  | implicitCast kind inner ty, h => by
    by_cases hkind : kind = .nullToPointer
    · rw [hkind, print, printView_nullToPointer]
      exact text_ofText "null"
    have hinner : inner.isNullPointerConstant = true := by
      simpa [isNullPointerConstant, hkind] using h
    have ih := text_of_isNullPointerConstant cx inner hinner
    have hprint : (implicitCast kind inner ty).print (cx.returning false) =
        decayed kind inner (inner.print (cx.returning false)) :=
      (printView_implicitCast (cx.returning false) inner ty hkind).trans rfl
    rw [hprint]
    unfold decayed
    by_cases hdecay : kind = .arrayToPointerDecay ∧ !inner.ignoreImplicit.isStringLiteral
    · have hwrites : (implicitCast kind inner ty).writesNull = false := by
        simp [writesNull, hdecay.1, Bool.not_eq_true' _ ▸ hdecay.2]
      rw [hwrites, if_pos hdecay, text_suffixed]
      show Deviates _
      split at ih
      · exact Or.inr ⟨".ptr".toList, by rw [ih]; rfl, by decide, by decide⟩
      · exact deviates_ptr ih
    · have hwrites : (implicitCast kind inner ty).writesNull = inner.writesNull := by
        have hplain : (kind != .arrayToPointerDecay ||
            inner.ignoreImplicit.isStringLiteral) = true := by
          simpa [imp_iff_not_or] using hdecay
        rw [writesNull, hplain, beq_false_of_ne hkind, Bool.false_or, Bool.true_and]
      rw [hwrites, if_neg hdecay]
      exact ih
  | cStyleCast ty inner, _ => by
    show Deviates _
    unfold print printView
    split
    · rw [text_append, text_append, text_ofText, String.append_assoc]
      exact deviates_append _ (by decide : 'a' ∈ _) (by decide)
    · simp only [text_append, text_ofText, String.append_assoc]
      exact deviates_append _ (by decide : 'c' ∈ _) (by decide)
  | namedCast kind ty inner, _ => by
    show Deviates _
    unfold print printView
    simp only [text_append, text_ofText, String.append_assoc]
    exact deviates_append _ (by decide : 'c' ∈ _) (by decide)

end Expr

/-- Two texts, one with `null` where the other has the text of a cast over a null pointer
constant. -/
inductive Nulled : List Expr → List Char → List Char → Prop
  | nil : Nulled [] [] []
  | code (c : Char) {l : List Expr} {a b : List Char} (h : Nulled l a b) :
    Nulled l (c :: a) (c :: b)
  | same {x : Expr} {l : List Expr} {a b : List Char} (hx : x.writesNull = true)
    (h : Nulled l a b) : Nulled (x :: l) ("null".toList ++ a) ("null".toList ++ b)
  | other {x : Expr} {t : String} {l : List Expr} {a b : List Char}
    (hx : x.writesNull = false) (ht : Deviates t) (h : Nulled l a b) :
    Nulled (x :: l) ("null".toList ++ a) (t.toList ++ b)

namespace Nulled
variable {l m : List Expr} {a b c d r : List Char}

theorem refl (a : List Char) : Nulled [] a a := by
  induction a with
  | nil => exact .nil
  | cons x a ih => exact .code x ih

theorem append (h : Nulled l a b) (h' : Nulled m c d) : Nulled (l ++ m) (a ++ c) (b ++ d) := by
  induction h with
  | nil => exact h'
  | code x _ ih => exact .code x ih
  | same hx _ ih => exact .same hx ih
  | other hx ht _ ih =>
    rw [List.append_assoc, List.append_assoc]
    exact .other hx ht ih

/-- Text without an `n` cannot be missing in front of one of them. -/
theorem ne_append (h : Nulled l a b) (hr : r ≠ []) (hn : 'n' ∉ r) : a ≠ r ++ b := by
  induction h generalizing r with
  | nil => exact fun heq => hr (List.append_eq_nil_iff.1 heq.symm).1
  | code x h ih =>
    cases r with
    | nil => exact absurd rfl hr
    | cons y r =>
      intro heq
      obtain ⟨rfl, hrest⟩ := List.cons.inj heq
      refine ih (r := r ++ [x]) (by simp) ?_ (by simpa using hrest)
      rw [List.mem_append, List.mem_singleton, not_or]
      exact ⟨fun hmem => hn (List.mem_cons_of_mem _ hmem), fun hx => hn (hx ▸ List.mem_cons_self)⟩
  | same | other =>
    cases r with
    | nil => exact absurd rfl hr
    | cons y r =>
      intro heq
      exact hn ((List.cons.inj heq).1 ▸ List.mem_cons_self)

theorem eq_iff (h : Nulled l a b) : a = b ↔ ∀ x ∈ l, x.writesNull = true := by
  induction h with
  | nil => simp
  | code x _ ih => rw [List.cons_inj_right, ih]
  | same hx _ ih => rw [List.append_cancel_left_eq, ih, List.forall_mem_cons, and_iff_right hx]
  | @other x t l a b hx ht h ih =>
    refine iff_of_false (fun heq => ?_) fun hall => ?_
    · rcases ht with ⟨y, hy, hne⟩ | ⟨r, hr, hnil, hn⟩
      · have hhead := congrArg List.head? heq
        rw [List.head?_append (l := t.toList), hy] at hhead
        exact hne (Option.some.inj hhead).symm
      · rw [hr, List.append_assoc, List.append_cancel_left_eq] at heq
        exact h.ne_append hnil hn heq
    · rw [hall x List.mem_cons_self] at hx
      exact nomatch hx

end Nulled

/-! ## Printed trees -/

theorem isNullPointerConstant_of_isNulled {x : Expr} (h : x.isNulled = true) :
    x.isNullPointerConstant = true := by
  cases x
  case implicitCast => exact Bool.or_eq_true_iff.2 (Or.inr (Bool.and_eq_true_iff.1 h).2)
  all_goals exact nomatch h

variable {cx : PrintContext}

theorem Shows.nulled {ok : Char → Bool} {margin : Nat} {l : List Landmark} {a b : String}
    (h : Shows (cx.returning true) false ok margin l a b) :
    Nulled (l.filterMap Landmark.cast?) a.toList b.toList := by
  induction h with
  | code | lineBreak | character | string | operator => exact .refl _
  | @null x hx =>
    have htext := x.text_of_isNullPointerConstant cx (isNullPointerConstant_of_isNulled hx)
    have hnull : Nulled [x] ("null".toList ++ [])
        ((x.print (cx.returning false)).text.toList ++ []) := by
      split at htext
      · next hwrites =>
        rw [htext]
        exact .same hwrites .nil
      · next hwrites => exact .other (eq_false_of_ne_true hwrites) htext .nil
    rwa [List.append_nil, List.append_nil] at hnull
  | append _ _ iha ihb =>
    rw [List.filterMap_append, String.toList_append, String.toList_append]
    exact iha.append ihb

theorem Shows.eq_iff {ok : Char → Bool} {margin : Nat} {l : List Landmark} {a b : String}
    (h : Shows (cx.returning true) false ok margin l a b) :
    a = b ↔ ∀ x, .null x ∈ l → x.writesNull = true := by
  rw [← String.toList_inj, h.nulled.eq_iff]
  have hmem : ∀ x, x ∈ l.filterMap Landmark.cast? ↔ .null x ∈ l := by
    intro x
    rw [List.mem_filterMap]
    refine ⟨?_, fun hx => ⟨_, hx, rfl⟩⟩
    rintro ⟨y, hy, hx⟩
    cases y
    case null => exact Option.some.inj hx ▸ hy
    all_goals exact nomatch hx
  simp only [hmem]

/-- Trees are printed alike in the code of functions that return a pointer and of those that do not,
exactly if every implicit cast over a null pointer constant that is printed in the first one as
`null`, other than the one that makes it a pointer, is printed as `null` in the second one too. -/
theorem PrintContext.returning_iff (cx : PrintContext) :
    (∀ e : Expr, (e.print (cx.returning true)).text = (e.print (cx.returning false)).text ↔
      ∀ x, .null x ∈ Expr.landmarks (cx.returning true) .whole e → x.writesNull = true) ∧
    (∀ v : LocalVar, (v.print (cx.returning true)).text = (v.print (cx.returning false)).text ↔
      ∀ x, .null x ∈ v.landmarks (cx.returning true) → x.writesNull = true) ∧
    (∀ s : Stmt, (s.print (cx.returning true)).text = (s.print (cx.returning false)).text ↔
      ∀ x, .null x ∈ s.landmarks (cx.returning true) → x.writesNull = true) := by
  have hok : Admits fun _ => true := fun _ _ => rfl
  have hall : ∀ s, All (fun _ => true) s := fun _ _ _ => rfl
  have hn : (cx.returning true).names.Spelled (All fun _ => true) := fun _ _ => hall _
  have hpointer : false = true → (cx.returning true).pointerReturn = true := nofun
  refine ⟨fun e => ?_, fun v => ?_, fun s => ?_⟩
  · have h : Shows (cx.returning true) false _ 0 _ _ _ :=
      Expr.shows_print hok hn hpointer (.of_forall hall e)
    exact h.eq_iff
  · have h : Shows (cx.returning true) false _ 0 _ _ _ :=
      LocalVar.shows_print hok hn hpointer (.of_forall hall v)
    exact h.eq_iff
  · have h : Shows (cx.returning true) false _ 0 _ _ _ :=
      Stmt.shows_printAt hok hn hpointer (Nat.le_refl 0) s (.of_forall hall s)
    exact h.eq_iff

/-- A zero that is widened to another integer type turns into `null`, although no cast in the
expression has a pointer type. -/
theorem wideningCast_nulled :
    let zero : Expr := .implicitCast .integralCast (.integerLiteral 0 .int) (.builtin .long)
    (∀ kind inner ty, zero.Within (.implicitCast kind inner ty) →
      kind ≠ .nullToPointer ∧ ty.isPointer = false) ∧
    (zero.print { pointerReturn := true }).text = "null" ∧ (zero.print {}).text = "0" := by
  refine ⟨fun kind inner ty h => ?_, by decide +kernel, by decide +kernel⟩
  rcases h.cases_children with heq | ⟨c, hc, hin⟩
  · obtain ⟨rfl, -, rfl⟩ := Expr.implicitCast.inj heq
    exact ⟨by decide, rfl⟩
  · rw [List.mem_singleton.1 hc] at hin
    rcases hin.cases_children with heq | ⟨d, hd, -⟩
    · exact nomatch heq
    · exact absurd hd List.not_mem_nil

end DBindings
