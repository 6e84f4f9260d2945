import DBindings.Proofs.Text.Brackets
import DBindings.Proofs.Text.Pairs

/-!
# Parentheses and square brackets

Here a text is looked at as a row of parentheses and square brackets: quotes and braces are
characters like any others.

* `Text.grouping`            the parentheses and square brackets of a text;
* `Text.Balanced`            each of them is closed by one of its kind, the innermost one first;
* `Text.balanced_bracketed`  a text with another one in brackets behind it;
* `Text.balanced_dotted`     dots for scope symbols make no difference.
-/

namespace DBindings.Text

/-- A parenthesis or a square bracket. -/
def isGrouping (c : Char) : Bool := c = '(' || c = ')' || c = '[' || c = ']'

/-- The parentheses and square brackets of a text. -/
def grouping (s : String) : String := String.ofList (s.toList.filter isGrouping)

theorem grouping_append (a b : String) : grouping (a ++ b) = grouping a ++ grouping b := by
  unfold grouping
  rw [String.toList_append, List.filter_append, String.ofList_append]

/-- Each parenthesis and square bracket is closed by one of its kind, the innermost one first. -/
def Balanced (s : String) : Prop := Closed (grouping s)

instance (s : String) : Decidable (Balanced s) := inferInstanceAs (Decidable (Closed _))

variable {a b o c s : String}

theorem balanced_append (ha : Balanced a) (hb : Balanced b) : Balanced (a ++ b) := by
  unfold Balanced
  rw [grouping_append]
  exact closed_append ha hb

theorem balanced_wrap {x : List Char} (ho : Leads [] x (grouping o)) (hs : Balanced s)
    (hc : Leads x [] (grouping c)) : Balanced (o ++ s ++ c) := by
  unfold Balanced
  rw [grouping_append, grouping_append]
  exact closed_wrap ho hs hc

theorem balanced_bracketed {x : List Char} (ha : Balanced a) (ho : Leads [] x (grouping o))
    (hs : Balanced s) (hc : Leads x [] (grouping c)) : Balanced (a ++ o ++ s ++ c) := by
  unfold Balanced
  rw [grouping_append, grouping_append, grouping_append]
  exact closed_bracketed ha ho hs hc

theorem balanced_of_no_grouping (h : ∀ c ∈ s.toList, isGrouping c = false) : Balanced s := by
  unfold Balanced grouping
  rw [List.filter_eq_nil_iff.2 fun c hc => Bool.eq_false_iff.1 (h c hc)]
  exact closed_empty

theorem filter_replacePair {p : Char → Bool} {x y z : Char} (hx : p x = false) (hy : p y = false)
    (hz : p z = false) (cs : List Char) : (replacePair x y z cs).filter p = cs.filter p := by
  fun_induction replacePair x y z cs with
  | case1 u v rest h ih =>
    obtain ⟨rfl, rfl⟩ := h
    rw [List.filter_cons_of_neg (Bool.eq_false_iff.1 hz),
      List.filter_cons_of_neg (Bool.eq_false_iff.1 hx),
      List.filter_cons_of_neg (Bool.eq_false_iff.1 hy), ih]
  | case2 u v rest _ ih => rw [List.filter_cons, ih, ← List.filter_cons]
  | case3 rest _ => rfl

theorem balanced_dotted : Balanced (dotted s) ↔ Balanced s := by
  unfold Balanced grouping dotted
  rw [String.toList_ofList, filter_replacePair (by decide) (by decide) (by decide)]

end DBindings.Text
