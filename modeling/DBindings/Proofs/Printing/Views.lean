import DBindings.Print.Printer
import Mathlib.Data.List.Basic

/-!
# Forms of printed expressions

A view of an expression is all of another expression, which can be found before anything is printed.
How an overloaded operator is written depends on the operator and the number of its operands.

* `Expr.printView_bare`        below the implicit nodes;
* `Expr.printView_converted`   the object of a conversion;
* `Expr.assertion?_eq_some`    condition and message of an assertion;
* `Expr.operatorText_form`     the forms of overloaded operators.
-/

namespace DBindings
namespace Expr

variable (cx : PrintContext)

theorem printView_bare (e : Expr) : printView cx .bare e = e.ignoreImplicit.print cx := by
  fun_induction ignoreImplicit e with
  | case1 _ _ _ ih => exact ih
  | case2 _ _ ih => exact ih
  | case3 e hcast htemp =>
    cases e
    case implicitCast => exact absurd rfl (hcast _ _ _)
    case materializeTemporary => exact absurd rfl (htemp _ _)
    case newObject init _ => cases init <;> rfl
    case dependentMember base _ _ => cases base <;> rfl
    all_goals rfl

theorem printView_converted (e : Expr) : printView cx .converted e = e.converted.print cx := by
  unfold converted
  fun_induction ignoreParensImplicit e with
  | case1 _ ih => exact ih
  | case2 _ _ _ ih => exact ih
  | case3 _ _ ih => exact ih
  | case4 e hparen hcast htemp =>
    cases e
    case paren => exact absurd rfl (hparen _)
    case implicitCast => exact absurd rfl (hcast _ _ _)
    case materializeTemporary => exact absurd rfl (htemp _ _)
    case newObject init _ => cases init <;> rfl
    case dependentMember base _ _ => cases base <;> rfl
    all_goals rfl

theorem printView_unparenthesized (e : Expr) :
    printView cx .unparenthesized e = e.unparenthesized.print cx := by
  cases e
  case newObject init _ => cases init <;> rfl
  case dependentMember base _ _ => cases base <;> rfl
  all_goals rfl

theorem printView_message (e : Expr) :
    printView cx .message e = printView cx .message e.ignoreParensImplicit := by
  fun_induction ignoreParensImplicit e with
  | case1 _ ih => exact ih
  | case2 _ _ _ ih => exact ih
  | case3 _ _ ih => exact ih
  | case4 e => rfl

/-- An array that decays is subscripted itself. -/
theorem print_subscripted (base : Expr) :
    base.subscripted.print cx = printView cx (if base.isDecayed then .bare else .whole) base := by
  unfold subscripted
  split
  · exact (printView_bare cx base).symm
  · rfl

/-! ## Assertions -/

theorem isAssertReport_iff {report : Expr} : report.isAssertReport = true ↔
    ∃ callee message file line params rest,
      report = binary .comma (call callee [message, file, line] params) rest ∧
        callee.ignoreImplicit.isAssertFunction = true := by
  constructor
  · intro h
    unfold isAssertReport at h
    split at h
    · next callee args params rest =>
      obtain ⟨hcallee, hlength⟩ := Bool.and_eq_true_iff.1 h
      obtain ⟨message, file, line, rfl⟩ := List.length_eq_three.1 (beq_iff_eq.1 hlength)
      exact ⟨callee, message, file, line, params, rest, rfl, hcallee⟩
    · exact nomatch h
  · rintro ⟨callee, message, file, line, params, rest, rfl, hcallee⟩
    exact Bool.and_eq_true_iff.2 ⟨hcallee, rfl⟩

theorem assertion?_eq_some {e cond message : Expr} (h : e.assertion? = some (cond, message)) :
    e.isAssertion = true ∧
      printView cx .assertion e = cond.print cx ++ ", " ++ message.print cx := by
  unfold assertion? at h
  split at h
  · next op cond' report =>
    split at h
    · next callee message' file line params rest heq =>
      split at h
      · next hop =>
        obtain ⟨hop, hcallee⟩ := Bool.and_eq_true_iff.1 hop
        obtain ⟨rfl, rfl⟩ := Prod.mk.inj (Option.some.inj h)
        have hreport := isAssertReport_iff.2 ⟨_, _, _, _, _, _, heq, hcallee⟩
        refine ⟨Bool.and_eq_true_iff.2 ⟨hop, hreport⟩, ?_⟩
        show printView cx .unparenthesized cond' ++ _ ++ printView cx .message report = _
        rw [printView_unparenthesized, printView_message, heq]
        rfl
      · cases h
    · cases h
  · cases h

theorem assertion?_eq_none {e : Expr} (h : e.assertion? = none) : e.isAssertion = false := by
  rw [← Bool.not_eq_true]
  intro hassert
  unfold isAssertion at hassert
  split at hassert
  · next op cond report =>
    obtain ⟨hop, hreport⟩ := Bool.and_eq_true_iff.1 hassert
    obtain ⟨callee, message, file, line, params, rest, heq, hcallee⟩ :=
      isAssertReport_iff.1 hreport
    simp [assertion?, heq, hop, hcallee] at h
  · exact absurd hassert Bool.false_ne_true

/-! ## Overloaded operators -/

/-- Operators that do not stand between two operands. -/
def unspacedOperators : List OverloadedOp := [.plusPlus, .minusMinus, .arrow, .call, .subscript]

/-- An overloaded operator, its operands and what is written. -/
inductive OperatorForm : OverloadedOp → List Piece → Printed → Prop where
  | leading {op : OverloadedOp} (p : Piece) (harrow : op ≠ .arrow) (hcall : op ≠ .call) :
    OperatorForm op [p] (op.spelling ++ " " ++ p.2)
  | trailing {op : OverloadedOp} (p q : Piece) (rest : List Piece)
    (hop : op = .plusPlus ∨ op = .minusMinus) :
    OperatorForm op (p :: q :: rest) (p.2 ++ " " ++ op.spelling)
  | arrow (p : Piece) (rest : List Piece) : OperatorForm .arrow (p :: rest) p.2
  | call (p : Piece) (rest : List Piece) :
    OperatorForm .call (p :: rest) (p.2 ++ "(" ++ arguments rest ++ ")")
  | subscript (p q : Piece) : OperatorForm .subscript [p, q] (p.2 ++ "[" ++ q.2 ++ "]")
  | between {op : OverloadedOp} (p q : Piece) (hop : op ∉ unspacedOperators) :
    OperatorForm op [p, q] (p.2 ++ (" " ++ op.spelling ++ " ") ++ q.2)
  | none (op : OverloadedOp) : OperatorForm op [] (arguments [])
  | many {op : OverloadedOp} (p q r : Piece) (rest : List Piece)
    (hop : op ∉ [OverloadedOp.plusPlus, .minusMinus, .arrow, .call]) :
    OperatorForm op (p :: q :: r :: rest) (arguments (p :: q :: r :: rest))

theorem operatorText_form (op : OverloadedOp) (ps : List Piece) :
    OperatorForm op ps (operatorText op ps) := by
  match ps with
  | [] => cases op <;> exact .none _
  | [p] =>
    cases op
    case arrow => exact .arrow p []
    case call => exact .call p []
    all_goals exact .leading p (by decide) (by decide)
  | [p, q] =>
    cases op
    case plusPlus => exact .trailing p q [] (Or.inl rfl)
    case minusMinus => exact .trailing p q [] (Or.inr rfl)
    case arrow => exact .arrow p [q]
    case call => exact .call p [q]
    case subscript => exact .subscript p q
    all_goals exact .between p q (by decide)
  | p :: q :: r :: rest =>
    cases op
    case plusPlus => exact .trailing p q (r :: rest) (Or.inl rfl)
    case minusMinus => exact .trailing p q (r :: rest) (Or.inr rfl)
    case arrow => exact .arrow p (q :: r :: rest)
    case call => exact .call p (q :: r :: rest)
    all_goals exact .many p q r rest (by decide)

end Expr
end DBindings
