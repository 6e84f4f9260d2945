import DBindings.Proofs.Printing.Views
import DBindings.Proofs.Tree.Evaluation

/-!
# Assertions

An assertion macro expands to an operation that makes a call where its condition fails.  It is
written as an assertion, which reports a false condition, for both logical operators.

* `Assertion`                     the expansion of an assertion macro;
* `Assertion.callsAfter_iff`      when it makes its call;
* `Expr.cast_void_assertion_iff`  what is written for a cast to `void`: the assertion keeps its
                                  meaning exactly if the operator is `||`;
* `failedGuard_inverted`          an expansion with `&&`, whose condition is turned around.
-/

namespace DBindings

/-- The expansion of an assertion macro below its cast: a condition, a logical operator, and a call
of a function that reports failed assertions in front of a value. -/
structure Assertion where
  op : BinaryOp
  isLogical : op.isLogical = true
  condition : Expr
  report : Expr
  callee : Expr
  isAssertFunction : callee.ignoreImplicit.isAssertFunction = true
  message : Expr
  file : Expr
  line : Expr
  params : Option (List Ty)
  value : Expr
  report_eq : report.ignoreParensImplicit =
    .binary .comma (.call callee [message, file, line] params) value

theorem Expr.calls_ignoreParensImplicit {σ ν : Type} (m : Evaluator σ ν) (e : Expr) (s : σ) :
    (e.ignoreParensImplicit.eval m s).calls = (e.eval m s).calls := by
  fun_induction ignoreParensImplicit e with
  | case1 _ ih => exact ih
  | case2 _ _ _ ih => exact ih
  | case3 _ _ ih => exact ih
  | case4 e => rfl

namespace Assertion

variable (a : Assertion)

def expr : Expr := .paren (.binary a.op a.condition a.report)

/-- The condition as it is written, without a pair of parentheses around it. -/
def written : Expr := a.condition.unparenthesized

def reporting : Expr := .call a.callee [a.message, a.file, a.line] a.params

theorem op_eq : a.op = .lAnd ∨ a.op = .lOr := by
  have h := a.isLogical
  cases hop : a.op <;> first | exact Or.inl rfl | exact Or.inr rfl | exact nomatch hop ▸ h

theorem isAssertion_expr : a.expr.isAssertion = true :=
  Bool.and_eq_true_iff.2 ⟨a.isLogical,
    Expr.isAssertReport_iff.2 ⟨_, _, _, _, _, _, a.report_eq, a.isAssertFunction⟩⟩

theorem exists_of_isAssertion {e : Expr} (h : e.isAssertion = true) :
    ∃ a : Assertion, a.expr = e := by
  unfold Expr.isAssertion at h
  split at h
  · obtain ⟨hop, hreport⟩ := Bool.and_eq_true_iff.1 h
    obtain ⟨callee, message, file, line, params, value, heq, hcallee⟩ :=
      Expr.isAssertReport_iff.1 hreport
    exact ⟨⟨_, hop, _, _, callee, hcallee, message, file, line, params, value, heq⟩, rfl⟩
  · exact nomatch h

theorem printView_assertion (cx : PrintContext) :
    a.expr.printView cx .assertion = a.written.print cx ++ ", " ++ a.message.print cx := by
  show Expr.printView cx .unparenthesized a.condition ++ _ ++
    Expr.printView cx .message a.report = _
  rw [Expr.printView_unparenthesized, Expr.printView_message, a.report_eq]
  rfl

section
variable {σ ν : Type} (m : Evaluator σ ν) (s : σ)

theorem eval_written : a.written.eval m s = a.condition.eval m s := by
  unfold written
  cases a.condition <;> rfl

theorem reporting_mem_calls (s : σ) : a.reporting ∈ (a.report.eval m s).calls := by
  rw [← Expr.calls_ignoreParensImplicit, a.report_eq]
  exact List.mem_append_left _ (Expr.call_mem_calls m ..)

/-- Behind the condition the call is made for one of its two values. -/
theorem callsAfter_iff (ty : Ty) :
    ((Expr.cStyleCast ty a.expr).eval m s).CallsAfter (a.written.eval m s) a.reporting ↔
      m.isTrue (a.written.eval m s).value = (a.op == .lAnd) := by
  rw [eval_written]
  have hcalls : ((Expr.cStyleCast ty a.expr).eval m s).calls = (a.condition.eval m s).calls ++
      if m.isTrue (a.condition.eval m s).value = (a.op == .lAnd) then
        (a.report.eval m (a.condition.eval m s).state).calls
      else [] := by
    show ((Expr.binary a.op a.condition a.report).eval m s).calls = _
    rcases a.op_eq with hop | hop
    all_goals
      rw [hop, Expr.eval, Outcome.calls_andThen]
      cases m.isTrue (a.condition.eval m s).value <;> rfl
  unfold Outcome.CallsAfter
  rw [hcalls]
  split
  · next hvalue => exact iff_of_true ⟨_, rfl, a.reporting_mem_calls m _⟩ hvalue
  · next hvalue =>
    refine iff_of_false ?_ hvalue
    rintro ⟨later, heq, hmem⟩
    rw [← List.append_cancel_left heq] at hmem
    exact absurd hmem List.not_mem_nil

end

end Assertion

namespace Expr

variable (cx : PrintContext) {ty : Ty} (hty : ty.isVoid = true)
include hty

theorem text_cast_assertion (a : Assertion) : ((cStyleCast ty a.expr).print cx).text =
    "assert(" ++ (a.written.print cx).text ++ ", " ++ (a.message.print cx).text ++ ")" := by
  have hprint : (cStyleCast ty a.expr).print cx =
      "assert(" ++ a.expr.printView cx .assertion ++ ")" :=
    if_pos (Bool.and_eq_true_iff.2 ⟨hty, a.isAssertion_expr⟩)
  rw [hprint, a.printView_assertion]
  simp only [Printed.text_append, Printed.text_ofText, String.append_assoc]

/-- An assertion macro below a cast to `void` is written as an assertion of its condition with the
first argument of its call.  The call is made behind the condition exactly where that is false,
whatever the rest of the program does, exactly if the operator is `||`.  Any other operand is
written behind its cast. -/
theorem cast_void_assertion_iff :
    (∀ a : Assertion,
      ((cStyleCast ty a.expr).print cx).text =
        "assert(" ++ (a.written.print cx).text ++ ", " ++ (a.message.print cx).text ++ ")" ∧
      ∀ {σ ν : Type} (m : Evaluator σ ν) (s : σ),
        (((cStyleCast ty a.expr).eval m s).CallsAfter (a.written.eval m s) a.reporting ↔
          m.isTrue (a.written.eval m s).value = false) ↔ a.op = .lOr) ∧
    ∀ inner : Expr, (∀ a : Assertion, a.expr ≠ inner) →
      ((cStyleCast ty inner).print cx).text =
        "cast(" ++ ty.render cx.names ++ ")" ++ (inner.print cx).text := by
  refine ⟨fun a => ⟨text_cast_assertion cx hty a, fun m s => ?_⟩, fun inner hinner => ?_⟩
  · rw [a.callsAfter_iff m s]
    rcases a.op_eq with hop | hop
    all_goals
      rw [hop]
      cases m.isTrue (a.written.eval m s).value <;> decide
  · have hplain : ¬ (ty.isVoid && inner.isAssertion) = true := fun h =>
      have ⟨a, ha⟩ := Assertion.exists_of_isAssertion (Bool.and_eq_true_iff.1 h).2
      hinner a ha
    have hprint : (cStyleCast ty inner).print cx =
        ("cast(" ++ ty.render cx.names ++ ")") ++ inner.print cx := if_neg hplain
    rw [hprint]
    simp only [Printed.text_append, Printed.text_ofText]

end Expr

/-- A variable, and behind a logical operator the call that reports a failure. -/
def guardAssertion (op : BinaryOp) (hop : op.isLogical = true) (name : String) : Assertion where
  op := op
  isLogical := hop
  condition := .paren (.var name .bool)
  report := .paren (.binary .comma
    (.call (.var "_wassert" .void)
      [.stringLiteral "broken" true, .stringLiteral "a.h" true, .int 12] none) (.int 0))
  callee := .var "_wassert" .void
  isAssertFunction := by decide
  message := .stringLiteral "broken" true
  file := .stringLiteral "a.h" true
  line := .int 12
  params := none
  value := .int 0
  report_eq := rfl

/-- Behind `||` the report is made where the variable is false, in every program. -/
theorem okGuard_reports :
    let a := guardAssertion .lOr rfl "ok"
    Ty.void.isVoid = true ∧
    ((Expr.cStyleCast .void a.expr).print {}).text = "assert(ok, \"broken\")" ∧
    ((Expr.cStyleCast .void (.var "ok" .bool)).print {}).text = "cast(void)ok" ∧
    ∀ {σ ν : Type} (m : Evaluator σ ν) (s : σ),
      ((Expr.cStyleCast .void a.expr).eval m s).CallsAfter (a.written.eval m s) a.reporting ↔
        m.isTrue (a.written.eval m s).value = false := by
  intro a
  have hvoid : Ty.void.isVoid = true := rfl
  obtain ⟨hassertions, hothers⟩ := Expr.cast_void_assertion_iff {} hvoid
  obtain ⟨htext, hcalls⟩ := hassertions a
  refine ⟨hvoid, htext.trans (by decide +kernel), ?_, fun m s => (hcalls m s).2 rfl⟩
  rw [hothers (.var "ok" .bool) (fun a => nofun)]
  decide +kernel

/-- Every variable is true, and calls do nothing. -/
def trueVariables : Evaluator Unit Bool where
  isTrue := id
  ofBool := id
  isTrue_ofBool _ := rfl
  convert _ v := v
  operands _ s := ⟨[], s, []⟩
  invoke _ _ s := (true, s)
  other _ s := ⟨true, s, []⟩

/-- The expansion reports a guard that holds, and what is written reports one that does not. -/
theorem failedGuard_inverted :
    let a := guardAssertion .lAnd rfl "failed"
    ((Expr.cStyleCast .void a.expr).print {}).text = "assert(failed, \"broken\")" ∧
    ((Expr.cStyleCast .void a.expr).eval trueVariables ()).CallsAfter
      (a.written.eval trueVariables ()) a.reporting ∧
    trueVariables.isTrue (a.written.eval trueVariables ()).value = true ∧
    ¬ ∀ (a : Assertion) (m : Evaluator Unit Bool),
      ((Expr.cStyleCast .void a.expr).eval m ()).CallsAfter (a.written.eval m ()) a.reporting ↔
        m.isTrue (a.written.eval m ()).value = false := by
  intro a
  have hcalls : ((Expr.cStyleCast .void a.expr).eval trueVariables ()).CallsAfter
      (a.written.eval trueVariables ()) a.reporting := ⟨_, rfl, List.mem_cons_self⟩
  refine ⟨by decide +kernel, hcalls, rfl, fun h => ?_⟩
  exact absurd ((h a trueVariables).1 hcalls) (by decide)

end DBindings
