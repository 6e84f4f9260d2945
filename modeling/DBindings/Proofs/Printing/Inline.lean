import DBindings.Proofs.Printing.Quotes

/-!
# Code on one line

Names and spellings without line feeds are printed without line feeds.  The only line feeds in
printed code are those between statements.

* `Text.isInline`         no line feed;
* `Shows.inline`          code that is shown at every margin is on one line;
* `Expr.inline_print`     so are expressions;
* `LocalVar.inline_printAll`   and the variables of one declaration.
-/

set_option linter.unusedSectionVars false

namespace DBindings
open Text

/-- No line feed. -/
def Text.isInline (c : Char) : Bool := c != '\n'

theorem Text.admits_isInline : Admits isInline := fun _ hc => (Bool.and_eq_true_iff.1 hc).2

theorem Text.inline_of_not_mem {s : String} (h : '\n' ∉ s.toList) : All isInline s :=
  fun _ hc => bne_iff_ne.2 fun heq => h (heq ▸ hc)

theorem Literal.inline_string (value : String) : All isInline (string value) := by
  refine inline_of_not_mem ?_
  unfold string
  rw [String.toList_ofList]
  exact lineFeed_not_mem_quoted (by decide) (lineFeed_not_mem_stringBody _)

theorem Literal.inline_character (value : UInt32) (kind : CharKind) :
    All isInline (character value kind) := by
  refine all_append (inline_of_not_mem ?_) (by cases kind <;> decide)
  rw [String.toList_ofList]
  exact lineFeed_not_mem_quoted (by decide)
    (escaped_characterBody (characterValue value kind)).lineFeed_not_mem

theorem OverloadedOp.inline_memberName (op : OverloadedOp) (params : Nat) :
    All isInline (op.memberName params) := by
  rcases op.memberName_cases params with h | h <;> rw [h] <;> cases op <;> decide +kernel

/-- A line feed brings the margin with it, so there is none if the code is shorter than that. -/
theorem Shows.inline {cx : PrintContext} {pointer : Bool} {margin : Nat} {l : List Landmark}
    {a b : String} (h : Shows cx pointer isInline margin l a b)
    (hlength : a.toList.length ≤ 4 * margin) : All isInline a := by
  induction h with
  | code h => exact h
  | @lineBreak depth h =>
    unfold DBindings.lineBreak at hlength
    rw [String.toList_ofList, List.length_cons, List.length_replicate] at hlength
    omega
  | character value kind => exact Literal.inline_character value kind
  | string value => exact Literal.inline_string value
  | operator ref => exact ref.op.inline_memberName ref.params
  | null => decide
  | append _ _ iha ihb =>
    rw [String.toList_append, List.length_append] at hlength
    exact all_append (iha (by omega)) (ihb (by omega))

theorem inline_of_shows {cx : PrintContext} {pointer : Bool} {l : List Landmark} {a b : String}
    (h : ∀ margin, Shows cx pointer isInline margin l a b) : All isInline a :=
  (h a.toList.length).inline (by omega)

section
variable {cx : PrintContext} (hn : cx.names.Spelled (All isInline))
include hn

theorem Expr.inline_print {e : Expr} (h : e.Spelled (All isInline)) :
    All isInline (e.print cx).text :=
  inline_of_shows fun _ => shows_print admits_isInline hn id h

theorem LocalVar.inline_printAll {vars : List LocalVar}
    (h : ∀ v ∈ vars, v.Spelled (All isInline)) : All isInline (printAll cx vars).text :=
  inline_of_shows fun _ => shows_printAll admits_isInline hn id h

theorem CtorInitializer.inline_print? {init : CtorInitializer} (h : init.Spelled (All isInline))
    {code : Printed} (hcode : init.print? cx = some code) : All isInline code.text :=
  inline_of_shows fun _ => shows_print? admits_isInline hn h hcode

theorem inline_operandText {e : Option Expr} (h : ∀ x ∈ e, x.Spelled (All isInline)) :
    All isInline (Printer.operandText cx e).text :=
  inline_of_shows fun _ => shows_operandText admits_isInline hn id h

end

end DBindings
