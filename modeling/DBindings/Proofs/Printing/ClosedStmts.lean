import DBindings.Proofs.Printing.ClosedExprs
import DBindings.Proofs.Printing.Printer

/-!
# Statements are closed texts

A statement closes the brackets that it opens, and a block is one pair of braces around a closed
text.

* `LocalVar.closed_print`          the declaration of a variable;
* `Stmt.closed_printAt`            a statement at any depth;
* `PrintContext.closed_of_plain`   trees without brackets and quotes in their spellings.
-/

set_option linter.unusedSectionVars false

namespace DBindings
open Printed

theorem closed_lineBreak (depth : Nat) : Closed (lineBreak depth) := by
  refine closed_of_isPlain fun c hc => ?_
  unfold lineBreak at hc
  rw [String.toList_ofList] at hc
  rcases List.mem_cons.1 hc with rfl | hc
  · decide
  · rw [List.eq_of_mem_replicate hc]
    decide +kernel

namespace LocalVar

section
variable {cx : PrintContext} (hn : cx.names.Spelled Closed)
include hn

theorem closed_print {v : LocalVar} (h : v.Spelled Closed) : Closed (v.print cx).text := by
  obtain ⟨hname, hty, hinit⟩ := h
  have hrender : Closed (v.ty.render cx.names) := Ty.closed_render hn hty
  have hstorage : Closed (if v.isStatic then "__gshared static " else "") := by
    cases v.isStatic <;> decide +kernel
  have hdeclared : Closed ((if v.isStatic then "__gshared static " else "") ++
      v.ty.render cx.names ++ " " ++ Identifier.sanitize v.name) :=
    closed_append (closed_append (closed_append hstorage hrender) (by decide))
      (Identifier.closed_sanitize hname)
  unfold print
  dsimp only
  split
  · exact closed_ofText hdeclared
  · next init heq =>
    have hvalue : Closed (init.print cx).text := Expr.closed_print hn (hinit init heq)
    have hstart : Closed (ofText ((if v.isStatic then "__gshared static " else "") ++
        v.ty.render cx.names ++ " " ++ Identifier.sanitize v.name)).text := closed_ofText hdeclared
    have hassigned := closed_textAppend hstart (closed_ofText (by decide : Closed " = "))
    split
    · -- a function stands in for a reference
      exact closed_behind hstart (by decide : Leads [] ['\x7d'] "() \x7b return ") hvalue
        (by decide)
    · split
      · exact hstart
      · split
        · exact closed_behind (closed_textAppend hassigned (closed_ofText hrender))
            (by decide : Leads [] [')'] "(") hvalue (by decide)
        · exact closed_textAppend hassigned hvalue
        · exact closed_textAppend hassigned hvalue

theorem closed_printAll {vars : List LocalVar} (h : ∀ v ∈ vars, v.Spelled Closed) :
    Closed (printAll cx vars).text := by
  refine closed_joined (by decide) fun p hp => ?_
  obtain ⟨v, hv, rfl⟩ := List.mem_map.1 hp
  exact closed_print hn (h v hv)

end

end LocalVar

namespace Stmt

theorem closed_bodyText (depth : Nat) (body : Stmt) {code : Nat → Printed}
    (h : ∀ d, Closed (code d).text) : Closed (bodyText depth body code).text := by
  unfold bodyText
  split
  · exact closed_textAppend (closed_ofText (by decide)) (h depth)
  · exact closed_textAppend (closed_ofText (closed_lineBreak _)) (h (depth + 1))

theorem closed_joint (depth : Nat) (body : Stmt) : Closed (joint depth body) := by
  unfold joint
  split
  · decide
  · exact closed_lineBreak depth

theorem text_compound (cx : PrintContext) (depth : Nat) (body : List Stmt) :
    ((compound body).printAt cx depth).text =
      "\x7b" ++ ((printBlock cx (depth + 1) body).text ++ lineBreak depth) ++ "\x7d" := by
  unfold printAt
  simp only [text_append, text_ofText, String.append_assoc]

section
variable {cx : PrintContext} (hn : cx.names.Spelled Closed)
include hn

theorem closed_control {a : String} (ha : Leads [] [')'] a) {e : Expr} (he : e.Spelled Closed)
    (depth : Nat) (body : Stmt) {code : Nat → Printed} (h : ∀ d, Closed (code d).text) :
    Closed (ofText a ++ e.print cx ++ ofText ")" ++ bodyText depth body code).text :=
  closed_textAppend (closed_between ha (Expr.closed_print hn he) (by decide))
    (closed_bodyText depth body h)

theorem closed_operandText {e : Option Expr} (h : ∀ x ∈ e, x.Spelled Closed) :
    Closed (Printer.operandText cx e).text := by
  cases e with
  | none => exact closed_ofText closed_empty
  | some e => exact closed_textAppend (closed_ofText (by decide)) (Expr.closed_print hn (h e rfl))

theorem closed_forText (depth : Nat) {first : Printed} {cond inc : Option Expr} {body : Stmt}
    (hfirst : Closed first.text) (hcond : ∀ e ∈ cond, e.Spelled Closed)
    (hinc : ∀ e ∈ inc, e.Spelled Closed) (hbody : ∀ d, Closed (body.printAt cx d).text) :
    Closed (Printer.forText cx depth first cond inc body).text := by
  have hsemicolon : Leads [')'] [')'] (ofText ";").text := leads_ofText (by decide)
  have hopen : Leads [] [')'] (ofText "for (").text := leads_ofText (by decide)
  have hinit := leads_append (leads_append hopen (hfirst.leads [')'])) hsemicolon
  have htest := leads_append (leads_append hinit ((closed_operandText hn hcond).leads [')']))
    hsemicolon
  have hheader := leads_append htest ((closed_operandText hn hinc).leads [')'])
  have hclose : Leads [')'] [] (ofText ")").text := leads_ofText (by decide)
  unfold Printer.forText
  exact closed_textAppend (leads_append hheader hclose) (closed_bodyText depth body hbody)

mutual

theorem closed_printAt (depth : Nat) :
    (s : Stmt) → s.Spelled Closed → Closed (s.printAt cx depth).text
  | compound body, h => by
    have hinside := closed_append (closed_printBlock (depth + 1) body h) (closed_lineBreak depth)
    rw [text_compound]
    exact closed_wrap (by decide : Leads [] ['\x7d'] "\x7b") hinside (by decide)
  | expr e, h => closed_textAppend (Expr.closed_print hn h) (closed_ofText (by decide))
  | decl vars, h => closed_textAppend (LocalVar.closed_printAll hn h) (closed_ofText (by decide))
  | ret none, _ => closed_ofText (by decide)
  | ret (some value), h =>
    closed_between (by decide : Leads [] [] "return ") (Expr.closed_print hn (h value rfl))
      (by decide)
  | ifThen cond yes none, ⟨hcond, hyes, _⟩ => by
    unfold printAt
    exact closed_control hn (by decide : Leads [] [')'] "if (") hcond depth yes
      fun d => closed_printAt d yes hyes
  | ifThen cond yes (some no), ⟨hcond, hyes, hno⟩ => by
    have hthen := closed_control hn (by decide : Leads [] [')'] "if (") hcond depth yes
      fun d => closed_printAt d yes hyes
    have helse := fun d => closed_printAt d no hno
    unfold printAt
    have hword := closed_textAppend (closed_ofText (closed_joint depth yes))
      (closed_ofText (by decide : Closed "else"))
    refine closed_textAppend (closed_textAppend hthen hword) ?_
    split
    · exact closed_textAppend (closed_ofText (by decide)) (helse depth)
    · exact closed_bodyText depth no helse
  | whileLoop cond body, ⟨hcond, hbody⟩ => by
    unfold printAt
    exact closed_control hn (by decide : Leads [] [')'] "while (") hcond depth body
      fun d => closed_printAt d body hbody
  | doLoop body cond, ⟨hcond, hbody⟩ => by
    have hdo := closed_textAppend (closed_ofText (by decide : Closed "do"))
      (closed_bodyText depth body fun d => closed_printAt d body hbody)
    have hwhile := leads_append ((closed_ofText (closed_joint depth body)).leads [])
      (leads_ofText (by decide : Leads [] [')'] "while ("))
    have hcond := (Expr.closed_print hn hcond).leads [')']
    unfold printAt
    exact leads_append (leads_append (leads_append hdo hwhile) hcond) (leads_ofText (by decide))
  | forLoop none cond inc body, ⟨_, hcond, hinc, hbody⟩ => by
    rw [Printer.printAt_forLoop]
    exact closed_forText hn depth (closed_ofText closed_empty) hcond hinc
      fun d => closed_printAt d body hbody
  | forLoop (some first) cond inc body, ⟨hinit, hcond, hinc, hbody⟩ => by
    have hfirst := closed_printAt depth first hinit
    have hfor {code : Printed} (hcode : Closed code.text) :=
      closed_forText hn depth hcode hcond hinc fun d => closed_printAt d body hbody
    rw [Printer.printAt_forLoop]
    cases first
    case decl vars => exact hfor (LocalVar.closed_printAll hn hinit)
    case expr e => exact hfor (Expr.closed_print hn hinit)
    all_goals exact hfor hfirst
  | switch cond body, ⟨hcond, hbody⟩ => by
    unfold printAt
    exact closed_control hn (by decide : Leads [] [')'] "switch (") hcond depth body
      fun d => closed_printAt d body hbody
  | caseLabel value body, ⟨hvalue, hbody⟩ => by
    have hcase := closed_between (by decide : Leads [] [] "case ") (Expr.closed_print hn hvalue)
      (by decide : Leads [] [] ":")
    unfold printAt
    exact closed_textAppend hcase
      (closed_bodyText depth body fun d => closed_printAt d body hbody)
  | defaultLabel body, h => by
    unfold printAt
    exact closed_textAppend (closed_ofText (by decide))
      (closed_bodyText depth body fun d => closed_printAt d body h)
  | label name body, ⟨hname, hbody⟩ => by
    have hlabel := closed_textAppend (closed_textAppend (closed_ofText hname)
      (closed_ofText (by decide : Closed ":"))) (closed_ofText (closed_lineBreak depth))
    unfold printAt
    exact closed_textAppend hlabel (closed_printAt depth body hbody)
  | goto name, h => by
    unfold printAt
    exact closed_between (by decide : Leads [] [] "goto ") (closed_ofText h) (by decide)
  | break_, _ | continue_, _ | null, _ => closed_ofText (by decide)

theorem closed_printBlock (depth : Nat) :
    (ss : List Stmt) → SpelledAll Closed ss → Closed (printBlock cx depth ss).text
  | [], _ => closed_ofText closed_empty
  | s :: rest, ⟨hs, hrest⟩ =>
    closed_textAppend (closed_textAppend (closed_ofText (closed_lineBreak depth))
      (closed_printAt depth s hs)) (closed_printBlock depth rest hrest)

end

end

end Stmt

/-! ## What a printer hands out -/

def CtorInitializer.Spelled (P : String → Prop) (init : CtorInitializer) : Prop :=
  (∀ member ∈ init.member, P member) ∧ init.init.Spelled P

theorem CtorInitializer.Spelled.mono {P Q : String → Prop} (hPQ : ∀ s, P s → Q s)
    {init : CtorInitializer} (h : init.Spelled P) : init.Spelled Q :=
  ⟨fun member hm => hPQ _ (h.1 member hm), Expr.Spelled.mono hPQ h.2⟩

theorem CtorInitializer.closed_print? {cx : PrintContext} (hn : cx.names.Spelled Closed)
    {init : CtorInitializer} (h : init.Spelled Closed) :
    ∀ code ∈ init.print? cx, Closed code.text := by
  intro code hcode
  unfold print? at hcode
  split at hcode
  · next member hmember =>
    split at hcode
    · rw [← Option.some.inj hcode]
      have hname := closed_ofText (Identifier.closed_sanitize (h.1 member hmember))
      have hstart := closed_textAppend hname (closed_ofText (by decide : Closed " = "))
      have hnames : ({ cx with inInitializer := true } : PrintContext).names.Spelled Closed := hn
      have hvalue := Expr.closed_print hnames h.2
      exact closed_textAppend (closed_textAppend hstart hvalue) (closed_ofText (by decide))
    · exact nomatch hcode
  · exact nomatch hcode

namespace PrintContext

/-- If names and spellings have no brackets and quotes, then every bracket and literal in the text
of an expression, statement or initializer ends there, whatever stands in the literals and wherever
the text will stand.  A block is such a text between two braces. -/
theorem closed_of_plain (cx : PrintContext) (hn : cx.names.Spelled Plain) :
    (∀ e : Expr, e.Spelled Plain → Closed (e.print cx).text) ∧
    (∀ s : Stmt, s.Spelled Plain → Closed (s.print cx).text) ∧
    (∀ body : List Stmt, (Stmt.compound body).Spelled Plain → ∃ inside, Closed inside ∧
      ((Stmt.compound body).print cx).text = "\x7b" ++ inside ++ "\x7d") ∧
    ∀ init : CtorInitializer, init.Spelled Plain →
      ∀ code ∈ init.print? cx, Closed code.text := by
  have hplain : ∀ s, Plain s → Closed s := fun _ hs => hs.closed
  have hnames : cx.names.Spelled Closed := fun entry he => hplain _ (hn entry he)
  refine ⟨fun e h => ?_, fun s h => ?_, fun body h => ?_, fun init h => ?_⟩
  · exact Expr.closed_print hnames (Expr.Spelled.mono hplain h)
  · exact Stmt.closed_printAt hnames 0 s (Stmt.Spelled.mono hplain s h)
  · have hbody : Stmt.SpelledAll Closed body := Stmt.SpelledAll.mono hplain body h
    refine ⟨_, closed_append (Stmt.closed_printBlock hnames 1 body hbody) (closed_lineBreak 0), ?_⟩
    exact Stmt.text_compound cx 0 body
  · exact CtorInitializer.closed_print? hnames (h.mono hplain)

/-- Brackets and quotes in a literal are none of the text around it. -/
theorem closed_quoted :
    let block : Stmt := .compound [.ret (some (.stringLiteral "]\"\x7b" false))]
    let cx : PrintContext := { names := { records := [(1, "Point")] }, pointerReturn := true }
    cx.names.Spelled Plain ∧ block.Spelled Plain ∧
    (block.print cx).text = "\x7b\n    return \"]\\\"\x7b\";\n\x7d" ∧
    Closed (block.print cx).text ∧
    ∃ inside, Closed inside ∧ (block.print cx).text = "\x7b" ++ inside ++ "\x7d" := by
  intro block cx
  have hnames : cx.names.Spelled Plain := fun entry he => by
    rw [List.mem_singleton.1 he]
    decide
  have hblock : block.Spelled Plain := by
    refine ⟨fun e he => ?_, trivial⟩
    rw [← Option.some.inj he]
    exact .of_children (fun s hs => absurd hs List.not_mem_nil) fun c hc =>
      absurd hc List.not_mem_nil
  obtain ⟨-, hclosed, hbraces, -⟩ := closed_of_plain cx hnames
  exact ⟨hnames, hblock, by decide +kernel, hclosed block hblock, hbraces _ hblock⟩

end PrintContext

end DBindings
