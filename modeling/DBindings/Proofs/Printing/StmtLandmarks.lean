import DBindings.Proofs.Printing.ClosedStmts
import DBindings.Proofs.Printing.Landmarks

/-!
# Landmarks of printed statements

* `Stmt.landmarks`        the landmarks of a statement, in the order in which they are printed;
* `Stmt.shows_printAt`    a statement has its landmarks at any depth that has the margin;
* `CtorInitializer.shows_print?`   so is the initialization of a member.
-/

set_option linter.unusedSectionVars false

namespace DBindings
open Printed Text

/-- The landmarks of the declaration of a variable; a constructor call without arguments is not
printed. -/
def LocalVar.landmarks (cx : PrintContext) (v : LocalVar) : List Landmark :=
  match v.init with
  | none => []
  | some init =>
    if !v.ty.isReference && v.isDefaultConstructed init then []
    else Expr.landmarks cx .whole init

def CtorInitializer.landmarks (cx : PrintContext) (init : CtorInitializer) : List Landmark :=
  if init.member.isSome && (init.written && !init.inClassDefault) then
    Expr.landmarks { cx with inInitializer := true } .whole init.init
  else []

def operandLandmarks (cx : PrintContext) (e : Option Expr) : List Landmark :=
  e.elim [] (Expr.landmarks cx .whole)

namespace Stmt

mutual

def landmarks (cx : PrintContext) : Stmt → List Landmark
  | compound body => landmarksAll cx body
  | expr e => Expr.landmarks cx .whole e
  | decl vars => vars.flatMap (LocalVar.landmarks cx)
  | ret value => operandLandmarks cx value
  | ifThen cond yes no =>
    Expr.landmarks cx .whole cond ++ landmarks cx yes ++ landmarksOption cx no
  | whileLoop e body | switch e body | caseLabel e body =>
    Expr.landmarks cx .whole e ++ landmarks cx body
  | doLoop body e => landmarks cx body ++ Expr.landmarks cx .whole e
  | forLoop init cond inc body => landmarksOption cx init ++ operandLandmarks cx cond ++
      operandLandmarks cx inc ++ landmarks cx body
  | defaultLabel body | label _ body => landmarks cx body
  | goto _ | break_ | continue_ | null => []

def landmarksAll (cx : PrintContext) : List Stmt → List Landmark
  | [] => []
  | s :: rest => landmarks cx s ++ landmarksAll cx rest

def landmarksOption (cx : PrintContext) : Option Stmt → List Landmark
  | none => []
  | some s => landmarks cx s

end

end Stmt

section
variable {cx : PrintContext} {pointer : Bool} {ok : Char → Bool} {margin : Nat}
  {l : List Landmark}
  (hok : Admits ok) (hn : cx.names.Spelled (All ok))
  (hpointer : pointer = true → cx.pointerReturn = true)
include hok hn hpointer

theorem Expr.shows_print {e : Expr} (h : e.Spelled (All ok)) :
    Shows cx pointer ok margin (landmarks cx .whole e) (e.print cx).text
      (e.print (cx.returning pointer)).text :=
  shows_printView hok.phrases hn hpointer .whole e h

theorem LocalVar.shows_print {v : LocalVar} (h : v.Spelled (All ok)) :
    Shows cx pointer ok margin (v.landmarks cx) (v.print cx).text
      (v.print (cx.returning pointer)).text := by
  obtain ⟨hname, hty, hinit⟩ := h
  have hrender : All ok (v.ty.render cx.names) := Ty.all_render hok.phrases hn hty
  have hstorage : All ok (if v.isStatic then "__gshared static " else "") :=
    hok.phrases.all_ite _ (by decide)
  have hdeclared : All ok ((if v.isStatic then "__gshared static " else "") ++
      v.ty.render cx.names ++ " " ++ Identifier.sanitize v.name) :=
    all_append (all_append (all_append hstorage hrender) (hok.all (by decide)))
      (Identifier.all_sanitize hok.phrases hname)
  unfold landmarks print
  dsimp only
  cases hvalue : v.init with
  | none => exact .ofText hdeclared
  | some init =>
    have hprint : Shows cx pointer ok margin _ _ _ :=
      Expr.shows_print hok hn hpointer (hinit init hvalue)
    have hstart : Shows cx pointer ok margin [] _ _ := .ofText hdeclared
    have hassigned := hstart.textBehind (hok.all (by decide : All isOrdinary " = "))
    dsimp only
    by_cases href : v.ty.isReference = true
    · -- a function stands in for a reference
      rw [if_pos href, if_pos href, href]
      exact hstart.bracketed (hok.all (by decide)) hprint (hok.all (by decide))
    rw [if_neg href, if_neg href, eq_false_of_ne_true href, Bool.not_false, Bool.true_and]
    split
    · exact hstart
    · split
      · exact (hassigned.textBehind hrender).bracketed (hok.all (by decide)) hprint
          (hok.all (by decide))
      · exact hassigned.textAppend hprint
      · exact hassigned.textAppend hprint

theorem LocalVar.shows_printAll {vars : List LocalVar} (h : ∀ v ∈ vars, v.Spelled (All ok)) :
    Shows cx pointer ok margin (vars.flatMap (LocalVar.landmarks cx)) (printAll cx vars).text
      (printAll (cx.returning pointer) vars).text := by
  have hall : ShowsAll cx pointer ok margin (vars.flatMap (LocalVar.landmarks cx))
      (vars.map (print cx)) (vars.map (print (cx.returning pointer))) := by
    induction vars with
    | nil => exact .nil
    | cons v vars ih =>
      exact .cons (shows_print hok hn hpointer (h v List.mem_cons_self))
        (ih fun x hx => h x (List.mem_cons_of_mem _ hx))
  exact hall.joined hok.phrases (hok.all (by decide))

theorem shows_operandText {e : Option Expr} (h : ∀ x ∈ e, x.Spelled (All ok)) :
    Shows cx pointer ok margin (operandLandmarks cx e) (Printer.operandText cx e).text
      (Printer.operandText (cx.returning pointer) e).text := by
  cases e with
  | none => exact .ofText hok.phrases.all_empty
  | some e => exact (Expr.shows_print hok hn hpointer (h e rfl)).textBefore (hok.all (by decide))

namespace Stmt

omit hn hpointer

omit hok in
theorem shows_newLine {depth : Nat} (hdepth : margin ≤ depth) : Shows cx pointer ok margin []
    (ofText (lineBreak depth)).text (ofText (lineBreak depth)).text := by
  rw [text_ofText]
  exact .lineBreak hdepth

theorem shows_bodyText {depth : Nat} (hdepth : margin ≤ depth) (body : Stmt)
    {code code' : Nat → Printed}
    (h : ∀ d, margin ≤ d → Shows cx pointer ok margin l (code d).text (code' d).text) :
    Shows cx pointer ok margin l (bodyText depth body code).text
      (bodyText depth body code').text := by
  unfold bodyText
  split
  · exact (h depth hdepth).textBefore (hok.all (by decide))
  · have hdeep : margin ≤ depth + 1 := Nat.le_succ_of_le hdepth
    exact .textAppend (shows_newLine hdeep) (h (depth + 1) hdeep)

theorem shows_joint {depth : Nat} (hdepth : margin ≤ depth) (body : Stmt) {word : String}
    (hword : All isOrdinary word) : Shows cx pointer ok margin []
      (ofText (joint depth body) ++ ofText word).text
      (ofText (joint depth body) ++ ofText word).text := by
  refine .textBehind ?_ (hok.all hword)
  unfold joint
  split
  · exact .ofText (hok.all (by decide))
  · exact shows_newLine hdepth

include hn hpointer

theorem shows_control {a b : String} (ha : All isOrdinary a) (hb : All isOrdinary b) {e : Expr}
    (he : e.Spelled (All ok)) {depth : Nat} (hdepth : margin ≤ depth) (body : Stmt)
    {code code' : Nat → Printed}
    (h : ∀ d, margin ≤ d → Shows cx pointer ok margin l (code d).text (code' d).text) :
    Shows cx pointer ok margin (Expr.landmarks cx .whole e ++ l)
      (ofText a ++ e.print cx ++ ofText b ++ bodyText depth body code).text
      (ofText a ++ e.print (cx.returning pointer) ++ ofText b ++ bodyText depth body code').text :=
  (Shows.between (hok.all ha) (Expr.shows_print hok hn hpointer he) (hok.all hb)).textAppend
    (shows_bodyText hok hdepth body h)

theorem shows_forText {depth : Nat} (hdepth : margin ≤ depth) {first first' : Printed}
    {cond inc : Option Expr} {body : Stmt}
    (hfirst : Shows cx pointer ok margin l first.text first'.text)
    (hcond : ∀ e ∈ cond, e.Spelled (All ok)) (hinc : ∀ e ∈ inc, e.Spelled (All ok))
    (hbody : ∀ d, margin ≤ d → Shows cx pointer ok margin (body.landmarks cx)
      (body.printAt cx d).text (body.printAt (cx.returning pointer) d).text) :
    Shows cx pointer ok margin
      (l ++ operandLandmarks cx cond ++ operandLandmarks cx inc ++ body.landmarks cx)
      (Printer.forText cx depth first cond inc body).text
      (Printer.forText (cx.returning pointer) depth first' cond inc body).text := by
  have hsemicolon : All ok ";" := hok.all (by decide)
  have hinit := Shows.between (hok.all (by decide : All _ "for (")) hfirst hsemicolon
  have htest := (hinit.textAppend (shows_operandText hok hn hpointer hcond)).textBehind hsemicolon
  have hheader := (htest.textAppend (shows_operandText hok hn hpointer hinc)).textBehind
    (hok.all (by decide : All _ ")"))
  exact hheader.textAppend (shows_bodyText hok hdepth body hbody)

mutual

theorem shows_printAt {depth : Nat} (hdepth : margin ≤ depth) :
    (s : Stmt) → s.Spelled (All ok) → Shows cx pointer ok margin (s.landmarks cx)
      (s.printAt cx depth).text (s.printAt (cx.returning pointer) depth).text
  | compound body, h => by
    have hinside := shows_printBlock (Nat.le_succ_of_le hdepth) body h
    have hbody := (hinside.appendPlain (.lineBreak hdepth)).before
      (hok.all (by decide : All _ "\x7b"))
    rw [text_compound, text_compound]
    exact hbody.behind (hok.all (by decide))
  | expr e, h => (Expr.shows_print hok hn hpointer h).textBehind (hok.all (by decide))
  | decl vars, h => (LocalVar.shows_printAll hok hn hpointer h).textBehind (hok.all (by decide))
  | ret none, _ => .ofText (hok.all (by decide))
  | ret (some value), h =>
    .between (hok.all (by decide)) (Expr.shows_print hok hn hpointer (h value rfl))
      (hok.all (by decide))
  | ifThen cond yes none, ⟨hcond, hyes, _⟩ => by
    have hthen := shows_control hok hn hpointer (by decide : All _ "if (") (by decide : All _ ")")
      hcond hdepth yes fun d hd => shows_printAt hd yes hyes
    unfold landmarks landmarksOption printAt
    rw [List.append_nil]
    exact hthen
  | ifThen cond yes (some no), ⟨hcond, hyes, hno⟩ => by
    have hthen := shows_control hok hn hpointer (by decide : All _ "if (") (by decide : All _ ")")
      hcond hdepth yes fun d hd => shows_printAt hd yes hyes
    have helse := fun d (hd : margin ≤ d) => shows_printAt hd no hno
    unfold landmarks landmarksOption printAt
    refine (hthen.textAppendPlain (shows_joint hok hdepth yes (by decide))).textAppend ?_
    split
    · exact (helse depth hdepth).textBefore (hok.all (by decide))
    · exact shows_bodyText hok hdepth no helse
  | whileLoop cond body, ⟨hcond, hbody⟩ => by
    unfold landmarks printAt
    exact shows_control hok hn hpointer (by decide) (by decide) hcond hdepth body
      fun d hd => shows_printAt hd body hbody
  | doLoop body cond, ⟨hcond, hbody⟩ => by
    have hdo := (shows_bodyText hok hdepth body fun d hd => shows_printAt hd body hbody).textBefore
      (hok.all (by decide : All _ "do"))
    have hwhile := hdo.textAppendPlain (shows_joint hok hdepth body (by decide : All _ "while ("))
    unfold landmarks printAt
    exact (hwhile.textAppend (Expr.shows_print hok hn hpointer hcond)).textBehind
      (hok.all (by decide))
  | forLoop none cond inc body, ⟨_, hcond, hinc, hbody⟩ => by
    unfold landmarks
    rw [Printer.printAt_forLoop, Printer.printAt_forLoop]
    exact shows_forText hok hn hpointer hdepth (.ofText hok.phrases.all_empty) hcond hinc
      fun d hd => shows_printAt hd body hbody
  | forLoop (some first) cond inc body, ⟨hinit, hcond, hinc, hbody⟩ => by
    have hfirst := shows_printAt hdepth first hinit
    have hfor {code code' : Printed}
        (hcode : Shows cx pointer ok margin (first.landmarks cx) code.text code'.text) :=
      shows_forText hok hn hpointer hdepth hcode hcond hinc
        fun d hd => shows_printAt hd body hbody
    unfold landmarks landmarksOption
    rw [Printer.printAt_forLoop, Printer.printAt_forLoop]
    cases first
    case decl vars => exact hfor (LocalVar.shows_printAll hok hn hpointer hinit)
    case expr e => exact hfor (Expr.shows_print hok hn hpointer hinit)
    all_goals exact hfor hfirst
  | switch cond body, ⟨hcond, hbody⟩ => by
    unfold landmarks printAt
    exact shows_control hok hn hpointer (by decide) (by decide) hcond hdepth body
      fun d hd => shows_printAt hd body hbody
  | caseLabel value body, ⟨hvalue, hbody⟩ => by
    unfold landmarks printAt
    exact shows_control hok hn hpointer (by decide) (by decide) hvalue hdepth body
      fun d hd => shows_printAt hd body hbody
  | defaultLabel body, h => by
    unfold landmarks printAt
    exact (shows_bodyText hok hdepth body fun d hd => shows_printAt hd body h).textBefore
      (hok.all (by decide))
  | label name body, ⟨hname, hbody⟩ => by
    have hlabel : Shows cx pointer ok margin [] (ofText name ++ ofText ":").text _ :=
      .textBehind (.ofText hname) (hok.all (by decide))
    unfold landmarks printAt
    exact (hlabel.textAppend (shows_newLine hdepth)).textAppend (shows_printAt hdepth body hbody)
  | goto name, h => by
    unfold landmarks printAt
    exact .between (hok.all (by decide)) (.ofText h) (hok.all (by decide))
  | break_, _ | continue_, _ | null, _ => .ofText (hok.all (by decide))

theorem shows_printBlock {depth : Nat} (hdepth : margin ≤ depth) :
    (ss : List Stmt) → SpelledAll (All ok) ss → Shows cx pointer ok margin (landmarksAll cx ss)
      (printBlock cx depth ss).text (printBlock (cx.returning pointer) depth ss).text
  | [], _ => .ofText hok.phrases.all_empty
  | s :: rest, ⟨hs, hrest⟩ => by
    have hstatement := shows_printAt hdepth s hs
    have hrest := shows_printBlock hdepth rest hrest
    exact ((shows_newLine hdepth).textAppend hstatement).textAppend hrest

end

end Stmt

omit hpointer in
theorem CtorInitializer.shows_print? {init : CtorInitializer} (h : init.Spelled (All ok))
    {code : Printed} (hcode : init.print? cx = some code) :
    Shows { cx with inInitializer := true } cx.pointerReturn ok margin (init.landmarks cx)
      code.text code.text := by
  unfold print? at hcode
  unfold landmarks
  split at hcode
  · next member hmember =>
    obtain ⟨hwritten, hcode⟩ := Option.ite_none_right_eq_some.1 hcode
    rw [hmember, if_pos (by simpa using hwritten), ← Option.some.inj hcode]
    have hname := Identifier.all_sanitize hok.phrases (h.1 member hmember)
    have hnames : ({ cx with inInitializer := true } : PrintContext).names.Spelled (All ok) := hn
    refine .textBehind (.textAppend (l := []) ?_ (Expr.shows_print hok hnames id h.2))
      (hok.all (by decide))
    exact .textBehind (.ofText hname) (hok.all (by decide))
  · exact nomatch hcode

end

end DBindings
