import DBindings.Proofs.Printing.Quotes
import DBindings.Proofs.Text.Clauses

/-!
# The header of a loop

The header has three clauses.  Variables are written with semicolons between them, as in a block, so
each further one brings a clause of its own.

* `Expr.undivided_print`       the text of an expression divides nothing;
* `LocalVar.isClause_print`    the declaration of a variable is a clause;
* `ForInit.clauses`            the clauses that a loop begins with;
* `Stmt.header_clauses_iff`    the header has its three clauses exactly if it declares at most one
                               variable;
* `twoCounters_divided`        with two variables it has four.
-/

set_option linter.unusedSectionVars false

namespace DBindings
open Printed Text

theorem Printed.undivided_textAppend {p q : Printed} (hp : Undivided p.text)
    (hq : Undivided q.text) : Undivided (p ++ q).text := by
  rw [text_append]
  exact hp.append hq

theorem Printed.undivided_ofText {s : String} (h : Undivided s) : Undivided (ofText s).text := by
  rw [text_ofText]
  exact h

/-! ## Expressions -/

theorem Literal.undivided_string (value : String) : Undivided (string value) :=
  undivided_quoted (by decide) rfl (by decide) (within_stringBody value.toList) rfl

theorem Literal.undivided_character (value : UInt32) (kind : CharKind) :
    Undivided (character value kind) := by
  have hquoted : Undivided (quotedCharacter value kind) :=
    undivided_quoted (by decide) rfl (by decide) (within_characterBody _) rfl
  exact hquoted.append (by cases kind <;> decide)

theorem OverloadedOp.undivided_memberName (op : OverloadedOp) (params : Nat) :
    Undivided (op.memberName params) := by
  rcases op.memberName_cases params with h | h <;> rw [h] <;> cases op <;> decide +kernel

theorem Shows.undivided {cx : PrintContext} {pointer : Bool} {margin : Nat} {l : List Landmark}
    {a b : String} (h : Shows cx pointer isSpelling margin l a b) : Undivided a := by
  induction h with
  | code h => exact undivided_of_all h
  | lineBreak => exact undivided_of_all (all_lineBreak rfl rfl _)
  | character value kind => exact Literal.undivided_character value kind
  | string value => exact Literal.undivided_string value
  | operator ref => exact ref.op.undivided_memberName ref.params
  | null => exact (by decide : Undivided "null")
  | append _ _ iha ihb => exact iha.append ihb

section
variable {cx : PrintContext} (hn : cx.names.Spelled IsSpelling)
include hn

theorem Expr.undivided_print {e : Expr} (h : e.Spelled IsSpelling) :
    Undivided (e.print cx).text := by
  have hnames : cx.names.Spelled (All isSpelling) := hn.mono fun _ hs => hs.2
  have hshows : Shows cx cx.pointerReturn isSpelling 0 (landmarks cx .whole e)
      (e.print cx).text _ :=
    shows_printView admitsPhrases_isSpelling hnames id .whole e (h.mono fun _ hs => hs.2)
  exact hshows.undivided

theorem Expr.isClause_print {e : Expr} (h : e.Spelled IsSpelling) :
    IsClause (e.print cx).text := by
  have hnames : cx.names.Spelled Closed := hn.mono fun _ hs => hs.1
  exact (undivided_print hn h).isClause (closed_print hnames (h.mono fun _ hs => hs.1))

/-! ## Variables -/

namespace LocalVar

/-- The declaration of a variable divides nothing, unless a function stands in for a reference. -/
theorem undivided_print {v : LocalVar} (h : v.Spelled IsSpelling)
    (href : v.init.isSome = true → v.ty.isReference = false) : Undivided (v.print cx).text := by
  obtain ⟨hname, hty, hinit⟩ := h
  have hok := admitsPhrases_isSpelling
  have hnames : cx.names.Spelled (All isSpelling) := hn.mono fun _ hs => hs.2
  have hrender : All isSpelling (v.ty.render cx.names) :=
    Ty.all_render hok hnames fun s hs => (hty s hs).2
  have hstorage : All isSpelling (if v.isStatic then "__gshared static " else "") :=
    hok.all_ite _ (by decide)
  have hdeclared := undivided_ofText (undivided_of_all
    (all_append (all_append (all_append hstorage hrender) (by decide : All isSpelling " "))
      (Identifier.all_sanitize hok hname.2)))
  have hassigned := undivided_textAppend hdeclared
    (undivided_ofText (by decide : Undivided " = "))
  unfold print
  cases hvalue : v.init with
  | none => exact hdeclared
  | some init =>
    have hprint := Expr.undivided_print hn (hinit init hvalue)
    have hcall := undivided_textAppend (undivided_textAppend hassigned
      (undivided_ofText (undivided_of_all hrender))) (undivided_ofText (by decide : Undivided "("))
    have hplain : ¬ v.ty.isReference = true := by
      rw [href (hvalue ▸ rfl)]
      decide
    dsimp only
    rw [if_neg hplain]
    split
    · exact hdeclared
    · split
      · exact undivided_textAppend (undivided_textAppend hcall hprint)
          (undivided_ofText (by decide))
      · exact undivided_textAppend hassigned hprint
      · exact undivided_textAppend hassigned hprint

theorem isClause_print {v : LocalVar} (h : v.Spelled IsSpelling) : IsClause (v.print cx).text := by
  have hnames : cx.names.Spelled Closed := hn.mono fun _ hs => hs.1
  have hclosed : Closed (v.print cx).text := closed_print hnames (h.mono fun _ hs => hs.1)
  refine ⟨hclosed, ?_⟩
  cases hinit : v.init with
  | none => exact (undivided_print hn h fun hsome => by simp [hinit] at hsome).outer
  | some init =>
    cases href : v.ty.isReference with
    | false => exact (undivided_print hn h fun _ => href).outer
    | true =>
      let bare : LocalVar := { v with init := none }
      have hbare : bare.Spelled IsSpelling := ⟨h.1, h.2.1, nofun⟩
      have hopened := undivided_textAppend (undivided_print hn hbare nofun)
        (undivided_ofText (by decide : Undivided "() \x7b return "))
      have hleads : Leads [] ['\x7d'] (bare.print cx ++ ofText "() \x7b return ").text :=
        leads_append (closed_print hnames (hbare.mono fun _ hs => hs.1)) (leads_ofText (by decide))
      have hvalue : Closed (init.print cx).text :=
        Expr.closed_print hnames ((h.2.2 init hinit).mono fun _ hs => hs.1)
      have hbraces : Reading.outer ⟨['\x7d'], .code⟩ "; \x7d".toList = [] := by decide
      have hprint : v.print cx
          = bare.print cx ++ ofText "() \x7b return " ++ init.print cx ++ ofText "; \x7d" := by
        unfold print
        rw [hinit]
        exact if_pos href
      rw [hprint, text_append, text_append, text_ofText, outer_wrap hleads hvalue, hbraces,
        List.append_nil]
      exact hopened.outer

end LocalVar

end

/-! ## Headers -/

/-- What the header of a loop begins with. -/
inductive ForInit where
  | absent
  | expr (e : Expr)
  | decl (vars : List LocalVar)

namespace ForInit

def stmt? : ForInit → Option Stmt
  | absent => none
  | expr e => some (.expr e)
  | decl vars => some (.decl vars)

def declared : ForInit → List LocalVar
  | decl vars => vars
  | _ => []

/-- The first clause, and one more for each further variable. -/
def clauses (cx : PrintContext) : ForInit → List String
  | absent | decl [] => [""]
  | expr e => [(e.print cx).text]
  | decl (v :: vars) => (v.print cx).text :: vars.map fun v => " " ++ (v.print cx).text

theorem clauses_eq_singleton_iff (cx : PrintContext) (init : ForInit) :
    (∃ first, init.clauses cx = [first]) ↔ init.declared.length ≤ 1 := by
  match init with
  | absent | expr _ | decl [] | decl [_] =>
    exact iff_of_true ⟨_, rfl⟩ (by simp [declared])
  | decl (_ :: _ :: _) =>
    refine iff_of_false ?_ (by simp [declared])
    rintro ⟨first, h⟩
    exact absurd (congrArg List.length h) (by simp [clauses])

theorem text_printAll (cx : PrintContext) (v : LocalVar) (vars : List LocalVar) :
    (LocalVar.printAll cx (v :: vars)).text
      = String.intercalate ";" (clauses cx (decl (v :: vars))) := by
  induction vars generalizing v with
  | nil => exact (String.intercalate_singleton ..).symm
  | cons u vars ih =>
    have hblank : "; " = ";" ++ " " := rfl
    have hjoined : (LocalVar.printAll cx (v :: u :: vars)).text
        = (v.print cx).text ++ "; " ++ (LocalVar.printAll cx (u :: vars)).text := by
      show ((v.print cx) ++ ofText "; " ++ LocalVar.printAll cx (u :: vars)).text = _
      rw [text_append, text_append, text_ofText]
    show _ = String.intercalate ";" (_ :: (" " ++ _) :: vars.map _)
    rw [hjoined, ih, String.intercalate_cons_cons, String.intercalate_cons_append, hblank]
    simp only [String.append_assoc]
    rfl

def print (cx : PrintContext) : ForInit → Printed
  | absent => ""
  | expr e => e.print cx
  | decl vars => LocalVar.printAll cx vars

theorem text_print (cx : PrintContext) (init : ForInit) :
    (init.print cx).text = String.intercalate ";" (init.clauses cx) := by
  match init with
  | absent | expr _ | decl [] => exact (String.intercalate_singleton ..).symm
  | decl (v :: vars) => exact text_printAll cx v vars

theorem clauses_ne_nil (cx : PrintContext) (init : ForInit) : init.clauses cx ≠ [] := by
  match init with
  | absent | expr _ | decl [] | decl (_ :: _) => exact List.cons_ne_nil _ _

end ForInit

theorem Text.isClause_empty : IsClause "" := ⟨by decide, by decide⟩

section
variable {cx : PrintContext} (hn : cx.names.Spelled IsSpelling)
include hn

theorem ForInit.isClause_clauses {init : ForInit}
    (h : Stmt.SpelledOption IsSpelling init.stmt?) : ∀ t ∈ init.clauses cx, IsClause t := by
  match init, h with
  | absent, _ | decl [], _ => exact List.forall_mem_singleton.2 isClause_empty
  | expr e, h => exact List.forall_mem_singleton.2 (Expr.isClause_print hn h)
  | decl (v :: vars), h =>
    refine List.forall_mem_cons.2 ⟨LocalVar.isClause_print hn (h v List.mem_cons_self), ?_⟩
    intro t ht
    obtain ⟨u, hu, rfl⟩ := List.mem_map.1 ht
    exact (LocalVar.isClause_print hn (h u (List.mem_cons_of_mem _ hu))).space

theorem isClause_operandText {e : Option Expr} (h : ∀ x ∈ e, x.Spelled IsSpelling) :
    IsClause (Printer.operandText cx e).text := by
  cases e with
  | none => exact isClause_empty
  | some e =>
    show IsClause (ofText " " ++ e.print cx).text
    rw [text_append, text_ofText]
    exact (Expr.isClause_print hn (h e rfl)).space

end

theorem Stmt.text_forLoop (cx : PrintContext) (depth : Nat) (init : ForInit)
    (cond inc : Option Expr) (inside : Stmt) :
    ((forLoop init.stmt? cond inc inside).printAt cx depth).text =
      "for (" ++ String.intercalate ";" (init.clauses cx ++
        [(Printer.operandText cx cond).text, (Printer.operandText cx inc).text]) ++ ")" ++
        (bodyText depth inside fun d => inside.printAt cx d).text := by
  have hclauses : String.intercalate ";" (init.clauses cx ++
      [(Printer.operandText cx cond).text, (Printer.operandText cx inc).text]) =
      String.intercalate ";" (init.clauses cx) ++ ";" ++
        ((Printer.operandText cx cond).text ++ ";" ++ (Printer.operandText cx inc).text) := by
    rw [String.intercalate_append_of_ne_nil (init.clauses_ne_nil cx) (List.cons_ne_nil _ _),
      String.intercalate_cons_cons, String.intercalate_singleton]
  have hloop : (forLoop init.stmt? cond inc inside).printAt cx depth =
      Printer.forText cx depth (init.print cx) cond inc inside := by
    rw [Printer.printAt_forLoop]
    cases init <;> rfl
  rw [hloop, hclauses, ← init.text_print]
  unfold Printer.forText
  simp only [text_append, text_ofText, String.append_assoc]

/-- A header is read as the clauses that the loop begins with, condition and increment.  These are
three, with two semicolons between them, exactly if the loop declares at most one variable. -/
theorem Stmt.header_clauses_iff {cx : PrintContext} (depth : Nat) {init : ForInit}
    {cond inc : Option Expr} (inside : Stmt) (hn : cx.names.Spelled IsSpelling)
    (hinit : SpelledOption IsSpelling init.stmt?) (hcond : ∀ e ∈ cond, e.Spelled IsSpelling)
    (hinc : ∀ e ∈ inc, e.Spelled IsSpelling) :
    headerClauses ((forLoop init.stmt? cond inc inside).printAt cx depth).text
      = some (init.clauses cx ++
          [(Printer.operandText cx cond).text, (Printer.operandText cx inc).text]) ∧
    ((∃ first, headerClauses ((forLoop init.stmt? cond inc inside).printAt cx depth).text
        = some [first, (Printer.operandText cx cond).text, (Printer.operandText cx inc).text]) ↔
      init.declared.length ≤ 1) := by
  have hclauses : ∀ t ∈ init.clauses cx ++
      [(Printer.operandText cx cond).text, (Printer.operandText cx inc).text], IsClause t := by
    intro t ht
    rcases List.mem_append.1 ht with ht | ht
    · exact ForInit.isClause_clauses hn hinit t ht
    · rcases List.mem_cons.1 ht with rfl | ht
      · exact isClause_operandText hn hcond
      · rw [List.mem_singleton.1 ht]
        exact isClause_operandText hn hinc
  have hheader : headerClauses ((forLoop init.stmt? cond inc inside).printAt cx depth).text
      = some (init.clauses cx ++
          [(Printer.operandText cx cond).text, (Printer.operandText cx inc).text]) := by
    obtain ⟨t, ts, hts⟩ := List.exists_cons_of_ne_nil (init.clauses_ne_nil cx)
    rw [text_forLoop]
    rw [hts, List.cons_append] at hclauses ⊢
    exact headerClauses_intercalate hclauses _
  refine ⟨hheader, ?_⟩
  rw [hheader, ← init.clauses_eq_singleton_iff cx]
  refine exists_congr fun first => ?_
  rw [Option.some_inj]
  show _ = [first] ++ _ ↔ _
  exact List.append_left_inj _

/-- `int i = 0, j = 4`. -/
def twoCounters : ForInit :=
  .decl [{ name := "i", ty := .int, init := some (.int 0) },
    { name := "j", ty := .int, init := some (.int 4) }]

/-- `i < j`. -/
def belowSecond : Expr := .binary .lt (.var "i" .int) (.var "j" .int)

/-- `++i`. -/
def nextFirst : Expr := .unary .preInc (.var "i" .int)

theorem spelled_twoCounters :
    Stmt.SpelledOption IsSpelling twoCounters.stmt? ∧ belowSecond.Spelled IsSpelling ∧
      nextFirst.Spelled IsSpelling := by
  have hliteral : ∀ n : Int, (Expr.int n).Spelled IsSpelling := fun n =>
    .of_children (fun s hs => absurd hs List.not_mem_nil) fun e he => absurd he List.not_mem_nil
  have hvar : ∀ name, IsSpelling name → (Expr.var name .int).Spelled IsSpelling :=
    fun name hname => .var hname fun s hs => absurd hs List.not_mem_nil
  have hint : ∀ s ∈ Ty.int.spellings, IsSpelling s := fun s hs => absurd hs List.not_mem_nil
  refine ⟨?_, ?_, ?_⟩
  · refine List.forall_mem_cons.2 ⟨⟨by decide, hint, fun e he => ?_⟩,
      List.forall_mem_singleton.2 ⟨by decide, hint, fun e he => ?_⟩⟩
    · exact Option.some.inj he ▸ hliteral 0
    · exact Option.some.inj he ▸ hliteral 4
  · refine .of_children (fun s hs => absurd hs List.not_mem_nil) ?_
    exact List.forall_mem_cons.2 ⟨hvar "i" (by decide),
      List.forall_mem_singleton.2 (hvar "j" (by decide))⟩
  · refine .of_children (fun s hs => absurd hs List.not_mem_nil) ?_
    exact List.forall_mem_singleton.2 (hvar "i" (by decide))

/-- One of the three clauses too many. -/
theorem twoCounters_clauses_iff :
    headerClauses ((Stmt.forLoop twoCounters.stmt? (some belowSecond) (some nextFirst)
        (.compound [])).printAt {} 0).text
      = some (twoCounters.clauses {} ++ [" i < j", " ++i"]) ∧
    ((∃ first, headerClauses ((Stmt.forLoop twoCounters.stmt? (some belowSecond) (some nextFirst)
        (.compound [])).printAt {} 0).text = some [first, " i < j", " ++i"]) ↔
      twoCounters.declared.length ≤ 1) := by
  obtain ⟨hinit, hcond, hinc⟩ := spelled_twoCounters
  refine @Stmt.header_clauses_iff {} 0 twoCounters (some belowSecond) (some nextFirst)
    (.compound []) (fun entry h => absurd h List.not_mem_nil) hinit ?_ ?_
  · exact fun e he => Option.some.inj he ▸ hcond
  · exact fun e he => Option.some.inj he ▸ hinc

/-- The second variable is written as a clause of its own. -/
theorem twoCounters_divided :
    ((Stmt.forLoop twoCounters.stmt? (some belowSecond) (some nextFirst)
      (.compound [])).printAt {} 0).text
        = "for (int i = 0; int j = 4; i < j; ++i) \x7b\n\x7d" ∧
    ¬ ∀ (cx : PrintContext) (depth : Nat) (init : ForInit) (cond inc : Option Expr) (inside : Stmt),
      cx.names.Spelled IsSpelling → Stmt.SpelledOption IsSpelling init.stmt? →
      (∀ e ∈ cond, e.Spelled IsSpelling) → (∀ e ∈ inc, e.Spelled IsSpelling) →
      ∃ first, headerClauses ((Stmt.forLoop init.stmt? cond inc inside).printAt cx depth).text
        = some [first, (Printer.operandText cx cond).text, (Printer.operandText cx inc).text] := by
  have htext : ((Stmt.forLoop twoCounters.stmt? (some belowSecond) (some nextFirst)
      (.compound [])).printAt {} 0).text
        = "for (int i = 0; int j = 4; i < j; ++i) \x7b\n\x7d" := by rfl
  have hclauses : headerClauses "for (int i = 0; int j = 4; i < j; ++i) \x7b\n\x7d"
      = some ["int i = 0", " int j = 4", " i < j", " ++i"] := by decide
  refine ⟨htext, fun h => ?_⟩
  obtain ⟨hinit, hcond, hinc⟩ := spelled_twoCounters
  obtain ⟨first, hfirst⟩ := h {} 0 twoCounters (some belowSecond) (some nextFirst) (.compound [])
    (fun entry h => absurd h List.not_mem_nil) hinit (fun e he => Option.some.inj he ▸ hcond)
    fun e he => Option.some.inj he ▸ hinc
  rw [htext, hclauses] at hfirst
  exact absurd (congrArg List.length (Option.some.inj hfirst)) (by simp)

end DBindings
