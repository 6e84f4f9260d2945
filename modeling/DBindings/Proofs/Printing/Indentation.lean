import DBindings.Proofs.Printing.Inline
import DBindings.Proofs.Tree.Frames

/-!
# The margin of a statement

A statement at some depth is printed as at depth zero, with four spaces for each level behind every
line feed.  So a statement is printed from the texts of its sub-statements, and each of them is
moved by as many levels as there are statements around it that indent what is in them.

* `Text.shifted`            a text with spaces behind every line feed;
* `Stmt.shifts_printAt`     a statement at a depth is the statement at a smaller one, shifted;
* `Stmt.exists_printAt_within`   a statement is printed where it stands in the statement around it;
* `Stmt.text_within`        the text of a statement inside another one.
-/

set_option linter.unusedSectionVars false

namespace DBindings
open Printed Text

/-! ## Shifted texts -/

/-- A text with four spaces for each level behind every line feed. -/
def Text.shifted (levels : Nat) (s : String) : String :=
  String.ofList (s.toList.flatMap fun c =>
    if c = '\n' then c :: List.replicate (4 * levels) ' ' else [c])

namespace Text

theorem shifted_append (levels : Nat) (a b : String) :
    shifted levels (a ++ b) = shifted levels a ++ shifted levels b := by
  unfold shifted
  rw [String.toList_append, List.flatMap_append, String.ofList_append]

theorem shifted_of_inline {s : String} (h : All isInline s) (levels : Nat) :
    shifted levels s = s := by
  have hchar : ∀ c ∈ s.toList,
      (if c = '\n' then c :: List.replicate (4 * levels) ' ' else [c]) = [c] := fun c hc =>
    if_neg (bne_iff_ne.1 (h c hc))
  unfold shifted
  rw [List.flatMap_congr hchar, List.flatMap_singleton', String.ofList_toList]

theorem shifted_lineBreak (levels depth : Nat) :
    shifted levels (lineBreak depth) = lineBreak (depth + levels) := by
  have hspaces : (List.replicate (4 * depth) ' ').flatMap (fun c =>
      if c = '\n' then c :: List.replicate (4 * levels) ' ' else [c]) =
        List.replicate (4 * depth) ' ' := by
    rw [List.flatMap_congr fun c hc => if_neg (by
      rw [List.eq_of_mem_replicate hc]
      decide), List.flatMap_singleton']
  unfold shifted lineBreak
  rw [String.toList_ofList, List.flatMap_cons, if_pos rfl, hspaces, List.cons_append,
    List.replicate_append_replicate, Nat.mul_add, Nat.add_comm]

end Text

/-- Two printed codes that differ by the margin only. -/
def Shifts (levels : Nat) (a b : Printed) : Prop := b.text = shifted levels a.text

section
variable {levels depth : Nat} {a b a' b' : Printed}

theorem shifts_append (ha : Shifts levels a a') (hb : Shifts levels b b') :
    Shifts levels (a ++ b) (a' ++ b') := by
  unfold Shifts
  rw [text_append, text_append, shifted_append, ha, hb]

theorem shifts_inline (h : All isInline a.text) : Shifts levels a a :=
  (shifted_of_inline h levels).symm

theorem shifts_ofText {s : String} (h : All isInline s) : Shifts levels (ofText s) (ofText s) :=
  shifts_inline (by rwa [text_ofText])

theorem shifts_lineBreak (levels depth : Nat) :
    Shifts levels (ofText (lineBreak depth)) (ofText (lineBreak (depth + levels))) := by
  unfold Shifts
  rw [text_ofText, text_ofText, shifted_lineBreak]

namespace Stmt

theorem shifts_joint (levels depth : Nat) (s : Stmt) :
    Shifts levels (ofText (joint depth s)) (ofText (joint (depth + levels) s)) := by
  unfold joint
  split
  · exact shifts_ofText (by decide)
  · exact shifts_lineBreak levels depth

theorem shifts_bodyText (levels depth : Nat) (s : Stmt) {code : Nat → Printed}
    (h : ∀ d, Shifts levels (code d) (code (d + levels))) :
    Shifts levels (bodyText depth s code) (bodyText (depth + levels) s code) := by
  unfold bodyText
  split
  · exact shifts_append (shifts_ofText (by decide)) (h depth)
  · have hdeeper := shifts_append (shifts_lineBreak levels (depth + 1)) (h (depth + 1))
    rwa [Nat.add_right_comm] at hdeeper

end Stmt

end

/-! ## Statements at a depth -/

namespace Stmt

section
variable {cx : PrintContext} (hn : cx.names.Spelled (All isInline))
include hn

theorem shifts_control {start stop : String} (hstart : All isInline start)
    (hstop : All isInline stop) {e : Expr} (he : e.Spelled (All isInline)) (levels depth : Nat)
    (body : Stmt) {code : Nat → Printed} (h : ∀ d, Shifts levels (code d) (code (d + levels))) :
    Shifts levels (ofText start ++ e.print cx ++ ofText stop ++ bodyText depth body code)
      (ofText start ++ e.print cx ++ ofText stop ++ bodyText (depth + levels) body code) :=
  shifts_append (shifts_append (shifts_append (shifts_ofText hstart)
    (shifts_inline (Expr.inline_print hn he))) (shifts_ofText hstop))
    (shifts_bodyText levels depth body h)

theorem shifts_forText (levels depth : Nat) {first first' : Printed} {cond inc : Option Expr}
    {body : Stmt} (hfirst : Shifts levels first first')
    (hcond : ∀ e ∈ cond, e.Spelled (All isInline)) (hinc : ∀ e ∈ inc, e.Spelled (All isInline))
    (hbody : ∀ d, Shifts levels (body.printAt cx d) (body.printAt cx (d + levels))) :
    Shifts levels (Printer.forText cx depth first cond inc body)
      (Printer.forText cx (depth + levels) first' cond inc body) := by
  have hsemicolon : Shifts levels (ofText ";") (ofText ";") := shifts_ofText (by decide)
  have htest : Shifts levels (Printer.operandText cx cond) (Printer.operandText cx cond) :=
    shifts_inline (inline_operandText hn hcond)
  have hstep : Shifts levels (Printer.operandText cx inc) (Printer.operandText cx inc) :=
    shifts_inline (inline_operandText hn hinc)
  have hstart := shifts_append (shifts_ofText (by decide : All isInline "for (")) hfirst
  have hheader := shifts_append (shifts_append (shifts_append hstart hsemicolon) htest) hsemicolon
  unfold Printer.forText
  exact shifts_append (shifts_append (shifts_append hheader hstep) (shifts_ofText (by decide)))
    (shifts_bodyText levels depth body hbody)

mutual

theorem shifts_printAt (levels depth : Nat) : (s : Stmt) → s.Spelled (All isInline) →
    Shifts levels (s.printAt cx depth) (s.printAt cx (depth + levels))
  | compound body, h => by
    have hinside := shifts_printBlock levels (depth + 1) body h
    have hclose := shifts_append (shifts_lineBreak levels depth)
      (shifts_ofText (by decide : All isInline "\x7d"))
    rw [Nat.add_right_comm] at hinside
    unfold printAt
    exact shifts_append (shifts_append (shifts_ofText (by decide)) hinside) hclose
  | expr e, h =>
    shifts_append (shifts_inline (Expr.inline_print hn h)) (shifts_ofText (by decide))
  | decl vars, h =>
    shifts_append (shifts_inline (LocalVar.inline_printAll hn h)) (shifts_ofText (by decide))
  | ret none, _ => shifts_ofText (by decide)
  | ret (some value), h =>
    shifts_append (shifts_append (shifts_ofText (by decide))
      (shifts_inline (Expr.inline_print hn (h value rfl)))) (shifts_ofText (by decide))
  | ifThen cond yes none, ⟨hcond, hyes, _⟩ => by
    unfold printAt
    exact shifts_control hn (by decide) (by decide) hcond levels depth yes
      fun d => shifts_printAt levels d yes hyes
  | ifThen cond yes (some no), ⟨hcond, hyes, hno⟩ => by
    have hthen := shifts_control hn (by decide : All isInline "if (") (by decide : All isInline ")")
      hcond levels depth yes fun d => shifts_printAt levels d yes hyes
    have helse := fun d => shifts_printAt levels d no hno
    have hword := shifts_append (shifts_joint levels depth yes)
      (shifts_ofText (by decide : All isInline "else"))
    unfold printAt
    refine shifts_append (shifts_append hthen hword) ?_
    split
    · exact shifts_append (shifts_ofText (by decide)) (helse depth)
    · exact shifts_bodyText levels depth no helse
  | whileLoop cond body, ⟨hcond, hbody⟩ => by
    unfold printAt
    exact shifts_control hn (by decide) (by decide) hcond levels depth body
      fun d => shifts_printAt levels d body hbody
  | doLoop body cond, ⟨hcond, hbody⟩ => by
    have hdo := shifts_append (shifts_ofText (by decide : All isInline "do"))
      (shifts_bodyText levels depth body fun d => shifts_printAt levels d body hbody)
    have hwhile := shifts_append (shifts_joint levels depth body)
      (shifts_ofText (by decide : All isInline "while ("))
    unfold printAt
    exact shifts_append (shifts_append (shifts_append hdo hwhile)
      (shifts_inline (Expr.inline_print hn hcond))) (shifts_ofText (by decide))
  | forLoop none cond inc body, ⟨_, hcond, hinc, hbody⟩ => by
    rw [Printer.printAt_forLoop, Printer.printAt_forLoop]
    exact shifts_forText hn levels depth (shifts_ofText (by decide)) hcond hinc
      fun d => shifts_printAt levels d body hbody
  | forLoop (some first) cond inc body, ⟨hinit, hcond, hinc, hbody⟩ => by
    have hfirst := shifts_printAt levels depth first hinit
    have hfor {code code' : Printed} (hcode : Shifts levels code code') :=
      shifts_forText hn levels depth hcode hcond hinc
        fun d => shifts_printAt levels d body hbody
    rw [Printer.printAt_forLoop, Printer.printAt_forLoop]
    cases first
    case decl vars => exact hfor (shifts_inline (LocalVar.inline_printAll hn hinit))
    case expr e => exact hfor (shifts_inline (Expr.inline_print hn hinit))
    all_goals exact hfor hfirst
  | switch cond body, ⟨hcond, hbody⟩ => by
    unfold printAt
    exact shifts_control hn (by decide) (by decide) hcond levels depth body
      fun d => shifts_printAt levels d body hbody
  | caseLabel value body, ⟨hvalue, hbody⟩ => by
    unfold printAt
    exact shifts_control hn (by decide) (by decide) hvalue levels depth body
      fun d => shifts_printAt levels d body hbody
  | defaultLabel body, h => by
    unfold printAt
    exact shifts_append (shifts_ofText (by decide))
      (shifts_bodyText levels depth body fun d => shifts_printAt levels d body h)
  | label name body, ⟨hname, hbody⟩ => by
    have hlabel := shifts_append (shifts_append (shifts_ofText hname)
      (shifts_ofText (by decide : All isInline ":"))) (shifts_lineBreak levels depth)
    unfold printAt
    exact shifts_append hlabel (shifts_printAt levels depth body hbody)
  | goto name, h => by
    unfold printAt
    exact shifts_append (shifts_append (shifts_ofText (by decide)) (shifts_ofText h))
      (shifts_ofText (by decide))
  | break_, _ | continue_, _ | null, _ => shifts_ofText (by decide)

theorem shifts_printBlock (levels depth : Nat) : (ss : List Stmt) →
    SpelledAll (All isInline) ss →
    Shifts levels (printBlock cx depth ss) (printBlock cx (depth + levels) ss)
  | [], _ => shifts_ofText (by decide)
  | s :: rest, ⟨hs, hrest⟩ =>
    shifts_append (shifts_append (shifts_lineBreak levels depth)
      (shifts_printAt levels depth s hs)) (shifts_printBlock levels depth rest hrest)

end

/-- A statement at a depth is the statement printed by itself, moved to the right. -/
theorem printAt_eq_shifted {s : Stmt} (h : s.Spelled (All isInline)) (depth : Nat) :
    (s.printAt cx depth).text = shifted depth (s.print cx).text := by
  have hshifts := shifts_printAt hn depth 0 s h
  rwa [Nat.zero_add] at hshifts

theorem shifted_compound {body : List Stmt} (h : (compound body).Spelled (All isInline))
    (depth : Nat) : shifted depth ((compound body).print cx).text =
      "\x7b" ++ String.join (body.map fun s =>
        lineBreak (depth + 1) ++ shifted (depth + 1) (s.print cx).text) ++
        lineBreak depth ++ "\x7d" := by
  have hblock : ∀ ss : List Stmt, SpelledAll (All isInline) ss →
      (printBlock cx (depth + 1) ss).text = String.join (ss.map fun s =>
        lineBreak (depth + 1) ++ shifted (depth + 1) (s.print cx).text) := by
    intro ss hss
    induction ss with
    | nil => rfl
    | cons s rest ih =>
      obtain ⟨hs, hrest⟩ := hss
      rw [printBlock, text_append, text_append, text_ofText, printAt_eq_shifted hn hs, ih hrest,
        List.map_cons, String.join_cons]
  rw [← printAt_eq_shifted hn h, text_compound, hblock body h, ← String.append_assoc]

end

/-! ## Statements inside others -/

theorem printBlock_append (cx : PrintContext) (depth : Nat) (a b : List Stmt) :
    (printBlock cx depth (a ++ b)).text =
      (printBlock cx depth a).text ++ (printBlock cx depth b).text := by
  induction a with
  | nil => exact String.empty_append.symm
  | cons s a ih => simp only [List.cons_append, printBlock, text_append, ih, String.append_assoc]

variable {cx : PrintContext} {s t : Stmt}

/-- What a body has in front of it. -/
def bodyStart (depth : Nat) (body : Stmt) : String :=
  if body.isCompound then " " else lineBreak (depth + 1)

theorem text_body (h : Alike t s) (p : Printed) (depth : Nat) (behind : String) :
    (p ++ bodyText depth t fun d => t.printAt cx d).text ++ behind =
      p.text ++ bodyStart depth s ++
        (t.printAt cx (depth + (!t.isCompound).toNat)).text ++ behind := by
  unfold bodyText bodyStart
  rw [← h.1, text_append]
  cases t.isCompound with
  | true => exact congrArg (· ++ behind) (by
      rw [if_pos rfl, if_pos rfl, text_append, text_ofText, String.append_assoc]
      rfl)
  | false => exact congrArg (· ++ behind) (by
      rw [if_neg Bool.false_ne_true, if_neg Bool.false_ne_true, text_append, text_ofText,
        String.append_assoc]
      rfl)

theorem joint_of_alike (h : Alike t s) (depth : Nat) : joint depth t = joint depth s := by
  unfold joint
  rw [h.1]

theorem exists_of_body {f : Frame} (p : Printed) {depth : Nat} (behind : String)
    (hdeepens : ∀ t, f.deepens t = !t.isCompound)
    (hprint : ∀ t, Alike t s → ((f.fill t).printAt cx depth).text =
      (p ++ bodyText depth t fun d => t.printAt cx d).text ++ behind) :
    ∃ before behind, ∀ t, Alike t s → ((f.fill t).printAt cx depth).text =
      before ++ (t.printAt cx (depth + (f.deepens t).toNat)).text ++ behind := by
  refine ⟨p.text ++ bodyStart depth s, behind, fun t h => ?_⟩
  rw [hprint t h, hdeepens, text_body h]

theorem exists_printAt_fill (cx : PrintContext) (f : Frame) (s : Stmt) (depth : Nat) :
    ∃ before behind, ∀ t, Alike t s → ((f.fill t).printAt cx depth).text =
      before ++ (t.printAt cx (depth + (f.deepens t).toNat)).text ++ behind := by
  cases f with
  | member before after =>
    refine ⟨"\x7b" ++ (printBlock cx (depth + 1) before).text ++ lineBreak (depth + 1),
      (printBlock cx (depth + 1) after).text ++ lineBreak depth ++ "\x7d", fun t _ => ?_⟩
    show ((compound (before ++ t :: after)).printAt cx depth).text = _
    rw [text_compound, printBlock_append, printBlock]
    simp only [text_append, text_ofText, String.append_assoc]
    rfl
  | yes cond other =>
    cases other with
    | none =>
      refine exists_of_body (ofText "if (" ++ cond.print cx ++ ofText ")") "" (fun _ => rfl)
        fun t _ => ?_
      rw [Frame.fill, printAt, String.append_empty]
    | some no =>
      refine exists_of_body (ofText "if (" ++ cond.print cx ++ ofText ")")
        (joint depth s ++ "else" ++ (if no.isIf then " " ++ (no.printAt cx depth).text else
          (bodyText depth no fun d => no.printAt cx d).text)) (fun _ => rfl) fun t h => ?_
      rw [Frame.fill, printAt, joint_of_alike h, text_append, text_append, text_append]
      simp only [text_ofText, String.append_assoc, apply_ite text, text_append]
  | no cond other =>
    obtain ⟨head, hprint⟩ : ∃ head : Printed, ∀ t,
        ((Frame.no cond other).fill t).printAt cx depth = head ++
          if t.isIf then ofText " " ++ t.printAt cx depth
          else bodyText depth t fun d => t.printAt cx d := ⟨_, fun t => by rw [Frame.fill, printAt]⟩
    cases hs : s.isIf with
    | true =>
      refine ⟨head.text ++ " ", "", fun t h => ?_⟩
      have ht : t.isIf = true := h.2.trans hs
      rw [hprint, if_pos ht, Frame.deepens, ht, text_append, text_append, text_ofText,
        ← String.append_assoc, String.append_empty, Bool.not_true, Bool.and_false]
      rfl
    | false =>
      refine ⟨head.text ++ bodyStart depth s, "", fun t h => ?_⟩
      have ht : t.isIf = false := h.2.trans hs
      rw [hprint, if_neg (ht ▸ Bool.false_ne_true), Frame.deepens, ht, Bool.not_false,
        Bool.and_true, ← text_body h, String.append_empty]
  | whileBody cond =>
    refine exists_of_body (ofText "while (" ++ cond.print cx ++ ofText ")") "" (fun _ => rfl)
      fun t _ => ?_
    rw [Frame.fill, printAt, String.append_empty]
  | doBody cond =>
    refine exists_of_body (ofText "do") (joint depth s ++ "while (" ++ (cond.print cx).text ++ ");")
      (fun _ => rfl) fun t h => ?_
    rw [Frame.fill, printAt, joint_of_alike h]
    simp only [text_append, text_ofText, String.append_assoc]
  | forBody init cond inc =>
    obtain ⟨header, hprint⟩ : ∃ header : Printed, ∀ t,
        ((Frame.forBody init cond inc).fill t).printAt cx depth =
          header ++ bodyText depth t fun d => t.printAt cx d :=
      ⟨_, fun t => by rw [Frame.fill, Printer.printAt_forLoop, Printer.forText]⟩
    refine exists_of_body header "" (fun _ => rfl) fun t _ => ?_
    rw [hprint, String.append_empty]
  | switchBody cond =>
    refine exists_of_body (ofText "switch (" ++ cond.print cx ++ ofText ")") "" (fun _ => rfl)
      fun t _ => ?_
    rw [Frame.fill, printAt, String.append_empty]
  | caseBody value =>
    refine exists_of_body (ofText "case " ++ value.print cx ++ ofText ":") "" (fun _ => rfl)
      fun t _ => ?_
    rw [Frame.fill, printAt, String.append_empty]
  | defaultBody =>
    refine exists_of_body (ofText "default:") "" (fun _ => rfl) fun t _ => ?_
    rw [Frame.fill, printAt, String.append_empty]
  | labelBody name =>
    refine ⟨name ++ ":" ++ lineBreak depth, "", fun t _ => ?_⟩
    rw [Frame.fill, printAt]
    simp only [text_append, text_ofText, String.append_empty]
    rfl

/-- The statements around a statement are printed around it. -/
theorem exists_printAt_within (cx : PrintContext) (s : Stmt) (path : List Frame) (depth : Nat) :
    ∃ before behind, ∀ t, Alike t s → ((t.within path).printAt cx depth).text =
      before ++ (t.printAt cx (depth + levels path t)).text ++ behind := by
  induction path generalizing depth with
  | nil =>
    refine ⟨"", "", fun t _ => ?_⟩
    rw [String.empty_append, String.append_empty]
    rfl
  | cons f path ih =>
    obtain ⟨before, behind, hfill⟩ := exists_printAt_fill cx f (s.within path) depth
    obtain ⟨inner, rest, hwithin⟩ := ih (depth + (f.deepens (s.within path)).toNat)
    refine ⟨before ++ inner, rest ++ behind, fun t h => ?_⟩
    have hinside := alike_within h path
    show ((f.fill (t.within path)).printAt cx depth).text = _
    rw [hfill _ hinside, hinside.deepens, hwithin t h, ← hinside.deepens, Nat.add_assoc]
    simp only [String.append_assoc]
    rfl

/-- Inside a statement, another one is printed as by itself, with four spaces behind each line feed
for every level; the rest of the text does not depend on it.  A compound statement has its members
on lines of their own, a level to the right of its braces. -/
theorem text_within (hn : cx.names.Spelled (All isInline)) :
    (∀ (path : List Frame) (s : Stmt), ∃ before behind, ∀ t, Alike t s →
      t.Spelled (All isInline) → ((t.within path).print cx).text =
        before ++ shifted (levels path s) (t.print cx).text ++ behind) ∧
    ∀ body : List Stmt, (compound body).Spelled (All isInline) → ∀ depth,
      shifted depth ((compound body).print cx).text =
        "\x7b" ++ String.join (body.map fun s =>
          lineBreak (depth + 1) ++ shifted (depth + 1) (s.print cx).text) ++
          lineBreak depth ++ "\x7d" := by
  refine ⟨fun path s => ?_, fun body h => shifted_compound hn h⟩
  obtain ⟨before, behind, hwithin⟩ := exists_printAt_within cx s path 0
  refine ⟨before, behind, fun t halike h => ?_⟩
  show ((t.within path).printAt cx 0).text = _
  rw [hwithin t halike, Nat.zero_add, printAt_eq_shifted hn h, halike.levels]

/-- A loop behind `else if` is two levels to the right: the block is one of them, the `if` behind
`else` is none. -/
theorem text_within_elseIf :
    let cx : PrintContext := { names := { records := [(1, "Point")] } }
    let loop : Stmt := .doLoop .continue_ (.boolLiteral false)
    let path : List Frame := [.member [] [.break_], .no (.thisPtr false) .null,
      .yes (.boolLiteral true) none]
    (cx.names.Spelled (All isInline) ∧ loop.Spelled (All isInline)) ∧ levels path loop = 2 ∧
    (loop.print cx).text = "do\n    continue;\nwhile (false);" ∧
    ((loop.within path).print cx).text =
      "\x7b\n    if (this)\n        \x7b\x7d\n    else if (true)" ++
        "\n        do\n            continue;\n        while (false);\n    break;\n\x7d" ∧
    (∃ before behind, ((loop.within path).print cx).text =
      before ++ shifted 2 (loop.print cx).text ++ behind) ∧
    shifted 1 ((compound [loop]).print cx).text =
      "\x7b" ++ String.join [lineBreak 2 ++ shifted 2 (loop.print cx).text] ++ lineBreak 1 ++
        "\x7d" := by
  intro cx loop path
  have hnames : cx.names.Spelled (All isInline) := fun entry he => by
    rw [List.mem_singleton.1 he]
    decide
  have hloop : loop.Spelled (All isInline) :=
    ⟨.of_children (fun s hs => absurd hs List.not_mem_nil) fun c hc =>
      absurd hc List.not_mem_nil, trivial⟩
  obtain ⟨hwithin, hcompound⟩ := text_within hnames
  obtain ⟨before, behind, htext⟩ := hwithin path loop
  exact ⟨⟨hnames, hloop⟩, rfl, by decide +kernel, by decide +kernel,
    ⟨before, behind, htext loop ⟨rfl, rfl⟩ hloop⟩, hcompound [loop] ⟨hloop, trivial⟩ 1⟩

end Stmt

end DBindings
