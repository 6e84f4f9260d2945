import DBindings.Proofs.Declared.Declarators
import DBindings.Proofs.Printing.Printer

/-!
# Names of local variables

The variables of a body are declared in its lines, which stand below the signature of a function.

* `Stmt.Declares`           the variables that a statement declares, at any depth;
* `Stmt.occurs_printAt`     they are in its text;
* `written_signature`       what stands in a signature is written with the function;
* `written_body`            and so are the variables of its body.
-/

namespace DBindings
open Printed (text_append text_ofText)

/-- A text stands somewhere in another one. -/
def Text.Occurs (part s : String) : Prop := ∃ before after, s = before ++ part ++ after

namespace Text
variable {part s t : String}

theorem Occurs.self (part : String) : Occurs part part :=
  ⟨"", "", by rw [String.empty_append, String.append_empty]⟩

theorem Occurs.left (h : Occurs part s) (t : String) : Occurs part (s ++ t) := by
  obtain ⟨before, after, rfl⟩ := h
  exact ⟨before, after ++ t, String.append_assoc⟩

theorem Occurs.right (s : String) (h : Occurs part t) : Occurs part (s ++ t) := by
  obtain ⟨before, after, rfl⟩ := h
  exact ⟨s ++ before, after, by simp only [String.append_assoc]⟩

end Text

def LocalVar.declarator (names : NameTable) (v : LocalVar) : Declarator :=
  ⟨.localVar, v.name,
    (if v.isStatic then "__gshared static " else "") ++ v.ty.render names ++ " "⟩

/-- Behind its name a variable has an initial value, or the semicolon that ends it. -/
theorem LocalVar.text_print (cx : PrintContext) (v : LocalVar) : ∃ after, Text.Stops after ∧
    (v.print cx).text ++ ";" =
      (v.declarator cx.names).front ++ (v.declarator cx.names).identifier ++ after := by
  have hdeclared {text : String} (after : String) (hafter : Text.Stops after) (htext : text =
      (if v.isStatic then "__gshared static " else "") ++ v.ty.render cx.names ++ " " ++
        Identifier.sanitize v.name ++ after) : ∃ after, Text.Stops after ∧
      text = (v.declarator cx.names).front ++ (v.declarator cx.names).identifier ++ after :=
    ⟨after, hafter, htext⟩
  have hend : Text.Stops ";" := ⟨by decide, by decide⟩
  have hreturn : Text.Stops "() \x7b return " := ⟨by decide, by decide⟩
  have hvalue : Text.Stops " = " := ⟨by decide, by decide⟩
  unfold print
  dsimp only
  split
  · exact hdeclared ";" hend (by rw [text_ofText])
  · next init _ =>
    split
    · refine hdeclared _ (hreturn.append ((init.print cx).text ++ ("; \x7d" ++ ";"))) ?_
      simp only [text_append, text_ofText, String.append_assoc]
    · split
      · exact hdeclared ";" hend (by rw [text_ofText])
      · split
        · refine hdeclared _ (hvalue.append
            (v.ty.render cx.names ++ ("(" ++ ((init.print cx).text ++ (")" ++ ";"))))) ?_
          simp only [text_append, text_ofText, String.append_assoc]
        all_goals
          refine hdeclared _ (hvalue.append ((init.print cx).text ++ ";")) ?_
          simp only [text_append, text_ofText, String.append_assoc]

theorem LocalVar.standsIn_of_occurs {cx : PrintContext} {v : LocalVar} {text : String}
    (h : Text.Occurs ((v.print cx).text ++ ";") text) :
    (v.declarator cx.names).StandsIn text := by
  obtain ⟨before, rest, htext⟩ := h
  obtain ⟨after, hstops, hprint⟩ := v.text_print cx
  refine ⟨before, after ++ rest, ?_, ?_, (hstops.append rest).start⟩
  · rw [htext, hprint]
    simp only [String.append_assoc]
  · show Text.OpenEnd (before ++ (_ ++ " "))
    rw [← String.append_assoc]
    exact Text.openEnd_blank _

/-- A statement declares a variable, itself or in a statement inside it. -/
inductive Stmt.Declares (v : LocalVar) : Stmt → Prop where
  | decl {vars : List LocalVar} : v ∈ vars → Declares v (.decl vars)
  | compound {body : List Stmt} {s : Stmt} : s ∈ body → Declares v s → Declares v (.compound body)
  | yes {cond : Expr} {s : Stmt} {no : Option Stmt} :
    Declares v s → Declares v (.ifThen cond s no)
  | no {cond : Expr} {yes s : Stmt} : Declares v s → Declares v (.ifThen cond yes (some s))
  | whileLoop {cond : Expr} {s : Stmt} : Declares v s → Declares v (.whileLoop cond s)
  | doLoop {s : Stmt} {cond : Expr} : Declares v s → Declares v (.doLoop s cond)
  | init {s body : Stmt} {cond inc : Option Expr} :
    Declares v s → Declares v (.forLoop (some s) cond inc body)
  | forLoop {init : Option Stmt} {cond inc : Option Expr} {s : Stmt} :
    Declares v s → Declares v (.forLoop init cond inc s)
  | switch {cond : Expr} {s : Stmt} : Declares v s → Declares v (.switch cond s)
  | caseLabel {value : Expr} {s : Stmt} : Declares v s → Declares v (.caseLabel value s)
  | defaultLabel {s : Stmt} : Declares v s → Declares v (.defaultLabel s)
  | label {name : String} {s : Stmt} : Declares v s → Declares v (.label name s)

namespace Printed
variable {part : String} {p q : Printed}

theorem occurs_left (h : Text.Occurs part p.text) (q : Printed) :
    Text.Occurs part (p ++ q).text := by
  rw [text_append]
  exact h.left _

theorem occurs_right (p : Printed) (h : Text.Occurs part q.text) :
    Text.Occurs part (p ++ q).text := by
  rw [text_append]
  exact h.right _

end Printed

/-- In a list of variables a semicolon follows each of them. -/
theorem LocalVar.occurs_printAll {cx : PrintContext} {v : LocalVar} {vars : List LocalVar}
    (hv : v ∈ vars) : Text.Occurs ((v.print cx).text ++ ";") ((printAll cx vars).text ++ ";") := by
  unfold printAll
  induction vars with
  | nil => exact absurd hv List.not_mem_nil
  | cons w vars ih =>
    cases vars with
    | nil =>
      rw [← List.mem_singleton.1 hv]
      exact .self _
    | cons w' vars =>
      have htext : (Printed.joined "; " ((w :: w' :: vars).map (print cx))).text ++ ";" =
          (w.print cx).text ++ ";" ++
            (" " ++ ((Printed.joined "; " ((w' :: vars).map (print cx))).text ++ ";")) := by
        show (w.print cx ++ Printed.ofText "; " ++ Printed.joined "; " _).text ++ ";" = _
        rw [text_append, text_append, text_ofText, show "; " = ";" ++ " " from rfl]
        simp only [String.append_assoc]
      rw [htext]
      rcases List.mem_cons.1 hv with rfl | hv
      · exact (Text.Occurs.self _).left _
      · exact ((ih hv).right " ").right _

namespace Stmt
variable {cx : PrintContext} {part : String} {v : LocalVar}

theorem occurs_bodyText {at_ : Nat → Printed} (depth : Nat) (body : Stmt)
    (h : ∀ d, Text.Occurs part (at_ d).text) :
    Text.Occurs part (bodyText depth body at_).text := by
  unfold bodyText
  split
  · exact Printed.occurs_right _ (h depth)
  · exact Printed.occurs_right _ (h (depth + 1))

theorem occurs_printBlock {depth : Nat} {s : Stmt} {body : List Stmt} (hs : s ∈ body)
    (h : Text.Occurs part (s.printAt cx depth).text) :
    Text.Occurs part (printBlock cx depth body).text := by
  induction body with
  | nil => exact absurd hs List.not_mem_nil
  | cons s' body ih =>
    rw [printBlock]
    rcases List.mem_cons.1 hs with rfl | hs
    · exact Printed.occurs_left (Printed.occurs_right _ h) _
    · exact Printed.occurs_right _ (ih hs)

theorem occurs_forText {depth : Nat} {s body : Stmt} {cond inc : Option Expr}
    (hs : s.Declares v) (h : Text.Occurs part (s.printAt cx depth).text) :
    Text.Occurs part ((forLoop (some s) cond inc body).printAt cx depth).text := by
  have hfirst {first : Printed} (hfirst : Text.Occurs part (first.text ++ ";")) :
      Text.Occurs part (Printer.forText cx depth first cond inc body).text := by
    have hhead : Text.Occurs part ("for (" ++ first ++ ";" : Printed).text := by
      rw [text_append, text_append, text_ofText, text_ofText, String.append_assoc]
      exact hfirst.right _
    unfold Printer.forText
    exact Printed.occurs_left (Printed.occurs_left (Printed.occurs_left (Printed.occurs_left
      (Printed.occurs_left hhead _) _) _) _) _
  rw [Printer.printAt_forLoop]
  cases s with
  | decl vars =>
    refine hfirst ?_
    rwa [printAt, text_append, text_ofText] at h
  | expr e => exact nomatch hs
  | _ => exact hfirst (h.left _)

/-- A variable that a statement declares stands in its text, at any depth. -/
theorem occurs_printAt {s : Stmt} (h : s.Declares v) (depth : Nat) :
    Text.Occurs ((v.print cx).text ++ ";") (s.printAt cx depth).text := by
  induction h generalizing depth with
  | decl hv =>
    unfold printAt
    rw [text_append, text_ofText]
    exact LocalVar.occurs_printAll hv
  | compound hs _ ih =>
    unfold printAt
    exact Printed.occurs_left (Printed.occurs_right _ (occurs_printBlock hs (ih (depth + 1)))) _
  | @yes cond s no _ ih =>
    have hyes := Printed.occurs_right ("if (" ++ cond.print cx ++ ")" : Printed)
      (occurs_bodyText depth s ih)
    cases no with
    | none =>
      unfold printAt
      exact hyes
    | some no =>
      unfold printAt
      exact Printed.occurs_left (Printed.occurs_left hyes _) _
  | no _ ih =>
    unfold printAt
    refine Printed.occurs_right _ ?_
    split
    · exact Printed.occurs_right _ (ih depth)
    · exact occurs_bodyText depth _ ih
  | whileLoop _ ih | switch _ ih | caseLabel _ ih | defaultLabel _ ih =>
    unfold printAt
    exact Printed.occurs_right _ (occurs_bodyText depth _ ih)
  | doLoop _ ih =>
    unfold printAt
    exact Printed.occurs_left (Printed.occurs_left (Printed.occurs_left
      (Printed.occurs_right _ (occurs_bodyText depth _ ih)) _) _) _
  | init hs ih => exact occurs_forText hs (ih depth)
  | forLoop _ ih =>
    rw [Printer.printAt_forLoop]
    exact Printed.occurs_right _ (occurs_bodyText depth _ ih)
  | label _ ih =>
    unfold printAt
    exact Printed.occurs_right _ (ih depth)

end Stmt

/-! ## Bodies -/

theorem bodyLine_lines_infix (commentOut : Bool) (initializers : List String) (text : String) :
    ∃ margin, ((Text.lines text).map fun line => bodyLine commentOut (margin ++ line)) <:+:
      (bodyLines initializers (some text)).map (bodyLine commentOut) := by
  cases initializers with
  | nil =>
    refine ⟨"", ?_⟩
    simp only [String.empty_append]
    exact List.infix_refl _
  | cons first rest =>
    refine ⟨"    ", ?_⟩
    have hlines : (Text.lines text).map (fun line => bodyLine commentOut ("    " ++ line)) =
        ((Text.lines text).map ("    " ++ ·)).map (bodyLine commentOut) := by
      rw [List.map_map]
      rfl
    have hbody : (Text.lines text).map ("    " ++ ·) <:+: bodyLines (first :: rest) (some text) :=
      ((List.suffix_cons _ _).isInfix.trans (List.suffix_append _ _).isInfix).trans
        (List.prefix_append _ _).isInfix
    rw [hlines]
    exact hbody.map _

section
variable {cx : PrintContext} {signature : String} {body : Option Stmt} {initializers : List String}
  {commentOut : Bool} {d : Declarator}

theorem written_signature (h : d.StandsIn signature) (hkind : d.kind ≠ .localVar) :
    d.WrittenIn ((definition cx signature body initializers commentOut).lines.map .line) := by
  have hended := h.before (by decide : Text.OpenStart ";")
  unfold definition
  split
  · exact hended.written hkind List.mem_cons_self
  · split
    · split
      · exact hended.written hkind List.mem_cons_self
      · exact h.written hkind List.mem_cons_self
    · exact h.written hkind List.mem_cons_self

theorem not_isEmptyCompound {s : Stmt} {v : LocalVar} (h : s.Declares v) :
    s.isEmptyCompound = false := by
  cases h with
  | compound hs _ =>
    cases hs <;> rfl
  | _ => rfl

theorem written_body {s : Stmt} {v : LocalVar} (hs : s.Declares v) :
    (v.declarator cx.names).WrittenIn
      ((definition cx signature (some s) initializers commentOut).lines.map .line) := by
  have hstands : (v.declarator cx.names).StandsIn (s.print cx).text :=
    LocalVar.standsIn_of_occurs (Stmt.occurs_printAt hs 0)
  obtain ⟨margin, hbody⟩ := bodyLine_lines_infix commentOut initializers (s.print cx).text
  refine hstands.written_lines commentOut margin rfl ?_
  unfold definition
  dsimp only
  rw [not_isEmptyCompound hs, if_neg Bool.false_ne_true]
  have hlines := (hbody.trans (List.suffix_cons signature _).isInfix).map Stroke.line
  rw [List.map_map] at hlines
  exact hlines

end

end DBindings
