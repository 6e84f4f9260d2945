import DBindings.Proofs.Printing.PrinterExpr
import DBindings.Proofs.Requests.Queue

/-!
# Printing several trees

A statement is written as it is printed, and the depth is what it was before.  So a printer that has
printed a tree is as good as new, but for the requests that wait.

* `Printer.writes_stmt`   a statement is written as it is printed;
* `Printer.run_step`      what a printer hands out, and what is left of it;
* `Printer.run_trees`     each of several trees is printed as by a printer of its own.
-/

namespace DBindings

/-- What is printed for a tree; initializers that are not those of members have nothing. -/
def Printable.print? (cx : PrintContext) : Printable → Option Printed
  | expr e => some (e.print cx)
  | stmt s => some (s.print cx)
  | initializer init => init.print? cx

def Printable.requests (cx : PrintContext) (tree : Printable) : List Request :=
  (tree.print? cx).elim [] Printed.requests

namespace Printer

variable {cx : PrintContext} {depth : Nat} {m : Printing PUnit} {a : Printed}

theorem writes_newLine : Writes cx depth newLine (Printed.ofText (lineBreak depth)) :=
  .get fun _ _ hdepth => hdepth ▸ writes_push _

theorem Writes.deeper (h : Writes cx (depth + 1) m a) : Writes cx depth (deeper m) a := by
  intro p hcx hdepth
  have h := h { p with depth := p.depth + 1 } hcx (congrArg (· + 1) hdepth)
  show ((m.run { p with depth := p.depth + 1 }).1,
    { (m.run { p with depth := p.depth + 1 }).2 with
      depth := (m.run { p with depth := p.depth + 1 }).2.depth - 1 }) = _
  rw [h]
  rfl

def operandText (cx : PrintContext) (e : Option Expr) : Printed :=
  e.elim .empty fun e => " " ++ e.print cx

theorem writes_operand (e : Option Expr) :
    Writes cx depth (operand e) (operandText cx e) := by
  cases e with
  | none => exact writes_pure
  | some e => exact (writes_push _).bind (writes_expr e)

theorem writes_variableDecl (v : LocalVar) :
    Writes cx depth (variableDecl v) (v.print cx) := by
  have hdeclared {n : Printing PUnit} {code : Printed} (hn : Writes cx depth n code) :
      Writes cx depth (do
        pushIf v.isStatic "__gshared static "
        type v.ty
        push " "
        push (Identifier.sanitize v.name)
        n) _ :=
    (writes_pushIf _ _).bind <| (writes_type _).bind <| (writes_push _).bind <|
      (writes_push _).bind hn
  unfold variableDecl LocalVar.print
  cases v.init with
  | none => exact (hdeclared writes_pure).congr (by simp [Printed.empty, String.append_assoc])
  | some init =>
    have hinit : Writes cx depth (expr init) (init.print cx) := writes_expr init
    dsimp only
    split
    · refine (hdeclared <| (writes_push _).bind <| hinit.bind (writes_push _)).congr ?_
      simp [String.append_assoc]
    · split
      · exact (hdeclared writes_pure).congr (by simp [Printed.empty, String.append_assoc])
      · cases v.style
        · refine (hdeclared <| (writes_push _).bind hinit).congr ?_
          simp [String.append_assoc]
        · refine (hdeclared <| (writes_push _).bind <| (writes_type _).bind <|
            (writes_push _).bind <| hinit.bind (writes_push _)).congr ?_
          simp [String.append_assoc]
        · refine (hdeclared <| (writes_push _).bind hinit).congr ?_
          simp [String.append_assoc]

theorem writes_variableDecls (first : Bool) (vars : List LocalVar) :
    Writes cx depth (variableDecls first vars)
      (Printed.listed first "; " (vars.map (LocalVar.print cx))) := by
  induction vars generalizing first with
  | nil => exact writes_pure
  | cons v vars ih =>
    refine ((writes_pushIf _ _).bind <| (writes_variableDecl v).bind (ih false)).congr ?_
    cases first <;> simp [Printed.listed, String.append_assoc]

theorem writes_allVariables (vars : List LocalVar) :
    Writes cx depth (variableDecls true vars) (LocalVar.printAll cx vars) := by
  obtain ⟨htext, hrequests⟩ := Printed.joined_eq_listed "; " (vars.map (LocalVar.print cx))
  exact (writes_variableDecls true vars).congr ⟨htext.symm, hrequests.symm⟩

theorem writes_body (s : Stmt) {code : Nat → Printed}
    (h : ∀ depth, Writes cx depth m (code depth)) :
    Writes cx depth (body s m) (Stmt.bodyText depth s code) := by
  unfold body Stmt.bodyText
  split
  · exact (writes_push _).bind (h depth)
  · exact (writes_newLine.bind (h _)).deeper

theorem writes_behind (s : Stmt) :
    Writes cx depth (behind s) (Printed.ofText (Stmt.joint depth s)) := by
  unfold behind Stmt.joint
  split
  · exact writes_push _
  · exact writes_newLine

/-- A loop with its printed initialization. -/
def forText (cx : PrintContext) (depth : Nat) (first : Printed) (cond inc : Option Expr)
    (inside : Stmt) : Printed :=
  "for (" ++ first ++ ";" ++ operandText cx cond ++ ";" ++ operandText cx inc ++ ")" ++
    Stmt.bodyText depth inside fun d => inside.printAt cx d

theorem printAt_forLoop (init : Option Stmt) (cond inc : Option Expr) (inside : Stmt) :
    (Stmt.forLoop init cond inc inside).printAt cx depth =
      forText cx depth
        (match init with
          | none => ""
          | some (.decl vars) => LocalVar.printAll cx vars
          | some (.expr e) => e.print cx
          | some other => other.printAt cx depth) cond inc inside := by
  cases init with
  | none => cases cond <;> cases inc <;> rfl
  | some first => cases first <;> cases cond <;> cases inc <;> rfl

theorem writes_forLoop (cond inc : Option Expr) {inside : Stmt} {first : Printed}
    (hm : Writes cx depth m first)
    (hinside : ∀ depth, Writes cx depth (stmt inside) (inside.printAt cx depth)) :
    Writes cx depth (do
      push "for ("
      m
      push ";"
      operand cond
      push ";"
      operand inc
      push ")"
      body inside (stmt inside)) (forText cx depth first cond inc inside) := by
  refine ((writes_push _).bind <| hm.bind <| (writes_push _).bind <|
    (writes_operand cond).bind <| (writes_push _).bind <| (writes_operand inc).bind <|
      (writes_push _).bind (writes_body inside hinside)).congr ?_
  simp [forText, String.append_assoc]

theorem writes_ifThen (cond : Expr) {yes : Stmt} (no : Option Stmt)
    (hyes : ∀ depth, Writes cx depth (stmt yes) (yes.printAt cx depth))
    (hno : ∀ s ∈ no, ∀ depth, Writes cx depth (stmt s) (s.printAt cx depth)) :
    Writes cx depth (stmt (.ifThen cond yes no)) ((Stmt.ifThen cond yes no).printAt cx depth) := by
  have hyes : Writes cx depth (body yes (stmt yes)) _ := writes_body yes hyes
  cases no with
  | none =>
    refine ((writes_push _).bind <| (writes_expr cond).bind <| (writes_push _).bind <|
      hyes.bind writes_pure).congr ?_
    simp [Stmt.printAt, Printed.empty, String.append_assoc]
  | some no =>
    have hno := hno no rfl
    have hif {n : Printing PUnit} {code : Printed} (hn : Writes cx depth n code) :
        Writes cx depth (do
          push "if ("
          expr cond
          push ")"
          body yes (stmt yes)
          behind yes
          push "else"
          n) _ :=
      (writes_push _).bind <| (writes_expr cond).bind <| (writes_push _).bind <|
        hyes.bind <| (writes_behind _).bind <| (writes_push _).bind hn
    rw [stmt, Stmt.printAt]
    cases no.isIf
    · refine (hif (writes_body no hno)).congr ?_
      simp [String.append_assoc]
    · refine (hif ((writes_push _).bind (hno depth))).congr ?_
      simp [String.append_assoc]

mutual

theorem writes_stmt (depth : Nat) : (s : Stmt) → Writes cx depth (stmt s) (s.printAt cx depth)
  | .compound inside => by
    refine ((writes_push _).bind <| (writes_block (depth + 1) inside).deeper.bind <|
      writes_newLine.bind (writes_push _)).congr ?_
    simp [Stmt.printAt, String.append_assoc]
  | .expr e => (writes_expr e).bind (writes_push _)
  | .decl vars => (writes_allVariables vars).bind (writes_push _)
  | .ret value => by
    refine ((writes_push _).bind <| (writes_operand value).bind (writes_push _)).congr ?_
    cases value with
    | none => exact ⟨rfl, rfl⟩
    | some value =>
      have hreturn : "return " = "return" ++ " " := rfl
      simp only [Stmt.printAt, operandText, Option.elim, Printed.text_append,
        Printed.requests_append, Printed.text_ofText, Printed.requests_ofText, hreturn,
        String.append_assoc, List.nil_append, and_self]
  | .ifThen cond yes none => writes_ifThen cond none (fun depth => writes_stmt depth yes) nofun
  | .ifThen cond yes (some no) =>
    writes_ifThen cond (some no) (fun depth => writes_stmt depth yes) fun s hs =>
      Option.some.inj hs ▸ fun depth => writes_stmt depth no
  | .whileLoop cond inside | .switch cond inside | .caseLabel cond inside => by
    have hinside : Writes cx depth (body inside (stmt inside)) _ :=
      writes_body inside fun depth => writes_stmt depth inside
    refine ((writes_push _).bind <| (writes_expr cond).bind <|
      (writes_push _).bind hinside).congr ?_
    simp [Stmt.printAt, String.append_assoc]
  | .doLoop inside cond => by
    have hinside : Writes cx depth (body inside (stmt inside)) _ :=
      writes_body inside fun depth => writes_stmt depth inside
    refine ((writes_push _).bind <| hinside.bind <| (writes_behind _).bind <|
      (writes_push _).bind <| (writes_expr cond).bind (writes_push _)).congr ?_
    simp [Stmt.printAt, String.append_assoc]
  | .forLoop none cond inc inside => by
    rw [printAt_forLoop]
    exact writes_forLoop cond inc writes_pure fun depth => writes_stmt depth inside
  | .forLoop (some first) cond inc inside => by
    have hfor {n : Printing PUnit} {code : Printed} (hn : Writes cx depth n code) :=
      writes_forLoop cond inc hn fun depth => writes_stmt depth inside
    have hfirst := writes_stmt depth first
    rw [printAt_forLoop]
    cases first
    case decl vars => exact hfor (writes_allVariables vars)
    case expr e => exact hfor (writes_expr e)
    all_goals exact hfor hfirst
  | .defaultLabel inside => by
    have hinside : Writes cx depth (body inside (stmt inside)) _ :=
      writes_body inside fun depth => writes_stmt depth inside
    exact (writes_push _).bind hinside
  | .label name inside => by
    refine ((writes_push _).bind <| (writes_push _).bind <| writes_newLine.bind
      (writes_stmt depth inside)).congr ?_
    simp [Stmt.printAt, String.append_assoc]
  | .goto name => (writes_push _).congr (by simp [Stmt.printAt, String.append_assoc])
  | .break_ => writes_push _
  | .continue_ => writes_push _
  | .null => writes_push _

theorem writes_block (depth : Nat) : (ss : List Stmt) →
    Writes cx depth (block ss) (Stmt.printBlock cx depth ss)
  | [] => writes_pure
  | s :: rest => by
    refine (writes_newLine.bind <| (writes_stmt depth s).bind (writes_block depth rest)).congr ?_
    simp [Stmt.printBlock, String.append_assoc]

end

/-! ## Steps -/

theorem run_taken {p : Printer} (h : Writes cx depth m a) (hcx : p.toPrintContext = cx)
    (hdepth : p.depth = depth) :
    (do clear; m; take).run p =
      (a.text, { p with out := "", queue := p.queue.pushAll a.requests }) := by
  have hm : m.run { p with out := "" } = _ := h { p with out := "" } hcx hdepth
  show ((m.run { p with out := "" }).2.out, { (m.run { p with out := "" }).2 with out := "" }) = _
  rw [hm, append, String.empty_append]

theorem writes_memberInitializer (member : String) (init : Expr) :
    Writes cx depth (memberInitializer member init)
      (Identifier.sanitize member ++ " = " ++ init.print cx ++ ";") := by
  refine ((writes_push _).bind <| (writes_push _).bind <| (writes_expr init).bind
    (writes_push _)).congr ?_
  simp [String.append_assoc]

/-- The initializer is asked for what rules it out before it is asked for its member. -/
theorem initializer_print? (cx : PrintContext) (init : CtorInitializer) :
    init.print? cx =
      if !init.written || init.inClassDefault then none
      else init.member.map fun member => (Identifier.sanitize member ++ " = ") ++
        init.init.print { cx with inInitializer := true } ++ ";" := by
  unfold CtorInitializer.print?
  cases init.member <;> cases init.written <;> cases init.inClassDefault <;> rfl

section

variable (names : NameTable) (polymorphic pointerReturn : Bool) (queue : FeedbackQueue)

/-- A step hands out the printed text, and only its requests are left. -/
theorem run_step (tree : Printable) :
    (step tree).run (start names polymorphic pointerReturn queue) =
      ((tree.print? { names, polymorphic, pointerReturn }).map Printed.text,
        start names polymorphic pointerReturn
          (queue.pushAll (tree.requests { names, polymorphic, pointerReturn }))) := by
  let p := start names polymorphic pointerReturn queue
  cases tree with
  | expr e =>
    have h := run_taken (writes_expr e) (Eq.refl p.toPrintContext) (Eq.refl p.depth)
    exact congrArg (fun (text, q) => (some text, q)) h
  | stmt s =>
    have h := run_taken (writes_stmt 0 s) (Eq.refl p.toPrintContext) (Eq.refl p.depth)
    exact congrArg (fun (text, q) => (some text, q)) h
  | initializer init =>
    show (printInitializer init).run p = ((init.print? p.toPrintContext).map _, start _ _ _
      (queue.pushAll ((init.print? p.toPrintContext).elim _ _)))
    rw [initializer_print?]
    unfold printInitializer
    split
    · rfl
    · cases init.member with
      | none => rfl
      | some member =>
        let q : Printer := { p with inInitializer := true, out := "" }
        have h : (memberInitializer member init.init).run q = _ :=
          writes_memberInitializer member init.init q rfl rfl
        show (some ((memberInitializer member init.init).run q).2.out,
          { ((memberInitializer member init.init).run q).2 with
            inInitializer := false, out := "" }) = _
        rw [h, append, String.empty_append]
        rfl

theorem run_eq_pushAll (trees : List Printable) :
    (run trees).run (start names polymorphic pointerReturn queue) =
      (trees.map fun tree => (tree.print? { names, polymorphic, pointerReturn }).map Printed.text,
        start names polymorphic pointerReturn
          (queue.pushAll
            (trees.flatMap (Printable.requests { names, polymorphic, pointerReturn })))) := by
  induction trees generalizing queue with
  | nil => rfl
  | cons tree trees ih =>
    let p := start names polymorphic pointerReturn queue
    show (((step tree).run p).1 :: ((run trees).run ((step tree).run p).2).1,
      ((run trees).run ((step tree).run p).2).2) = _
    rw [run_step, ih, List.flatMap_cons, FeedbackQueue.pushAll, FeedbackQueue.pushAll,
      FeedbackQueue.pushAll, List.foldl_append]
    rfl

/-- Several trees are printed as each of them is by a printer of its own, whatever waits there. -/
theorem run_trees (other : FeedbackQueue) (trees : List Printable) :
    (run trees).run (start names polymorphic pointerReturn queue) =
      (trees.map fun tree => ((step tree).run (start names polymorphic pointerReturn other)).1,
        start names polymorphic pointerReturn ⟨queue.pending ++
          ((trees.flatMap (Printable.requests { names, polymorphic, pointerReturn })).filter
            (· ∉ queue.pending)).eraseDups⟩) := by
  rw [run_eq_pushAll, ← FeedbackQueue.pending_pushAll]
  simp only [run_step]

end

end Printer
end DBindings
