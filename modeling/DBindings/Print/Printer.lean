import DBindings.Print.Stmt

/-!
# A printer

A printer writes several trees one after another.  It keeps the text that it is writing, the depth
of the line, whether a member is being initialized, and the requests that have been raised.

* `Printer.expr`, `Printer.stmt`   write a tree at the end of the text;
* `Printer.step`, `Printer.run`    hand out the text of a tree, or of several trees.
-/

namespace DBindings

/-- The state of printing. -/
structure Printer extends PrintContext where
  /-- indentation levels of the line -/
  depth : Nat := 0
  /-- the text so far -/
  out : String := ""
  queue : FeedbackQueue := {}
  deriving Inhabited

/-- A step of printing. -/
abbrev Printing := StateM Printer

namespace Expr

/-- The expression inside one pair of parentheses. -/
def unparenthesized : Expr → Expr
  | paren inner => inner
  | e => e

/-- The object that a conversion is applied to. -/
def converted (e : Expr) : Expr :=
  match e.ignoreParensImplicit with
  | member base _ => base
  | other => other

/-- What is subscripted: an array that decays is subscripted itself. -/
def subscripted (base : Expr) : Expr := if base.isDecayed then base.ignoreImplicit else base

/-- Condition and message of the expansion of an assertion macro. -/
def assertion? : Expr → Option (Expr × Expr)
  | paren (binary op cond report) =>
    match report.ignoreParensImplicit with
    | binary .comma (call callee [message, _, _] _) _ =>
      if op.isLogical && callee.ignoreImplicit.isAssertFunction then
        some (cond.unparenthesized, message)
      else none
    | _ => none
  | _ => none

/-! ## Sizes of parts -/

theorem sizeOf_ignoreImplicit_le (e : Expr) : sizeOf e.ignoreImplicit ≤ sizeOf e := by
  fun_induction ignoreImplicit e with
  | case1 _ inner _ ih => exact Nat.le_trans ih (by simp; omega)
  | case2 inner _ ih => exact Nat.le_trans ih (by simp; omega)
  | case3 e => exact Nat.le_refl _

theorem sizeOf_ignoreParensImplicit_le (e : Expr) :
    sizeOf e.ignoreParensImplicit ≤ sizeOf e := by
  fun_induction ignoreParensImplicit e with
  | case1 inner ih => exact Nat.le_trans ih (by simp)
  | case2 _ inner _ ih => exact Nat.le_trans ih (by simp; omega)
  | case3 inner _ ih => exact Nat.le_trans ih (by simp; omega)
  | case4 e => exact Nat.le_refl _

theorem sizeOf_unparenthesized_le (e : Expr) : sizeOf e.unparenthesized ≤ sizeOf e := by
  cases e <;> simp [unparenthesized]

theorem sizeOf_converted_le (e : Expr) : sizeOf e.converted ≤ sizeOf e := by
  have h := sizeOf_ignoreParensImplicit_le e
  unfold converted
  split
  · next base info heq =>
    rw [heq] at h
    simp only [member.sizeOf_spec] at h
    omega
  · exact h

theorem sizeOf_subscripted_le (base : Expr) : sizeOf base.subscripted ≤ sizeOf base := by
  unfold subscripted
  split
  · exact sizeOf_ignoreImplicit_le base
  · exact Nat.le_refl _

theorem sizeOf_assertion?_lt {e cond message : Expr} (h : e.assertion? = some (cond, message)) :
    sizeOf cond < sizeOf e ∧ sizeOf message < sizeOf e := by
  unfold assertion? at h
  split at h
  · next op cond' report =>
    have hreport := sizeOf_ignoreParensImplicit_le report
    split at h
    · next callee message' second third params rest heq =>
      rw [heq] at hreport
      split at h
      · obtain ⟨rfl, rfl⟩ := Prod.mk.inj (Option.some.inj h)
        have hcond := sizeOf_unparenthesized_le cond'
        simp only [binary.sizeOf_spec, call.sizeOf_spec, List.cons.sizeOf_spec] at hreport
        simp only [paren.sizeOf_spec, binary.sizeOf_spec]
        omega
      · exact nomatch h
    · exact nomatch h
  · exact nomatch h

end Expr

namespace Printer

/-- A printer that has printed nothing. -/
def start (names : NameTable) (polymorphic pointerReturn : Bool) (queue : FeedbackQueue) :
    Printer :=
  { names, polymorphic, pointerReturn, queue }

def push (text : String) : Printing PUnit := modify fun p => { p with out := p.out ++ text }

def pushIf (c : Bool) (text : String) : Printing PUnit := if c then push text else pure ()

def raise (request : Option Request) : Printing PUnit :=
  modify fun p => { p with queue := p.queue.pushAll request.toList }

def type (ty : Ty) : Printing PUnit := do push (ty.render (← get).names)

def qualifier : Option Ty → Printing PUnit
  | some ty => do
    type ty
    push "."
  | none => pure ()

def templateArgs (args : List TemplateArg) : Printing PUnit := do
  unless args.isEmpty do
    push "!("
    push (commaSeparated (TemplateArg.renderAll (← get).names args))
    push ")"

/-- Writes the last part of a member access, behind the dot. -/
def memberName (info : MemberInfo) : Printing PUnit := do
  push (match info.operator with
    | some ref => ref.op.memberName ref.params
    | none => Identifier.sanitize info.member)
  templateArgs info.templateArgs

/-- Passes the argument just written by reference, if it is a temporary for such a parameter. -/
def byRef (arg : Expr) (param : Option Ty) : Printing PUnit := do
  if arg.isMaterialized && param.any Ty.isReference then
    push ".byRef"
    raise (Printed.requestFor (← get).names arg.ty?)

mutual

def expr : Expr → Printing PUnit
  | .integerLiteral value kind => push (Literal.integer value kind)
  | .floatLiteral value kind => push (Literal.float value kind)
  | .charLiteral value kind => push (Literal.character value kind)
  | .stringLiteral value _ => push (Literal.string value)
  | .boolLiteral value => push (if value then "true" else "false")
  | .nullPtr => push "null"
  | .thisPtr implicit => pushIf (!implicit) "this"
  | .declRef name _ ty args => do
    qualifier ty
    push (Identifier.sanitize name)
    templateArgs args
  | .member base info => do
    if base.ignoreImplicit.isImplicitThis then
      pushIf (← get).polymorphic "this."
    else
      expr base
      pushIf (!base.ignoreImplicit.isAnonymousMember) "."
      qualifier info.qualifier
    unless info.anonymous do memberName info
  | .call callee args params => do
    expr callee
    unless callee.ignoreParensImplicit.isPseudoDestructor do
      push "("
      callArguments true (params.getD []) args
      push ")"
  | .memberCall callee args params conversion => do
    if conversion then
      have := Expr.sizeOf_converted_le callee
      expr callee.converted
    else
      expr callee
      push "("
      callArguments true (params.getD []) args
      push ")"
  | .operatorCall op args => operator op args
  | .unary op operand => do
    if op.isPostfix then
      expr operand
      push op.spelling
    else
      pushIf (!operand.isThis) op.spelling
      pushIf ((op == .plus || op == .minus) && operand.isUnary) " "
      expr operand
  | .binary op lhs rhs => do
    expr lhs
    push (" " ++ op.spelling ++ " ")
    match lhs.pointerOperand?, rhs.ignoreImplicit.integerValue? with
    | some ty, some value =>
      if value = 0 then push "null"
      else
        push "cast("
        type ty
        push ") "
        expr rhs
    | _, _ => expr rhs
  | .conditional cond yes no => do
    expr cond
    push " ? "
    expr yes
    push " : "
    expr no
  | .paren inner => do
    push "("
    expr inner
    push ")"
  | .implicitCast kind inner _ => do
    if (← get).pointerReturn && (kind == .nullToPointer || inner.isNullPointerConstant) then
      push "null"
    else match kind with
      | .arrayToPointerDecay => do
        expr inner
        pushIf (!inner.ignoreImplicit.isStringLiteral) ".ptr"
      | .nullToPointer => push "null"
      | _ => expr inner
  | .cStyleCast ty inner => do
    match h : if ty.isVoid then inner.assertion? else none with
    | some (cond, message) =>
      have : sizeOf cond < sizeOf inner ∧ sizeOf message < sizeOf inner := by
        split at h
        · exact Expr.sizeOf_assertion?_lt h
        · exact nomatch h
      push "assert("
      expr cond
      push ", "
      expr message
      push ")"
    | none =>
      push "cast("
      type ty
      push ")"
      expr inner
  | .namedCast _ ty inner => do
    push "cast("
    type (Expr.castTarget ty)
    push ")("
    expr inner
    push ")"
  | .functionalCast ty inner parens => do
    type ty
    pushIf parens "("
    expr inner
    pushIf parens ")"
  | .construct ty args listInit stdInitList => do
    let named := args.length != 1 &&
      ((← get).inInitializer || listInit || Expr.anyContainsTemporary args)
    if named then type ty
    let parens := named || (listInit && !stdInitList)
    pushIf parens "("
    arguments true args
    pushIf parens ")"
  | .temporaryObject ty args | .unresolvedConstruct ty args => do
    type ty
    push "("
    arguments true args
    push ")"
  | .materializeTemporary inner _ => expr inner
  | .defaultArg => pure ()
  | .newObject ty placement init style => do
    let emplace := placement.head?.any (!·.isDefaultArg)
    if emplace then
      push "emplace("
      arguments true placement
      push ", "
    else push "new "
    type ty
    initializer style init
    pushIf emplace ")"
  | .deleteObject inner _ | .pseudoDestructor inner => do
    push "destroy("
    expr inner
    push ")"
  | .traitOfType kind ty => do
    push "("
    type ty
    push ")"
    push kind.suffix
  | .traitOfExpr kind inner => do
    if inner.mentionsExplicitThis then push "typeof(this)" else expr inner
    push kind.suffix
  | .arraySubscript base index => do
    have := Expr.sizeOf_subscripted_le base
    expr base.subscripted
    push "["
    expr index
    push "]"
  | .initList ty exprs => do
    if ty.isArray then
      push "["
      arguments true exprs
      push "]"
    else
      type ty
      push "("
      arguments true exprs
      push ")"
  | .dependentMember base name args => do
    match base with
    | some base =>
      expr base
      push "."
    | none => pure ()
    push name
    templateArgs args
  | .unknown spelling => push spelling
termination_by e => (sizeOf e, 0)
decreasing_by all_goals as_aux_lemma => exact Prod.Lex.left _ _ (by simp <;> omega)

def initializer (style : NewInitStyle) : Option Expr → Printing PUnit
  | some init => do
    pushIf (style == .call) "("
    expr init
    pushIf (style == .call) ")"
  | none => pure ()
termination_by init => (sizeOf init, 0)
decreasing_by as_aux_lemma => exact Prod.Lex.left _ _ (by simp)

def operator (op : OverloadedOp) (args : List Expr) : Printing PUnit :=
  match op, args with
  | .plusPlus, [x] | .minusMinus, [x] => do
    push op.spelling
    push " "
    expr x
  | .plusPlus, x :: _ | .minusMinus, x :: _ => do
    expr x
    push " "
    push op.spelling
  | .arrow, x :: _ => expr x
  | .call, callee :: rest => do
    expr callee
    push "("
    arguments true rest
    push ")"
  | .subscript, [base, index] => do
    expr base
    push "["
    expr index
    push "]"
  | _, [x] => do
    push op.spelling
    push " "
    expr x
  | _, [x, y] => do
    expr x
    push (" " ++ op.spelling ++ " ")
    expr y
  | _, args => arguments true args
termination_by (sizeOf args, 1)
decreasing_by
  all_goals as_aux_lemma =>
    first
    | exact Prod.Lex.right _ Nat.zero_lt_one
    | exact Prod.Lex.left _ _ (by simp <;> omega)

/-- Writes arguments with commas between them, up to the first that a default value fills in. -/
def arguments (first : Bool) : List Expr → Printing PUnit
  | [] => pure ()
  | e :: es => do
    unless e.isDefaultArg do
      pushIf (!first) ", "
      expr e
      arguments false es
termination_by es => (sizeOf es, 0)
decreasing_by all_goals as_aux_lemma => exact Prod.Lex.left _ _ (by simp <;> omega)

/-- Writes arguments for parameters; a temporary is bound to a reference by `.byRef`. -/
def callArguments (first : Bool) (params : List Ty) : List Expr → Printing PUnit
  | [] => pure ()
  | e :: es => do
    unless e.isDefaultArg do
      pushIf (!first) ", "
      expr e
      byRef e params.head?
      callArguments false params.tail es
termination_by es => (sizeOf es, 0)
decreasing_by all_goals as_aux_lemma => exact Prod.Lex.left _ _ (by simp <;> omega)

end

/-! ## Statements -/

def newLine : Printing PUnit := do push (lineBreak (← get).depth)

/-- Writes something one level deeper. -/
def deeper (inside : Printing PUnit) : Printing PUnit := do
  modify fun p => { p with depth := p.depth + 1 }
  inside
  modify fun p => { p with depth := p.depth - 1 }

def operand : Option Expr → Printing PUnit
  | some e => do
    push " "
    expr e
  | none => pure ()

def variableDecl (v : LocalVar) : Printing PUnit := do
  pushIf v.isStatic "__gshared static "
  type v.ty
  push " "
  push (Identifier.sanitize v.name)
  match v.init with
  | none => pure ()
  | some init =>
    if v.ty.isReference then
      push "() \x7b return "
      expr init
      push "; \x7d"
    else unless v.isDefaultConstructed init do
      match v.style with
      | .call =>
        push " = "
        type v.ty
        push "("
        expr init
        push ")"
      | .c | .list =>
        push " = "
        expr init

def variableDecls (first : Bool) : List LocalVar → Printing PUnit
  | [] => pure ()
  | v :: vs => do
    pushIf (!first) "; "
    variableDecl v
    variableDecls false vs

def body (s : Stmt) (inside : Printing PUnit) : Printing PUnit := do
  if s.isCompound then
    push " "
    inside
  else deeper do
    newLine
    inside

def behind (s : Stmt) : Printing PUnit := if s.isCompound then push " " else newLine

mutual

def stmt : Stmt → Printing PUnit
  | .compound inside => do
    push "\x7b"
    deeper (block inside)
    newLine
    push "\x7d"
  | .expr e => do
    expr e
    push ";"
  | .decl vars => do
    variableDecls true vars
    push ";"
  | .ret value => do
    push "return"
    operand value
    push ";"
  | .ifThen cond yes no => do
    push "if ("
    expr cond
    push ")"
    body yes (stmt yes)
    match no with
    | none => pure ()
    | some no =>
      behind yes
      push "else"
      if no.isIf then
        push " "
        stmt no
      else body no (stmt no)
  | .whileLoop cond inside => do
    push "while ("
    expr cond
    push ")"
    body inside (stmt inside)
  | .doLoop inside cond => do
    push "do"
    body inside (stmt inside)
    behind inside
    push "while ("
    expr cond
    push ");"
  | .forLoop init cond inc inside => do
    push "for ("
    match init with
    | none => pure ()
    | some (.decl vars) => variableDecls true vars
    | some (.expr e) => expr e
    | some other => stmt other
    push ";"
    operand cond
    push ";"
    operand inc
    push ")"
    body inside (stmt inside)
  | .switch cond inside => do
    push "switch ("
    expr cond
    push ")"
    body inside (stmt inside)
  | .caseLabel value inside => do
    push "case "
    expr value
    push ":"
    body inside (stmt inside)
  | .defaultLabel inside => do
    push "default:"
    body inside (stmt inside)
  | .label name inside => do
    push name
    push ":"
    newLine
    stmt inside
  | .goto name => push ("goto " ++ name ++ ";")
  | .break_ => push "break;"
  | .continue_ => push "continue;"
  | .null => push "\x7b\x7d"

/-- Writes each statement on a line of its own. -/
def block : List Stmt → Printing PUnit
  | [] => pure ()
  | s :: rest => do
    newLine
    stmt s
    block rest

end

/-! ## Steps -/

def clear : Printing PUnit := modify fun p => { p with out := "" }

def take : Printing String := do
  let p ← get
  clear
  return p.out

def printExpr (e : Expr) : Printing String := do
  clear
  expr e
  take

def printStmt (s : Stmt) : Printing String := do
  clear
  modify fun p => { p with depth := 0 }
  stmt s
  take

/-- Writes the initialization of a member. -/
def memberInitializer (member : String) (init : Expr) : Printing PUnit := do
  push (Identifier.sanitize member)
  push " = "
  expr init
  push ";"

/-- Prints the initialization of a member; other initializers have no text. -/
def printInitializer (init : CtorInitializer) : Printing (Option String) := do
  if !init.written || init.inClassDefault then return none
  match init.member with
  | none => return none
  | some member =>
    clear
    modify fun p => { p with inInitializer := true }
    memberInitializer member init.init
    modify fun p => { p with inInitializer := false }
    return some (← take)

end Printer

/-- A tree to print. -/
inductive Printable where
  | expr (e : Expr)
  | stmt (s : Stmt)
  | initializer (init : CtorInitializer)
  deriving Inhabited

namespace Printer

/-- Prints a tree; an initializer may have no text. -/
def step : Printable → Printing (Option String)
  | .expr e => do return some (← printExpr e)
  | .stmt s => do return some (← printStmt s)
  | .initializer init => printInitializer init

def run : List Printable → Printing (List (Option String))
  | [] => return []
  | tree :: rest => do
    let text ← step tree
    return text :: (← run rest)

end Printer

end DBindings
