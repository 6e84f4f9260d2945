import DBindings.Literal
import DBindings.Print.Printed
import DBindings.Text.Contains

/-!
# Expressions in D

The printed text is valid D rather than an equivalent program, so some idioms are written another
way:

* a decayed array gets `.ptr`, unless it is a string literal or is subscripted at once;
* null pointer constants are `null`;
* the expansion of an assertion macro becomes `assert`;
* a temporary bound to a reference parameter is passed by `.byRef`, which raises a request.

`Expr.print` prints an expression.  A view says how much of the expression is meant, since some
forms print only what is below the implicit nodes of an operand.
-/

namespace DBindings

/-- What the printer has to know of the place where the code will stand. -/
structure PrintContext where
  names : NameTable := {}
  /-- members keep an explicit receiver -/
  polymorphic : Bool := false
  /-- every null pointer constant below an implicit cast is `null` -/
  pointerReturn : Bool := false
  /-- the code initializes a member -/
  inInitializer : Bool := false
  deriving Inhabited

/-- The part of an expression that is printed. -/
inductive View where
  /-- all of it -/
  | whole
  /-- what is below implicit casts and temporaries -/
  | bare
  /-- what is inside one pair of parentheses -/
  | unparenthesized
  /-- the object that a conversion is applied to -/
  | converted
  /-- condition and message of an assertion -/
  | assertion
  /-- the message of an assertion -/
  | message
  deriving Repr, DecidableEq, Inhabited

namespace PrintContext

variable (cx : PrintContext)

def templateArgs (args : List TemplateArg) : String :=
  if args.isEmpty then "" else "!(" ++ commaSeparated (TemplateArg.renderAll cx.names args) ++ ")"

/-- An explicit qualifier and its dot. -/
def qualifier (ty : Option Ty) : String :=
  match ty with
  | some ty => ty.render cx.names ++ "."
  | none => ""

end PrintContext

namespace Expr

def isImplicitThis : Expr → Bool
  | thisPtr true => true
  | _ => false

def isThis : Expr → Bool
  | thisPtr _ => true
  | _ => false

def isUnary : Expr → Bool
  | unary .. => true
  | _ => false

theorem isUnary_of_isThis {e : Expr} (h : e.isThis = true) : e.isUnary = false := by
  cases e with
  | thisPtr implicit => rfl
  | _ => exact nomatch h

def isAnonymousMember : Expr → Bool
  | member _ info => info.anonymous
  | _ => false

def isMaterialized : Expr → Bool
  | materializeTemporary .. => true
  | _ => false

def isStringLiteral : Expr → Bool
  | stringLiteral .. => true
  | _ => false

def isPseudoDestructor : Expr → Bool
  | pseudoDestructor _ => true
  | _ => false

/-- An array that decays to a pointer. -/
def isDecayed : Expr → Bool
  | implicitCast .arrayToPointerDecay _ _ => true
  | _ => false

/-- A reference to a function that reports failed assertions. -/
def isAssertFunction : Expr → Bool
  | declRef name _ _ _ => Text.contains name "assert"
  | _ => false

/-- A call of a function that reports failed assertions, with message, file and line, and then a
value. -/
def isAssertReport : Expr → Bool
  | binary .comma (call callee args _) _ =>
    callee.ignoreImplicit.isAssertFunction && args.length == 3
  | _ => false

/-- The expansion of an assertion macro below its cast to `void`. -/
def isAssertion : Expr → Bool
  | paren (binary op _ report) => op.isLogical && report.ignoreParensImplicit.isAssertReport
  | _ => false

/-- The type of a variable or member that is a pointer. -/
def pointerOperand? : Expr → Option Ty
  | declRef _ ty _ _ => if ty.isPointer then some ty else none
  | member _ info => if info.ty.isPointer then some info.ty else none
  | _ => none

def integerValue? : Expr → Option Int
  | integerLiteral value _ => some value
  | _ => none

/-- The type that a named cast is printed with: a reference is cast to what it refers to. -/
def castTarget (ty : Ty) : Ty :=
  match ty.desugar with
  | .reference inner _ => inner
  | _ => ty

/-- The last part of a member access, behind the dot. -/
def memberText (cx : PrintContext) (info : MemberInfo) : String :=
  (match info.operator with
    | some ref => ref.op.memberName ref.params
    | none => Identifier.sanitize info.member) ++ cx.templateArgs info.templateArgs

/-- An expression and what is printed for it. -/
abbrev Piece := Expr × Printed

/-- The arguments that are written: those before the first that a default value fills in. -/
def written (args : List Piece) : List Printed :=
  (args.takeWhile fun piece => !piece.1.isDefaultArg).map (·.2)

def arguments (args : List Piece) : Printed := Printed.joined ", " (written args)

/-- An argument for a parameter: a temporary is bound to a reference by `.byRef`. -/
def argument (cx : PrintContext) (piece : Piece) (param : Option Ty) : Printed :=
  if piece.1.isMaterialized && param.any Ty.isReference then
    piece.2.byRef cx.names piece.1 piece.1.ty?
  else piece.2

/-- The arguments of a call that are written, for the parameters as far as they are known. -/
def callWritten (cx : PrintContext) : List Ty → List Piece → List Printed
  | _, [] => []
  | params, piece :: rest =>
    if piece.1.isDefaultArg then []
    else argument cx piece params.head? :: callWritten cx params.tail rest

/-- The arguments of a call with commas between them. -/
def callArguments (cx : PrintContext) (params : Option (List Ty)) (args : List Piece) : Printed :=
  Printed.joined ", " (callWritten cx (params.getD []) args)

def operatorText (op : OverloadedOp) (args : List Piece) : Printed :=
  match op, args with
  | .plusPlus, [(_, x)] | .minusMinus, [(_, x)] => op.spelling ++ " " ++ x
  | .plusPlus, (_, x) :: _ | .minusMinus, (_, x) :: _ => x ++ " " ++ op.spelling
  | .arrow, (_, x) :: _ => x
  | .call, (_, callee) :: rest => callee ++ "(" ++ arguments rest ++ ")"
  | .subscript, [(_, base), (_, index)] => base ++ "[" ++ index ++ "]"
  | _, [(_, x)] => op.spelling ++ " " ++ x
  | _, [(_, x), (_, y)] => x ++ (" " ++ op.spelling ++ " ") ++ y
  | _, args => arguments args

def unaryText (op : UnaryOp) (operand : Expr) (x : Printed) : Printed :=
  if op.isPostfix then x ++ op.spelling
  else
    let symbol := if operand.isThis then "" else op.spelling
    let space := if (op == .plus || op == .minus) && operand.isUnary then " " else ""
    (symbol ++ space) ++ x

/-- A binary operator applied to its printed operands.  An integer beside a pointer becomes a
pointer. -/
def binaryText (cx : PrintContext) (op : BinaryOp) (lhs rhs : Expr) (x y : Printed) : Printed :=
  x ++ (" " ++ op.spelling ++ " ") ++
    match lhs.pointerOperand?, rhs.ignoreImplicit.integerValue? with
    | some ty, some value =>
      if value = 0 then Printed.ofText "null" else ("cast(" ++ ty.render cx.names ++ ") ") ++ y
    | _, _ => y

/-- A construction of an object: the type is written where the value alone would not do. -/
def constructText (cx : PrintContext) (ty : Ty) (args : List Piece)
    (listInit stdInitList : Bool) : Printed :=
  let named := args.length != 1 &&
    (cx.inInitializer || listInit || anyContainsTemporary (args.map (·.1)))
  let parens := named || (listInit && !stdInitList)
  (if named then ty.render cx.names else "") ++
    (if parens then "(" ++ arguments args ++ ")" else arguments args)

/-- An access to a member of a printed base.  An implicit receiver is written only in polymorphic
records, and an anonymous member not at all. -/
def memberAccess (cx : PrintContext) (base : Expr) (x : Printed) (info : MemberInfo) : Printed :=
  let last := if info.anonymous then "" else memberText cx info
  if base.ignoreImplicit.isImplicitThis then
    Printed.ofText ((if cx.polymorphic then "this." else "") ++ last)
  else
    let dot := if base.ignoreImplicit.isAnonymousMember then "" else "."
    x ++ (dot ++ cx.qualifier info.qualifier ++ last)

/-- A call with printed arguments; a destructor call is complete without them. -/
def callText (cx : PrintContext) (callee : Expr) (x : Printed) (params : Option (List Ty))
    (args : List Piece) : Printed :=
  if callee.ignoreParensImplicit.isPseudoDestructor then x
  else x ++ "(" ++ callArguments cx params args ++ ")"

/-- The part of a `new` expression before its initializer. -/
def newText (cx : PrintContext) (ty : Ty) (placement : List Piece) (init : Printed) : Printed :=
  match written placement with
  | [] => ("new " ++ ty.render cx.names) ++ init
  | args => "emplace(" ++ Printed.joined ", " args ++ (", " ++ ty.render cx.names) ++ init ++ ")"

mutual

/-- Prints the part of an expression that a view shows. -/
def printView (cx : PrintContext) : View → Expr → Printed
  | _, integerLiteral value kind => Literal.integer value kind
  | _, floatLiteral value kind => Literal.float value kind
  | _, charLiteral value kind => Literal.character value kind
  | _, stringLiteral value _ => Literal.string value
  | _, boolLiteral value => if value then "true" else "false"
  | _, nullPtr => "null"
  | _, thisPtr implicit => if implicit then "" else "this"
  | _, declRef name _ qualifier args =>
    cx.qualifier qualifier ++ Identifier.sanitize name ++ cx.templateArgs args
  | view, member base info =>
    let x := printView cx .whole base
    if view = .converted then x else memberAccess cx base x info
  | view, call callee args params =>
    let pieces := printAll cx args
    if view = .message then (pieces.head?.map (·.2)).getD .empty
    else callText cx callee (printView cx .whole callee) params pieces
  | _, memberCall callee args params conversion =>
    if conversion then printView cx .converted callee
    else printView cx .whole callee ++ "(" ++ callArguments cx params (printAll cx args) ++ ")"
  | _, operatorCall op args => operatorText op (printAll cx args)
  | _, unary op operand => unaryText op operand (printView cx .whole operand)
  | view, binary op lhs rhs =>
    match view with
    | .assertion => printView cx .unparenthesized lhs ++ ", " ++ printView cx .message rhs
    | .message => printView cx .message lhs
    | _ => binaryText cx op lhs rhs (printView cx .whole lhs) (printView cx .whole rhs)
  | _, conditional cond yes no =>
    printView cx .whole cond ++ " ? " ++ printView cx .whole yes ++ " : " ++ printView cx .whole no
  | view, paren inner =>
    match view with
    | .whole | .bare => "(" ++ printView cx .whole inner ++ ")"
    | .unparenthesized => printView cx .whole inner
    | view => printView cx view inner
  | view, implicitCast kind inner _ =>
    match view with
    | .whole | .unparenthesized =>
      if cx.pointerReturn && (kind == .nullToPointer || inner.isNullPointerConstant) then "null"
      else if kind = .nullToPointer then "null"
      else
        let x := printView cx .whole inner
        if kind = .arrayToPointerDecay ∧ !inner.ignoreImplicit.isStringLiteral then
          x.suffixed inner .ptr
        else x
    | view => printView cx view inner
  | _, cStyleCast ty inner =>
    if ty.isVoid && inner.isAssertion then "assert(" ++ printView cx .assertion inner ++ ")"
    else ("cast(" ++ ty.render cx.names ++ ")") ++ printView cx .whole inner
  | _, namedCast _ ty inner =>
    ("cast(" ++ (castTarget ty).render cx.names ++ ")(") ++ printView cx .whole inner ++ ")"
  | _, functionalCast ty inner parens =>
    let x := printView cx .whole inner
    ty.render cx.names ++ if parens then "(" ++ x ++ ")" else x
  | _, construct ty args listInit stdInitList =>
    constructText cx ty (printAll cx args) listInit stdInitList
  | _, temporaryObject ty args => (ty.render cx.names ++ "(") ++ arguments (printAll cx args) ++ ")"
  | _, unresolvedConstruct ty args =>
    (ty.render cx.names ++ "(") ++ arguments (printAll cx args) ++ ")"
  | view, materializeTemporary inner _ =>
    match view with
    | .unparenthesized => printView cx .whole inner
    | view => printView cx view inner
  | _, defaultArg => ""
  | _, newObject ty placement init style =>
    let init : Printed := match init with
      | some e =>
        let x := printView cx .whole e
        if style = .call then "(" ++ x ++ ")" else x
      | none => ""
    newText cx ty (printAll cx placement) init
  | _, deleteObject inner _ => "destroy(" ++ printView cx .whole inner ++ ")"
  | _, pseudoDestructor base => "destroy(" ++ printView cx .whole base ++ ")"
  | _, traitOfType kind ty => "(" ++ ty.render cx.names ++ ")" ++ kind.suffix
  | _, traitOfExpr kind inner =>
    if inner.mentionsExplicitThis then "typeof(this)" ++ kind.suffix
    else (printView cx .whole inner).suffixed inner (.trait kind)
  | _, arraySubscript base index =>
    printView cx (if base.isDecayed then .bare else .whole) base ++ "[" ++
      printView cx .whole index ++ "]"
  | _, initList ty exprs =>
    let xs := arguments (printAll cx exprs)
    if ty.isArray then "[" ++ xs ++ "]" else (ty.render cx.names ++ "(") ++ xs ++ ")"
  | _, dependentMember base name args =>
    (match base with
      | some base => printView cx .whole base ++ "."
      | none => "") ++ (name ++ cx.templateArgs args)
  | _, unknown spelling => spelling

def printAll (cx : PrintContext) : List Expr → List Piece
  | [] => []
  | e :: es => (e, printView cx .whole e) :: printAll cx es

end

def print (cx : PrintContext) (e : Expr) : Printed := e.printView cx .whole

theorem printView_whole (cx : PrintContext) (e : Expr) :
    e.printView cx .whole = e.print cx := rfl

theorem printAll_eq (cx : PrintContext) (es : List Expr) :
    printAll cx es = es.map fun e => (e, e.print cx) := by
  induction es with
  | nil => rfl
  | cons e es ih => rw [printAll, ih, List.map_cons, print]

theorem written_printAll (cx : PrintContext) (es : List Expr) :
    written (printAll cx es) = (es.takeWhile fun e => !e.isDefaultArg).map (print cx) := by
  unfold written
  rw [printAll_eq, List.takeWhile_map, List.map_map]
  rfl

end Expr

/-- The initialization of a member in the body of a constructor; initializers of bases, and those
that are not written where the constructor is, have none. -/
def CtorInitializer.print? (cx : PrintContext) (init : CtorInitializer) : Option Printed :=
  match init.member with
  | some member =>
    if init.written && !init.inClassDefault then
      some ((Identifier.sanitize member ++ " = ") ++
        init.init.print { cx with inInitializer := true } ++ ";")
    else none
  | none => none

end DBindings
