import DBindings.Tree.Ty
import DBindings.Decimal.Binary64

/-!
# Resolved expressions

Expressions of default arguments, initializers and inline bodies.  Implicit conversions and
temporaries are nodes of their own, so most questions about an expression first look below them:

* `Expr.ignoreImplicit`, `Expr.ignoreParensImplicit`   the expression below such nodes;
* `Expr.isNullPointerConstant`, `Expr.mentionsExplicitThis`, `Expr.containsTemporary`   the
  questions that the printer asks.
-/

namespace DBindings

inductive OverloadedOp where
  | plus | minus | star | slash | percent | caret | amp | pipe | tilde | exclaim | equal | less
  | greater | plusEqual | minusEqual | starEqual | slashEqual | percentEqual | caretEqual
  | ampEqual | pipeEqual | lessLess | greaterGreater | lessLessEqual | greaterGreaterEqual
  | equalEqual | exclaimEqual | lessEqual | greaterEqual | spaceship | ampAmp | pipePipe
  | plusPlus | minusMinus | comma | arrowStar | arrow | call | subscript
  | new | delete | arrayNew | arrayDelete
  deriving Repr, DecidableEq, Inhabited

/-- The C++ symbol of an operator. -/
def OverloadedOp.spelling : OverloadedOp → String
  | .plus => "+"
  | .minus => "-"
  | .star => "*"
  | .slash => "/"
  | .percent => "%"
  | .caret => "^"
  | .amp => "&"
  | .pipe => "|"
  | .tilde => "~"
  | .exclaim => "!"
  | .equal => "="
  | .less => "<"
  | .greater => ">"
  | .plusEqual => "+="
  | .minusEqual => "-="
  | .starEqual => "*="
  | .slashEqual => "/="
  | .percentEqual => "%="
  | .caretEqual => "^="
  | .ampEqual => "&="
  | .pipeEqual => "|="
  | .lessLess => "<<"
  | .greaterGreater => ">>"
  | .lessLessEqual => "<<="
  | .greaterGreaterEqual => ">>="
  | .equalEqual => "=="
  | .exclaimEqual => "!="
  | .lessEqual => "<="
  | .greaterEqual => ">="
  | .spaceship => "<=>"
  | .ampAmp => "&&"
  | .pipePipe => "||"
  | .plusPlus => "++"
  | .minusMinus => "--"
  | .comma => ","
  | .arrowStar => "->*"
  | .arrow => "->"
  | .call => "()"
  | .subscript => "[]"
  | .new => "new"
  | .delete => "delete"
  | .arrayNew => "new[]"
  | .arrayDelete => "delete[]"

/-- Builtin unary operators; `not` is bitwise and `lNot` logical. -/
inductive UnaryOp where
  | postInc | postDec | preInc | preDec | addrOf | deref | plus | minus | not | lNot
  deriving Repr, DecidableEq, Inhabited

namespace UnaryOp

def spelling : UnaryOp → String
  | postInc | preInc => "++"
  | postDec | preDec => "--"
  | addrOf => "&"
  | deref => "*"
  | plus => "+"
  | minus => "-"
  | not => "~"
  | lNot => "!"

/-- The symbol stands behind the operand. -/
def isPostfix : UnaryOp → Bool
  | postInc | postDec => true
  | _ => false

end UnaryOp

inductive BinaryOp where
  | mul | div | rem | add | sub | shl | shr | lt | gt | le | ge | eq | ne | and | xor | or
  | lAnd | lOr | assign | mulAssign | divAssign | remAssign | addAssign | subAssign
  | shlAssign | shrAssign | andAssign | xorAssign | orAssign | comma
  deriving Repr, DecidableEq, Inhabited

namespace BinaryOp

def spelling : BinaryOp → String
  | mul => "*"
  | div => "/"
  | rem => "%"
  | add => "+"
  | sub => "-"
  | shl => "<<"
  | shr => ">>"
  | lt => "<"
  | gt => ">"
  | le => "<="
  | ge => ">="
  | eq => "=="
  | ne => "!="
  | and => "&"
  | xor => "^"
  | or => "|"
  | lAnd => "&&"
  | lOr => "||"
  | assign => "="
  | mulAssign => "*="
  | divAssign => "/="
  | remAssign => "%="
  | addAssign => "+="
  | subAssign => "-="
  | shlAssign => "<<="
  | shrAssign => ">>="
  | andAssign => "&="
  | xorAssign => "^="
  | orAssign => "|="
  | comma => ","

/-- The short-circuit operators. -/
def isLogical : BinaryOp → Bool
  | lAnd | lOr => true
  | _ => false

end BinaryOp

inductive CastKind where
  | arrayToPointerDecay | functionToPointerDecay | nullToPointer | lValueToRValue
  | derivedToBase | integralCast | floatingCast | integralToFloating | floatingToIntegral
  | toVoid | noOp | other
  deriving Repr, DecidableEq, Inhabited

inductive NamedCastKind where
  | static | dynamic | reinterpret | const
  deriving Repr, DecidableEq, Inhabited

inductive CharKind where
  | ascii | wide | utf8 | utf16 | utf32
  deriving Repr, DecidableEq, Inhabited

/-- How the object of a `new` expression is initialized. -/
inductive NewInitStyle where
  | none | call | list
  deriving Repr, DecidableEq, Inhabited

inductive TraitKind where
  | sizeOf | alignOf
  deriving Repr, DecidableEq, Inhabited

/-- An overloaded operator named by a member access, with the number of explicit parameters of the
selected overload. -/
structure OperatorRef where
  op : OverloadedOp
  params : Nat
  deriving Repr, DecidableEq, Inhabited

/-- What a member access says besides its base. -/
structure MemberInfo where
  member : String
  ty : Ty
  arrow : Bool := false
  /-- type named by an explicit qualifier -/
  qualifier : Option Ty := none
  /-- set when the member is an overloaded operator -/
  operator : Option OperatorRef := none
  /-- the member is an anonymous struct or union field -/
  anonymous : Bool := false
  templateArgs : List TemplateArg := []
  deriving Inhabited

/-- A resolved expression. -/
inductive Expr where
  | integerLiteral (value : Int) (kind : Builtin)
  | floatLiteral (value : Binary64) (kind : Builtin)
  | charLiteral (value : UInt32) (kind : CharKind)
  | stringLiteral (value : String) (wide : Bool)
  | boolLiteral (value : Bool)
  | nullPtr
  | thisPtr (implicit : Bool)
  | declRef (name : String) (ty : Ty) (qualifier : Option Ty) (templateArgs : List TemplateArg)
  | member (base : Expr) (info : MemberInfo)
  /-- the parameter types are known for a direct, non-variadic callee -/
  | call (callee : Expr) (args : List Expr) (params : Option (List Ty))
  | memberCall (callee : Expr) (args : List Expr) (params : Option (List Ty)) (conversion : Bool)
  | operatorCall (op : OverloadedOp) (args : List Expr)
  | unary (op : UnaryOp) (operand : Expr)
  | binary (op : BinaryOp) (lhs rhs : Expr)
  | conditional (cond yes no : Expr)
  | paren (inner : Expr)
  | implicitCast (kind : CastKind) (inner : Expr) (ty : Ty)
  | cStyleCast (ty : Ty) (inner : Expr)
  | namedCast (kind : NamedCastKind) (ty : Ty) (inner : Expr)
  | functionalCast (ty : Ty) (inner : Expr) (parens : Bool)
  | construct (ty : Ty) (args : List Expr) (listInit stdInitList : Bool)
  | temporaryObject (ty : Ty) (args : List Expr)
  | unresolvedConstruct (ty : Ty) (args : List Expr)
  | materializeTemporary (inner : Expr) (ty : Ty)
  /-- stands for an argument filled in from a default value -/
  | defaultArg
  | newObject (ty : Ty) (placement : List Expr) (init : Option Expr) (style : NewInitStyle)
  | deleteObject (inner : Expr) (array : Bool)
  | pseudoDestructor (base : Expr)
  | traitOfType (kind : TraitKind) (ty : Ty)
  | traitOfExpr (kind : TraitKind) (inner : Expr)
  | arraySubscript (base index : Expr)
  | initList (ty : Ty) (exprs : List Expr)
  | dependentMember (base : Option Expr) (member : String) (templateArgs : List TemplateArg)
  /-- anything else, already spelled -/
  | unknown (spelling : String)
  deriving Inhabited

namespace Expr

/-- The static type, for the forms that carry one. -/
def ty? : Expr → Option Ty
  | declRef _ ty _ _ => some ty
  | member _ info => some info.ty
  | implicitCast _ _ ty => some ty
  | cStyleCast ty _ => some ty
  | namedCast _ ty _ => some ty
  | functionalCast ty _ _ => some ty
  | construct ty _ _ _ => some ty
  | temporaryObject ty _ => some ty
  | unresolvedConstruct ty _ => some ty
  | materializeTemporary _ ty => some ty
  | initList ty _ => some ty
  | paren inner => ty? inner
  | _ => none

/-- The expression below implicit casts and temporaries. -/
def ignoreImplicit : Expr → Expr
  | implicitCast _ inner _ => ignoreImplicit inner
  | materializeTemporary inner _ => ignoreImplicit inner
  | e => e

/-- The expression below parentheses, implicit casts and temporaries. -/
def ignoreParensImplicit : Expr → Expr
  | paren inner => ignoreParensImplicit inner
  | implicitCast _ inner _ => ignoreParensImplicit inner
  | materializeTemporary inner _ => ignoreParensImplicit inner
  | e => e

/-- A null pointer: `nullptr`, the literal zero, or a cast of either to a pointer type. -/
def isNullPointerConstant : Expr → Bool
  | nullPtr => true
  | integerLiteral value _ => value == 0
  | paren inner => isNullPointerConstant inner
  | implicitCast kind inner _ => kind == .nullToPointer || isNullPointerConstant inner
  | cStyleCast ty inner => (ty.isPointer || ty.isVoid) && isNullPointerConstant inner
  | namedCast _ ty inner => (ty.isPointer || ty.isVoid) && isNullPointerConstant inner
  | _ => false

/-- A written `this` occurs in the operands that a type trait looks at. -/
def mentionsExplicitThis : Expr → Bool
  | thisPtr implicit => !implicit
  | member base _ => mentionsExplicitThis base
  | unary _ operand => mentionsExplicitThis operand
  | paren inner => mentionsExplicitThis inner
  | implicitCast _ inner _ => mentionsExplicitThis inner
  | cStyleCast _ inner => mentionsExplicitThis inner
  | namedCast _ _ inner => mentionsExplicitThis inner
  | materializeTemporary inner _ => mentionsExplicitThis inner
  | arraySubscript base index => mentionsExplicitThis base || mentionsExplicitThis index
  | binary _ lhs rhs => mentionsExplicitThis lhs || mentionsExplicitThis rhs
  | _ => false

mutual

/-- A temporary object is constructed within the arguments of a construction. -/
def containsTemporary : Expr → Bool
  | temporaryObject .. => true
  | construct _ args _ _ => anyContainsTemporary args
  | implicitCast _ inner _ => containsTemporary inner
  | materializeTemporary inner _ => containsTemporary inner
  | paren inner => containsTemporary inner
  | _ => false

/-- Some of the expressions contains a temporary object. -/
def anyContainsTemporary : List Expr → Bool
  | [] => false
  | e :: es => containsTemporary e || anyContainsTemporary es

end

def isDefaultArg : Expr → Bool
  | defaultArg => true
  | _ => false

/-! ## Constructors for common expressions -/

def int (value : Int) : Expr := integerLiteral value .int

def var (name : String) (ty : Ty) : Expr := declRef name ty none []

/-- Access to a member through the implicit `this` of a method body. -/
def thisMember (name : String) (ty : Ty) : Expr :=
  member (thisPtr true) ⟨name, ty, true, none, none, false, []⟩

end Expr

end DBindings
