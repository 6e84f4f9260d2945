import DBindings.TypeText
import DBindings.Identifier
import DBindings.Text.Blank

/-!
# Member functions in D

Constructors, destructors, conversions and operators have names of their own in D.  Arithmetic
goes through templates such as `opBinary`; comparison, logic and the arrow keep a plain name and
are bound to their symbol.

* `classify`   how a member function is declared, or `none` if it is not;
* `OverloadedOp.memberName`   how an operator is named in an expression.
-/

namespace DBindings

/-- How a member function is declared. -/
structure MethodClass where
  name : String
  /-- compile-time parameter, such as `string op : "+"` -/
  templateArg : Option String := none
  /-- bound to its symbol -/
  directBinding : Bool := false
  deriving Repr, DecidableEq, Inhabited

namespace MethodClass

def plain (name : String) : MethodClass := ⟨name, none, false⟩

/-- A template over the operator symbol. -/
def generic (name symbol : String) : MethodClass :=
  ⟨name, some ("string op : \"" ++ symbol ++ "\""), false⟩

def bound (name : String) : MethodClass := ⟨name, none, true⟩

end MethodClass

namespace OverloadedOp

/-- The name of an operator that is bound to its symbol. -/
def boundName? : OverloadedOp → Option String
  | equalEqual => some "opEquals"
  | exclaimEqual => some "op_ne"
  | ampAmp => some "op_and"
  | pipePipe => some "op_or"
  | less => some "op_lt"
  | greater => some "op_gt"
  | lessEqual => some "op_le"
  | greaterEqual => some "op_ge"
  | exclaim => some "op_not"
  | arrow => some "op_arrow"
  | _ => none

/-- The symbol without the equals signs at its end. -/
def stem (op : OverloadedOp) : String :=
  String.ofList (Text.dropEndWhile (· == '=') op.spelling.toList)

/-- The template that an operator goes through and the symbol it is given. -/
def template? (op : OverloadedOp) (params : Nat) : Option (String × String) :=
  match op with
  | tilde | plusPlus | minusMinus => some ("opUnary", op.spelling)
  | plus | minus | star | slash | percent | caret | amp | pipe | lessLess | greaterGreater =>
    some (if params = 0 then "opUnary" else "opBinary", op.spelling)
  | plusEqual | minusEqual | starEqual | slashEqual | percentEqual | caretEqual | ampEqual
  | pipeEqual | lessLessEqual | greaterGreaterEqual => some ("opOpAssign", op.stem)
  | _ => none

/-- The name of an operator that is neither bound nor a template. -/
def plainName : OverloadedOp → String
  | call => "opCall"
  | subscript => "opIndex"
  | equal => "opAssign"
  | _ => "op"

/-- How an operator with so many parameters is declared. -/
def classify (op : OverloadedOp) (params : Nat) : MethodClass :=
  match op.boundName?, op.template? params with
  | some name, _ => .bound name
  | none, some (name, symbol) => .generic name symbol
  | none, none => .plain op.plainName

/-- The name by which an expression refers to an operator, such as `opBinary!("+")`. -/
def memberName (op : OverloadedOp) (params : Nat) : String :=
  match op.boundName?, op.template? params with
  | some name, _ => name
  | none, some (name, symbol) => name ++ "!(\"" ++ symbol ++ "\")"
  | none, none => op.plainName

end OverloadedOp

/-- The type is a reference to a record. -/
def Ty.refersTo (ty : Ty) (record : DeclId) : Bool :=
  ty.isReference && match ty.record? with
    | some ref => ref.id == record
    | none => false

namespace Function

/-- The assignment of a record to itself, which D provides. -/
def isIdentityAssignment (f : Function) (record : DeclId) : Bool :=
  match f.method, f.params with
  | some info, [param] =>
    info.operator == some .equal && param.ty.refersTo record && f.returnType.refersTo record
  | _, _ => false

/-- The type that a conversion yields, without an outer reference. -/
def conversionTarget (target : Ty) : Ty :=
  match target.desugar with
  | .reference inner _ => inner
  | ty => ty

/-- How a member function of a record is declared; `none` if it is left out. -/
def classify (f : Function) (names : NameTable) (name : String) (record : DeclId) :
    Option MethodClass :=
  match f.method with
  | none => some (.plain (Identifier.sanitize name))
  | some info =>
    match info.role with
    | .constructor _ _ => some (.plain "this")
    | .destructor => some (.plain "~this")
    | .conversion target =>
      some ⟨"opCast", some ("Ty : " ++ (conversionTarget target).render names), false⟩
    | .normal =>
      match info.operator with
      | some op =>
        if f.isIdentityAssignment record then none else some (op.classify f.params.length)
      | none => some (.plain (Identifier.sanitize name))

end Function

end DBindings
