import DBindings.Tree.Stmt

/-!
# Declarations and units

A unit is a list of files, a file a list of declarations.  Only namespaces and records nest:
`Decl` is a tree through them and everything else is a leaf, so a traversal recurses on `Decl`
and on `List Decl` alone.

* `Decl.walk`, `TranslationUnit.walk`   all declarations, a parent before its members and the
  members of a record before its methods.
-/

namespace DBindings

structure SourceLoc where
  file : Option String := none
  line : Nat := 0
  column : Nat := 0
  deriving Repr, DecidableEq, Inhabited

namespace SourceLoc

/-- A location is valid when it names a file. -/
def isValid (loc : SourceLoc) : Bool :=
  match loc.file with
  | some file => file != ""
  | none => false

/-- `file:line:column`, or a fixed text for an invalid location. -/
def text (loc : SourceLoc) : String :=
  match loc.file with
  | some file =>
    if loc.isValid then file ++ ":" ++ toString loc.line ++ ":" ++ toString loc.column
    else "<invalid loc>"
  | none => "<invalid loc>"

end SourceLoc

/-- Access specifiers; `unstated` for declarations outside a class or without a specifier. -/
inductive Access where
  | pub | prot | priv | unstated
  deriving Repr, DecidableEq, Inhabited

inductive Scope where
  | space (name : String)
  | record (name : String)
  deriving Repr, DecidableEq, Inhabited

/-- The scopes around a declaration, outermost first. -/
structure DeclContext where
  scopes : List Scope := []
  /-- declared inside a C linkage block -/
  cLinkage : Bool := false
  deriving Repr, DecidableEq, Inhabited

namespace DeclContext

/-- The context inside nested namespaces. -/
def namespaced (names : List String) : DeclContext := ⟨names.map .space, false⟩

def inNamespace (ctx : DeclContext) : Bool :=
  match ctx.scopes.getLast? with
  | some (.space _) => true
  | _ => false

/-- The names of the enclosing namespaces, outermost first. -/
def namespaces (ctx : DeclContext) : List String :=
  ctx.scopes.filterMap fun
    | .space name => some name
    | .record _ => none

end DeclContext

/-- What every declaration carries. -/
structure DeclHead where
  id : DeclId
  /-- absent for anonymous declarations -/
  name : Option String := none
  context : DeclContext := {}
  loc : SourceLoc := {}
  access : Access := .unstated
  deriving Repr, DecidableEq, Inhabited

inductive RecordTag where
  | struct | class_ | union
  deriving Repr, DecidableEq, Inhabited

/-- Size and alignment of a complete record in bytes; zero means unknown. -/
structure Layout where
  size : Nat
  align : Nat
  deriving Repr, DecidableEq, Inhabited

structure BaseSpec where
  ty : Ty
  access : Access := .unstated
  isVirtual : Bool := false
  deriving Inhabited

/-- A template parameter; `nonType` is the type of a value parameter. -/
structure TemplateParam where
  name : String
  nonType : Option Ty := none
  default : Option Expr := none
  deriving Inhabited

inductive RecordTemplate where
  /-- a primary class template -/
  | described (params : List TemplateParam)
  /-- an instantiated or explicitly specialized template -/
  | specialization (args : List TemplateArg)
  deriving Inhabited

structure Field where
  name : Option String := none
  ty : Ty
  access : Access := .unstated
  /-- storage size, where it is known -/
  sizeBits : Option Nat := none
  /-- width of a bit-field -/
  bitWidth : Option UInt32 := none
  inClassInit : Option Expr := none
  deriving Inhabited

structure RecordInfo where
  tag : RecordTag
  /-- false for forward declarations -/
  complete : Bool := true
  /-- declared inside a template without a template header of its own -/
  dependent : Bool := false
  layout : Option Layout := none
  bases : List BaseSpec := []
  fields : List Field := []
  template : Option RecordTemplate := none
  /-- name of the typedef that names an anonymous record -/
  typedefName : Option String := none
  deriving Inhabited

/-- The record is a primary class template. -/
def RecordInfo.isTemplated (info : RecordInfo) : Bool :=
  match info.template with
  | some (.described _) => true
  | _ => false

inductive CtorKind where
  | default | copy | move | other
  deriving Repr, DecidableEq, Inhabited

/-- One entry of a constructor's initializer list; no member for a base or delegating one. -/
structure CtorInitializer where
  member : Option String := none
  init : Expr
  /-- written in the source rather than synthesized -/
  written : Bool := true
  /-- comes from the member's in-class initializer -/
  inClassDefault : Bool := false
  deriving Inhabited

inductive MethodRole where
  | normal
  | constructor (kind : CtorKind) (initializers : List CtorInitializer)
  | destructor
  | conversion (target : Ty)
  deriving Inhabited

structure MethodInfo where
  role : MethodRole := .normal
  operator : Option OverloadedOp := none
  isVirtual : Bool := false
  isPure : Bool := false
  isStatic : Bool := false
  isConst : Bool := false
  /-- carries an explicit `override` -/
  hasOverride : Bool := false
  /-- number of virtual methods of base classes that it overrides -/
  overriddenCount : Nat := 0
  isDefaulted : Bool := false
  isExplicitlyDefaulted : Bool := false
  deriving Inhabited

namespace MethodInfo

def ctorKind? (info : MethodInfo) : Option CtorKind :=
  match info.role with
  | .constructor kind _ => some kind
  | _ => none

def isCtor (info : MethodInfo) : Bool := info.ctorKind?.isSome

def isDtor (info : MethodInfo) : Bool :=
  match info.role with
  | .destructor => true
  | _ => false

end MethodInfo

structure Param where
  name : Option String := none
  ty : Ty
  default : Option Expr := none
  deriving Inhabited

structure Function where
  returnType : Ty
  params : List Param := []
  /-- present for function templates -/
  templateParams : Option (List TemplateParam) := none
  variadic : Bool := false
  isInline : Bool := false
  body : Option Stmt := none
  /-- symbol name -/
  mangledName : Option String := none
  /-- present for member functions -/
  method : Option MethodInfo := none
  deriving Inhabited

namespace Function

/-- The body that is written along with the declaration. -/
def inlineBody? (f : Function) : Option Stmt := if f.isInline then f.body else none

def isTemplated (f : Function) : Bool := f.templateParams.isSome

end Function

structure Enumerator where
  name : String
  value : Int
  deriving Repr, DecidableEq, Inhabited

structure Enumeration where
  integerType : Ty
  enumerators : List Enumerator := []
  deriving Inhabited

inductive StorageClass where
  | none | external | static
  deriving Repr, DecidableEq, Inhabited

/-- A global variable or a static data member. -/
structure Variable where
  ty : Ty
  storage : StorageClass := .none
  init : Option Expr := none
  style : InitStyle := .c
  deriving Inhabited

inductive TokenKind where
  | identifier | keyword | literal | punctuation
  deriving Repr, DecidableEq, Inhabited

structure Token where
  kind : TokenKind
  text : String
  deriving Repr, DecidableEq, Inhabited

/-- A preprocessor definition; `params` are those of a function-like one. -/
structure MacroDef where
  params : Option (List String) := none
  tokens : List Token := []
  /-- used as an include guard -/
  headerGuard : Bool := false
  deriving Repr, DecidableEq, Inhabited

inductive Decl where
  | space (head : DeclHead) (members : List Decl)
  | record (head : DeclHead) (info : RecordInfo) (members methods : List Decl)
  | enumeration (head : DeclHead) (enum : Enumeration)
  | function (head : DeclHead) (func : Function)
  | typedef (head : DeclHead) (underlying : Ty)
  | var (head : DeclHead) (v : Variable)
  | macroDef (head : DeclHead) (definition : MacroDef)

namespace Decl

def head : Decl → DeclHead
  | space head _ | record head _ _ _ | enumeration head _ | function head _ | typedef head _
  | var head _ | macroDef head _ => head

def id (d : Decl) : DeclId := d.head.id

instance : Inhabited Decl := ⟨.macroDef default default⟩

def isRecord : Decl → Bool
  | record .. => true
  | _ => false

def function? : Decl → Option Function
  | function _ func => some func
  | _ => none

mutual

/-- The declaration and all that nest in it: itself, the members of a namespace or record, the
methods of a record. -/
def walk : Decl → List Decl
  | space head members => .space head members :: walkAll members
  | record head info members methods =>
    .record head info members methods :: (walkAll members ++ walkAll methods)
  | enumeration head enum => [.enumeration head enum]
  | function head func => [.function head func]
  | typedef head underlying => [.typedef head underlying]
  | var head v => [.var head v]
  | macroDef head definition => [.macroDef head definition]

def walkAll : List Decl → List Decl
  | [] => []
  | d :: ds => walk d ++ walkAll ds

end

end Decl

/-- The parts of a record declaration, for code that has already found one. -/
structure RecordDecl where
  head : DeclHead
  info : RecordInfo
  members : List Decl
  methods : List Decl
  deriving Inhabited

def Decl.record? : Decl → Option RecordDecl
  | .record head info members methods => some ⟨head, info, members, methods⟩
  | _ => none

structure SourceFile where
  path : String
  decls : List Decl := []
  deriving Inhabited

/-- A translation unit: its files in the order in which they were entered. -/
structure TranslationUnit where
  files : List SourceFile := []
  deriving Inhabited

def TranslationUnit.walk (unit : TranslationUnit) : List Decl :=
  unit.files.flatMap fun file => Decl.walkAll file.decls

end DBindings
