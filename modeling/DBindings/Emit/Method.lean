import DBindings.Emit.Function

/-!
# Member functions

* `RecordDecl.methodBlock`   the lines of a member function: its binding, a marker for special
  constructors, the signature and the body.
-/

namespace DBindings

/-- The access that a member is given; without a specifier it follows the tag of the record. -/
def Access.keyword (access : Access) (tag : RecordTag) : String :=
  match access with
  | .pub => "public"
  | .prot => "protected"
  | .priv => "private"
  | .unstated => if tag = .class_ then "private" else "public"

namespace MethodInfo

/-- A method with a body that may override one of a base class. -/
def mayOverride (info : MethodInfo) (f : Function) : Bool :=
  !info.isCtor && !info.isDtor && info.overriddenCount != 0 && f.body.isSome

/-- A default, copy or move constructor. -/
def isSpecialCtor (info : MethodInfo) : Bool :=
  match info.ctorKind? with
  | some .default | some .copy | some .move => true
  | _ => false

/-- D structs have no default constructor, copy and move by themselves and override nothing. -/
def isCommentedOut (info : MethodInfo) (f : Function) (polymorphic : Bool) : Bool :=
  !polymorphic && (info.isSpecialCtor || info.mayOverride f)

/-- The comment in front of a copy or move constructor. -/
def markerLines (info : MethodInfo) : List String :=
  match info.ctorKind? with
  | some .move => ["// move ctor"]
  | some .copy => ["// copy ctor"]
  | _ => []

/-- The words of a signature between the comment mark and the result. -/
def attributes (info : MethodInfo) (f : Function) (access : Access) (tag : RecordTag) : String :=
  (if f.inlineBody?.isSome then "/* inline */ " else "") ++
  access.keyword tag ++ " " ++
  (if info.hasOverride || info.mayOverride f then "override " else "") ++
  (if info.isStatic then "static " else "") ++
  (if info.isVirtual || info.isPure || info.isStatic || info.isCtor || info.isDtor then ""
    else "final ") ++
  (if info.isPure then "abstract " else "") ++
  (if info.ctorKind? = some .move ∧ access = .priv then "@disable " else "")

end MethodInfo

namespace RecordDecl

/-- The lines that bind a method to its symbol. -/
def bindingLines (env : EmitEnv) (r : RecordDecl) (method : DeclHead) (f : Function)
    (cls : MethodClass) (commentOut : Bool) : List String :=
  let binding := match env.options.mangling, f.mangledName with
    | .microsoft, _ =>
      let record := env.names.declName r.head
      some ("@pyExtract(\"" ++ record ++ "::" ++ method.name.getD "" ++
        "\") pragma(mangle, nsgen." ++ record ++ "_" ++ cls.name ++ ".mangleof)")
    | .itanium, some symbol => some ("pragma(mangle, \"" ++ symbol ++ "\")")
    | .itanium, none => none
  match binding with
  | some text => [if commentOut then "// " ++ text else text]
  | none => []

/-- The compile-time parameters of a method, if it has any. -/
def compileTimeList (env : EmitEnv) (f : Function) (cls : MethodClass) : Printed :=
  let parts := (cls.templateArg.map Printed.ofText).toList ++
    (f.templateParams.map (TemplateParam.printAll env.names)).toList
  if parts.isEmpty then "" else "(" ++ Printed.joined ", " parts ++ ")"

def signature (env : EmitEnv) (r : RecordDecl) (method : DeclHead) (f : Function)
    (info : MethodInfo) (cls : MethodClass) (commentOut : Bool) : Printed :=
  let mark := if info.isDefaulted then "// (default) " else if commentOut then "// " else ""
  let result := if info.isCtor || info.isDtor then "" else env.render f.returnType ++ " "
  (mark ++ info.attributes f method.access r.info.tag ++ result ++ cls.name) ++
    compileTimeList env f cls ++ "(" ++ f.printParams env.names ++
    (")" ++ (if info.isConst then " const" else "") ++ env.functionSuffix)

/-- The initializers of a constructor that has a body and is no template. -/
def initializerTexts (cx : PrintContext) (r : RecordDecl) (f : Function) (info : MethodInfo)
    (body : Option Stmt) : List Printed :=
  match body, info.role with
  | some _, .constructor _ inits =>
    if r.info.isTemplated || f.isTemplated then [] else inits.filterMap (CtorInitializer.print? cx)
  | _, _ => []

/-- The lines of a method of a class. -/
def classifiedBlock (env : EmitEnv) (r : RecordDecl) (polymorphic : Bool) (method : DeclHead)
    (f : Function) (info : MethodInfo) (cls : MethodClass) : Block :=
  let commentOut := info.isCommentedOut f polymorphic
  let binding := if cls.directBinding then bindingLines env r method f cls commentOut else []
  let sig := signature env r method f info cls commentOut
  let body := if info.isDtor then none else f.inlineBody?
  let inits := initializerTexts { env.print with polymorphic } r f info body
  ⟨binding ++ info.markerLines, sig.requests ++ inits.flatMap (·.requests)⟩ ++
    definition { env.print with polymorphic, pointerReturn := f.returnType.isPointer } sig.text
      body (inits.map (·.text)) commentOut

/-- The lines of a method, none if it is left out: members that the compiler adds by itself, and the
assignment that D provides. -/
def methodBlock (env : EmitEnv) (r : RecordDecl) (polymorphic : Bool) (method : DeclHead)
    (f : Function) : Block :=
  let info := f.method.getD {}
  if info.isDefaulted && !info.isExplicitlyDefaulted then {}
  else match f.classify env.names (method.name.getD "") r.head.id with
  | none => {}
  | some cls => classifiedBlock env r polymorphic method f info cls

end RecordDecl

end DBindings
