import DBindings.Emit.Record

/-!
# Modules

A unit is written by walking its files and handing each declaration outside records to a sink.
The sink that writes a module is `Emit.handle`; others can listen to the same calls.

* `TranslationUnit.drive`    makes the calls for a unit, in document order;
* `TranslationUnit.emit`     the text of the module of a unit.
-/

namespace DBindings

/-- What a walk reports. -/
inductive Event where
  | beginFile (path : String)
  | endFile (path : String)
  | define (name : String) (definition : MacroDef) (loc : SourceLoc)
  | enterRecord (d : Decl)
  | leaveRecord (d : Decl)
  | enumeration (d : Decl)
  | function (d : Decl)
  | typedef (d : Decl)
  | variable_ (d : Decl)
  deriving Inhabited

section

variable {m : Type → Type} [Monad m]

mutual

/-- Reports a declaration, or what is inside it if it is a namespace. -/
def Decl.drive (sink : Event → m PUnit) : Decl → m PUnit
  | .space _ members => driveAll sink members
  | .record head info members methods => do
    sink (.enterRecord (.record head info members methods))
    sink (.leaveRecord (.record head info members methods))
  | .enumeration head e => sink (.enumeration (.enumeration head e))
  | .function head f => sink (.function (.function head f))
  | .typedef head underlying => sink (.typedef (.typedef head underlying))
  | .var head v => sink (.variable_ (.var head v))
  | .macroDef head definition => sink (.define (head.name.getD "") definition head.loc)

def Decl.driveAll (sink : Event → m PUnit) : List Decl → m PUnit
  | [] => pure ()
  | d :: ds => do
    Decl.drive sink d
    Decl.driveAll sink ds

end

/-- Reports the files of a unit and their declarations. -/
def TranslationUnit.drive (sink : Event → m PUnit) (unit : TranslationUnit) : m PUnit :=
  unit.files.forM fun file => do
    sink (.beginFile file.path)
    Decl.driveAll sink file.decls
    sink (.endFile file.path)

end

namespace Emit

/-- Registers a declaration that is under an input root; false if it is to be left out. -/
def accept (env : EmitEnv) (head : DeclHead) : Emit Bool := do
  if env.isRelevant head.loc then register head.id else return false

/-- Opens and writes a record at top level. -/
def enterRecord (env : EmitEnv) (r : RecordDecl) : Emit PUnit := do
  if r.info.dependent then return
  if !(← accept env r.head) then return
  enter r.head.id
  r.emit env (nested env) true

/-- Closes a record if it is the innermost one. -/
def leaveRecord (id : DeclId) : Emit PUnit := do
  let s ← get
  if s.nesting.head? == some id then
    leave
    line ""

/-- The declaration of a variable. -/
def variableCode (env : EmitEnv) (head : DeclHead) (v : Variable) : Printed :=
  let storage := match v.storage with
    | .external => "extern "
    | .static => "__gshared static "
    | .none => ""
  let start := env.functionLinkage head.context v.ty ++ storage ++ env.render v.ty ++ " " ++
    Identifier.sanitize (head.name.getD "")
  let value : Printed := match v.init with
    | none => ""
    | some init =>
      if v.ty.isPointer && init.isNullPointerConstant then " = null"
      else " = " ++ init.print { env.print with pointerReturn := v.ty.isPointer }
  start ++ value ++ ";"

def variable_ (env : EmitEnv) (head : DeclHead) (v : Variable) : Emit PUnit := do
  line (← printed (variableCode env head v))

/-- Writes a function with what the namespace style puts around it; operators are left out. -/
def function (env : EmitEnv) (head : DeclHead) (f : Function) : Emit PUnit := do
  let name := head.name.getD ""
  if "operator".toList.isPrefixOf name.toList then return
  strokes (env.style.begin_ head.context (env.linkage head.context))
  block (f.freeBlock env name)
  strokes (env.style.finish head.context)
  line ""

/-- Writes what an event reports; a declaration of another kind than the event says is left out. -/
def handle (env : EmitEnv) : Event → Emit PUnit
  | .beginFile path => lines ["", "// ------ " ++ path, ""]
  | .endFile _ => pure ()
  | .define name definition loc => do
    if env.isRelevant loc then
      let s ← get
      let (written, macros) := s.macros.define name definition loc
      set { s with macros }
      lines (written.getD [])
  | .enterRecord d =>
    match d.record? with
    | some r => enterRecord env r
    | none => pure ()
  | .leaveRecord d => leaveRecord d.id
  | .enumeration (.enumeration head e) => do
    if ← accept env head then strokes (e.strokes env head)
  | .function (.function head f) => do
    if ← accept env head then function env head f
  | .typedef (.typedef head underlying) => do
    if ← accept env head then
      typedef env (fun r => do enterRecord env r; leaveRecord r.head.id) head underlying true
  | .variable_ (.var head v) => do
    if ← accept env head then variable_ env head v
  | .enumeration _ | .function _ | .typedef _ | .variable_ _ => pure ()

end Emit

/-- Writes the declarations of a unit from a state on. -/
def TranslationUnit.write (unit : TranslationUnit) (options : EmitOptions) (s : EmitState) :
    Except EmitError PUnit × EmitState :=
  (unit.drive (Emit.handle (EmitEnv.ofUnit unit options .strings))).run s

/-- The text of the module of a unit. -/
def TranslationUnit.emit (unit : TranslationUnit) (options : EmitOptions) :
    Except EmitError String :=
  match unit.write options (.start options) with
  | (.ok _, s) => .ok s.finish
  | (.error e, _) => .error e

end DBindings
