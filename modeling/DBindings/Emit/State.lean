import DBindings.Bitfield
import DBindings.Config
import DBindings.Emit.Preamble
import DBindings.Files.Filter
import DBindings.Linkage
import DBindings.MacroConst
import DBindings.Print.Stmt

/-!
# The state of writing a module

Writing a module is a computation that may fail and keeps what it has done so far when it does.  Its
state is what has been written, as strokes, and what must be remembered between declarations:

* which declarations have been written, so that none is written twice;
* which records are open;
* the requests that wait for a record, and the records that have been given what they ask for.
-/

namespace DBindings

/-- Settings of a run. -/
structure EmitOptions where
  /-- C++ linkage is the default -/
  cppDefault : Bool := true
  /-- functions are marked as not allocating -/
  nogc : Bool := false
  mangling : Mangling := .itanium
  /-- the module starts with the preamble -/
  preamble : Bool := true
  filter : PathFilter := .acceptAll

/-- The settings that a configuration asks for. -/
def EmitOptions.ofConfig (canonical : String → Option (List Path.Component)) (config : GenConfig) :
    EmitOptions where
  cppDefault := config.cppIsDefault
  nogc := config.nogc
  mangling := config.output.mangling
  preamble := true
  filter := .ofRoots canonical config.input.paths

/-- What stays fixed while a unit is written. -/
structure EmitEnv where
  options : EmitOptions
  index : DeclIndex
  names : NameTable
  style : NamespaceStyle

namespace EmitEnv

def ofUnit (unit : TranslationUnit) (options : EmitOptions) (style : NamespaceStyle) : EmitEnv :=
  ⟨options, .ofUnit unit, .assign unit, style⟩

def print (env : EmitEnv) : PrintContext := { names := env.names }

def render (env : EmitEnv) (ty : Ty) : String := ty.render env.names

def linkage (env : EmitEnv) (ctx : DeclContext) : Linkage := .of ctx env.options.cppDefault

/-- The linkage in front of a variable or alias whose type is a function or points to one. -/
def functionLinkage (env : EmitEnv) (ctx : DeclContext) (ty : Ty) : String :=
  if ty.isFunction || ty.pointee?.any Ty.isFunction then
    "extern(" ++ (env.linkage ctx).text ++ ") "
  else ""

/-- What follows a parameter list. -/
def functionSuffix (env : EmitEnv) : String := if env.options.nogc then " @nogc" else ""

def isRelevant (env : EmitEnv) (loc : SourceLoc) : Bool := env.options.filter.isRelevant loc.file

end EmitEnv

/-- Where the closing brace of a record was written. -/
structure ClosedRecord where
  record : DeclId
  /-- the size in bytes of the text before the line of the brace -/
  offset : Nat
  /-- the indentation level of the body -/
  level : Nat
  isStruct : Bool
  deriving Repr, DecidableEq, Inhabited

/-- What has been done. -/
structure EmitState where
  script : Array Stroke := #[]
  /-- declarations that have been registered for writing -/
  registered : List DeclId := []
  /-- records that are open, the innermost first -/
  nesting : List DeclId := []
  macros : MacroNames := {}
  /-- every request so far, also those that have been handed out -/
  raised : List Request := []
  queue : FeedbackQueue := {}
  /-- requests are not put in the queue -/
  ignoring : Bool := false
  /-- records that have the mixin already -/
  withMixin : List DeclId := []
  /-- records that have been closed, the last one first -/
  closed : List ClosedRecord := []
  deriving Inhabited

namespace EmitState

/-- The line that lets temporaries of a record be passed by reference. -/
def mixinLine : String := "mixin RvalueRef;"

def start (options : EmitOptions) : EmitState :=
  { script := if options.preamble then #[.raw modulePreamble] else #[] }

def writer (s : EmitState) : CodeWriter := CodeWriter.run {} s.script.toList

def text (s : EmitState) : String := s.writer.text

def write (s : EmitState) (ss : List Stroke) : EmitState :=
  { s with script := s.script ++ ss.toArray }

def raise (s : EmitState) (requests : List Request) : EmitState :=
  { s with
    raised := s.raised ++ requests
    queue := if s.ignoring then s.queue else s.queue.pushAll requests }

def register (s : EmitState) (id : DeclId) : EmitState :=
  { s with registered := id :: s.registered }

def enter (s : EmitState) (id : DeclId) : EmitState := { s with nesting := id :: s.nesting }

def leave (s : EmitState) : EmitState := { s with nesting := s.nesting.tail }

/-- Hands out the requests to a record; if there are any, a struct gets the mixin once. -/
def settle (s : EmitState) (record : DeclId) (isStruct : Bool) : EmitState :=
  let (pending, queue) := s.queue.takeFor record
  let s := { s with queue }
  if !pending.isEmpty && isStruct && !s.withMixin.contains record then
    { s.write [.line mixinLine] with withMixin := record :: s.withMixin }
  else s

/-- Ends the body of a record and remembers where its closing brace is written. -/
def close (s : EmitState) (record : DeclId) (isStruct : Bool) : EmitState :=
  { s.write [.dedent, .line "\x7d"] with
    closed := ⟨record, s.writer.offset, s.writer.level, isStruct⟩ :: s.closed }

/-- The structs among the closed records that requests wait for and that have no mixin yet. -/
def lateRecords (closed : List ClosedRecord) : List DeclId → List Request → List ClosedRecord
  | _, [] => []
  | withMixin, r :: rest =>
    if withMixin.contains r.record then lateRecords closed withMixin rest
    else match closed.find? (·.record == r.record) with
      | some c =>
        if c.isStruct then c :: lateRecords closed (r.record :: withMixin) rest
        else lateRecords closed withMixin rest
      | none => lateRecords closed withMixin rest

/-- Puts the mixin in front of the closing brace of a record. -/
def insertMixin (w : CodeWriter) (c : ClosedRecord) : CodeWriter :=
  w.insert c.offset (indentation c.level ++ mixinLine ++ "\n")

/-- The text of the module.  Requests that came too late for their record are met now, from the end
of the text to its start, so that the places remembered stay right. -/
def finish (s : EmitState) : String :=
  let late := lateRecords s.closed s.withMixin s.queue.drain.1
  ((late.mergeSort fun a b => b.offset ≤ a.offset).foldl insertMixin s.writer).text

end EmitState

/-- A step of writing a module. -/
abbrev Emit := ExceptT EmitError (StateM EmitState)

/-- Lines of code and the requests that they raise. -/
structure Block where
  lines : List String := []
  requests : List Request := []
  deriving Repr, DecidableEq, Inhabited

namespace Emit

/-- A value, or the error that there is instead. -/
def ofExcept {α : Type} : Except EmitError α → Emit α
  | .ok a => pure a
  | .error e => throw e

def strokes (ss : List Stroke) : Emit PUnit := modify (·.write ss)

def line (text : String) : Emit PUnit := strokes [.line text]

def lines (texts : List String) : Emit PUnit := strokes (texts.map .line)

def raise (requests : List Request) : Emit PUnit := modify (·.raise requests)

/-- The text of printed code, whose requests are raised. -/
def printed (p : Printed) : Emit String := do
  raise p.requests
  return p.text

def block (b : Block) : Emit PUnit := do
  raise b.requests
  lines b.lines

/-- Registers a declaration; false if it has been registered before. -/
def register (id : DeclId) : Emit Bool := do
  let s ← get
  if s.registered.contains id then return false
  set (s.register id)
  return true

def enter (id : DeclId) : Emit PUnit := modify (·.enter id)

def leave : Emit PUnit := modify (·.leave)

end Emit

end DBindings
