import DBindings.Emit.Module
import DBindings.Files.System
import DBindings.Json.Reader
import DBindings.Listing
import DBindings.Toml.Config
import DBindings.Tree.Decode

/-!
# Commands

* `Command.run`      carries out a command; the result is what it prints, or why it failed;
* `resolveConfig`    the configuration from a file, or the defaults, with values of the command
  line;
* `generate`         the module of a unit in a file.
-/

namespace DBindings

/-- Why a command fails. -/
inductive Failure where
  | config (e : ConfigError)
  | unitUnreadable
  | unitInvalid
  | emit (e : EmitError)
  | directory
  | output
  /-- a file that must not be replaced is there -/
  | exists_
  deriving Repr, DecidableEq, Inhabited

inductive Command where
  | generate (unit : String) (config : Option String) (given : Overrides) (preamble : Bool)
  | check (unit : String) (config : Option String)
  | list (unit : String)
  | init (output : String) (force : Bool)
  deriving Repr, DecidableEq, Inhabited

/-- The unit that a text writes. -/
def TranslationUnit.ofJson? (text : String) : Option TranslationUnit :=
  (Json.read? text).bind (TranslationUnit.decode Json.maxLevels)

/-- The files that the declarations of a unit come from. -/
def TranslationUnit.locations (unit : TranslationUnit) : List String :=
  (unit.walk.filterMap (·.head.loc.file)).eraseDups

/-- The path that stands for standard output. -/
def isStandardOutput (path : String) : Bool := Path.components path == [.normal "-"]

section

variable {m : Type → Type} [Monad m] (fs : FileSystem m)

/-- The configuration that `parse` finds in a file. -/
def loadConfig (parse : String → Option GenConfig) (path : String) :
    m (Except ConfigError GenConfig) := do
  match ← fs.read path with
  | none => return .error .unreadable
  | some text =>
    match parse text with
    | none => return .error .malformed
    | some config => return config.validate

/-- The configuration from a file, or the defaults, with values of the command line. -/
def resolveConfig (path : Option String) (given : Overrides)
    (parse : String → Option GenConfig := GenConfig.ofToml?) : ExceptT Failure m GenConfig := do
  let loaded ← match path with
    | some path => ExceptT.lift (loadConfig fs parse path)
    | none => pure (.ok {})
  match GenConfig.resolve loaded given with
  | .ok config => return config
  | .error e => throw (.config e)

def loadUnit (path : String) : ExceptT Failure m TranslationUnit := do
  match ← ExceptT.lift (fs.read path) with
  | none => throw .unitUnreadable
  | some text =>
    match TranslationUnit.ofJson? text with
    | some unit => return unit
    | none => throw .unitInvalid

/-- The places that paths lead to. -/
def canonicalPaths (paths : List String) : m (String → Option (List Path.Component)) := do
  let places ← paths.mapM fun path => return (path, ← fs.canonical path)
  return fun path => (places.lookup path).join

def generateModule (unit : TranslationUnit) (config : GenConfig) (preamble : Bool) :
    ExceptT Failure m String := do
  let canonical ← ExceptT.lift (canonicalPaths fs (config.input.paths ++ unit.locations))
  match unit.emit { EmitOptions.ofConfig canonical config with preamble } with
  | .ok code => return code
  | .error e => throw (.emit e)

def generate (path : String) (config : GenConfig) (preamble : Bool) : ExceptT Failure m String := do
  generateModule fs (← loadUnit fs path) config preamble

/-- Writes a text to a file whose directory is made if it is missing; what is not for a file is
printed. -/
def writeOutput (path text : String) : ExceptT Failure m String := do
  if isStandardOutput path then return text
  if !(← ExceptT.lift (fs.makeParent path)) then throw .directory
  if !(← ExceptT.lift (fs.write path text)) then throw .output
  return ""

namespace Command

/-- Carries out a command; the result is what it prints. -/
def run : Command → ExceptT Failure m String
  | generate unit config given preamble => do
    let config ← resolveConfig fs config given
    writeOutput fs config.output.path (← DBindings.generate fs unit config preamble)
  | check unit config => do
    let config ← resolveConfig fs config {}
    let code ← DBindings.generate fs unit config true
    return unit ++ ": ok (" ++ toString code.utf8ByteSize ++ " bytes)\n"
  | list unit => return (← loadUnit fs unit).listing
  | init output force => do
    if (← ExceptT.lift (fs.isPresent output)) && !force then throw .exists_
    let printed ← writeOutput fs output (GenConfig.toToml {})
    return printed ++ "Wrote " ++ output ++ "\n"

end Command

end

end DBindings
