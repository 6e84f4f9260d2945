import DBindings.Command
import DBindings.CommandLine.Help
import DBindings.CommandLine.Options

/-!
# The command line

* `CommandLine.parse`   the command that arguments ask for, or the text they ask to see;
* `CommandLine.respond` carries it out and gives exit status and standard output.
-/

namespace DBindings.CommandLine

inductive Invocation where
  | command (verbosity : Nat) (command : Command)
  /-- a text to show -/
  | text (s : String)
  /-- nothing that is understood -/
  | misuse
  deriving Repr, DecidableEq, Inhabited

inductive LogLevel where
  | warn | info | debug | trace
  deriving Repr, DecidableEq, Inhabited

/-- Each `-v` adds a level to warnings. -/
def LogLevel.ofVerbosity : Nat → LogLevel
  | 0 => warn
  | 1 => info
  | 2 => debug
  | _ => trace

def LogLevel.name : LogLevel → String
  | warn => "WARN"
  | info => "INFO"
  | debug => "DEBUG"
  | trace => "TRACE"

def verbose : Options.Spec := ⟨"verbose", some 'v', .counted⟩

def configOption : Options.Spec := ⟨"config", some 'c', .single .path⟩

inductive Verb where
  | generate | check | dump | init
  deriving Repr, DecidableEq, Inhabited

namespace Verb

def ofName? : String → Option Verb
  | "generate" => some generate
  | "check" => some check
  | "dump" => some dump
  | "init" => some init
  | _ => none

def options : Verb → List Options.Spec
  | generate =>
    [verbose, configOption, ⟨"output", some 'o', .single .path⟩, ⟨"path", none, .repeated .path⟩,
     ⟨"std", none, .single .text⟩, ⟨"extra", none, .repeated .text⟩,
     ⟨"mangling", none, .single (.choice ["itanium", "microsoft"])⟩, ⟨"no-preamble", none, .flag⟩]
  | check => [verbose, configOption]
  | dump => [verbose]
  | init => [verbose, ⟨"force", none, .flag⟩]

def helpText (long : Bool) : Verb → String
  | generate => if long then Help.generateLong else Help.generateBrief
  | check => Help.check
  | dump => Help.dump
  | init => Help.init

/-- The command that given options and operands make up; all but one need an operand. -/
def command? (g : Options.Given) : Verb → Option Command
  | generate => g.operand.map fun unit =>
    .generate unit (g.value? "config")
      { output := g.value? "output"
        paths := g.all "path"
        standard := g.value? "std"
        extras := g.all "extra"
        mangling := (g.value? "mangling").bind Mangling.ofName? }
      (!g.has "no-preamble")
  | check => g.operand.map fun unit => .check unit (g.value? "config")
  | dump => g.operand.map .list
  | init => some (.init (g.operand.getD "dgen.toml") (g.has "force"))

end Verb

/-- The help for the names of commands: each must be a command of the one before. -/
def helpFor : List String → Invocation
  | [] => .text Help.program
  | [name] =>
    match Verb.ofName? name with
    | some verb => .text (verb.helpText true)
    | none => if name = "help" then .text Help.help else .misuse
  | _ => .misuse

/-- The arguments of a command. -/
def parseVerb (verbosity : Nat) (verb : Verb) (args : List String) : Invocation :=
  match Options.read verb.options args with
  | .error .misuse => .misuse
  | .error (.help long) => .text (verb.helpText long)
  | .ok g =>
    match verb.command? g with
    | some command => .command (verbosity + g.count verbose.long) command
    | none => .misuse

/-- Joined short options in front of the command: the number of `v` added, or what they ask for. -/
def parseShort (verbosity : Nat) : List Char → Except Invocation Nat
  | [] => .ok verbosity
  | 'v' :: rest => parseShort (verbosity + 1) rest
  | 'h' :: _ => .error (.text Help.program)
  | 'V' :: _ => .error (.text Help.version)
  | _ => .error .misuse

/-- The arguments from the first that is not read on. -/
def parseFrom (verbosity : Nat) : List String → Invocation
  | [] => .misuse
  | arg :: args =>
    match arg.toList with
    | '-' :: '-' :: _ =>
      if arg = "--verbose" then parseFrom (verbosity + 1) args
      else if arg = "--help" then .text Help.program
      else if arg = "--version" then .text Help.version
      else .misuse
    | '-' :: c :: rest =>
      match parseShort verbosity (c :: rest) with
      | .ok verbosity => parseFrom verbosity args
      | .error invocation => invocation
    | _ =>
      if arg = "help" then helpFor args
      else match Verb.ofName? arg with
        | some verb => parseVerb verbosity verb args
        | none => .misuse

def parse (args : List String) : Invocation := parseFrom 0 args

/-- Exit status and standard output. -/
structure Response where
  status : Nat
  output : String
  deriving Repr, DecidableEq, Inhabited

/-- Carries out what arguments ask for: a command that fails has status one, and arguments that
are not understood have status two. -/
def respond {m : Type → Type} [Monad m] (fs : FileSystem m) (args : List String) : m Response := do
  match parse args with
  | .misuse => return ⟨2, ""⟩
  | .text s => return ⟨0, s⟩
  | .command _ command =>
    match ← (command.run fs).run with
    | .ok output => return ⟨0, output⟩
    | .error _ => return ⟨1, ""⟩

end DBindings.CommandLine
