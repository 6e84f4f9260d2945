/-!
# Options and operands

The arguments of a command are options, given by a long or a short name, and at most one operand.
A value stands behind its option, or is attached: `--std c99`, `--std=c99`, `-o file`, `-ofile`,
`-o=file`.  Short names of options without a value can be joined.  Behind `--` only operands
follow.

* `Options.read`   reads the arguments of a command in order, up to the first that is wrong or
  asks for help.
-/

namespace DBindings.Options

/-- The values that an option or operand takes. -/
inductive ValueKind where
  /-- a text that is not empty -/
  | path
  | text
  /-- one of the given names -/
  | choice (names : List String)
  deriving Repr, DecidableEq, Inhabited

def ValueKind.accepts : ValueKind → String → Bool
  | path, value => value != ""
  | text, _ => true
  | choice names, value => names.contains value

/-- What an option takes and how often it can be given. -/
inductive Arity where
  /-- no value, once -/
  | flag
  /-- no value, counted -/
  | counted
  /-- a value, once -/
  | single (kind : ValueKind)
  /-- a value each time -/
  | repeated (kind : ValueKind)
  deriving Repr, DecidableEq, Inhabited

/-- An option; its long name identifies it. -/
structure Spec where
  long : String
  short : Option Char
  arity : Arity
  deriving Repr, DecidableEq, Inhabited

structure Given where
  /-- options with their values, in order; the value of a flag is empty -/
  options : List (String × String) := []
  operand : Option String := none
  deriving Repr, DecidableEq, Inhabited

namespace Given

def count (g : Given) (long : String) : Nat := (g.options.filter (·.1 == long)).length

def has (g : Given) (long : String) : Bool := g.options.any (·.1 == long)

def all (g : Given) (long : String) : List String :=
  (g.options.filter (·.1 == long)).map (·.2)

def value? (g : Given) (long : String) : Option String := (g.all long).head?

end Given

/-- Why reading stops before the end. -/
inductive Stop where
  /-- something is wrong with the arguments -/
  | misuse
  /-- help is asked for, briefly or at length -/
  | help (long : Bool)
  deriving Repr, DecidableEq, Inhabited

/-- The option without a value that asks for help. -/
def helpName : String := "help"

def give (spec : Spec) (value : String) (g : Given) : Except Stop Given :=
  let added : Given := { g with options := g.options ++ [(spec.long, value)] }
  match spec.arity with
  | .flag => if g.has spec.long then .error .misuse else .ok added
  | .counted => .ok added
  | .single kind =>
    if g.has spec.long || !kind.accepts value then .error .misuse else .ok added
  | .repeated kind => if kind.accepts value then .ok added else .error .misuse

def Spec.takesValue (spec : Spec) : Bool :=
  match spec.arity with
  | .single _ | .repeated _ => true
  | .flag | .counted => false

/-- An argument that cannot be a value, because it begins like an option. -/
def isOptionLike : List Char → Bool
  | '-' :: _ :: _ => true
  | _ => false

/-- The text before the first equals sign, and the text behind it. -/
def splitEquals : List Char → List Char × Option (List Char)
  | [] => ([], none)
  | '=' :: rest => ([], some rest)
  | c :: rest =>
    let (name, value) := splitEquals rest
    (c :: name, value)

/-- An option that still waits for its value, or nothing that waits. -/
abbrev Waiting := Option Spec

/-- The options of a long name, without its dashes. -/
def readLong (specs : List Spec) (arg : List Char) (g : Given) : Except Stop (Given × Waiting) :=
  let (name, value) := splitEquals arg
  let name := String.ofList name
  if name = helpName then
    if value.isSome then .error .misuse else .error (.help true)
  else match specs.find? (·.long == name) with
    | none => .error .misuse
    | some spec =>
      match spec.takesValue, value with
      | true, some value => (give spec (String.ofList value) g).map (·, none)
      | true, none => .ok (g, some spec)
      | false, some _ => .error .misuse
      | false, none => (give spec "" g).map (·, none)

/-- The options of joined short names, without their dash. -/
def readShort (specs : List Spec) : List Char → Given → Except Stop (Given × Waiting)
  | [], g => .ok (g, none)
  | c :: rest, g =>
    if c = 'h' then .error (.help false)
    else match specs.find? (·.short == some c) with
      | none => .error .misuse
      | some spec =>
        if spec.takesValue then
          match rest with
          | [] => .ok (g, some spec)
          | '=' :: value => (give spec (String.ofList value) g).map (·, none)
          | value => (give spec (String.ofList value) g).map (·, none)
        else
          match give spec "" g with
          | .ok g => readShort specs rest g
          | .error stop => .error stop

/-- Adds the operand; a command takes one at most. -/
def giveOperand (value : String) (g : Given) : Except Stop Given :=
  match g.operand with
  | some _ => .error .misuse
  | none =>
    if ValueKind.path.accepts value then .ok { g with operand := some value } else .error .misuse

def readOperands : List String → Given → Except Stop Given
  | [], g => .ok g
  | arg :: args, g =>
    match giveOperand arg g with
    | .ok g => readOperands args g
    | .error stop => .error stop

/-- Reads arguments in order; `waiting` is an option that takes the next argument as its value. -/
def readFrom (specs : List Spec) : Waiting → List String → Given → Except Stop Given
  | none, [], g => .ok g
  | some _, [], _ => .error .misuse
  | some spec, arg :: args, g =>
    if isOptionLike arg.toList then .error .misuse
    else match give spec arg g with
      | .ok g => readFrom specs none args g
      | .error stop => .error stop
  | none, arg :: args, g =>
    match arg.toList with
    | ['-', '-'] => readOperands args g
    | '-' :: '-' :: long =>
      match readLong specs long g with
      | .ok (g, waiting) => readFrom specs waiting args g
      | .error stop => .error stop
    | '-' :: c :: short =>
      match readShort specs (c :: short) g with
      | .ok (g, waiting) => readFrom specs waiting args g
      | .error stop => .error stop
    | _ =>
      match giveOperand arg g with
      | .ok g => readFrom specs none args g
      | .error stop => .error stop

def read (specs : List Spec) (args : List String) : Except Stop Given := readFrom specs none args {}

end DBindings.Options
