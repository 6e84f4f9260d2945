import DBindings.Config
import DBindings.Toml.Reader

/-!
# Configurations as TOML

The tables `input` and `output` hold the values of a configuration.  Unknown keys are skipped and
missing ones take their defaults.

* `GenConfig.ofToml?`    the configuration that a text writes;
* `GenConfig.toToml`     the text of a configuration.
-/

namespace DBindings

open Toml

namespace Toml.Item

/-- The fields of a structure: a table, or an array with the fields in their order.  A date or a
time is a structure of its own kind, which has none of the fields. -/
def fields? (names : List String) : Item → Option (List (String × Item))
  | inlineTable _ entries => some entries
  | table _ entries => some entries
  | array items => some (names.zip items)
  | tables items => some (names.zip items)
  | moment => some []
  | text _ | scalar => none

def text? : Item → Option String
  | text value => some value
  | _ => none

def texts? : Item → Option (List String)
  | array items => items.mapM text?
  | _ => none

/-- A value without data: its name, or a table whose only key is the name and holds nothing. -/
def tag? : Item → Option String
  | text value => some value
  | inlineTable _ [(name, payload)] | table _ [(name, payload)] =>
    match payload with
    | inlineTable _ [] | table _ [] | array [] => some name
    | _ => none
  | _ => none

end Toml.Item

/-- The value of a field, or the default where it is missing. -/
def fieldOr {α : Type} (fields : List (String × Item)) (name : String) (read : Item → Option α)
    (value : α) : Option α :=
  match fields.lookup name with
  | some item => read item
  | none => some value

namespace Mangling

def name : Mangling → String
  | itanium => "itanium"
  | microsoft => "microsoft"

def ofName? : String → Option Mangling
  | "itanium" => some itanium
  | "microsoft" => some microsoft
  | _ => none

end Mangling

namespace GenConfig

def inputOfToml? (item : Item) : Option InputConfig := do
  let fields ← item.fields? ["paths", "standard"]
  let base : InputConfig := {}
  return ⟨← fieldOr fields "paths" Item.texts? base.paths,
    ← fieldOr fields "standard" Item.text? base.standard⟩

def outputOfToml? (item : Item) : Option OutputConfig := do
  let fields ← item.fields? ["path", "extras", "mangling"]
  let base : OutputConfig := {}
  return ⟨← fieldOr fields "path" Item.text? base.path,
    ← fieldOr fields "extras" Item.texts? base.extras,
    ← fieldOr fields "mangling" (fun item => item.tag?.bind Mangling.ofName?) base.mangling⟩

/-- The configuration that a text writes. -/
def ofToml? (text : String) : Option GenConfig := do
  let root ← Toml.read? text
  return ⟨← fieldOr root.entries "input" inputOfToml? {},
    ← fieldOr root.entries "output" outputOfToml? {}⟩

/-- A text between double quotes. -/
def quoted (s : String) : String :=
  "\"" ++ String.join (s.toList.map fun c =>
    if c = '"' ∨ c = '\\' then "\\" ++ String.singleton c else String.singleton c) ++ "\""

/-- An array with each text on a line of its own. -/
def textArray (texts : List String) : String :=
  if texts.isEmpty then "[]"
  else "[\n" ++ String.join (texts.map fun s => "    " ++ quoted s ++ ",\n") ++ "]"

def toToml (config : GenConfig) : String :=
  "[input]\npaths = " ++ textArray config.input.paths ++
  "\nstandard = " ++ quoted config.input.standard ++
  "\n\n[output]\npath = " ++ quoted config.output.path ++
  "\nextras = " ++ textArray config.output.extras ++
  "\nmangling = " ++ quoted config.output.mangling.name ++ "\n"

end GenConfig

end DBindings
