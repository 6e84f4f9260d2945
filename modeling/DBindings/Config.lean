import DBindings.Text.Blank
import DBindings.Text.Contains

/-!
# Configuration

What to read and what to write.  Values come from the defaults, a configuration file and the command
line, a later one over an earlier one.

* `GenConfig.validate`   the conditions that a configuration has to meet;
* `GenConfig.override`   a configuration with values of the command line.
-/

namespace DBindings

/-- Name-mangling scheme of the target. -/
inductive Mangling where
  | itanium | microsoft
  deriving Repr, DecidableEq, Inhabited

structure InputConfig where
  /-- input roots; none accepts everything -/
  paths : List String := []
  standard : String := "c++17"
  deriving Repr, DecidableEq, Inhabited

structure OutputConfig where
  /-- path of the module -/
  path : String := "bindings.d"
  /-- names of extra features -/
  extras : List String := []
  mangling : Mangling := .itanium
  deriving Repr, DecidableEq, Inhabited

structure GenConfig where
  input : InputConfig := {}
  output : OutputConfig := {}
  deriving Repr, DecidableEq, Inhabited

/-- Values of the command line. -/
structure Overrides where
  output : Option String := none
  paths : List String := []
  standard : Option String := none
  extras : List String := []
  mangling : Option Mangling := none
  deriving Repr, DecidableEq, Inhabited

inductive ConfigError where
  | unreadable
  | malformed
  | emptyStandard
  | emptyOutput
  deriving Repr, DecidableEq, Inhabited

/-- What is reported of an invalid value. -/
def ConfigError.message : ConfigError → String
  | unreadable => "Failed to read config file"
  | malformed => "Failed to parse TOML config"
  | emptyStandard => "Config validation error: input.standard must not be empty"
  | emptyOutput => "Config validation error: output.path must not be empty"

namespace GenConfig

/-- C++ linkage is the default when the standard is one of C++. -/
def cppIsDefault (config : GenConfig) : Bool := Text.contains config.input.standard "c++"

def hasExtra (config : GenConfig) (name : String) : Bool := config.output.extras.contains name

/-- Functions are marked as not allocating. -/
def nogc (config : GenConfig) : Bool := config.hasExtra "attr-nogc"

/-- The standard must not be blank and the output path not empty. -/
def validate (config : GenConfig) : Except ConfigError GenConfig :=
  if Text.isAllBlank config.input.standard then .error .emptyStandard
  else if config.output.path = "" then .error .emptyOutput
  else .ok config

/-- Adds an extra feature unless it is there. -/
def withExtra (config : GenConfig) (name : String) : GenConfig :=
  if config.hasExtra name then config
  else { config with output.extras := config.output.extras ++ [name] }

/-- The configuration with values of the command line: paths and extras are added, other values
replace those of the configuration. -/
def override (config : GenConfig) (given : Overrides) : GenConfig :=
  let config := { config with
    input.paths := config.input.paths ++ given.paths
    input.standard := given.standard.getD config.input.standard
    output.path := given.output.getD config.output.path
    output.mangling := given.mangling.getD config.output.mangling }
  given.extras.foldl withExtra config

/-- A loaded configuration, valid by itself, with values of the command line on top. -/
def resolve (loaded : Except ConfigError GenConfig) (given : Overrides) :
    Except ConfigError GenConfig := do
  let config ← loaded
  (config.override given).validate

end GenConfig

end DBindings
