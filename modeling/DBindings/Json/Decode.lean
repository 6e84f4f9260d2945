import DBindings.Json.Value

/-!
# Decoding JSON values

A decoder is given the number of levels that it may still enter: every array, every object and every
tagged value is one level.  What a decoder skips costs nothing.

* `Decoder.fix`      a decoder for a recursive type; each round enters a level, so the levels left
                     bound the rounds;
* `Json.fields?`     the known fields of a structure, which is an object or, in the order of its
                     fields, an array;
* `Json.variant?`    the tag and the payload of a tagged value.
-/

namespace DBindings

/-- Reads a value within a number of levels. -/
abbrev Decoder (α : Type) := Nat → Json → Option α

namespace Decoder

variable {α β : Type}

def map (f : α → β) (d : Decoder α) : Decoder β := fun levels j => (d levels j).map f

/-- Rounds of a step that refers to the decoder under definition. -/
def iterate (step : Decoder α → Decoder α) : Nat → Nat → Json → Option α
  | 0, _, _ => none
  | rounds + 1, levels, j => step (iterate step rounds) levels j

def fix (step : Decoder α → Decoder α) : Decoder α :=
  fun levels j => iterate step (levels + 1) levels j

def bool : Decoder Bool
  | _, .bool value => some value
  | _, _ => none

def string : Decoder String
  | _, .text value => value
  | _, _ => none

def nat (bound : Nat) : Decoder Nat
  | _, .number n => n.nat? bound
  | _, _ => none

def u32 : Decoder Nat := nat (UInt32.size - 1)

def u64 : Decoder Nat := nat (UInt64.size - 1)

def i128 : Decoder Int
  | _, .number n => n.int? (-.ofNat (1 <<< 127)) (.ofNat (1 <<< 127) - 1)
  | _, _ => none

def binary64 : Decoder Binary64
  | _, .number n => n.binary64?
  | _, _ => none

/-- A value that may be null. -/
def nullable (d : Decoder α) : Decoder (Option α)
  | _, .null => some none
  | levels, j => (d levels j).map some

def list (d : Decoder α) : Decoder (List α)
  | levels + 1, .array items => items.mapM (d levels)
  | _, _ => none

end Decoder

namespace Json

/-- The values of the known fields of a structure, and the levels left for them. -/
structure Fields where
  levels : Nat
  values : List (String × Json)

/-- The pairs of an object whose key is known; no known key may occur twice. -/
def known? (names : List String) :
    List (Option String × Json) → List (String × Json) → Option (List (String × Json))
  | [], seen => some seen.reverse
  | (none, _) :: _, _ => none
  | (some key, value) :: rest, seen =>
    if names.contains key then
      if seen.any (·.1 == key) then none else known? names rest ((key, value) :: seen)
    else known? names rest seen

/-- The fields of a structure with the given names. -/
def fields? (names : List String) (levels : Nat) (j : Json) : Option Fields :=
  match levels, j with
  | levels + 1, .object pairs => (known? names pairs []).map (⟨levels, ·⟩)
  | levels + 1, .array items =>
    if items.length ≤ names.length then some ⟨levels, names.zip items⟩ else none
  | _, _ => none

namespace Fields

variable {α : Type}

def required (f : Fields) (name : String) (d : Decoder α) : Option α :=
  match f.values.lookup name with
  | some j => d f.levels j
  | none => none

def withDefault (f : Fields) (name : String) (d : Decoder α) (value : α) : Option α :=
  match f.values.lookup name with
  | some j => d f.levels j
  | none => some value

/-- A field that may be absent or null. -/
def optional (f : Fields) (name : String) (d : Decoder α) : Option (Option α) :=
  f.withDefault name d.nullable none

end Fields

/-- What stands behind a tag: nothing, or a value and the levels left for it. -/
inductive Payload where
  | none
  | value (levels : Nat) (j : Json)

/-- Tag and payload: a text is a bare tag, an object of one pair a tag with its payload. -/
def variant? (levels : Nat) (j : Json) : Option (String × Payload) :=
  match levels, j with
  | _, .text (some tag) => some (tag, .none)
  | levels + 1, .object [(some tag, value)] => some (tag, .value levels value)
  | _, _ => none

namespace Payload

variable {α : Type}

/-- The payload of a tag that has one. -/
def decode (p : Payload) (d : Decoder α) : Option α :=
  match p with
  | .value levels j => d levels j
  | .none => Option.none

/-- A tag without data has no payload, or null. -/
def empty (p : Payload) (value : α) : Option α :=
  match p with
  | .none => some value
  | .value _ .null => some value
  | .value _ _ => Option.none

end Payload

/-- A value of a type whose cases are tags without data. -/
def tag {α : Type} (tags : List (String × α)) : Decoder α := fun levels j => do
  let (name, payload) ← variant? levels j
  payload.empty (← tags.lookup name)

end Json

end DBindings
