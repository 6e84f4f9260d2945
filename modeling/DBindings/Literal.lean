import DBindings.Tree.Expr
import DBindings.Decimal.Shortest

/-!
# Literals of D

* `Literal.integer`, `Literal.float`   numbers with the suffix of their type;
* `Literal.character`, `Literal.string`   quoted text with escapes.
-/

namespace DBindings.Literal

/-- The suffix of an integer literal by its type. -/
def integerSuffix : Builtin → String
  | .uInt => "U"
  | .long | .longLong => "L"
  | .uLong | .uLongLong => "UL"
  | _ => ""

def integer (value : Int) (kind : Builtin) : String := toString value ++ integerSuffix kind

/-- The D type that a floating-point literal belongs to. -/
def floatTypeName : Builtin → String
  | .float => "float"
  | .longDouble => "real"
  | _ => "double"

/-- The fewest digits that read back, in positional notation and always with a point. -/
def finiteText (negative : Bool) (mantissa : Nat) (exponent : Int) : String :=
  let (digits, power) := Binary64.shortest mantissa exponent
  let text := Binary64.positional digits power
  (if negative then "-" else "") ++ text ++ if text.toList.contains '.' then "" else ".0"

/-- A floating-point literal; what is not finite is a property of the type. -/
def float (value : Binary64) (kind : Builtin) : String :=
  match value with
  | .nan => floatTypeName kind ++ ".nan"
  | .infinite negative => (if negative then "-" else "") ++ floatTypeName kind ++ ".infinity"
  | .finite negative mantissa exponent =>
    finiteText negative mantissa exponent ++ if kind = .float then "f" else ""

/-- The hexadecimal digit of a number below sixteen. -/
def hexDigit (n : Nat) : Char := "0123456789abcdef".toList.getD n '0'

/-- The last so many hexadecimal digits of a number. -/
def hexDigits : Nat → Nat → List Char
  | 0, _ => []
  | width + 1, n => hexDigits width (n / 16) ++ [hexDigit (n % 16)]

/-- The value that a character literal stands for: a plain character that was extended by its sign
is cut back to a byte. -/
def characterValue (value : UInt32) (kind : CharKind) : Nat :=
  if kind = .ascii ∧ 0xFFFFFF00 ≤ value.toNat then value.toNat % 256 else value.toNat

/-- One character between single quotes: a named escape, itself if it is printable, or an escape
with two, four or eight digits. -/
def characterBody (value : Nat) : List Char :=
  if value = 0x5C then ['\\', '\\']
  else if value = 0x27 then ['\\', '\'']
  else if value = 0x07 then ['\\', 'a']
  else if value = 0x08 then ['\\', 'b']
  else if value = 0x0C then ['\\', 'f']
  else if value = 0x0A then ['\\', 'n']
  else if value = 0x0D then ['\\', 'r']
  else if value = 0x09 then ['\\', 't']
  else if value = 0x0B then ['\\', 'v']
  else if 0x20 ≤ value ∧ value ≤ 0x7E then [Char.ofNat value]
  else if value ≤ 0xFF then '\\' :: 'x' :: hexDigits 2 value
  else if value ≤ 0xFFFF then '\\' :: 'u' :: hexDigits 4 value
  else '\\' :: 'U' :: hexDigits 8 value

def characterSuffix : CharKind → String
  | .ascii | .utf8 => ""
  | .wide | .utf16 => "w"
  | .utf32 => "d"

def character (value : UInt32) (kind : CharKind) : String :=
  String.ofList ('\'' :: characterBody (characterValue value kind) ++ ['\'']) ++
    characterSuffix kind

/-- One character between double quotes. -/
def stringChar (c : Char) : List Char :=
  if c = '\\' then ['\\', '\\']
  else if c = '"' then ['\\', '"']
  else if c = '\n' then ['\\', 'n']
  else if c = '\r' then ['\\', 'r']
  else if c = '\t' then ['\\', 't']
  else if c.toNat = 0 then ['\\', '0']
  else if c.toNat < 0x20 ∨ c.toNat = 0x7F then '\\' :: 'x' :: hexDigits 2 c.toNat
  else [c]

def string (value : String) : String :=
  String.ofList ('"' :: value.toList.flatMap stringChar ++ ['"'])

end DBindings.Literal
