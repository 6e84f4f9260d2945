import DBindings.Json.Value

/-!
# Reading JSON text

Text is cut into tokens, and the tokens are put together by a machine with a stack of open arrays
and objects, which takes one token at a time.

* `Json.lex?`     tokens of a text;
* `Json.build?`   the one value that tokens spell;
* `Json.read?`    both.
-/

namespace DBindings.Json

inductive Token where
  | openObject | closeObject | openArray | closeArray | comma | colon
  | null | bool (value : Bool)
  | number (value : Number)
  | text (value : Option String)
  deriving Repr, Inhabited

/-- Blank characters between tokens. -/
def isBlank (c : Char) : Bool := c == ' ' || c == '\n' || c == '\t' || c == '\r'

def hexDigit? (c : Char) : Option Nat :=
  if '0' ≤ c ∧ c ≤ '9' then some (c.toNat - '0'.toNat)
  else if 'a' ≤ c ∧ c ≤ 'f' then some (c.toNat - 'a'.toNat + 10)
  else if 'A' ≤ c ∧ c ≤ 'F' then some (c.toNat - 'A'.toNat + 10)
  else none

/-- The 16-bit unit of four hexadecimal digits. -/
def unit? (a b c d : Char) : Option Nat := do
  return (← hexDigit? a) * 4096 + (← hexDigit? b) * 256 + (← hexDigit? c) * 16 + (← hexDigit? d)

def isHighSurrogate (u : Nat) : Bool := 0xD800 ≤ u && u < 0xDC00

def isLowSurrogate (u : Nat) : Bool := 0xDC00 ≤ u && u < 0xE000

/-- The character of a one-letter escape. -/
def escape? : Char → Option Char
  | '"' => some '"'
  | '\\' => some '\\'
  | '/' => some '/'
  | 'b' => some '\x08'
  | 'f' => some '\x0c'
  | 'n' => some '\n'
  | 'r' => some '\r'
  | 't' => some '\t'
  | _ => none

/-- A text behind its opening quote: its characters in reverse, or `none` once half a surrogate pair
was spelled, and the rest behind the closing quote. -/
def lexText : List Char → Option (List Char) → Option (Option String × List Char)
  | [], _ => none
  | '"' :: rest, seen => some (seen.map fun cs => String.ofList cs.reverse, rest)
  | '\\' :: 'u' :: a :: b :: c :: d :: '\\' :: 'u' :: e :: f :: g :: h :: rest, seen =>
    match unit? a b c d with
    | none => none
    | some u =>
      if isHighSurrogate u then
        match unit? e f g h with
        | none => none
        | some v =>
          if isLowSurrogate v then
            let point := 0x10000 + (u - 0xD800) * 0x400 + (v - 0xDC00)
            lexText rest (seen.map (Char.ofNat point :: ·))
          else lexText ('\\' :: 'u' :: e :: f :: g :: h :: rest) none
      else if isLowSurrogate u then lexText ('\\' :: 'u' :: e :: f :: g :: h :: rest) none
      else lexText ('\\' :: 'u' :: e :: f :: g :: h :: rest) (seen.map (Char.ofNat u :: ·))
  | '\\' :: 'u' :: a :: b :: c :: d :: rest, seen =>
    match unit? a b c d with
    | none => none
    | some u =>
      if isHighSurrogate u || isLowSurrogate u then lexText rest none
      else lexText rest (seen.map (Char.ofNat u :: ·))
  | '\\' :: c :: rest, seen =>
    match escape? c with
    | some e => lexText rest (seen.map (e :: ·))
    | none => none
  | c :: rest, seen => if c.toNat < 0x20 then none else lexText rest (seen.map (c :: ·))

/-- The leading digits of a text and the rest. -/
def lexDigits : List Char → List Nat × List Char
  | [] => ([], [])
  | c :: rest =>
    if '0' ≤ c ∧ c ≤ '9' then
      let (ds, rest) := lexDigits rest
      ((c.toNat - '0'.toNat) :: ds, rest)
    else ([], c :: rest)

/-- The fraction behind the integer part. -/
def lexFraction? : List Char → Option (Option (List Nat) × List Char)
  | '.' :: rest =>
    match lexDigits rest with
    | ([], _) => none
    | (ds, rest) => some (some ds, rest)
  | rest => some (none, rest)

def lexExponentDigits? (negative : Bool) (s : List Char) :
    Option (Option (Bool × List Nat) × List Char) :=
  match lexDigits s with
  | ([], _) => none
  | (ds, rest) => some (some (negative, ds), rest)

/-- The exponent at the end of a number. -/
def lexExponent? : List Char → Option (Option (Bool × List Nat) × List Char)
  | c :: rest =>
    if c = 'e' ∨ c = 'E' then
      match rest with
      | '+' :: rest => lexExponentDigits? false rest
      | '-' :: rest => lexExponentDigits? true rest
      | rest => lexExponentDigits? false rest
    else some (none, c :: rest)
  | [] => some (none, [])

/-- A number behind its sign; a leading zero stands alone. -/
def lexNumber? (negative : Bool) (s : List Char) : Option (Token × List Char) := do
  let (whole, rest) := lexDigits s
  if whole.isEmpty || (whole.head? == some 0 && whole.length != 1) then none
  let (fraction, rest) ← lexFraction? rest
  let (exponent, rest) ← lexExponent? rest
  return (.number ⟨negative, whole, fraction, exponent⟩, rest)

/-- The token at the start of a text without leading blanks. -/
def token? : List Char → Option (Token × List Char)
  | '{' :: rest => some (.openObject, rest)
  | '}' :: rest => some (.closeObject, rest)
  | '[' :: rest => some (.openArray, rest)
  | ']' :: rest => some (.closeArray, rest)
  | ',' :: rest => some (.comma, rest)
  | ':' :: rest => some (.colon, rest)
  | 'n' :: 'u' :: 'l' :: 'l' :: rest => some (.null, rest)
  | 't' :: 'r' :: 'u' :: 'e' :: rest => some (.bool true, rest)
  | 'f' :: 'a' :: 'l' :: 's' :: 'e' :: rest => some (.bool false, rest)
  | '"' :: rest => (lexText rest (some [])).map fun (content, rest) => (.text content, rest)
  | '-' :: rest => lexNumber? true rest
  | rest => lexNumber? false rest

/-- Tokens of a text, one at most for each unit of fuel. -/
def lexUpTo : Nat → List Char → Option (List Token)
  | 0, _ => none
  | fuel + 1, s =>
    match s.dropWhile isBlank with
    | [] => some []
    | c :: rest =>
      match token? (c :: rest) with
      | some (token, rest) => (lexUpTo fuel rest).map (token :: ·)
      | none => none

/-- Tokens of a text; each takes a character, so the length bounds their number. -/
def lex? (s : List Char) : Option (List Token) := lexUpTo (s.length + 1) s

/-- An open array or object with what it holds so far, in reverse. -/
inductive Frame where
  | array (items : List Json)
  | object (pairs : List (Option String × Json)) (key : Option String)

/-- What may come next. -/
inductive Expect where
  /-- a value -/
  | value
  /-- a value or the end of an array just opened -/
  | firstItem
  /-- a key or the end of an object just opened -/
  | firstKey
  /-- a key -/
  | key
  /-- the colon behind a key -/
  | colon (key : Option String)
  /-- a comma, or the end of the innermost array or object -/
  | next
  /-- the end of the text -/
  | done (value : Json)

structure Machine where
  stack : List Frame
  expect : Expect

/-- A finished value goes into the innermost open array or object. -/
def Machine.put (value : Json) : List Frame → Machine
  | [] => ⟨[], .done value⟩
  | .array items :: stack => ⟨.array (value :: items) :: stack, .next⟩
  | .object pairs key :: stack => ⟨.object ((key, value) :: pairs) key :: stack, .next⟩

/-- A token where a value is expected. -/
def Machine.begin? (stack : List Frame) : Token → Option Machine
  | .openObject => some ⟨.object [] none :: stack, .firstKey⟩
  | .openArray => some ⟨.array [] :: stack, .firstItem⟩
  | .null => some (put .null stack)
  | .bool value => some (put (.bool value) stack)
  | .number value => some (put (.number value) stack)
  | .text value => some (put (.text value) stack)
  | _ => none

def Machine.step? (m : Machine) (token : Token) : Option Machine :=
  match m.expect, token, m.stack with
  | .value, token, stack => begin? stack token
  | .firstItem, .closeArray, .array _ :: stack => some (put (.array []) stack)
  | .firstItem, token, stack => begin? stack token
  | .firstKey, .closeObject, .object _ _ :: stack => some (put (.object []) stack)
  | .firstKey, .text key, stack => some ⟨stack, .colon key⟩
  | .key, .text key, stack => some ⟨stack, .colon key⟩
  | .colon key, .colon, .object pairs _ :: stack => some ⟨.object pairs key :: stack, .value⟩
  | .next, .comma, .array items :: stack => some ⟨.array items :: stack, .value⟩
  | .next, .comma, .object pairs key :: stack => some ⟨.object pairs key :: stack, .key⟩
  | .next, .closeArray, .array items :: stack => some (put (.array items.reverse) stack)
  | .next, .closeObject, .object pairs _ :: stack => some (put (.object pairs.reverse) stack)
  | _, _, _ => none

/-- The one value that tokens spell. -/
def build? (tokens : List Token) : Option Json :=
  match tokens.foldlM Machine.step? ⟨[], .value⟩ with
  | some ⟨_, .done value⟩ => some value
  | _ => none

def read? (s : String) : Option Json := (lex? s.toList).bind build?

end DBindings.Json
