import DBindings.Toml.Scalar

/-!
# Quoted texts and keys of TOML

Texts are quoted by double quotes, with escapes, or by single quotes, without; three quotes quote
a text of several lines.
-/

namespace DBindings.Toml

/-- A character that may stand in a text or a comment as it is. -/
def isPlain (c : Char) : Bool := c == '\t' || (0x20 ≤ c.toNat && c.toNat != 0x7F)

def isSpace (c : Char) : Bool := c == ' ' || c == '\t'

def skipSpace (s : List Char) : List Char := s.dropWhile isSpace

/-- The rest behind a line end, which is a line feed with or without a carriage return. -/
def newline? : List Char → Option (List Char)
  | '\n' :: rest => some rest
  | '\r' :: '\n' :: rest => some rest
  | _ => none

/-- Drops a line end, if there is one. -/
def skipNewline (s : List Char) : List Char := (newline? s).getD s

/-- Drops spaces and line ends. -/
def skipBlank : List Char → List Char
  | '\r' :: '\n' :: rest => skipBlank rest
  | c :: rest => if isSpace c || c == '\n' then skipBlank rest else c :: rest
  | [] => []

/-- The character of an escape of so many hexadecimal digits, and the rest. -/
def unicodeEscape? (width : Nat) (s : List Char) : Option (Char × List Char) :=
  let ds := s.take width
  let n := numberOf 16 ds
  if ds.length = width ∧ ds.all isHexDigit ∧ n.isValidChar then
    some (Char.ofNat n, s.drop width)
  else none

/-- The character behind a backslash, and the rest. -/
def escape? : List Char → Option (Char × List Char)
  | 'b' :: rest => some ('\x08', rest)
  | 't' :: rest => some ('\t', rest)
  | 'n' :: rest => some ('\n', rest)
  | 'f' :: rest => some ('\x0c', rest)
  | 'r' :: rest => some ('\r', rest)
  | '"' :: rest => some ('"', rest)
  | '\\' :: rest => some ('\\', rest)
  | 'u' :: rest => unicodeEscape? 4 rest
  | 'U' :: rest => unicodeEscape? 8 rest
  | _ => none

/-- A backslash at the end of a line drops the line end and all blanks behind it. -/
def lineContinuation? (s : List Char) : Option (List Char) :=
  (newline? (skipSpace s)).map skipBlank

/-- Up to two quotes before the three that end a text of several lines belong to the text. -/
def closing? (q : Char) : List Char → Option (List Char × List Char)
  | a :: b :: c :: rest =>
    if a = q ∧ b = q ∧ c = q then
      match rest with
      | d :: e :: rest' =>
        if d = q ∧ e = q then some ([q, q], rest')
        else if d = q then some ([q], e :: rest')
        else some ([], rest)
      | [d] => if d = q then some ([q], []) else some ([], rest)
      | [] => some ([], [])
    else none
  | _ => none

/-- The text behind opening quotes, one step for each unit of fuel; `several` says whether it may
have several lines, `escapes` whether a backslash is special. -/
def quoted (q : Char) (several escapes : Bool) :
    Nat → List Char → List Char → Option (List Char × List Char)
  | 0, _, _ => none
  | fuel + 1, s, seen =>
    match s with
    | [] => none
    | c :: rest =>
      if c = q then
        if several then
          match closing? q s with
          | some (extra, rest) => some (seen.reverse ++ extra, rest)
          | none => quoted q several escapes fuel rest (c :: seen)
        else some (seen.reverse, rest)
      else if c = '\\' ∧ escapes then
        match (if several then lineContinuation? rest else none) with
        | some rest => quoted q several escapes fuel rest seen
        | none =>
          match escape? rest with
          | some (e, rest) => quoted q several escapes fuel rest (e :: seen)
          | none => none
      else if isPlain c then quoted q several escapes fuel rest (c :: seen)
      else if several then
        match newline? s with
        | some rest => quoted q several escapes fuel rest ('\n' :: seen)
        | none => none
      else none

/-- A text on one line. -/
def lineText? : List Char → Option (String × List Char)
  | '"' :: rest =>
    (quoted '"' false true (rest.length + 1) rest []).map fun (cs, rest) => (String.ofList cs, rest)
  | '\'' :: rest =>
    (quoted '\'' false false (rest.length + 1) rest []).map fun (cs, rest) =>
      (String.ofList cs, rest)
  | _ => none

/-- A text; a line end right behind three opening quotes does not belong to it. -/
def text? : List Char → Option (String × List Char)
  | '"' :: '"' :: '"' :: rest =>
    (quoted '"' true true (rest.length + 1) (skipNewline rest) []).map fun (cs, rest) =>
      (String.ofList cs, rest)
  | '\'' :: '\'' :: '\'' :: rest =>
    (quoted '\'' true false (rest.length + 1) (skipNewline rest) []).map fun (cs, rest) =>
      (String.ofList cs, rest)
  | rest => lineText? rest

def isBareKeyChar (c : Char) : Bool :=
  isDigit c || ('a' ≤ c && c ≤ 'z') || ('A' ≤ c && c ≤ 'Z') || c == '_' || c == '-'

/-- One part of a key. -/
def keyPart? (s : List Char) : Option (String × List Char) :=
  match s.span isBareKeyChar with
  | ([], rest) => lineText? rest
  | (cs, rest) => some (String.ofList cs, rest)

/-- The parts of a key, with dots between them, one for each unit of fuel. -/
def keyParts? : Nat → List Char → Option (List String × List Char)
  | 0, _ => none
  | fuel + 1, s => do
    let (part, rest) ← keyPart? (skipSpace s)
    match skipSpace rest with
    | '.' :: rest =>
      let (parts, rest) ← keyParts? fuel rest
      return (part :: parts, rest)
    | rest => return ([part], rest)

/-- The parts that a key may have. -/
def maxKeyParts : Nat := 79

/-- A key with the blanks around it. -/
def key? (s : List Char) : Option (List String × List Char) := do
  let (parts, rest) ← keyParts? (s.length + 1) s
  if parts.length ≤ maxKeyParts then return (parts, rest) else none

/-- The rest of a line behind a comment, if there is one. -/
def skipComment? : List Char → Option (List Char)
  | '#' :: rest => some (rest.dropWhile isPlain)
  | rest => some rest

end DBindings.Toml
