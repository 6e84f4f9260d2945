import DBindings.Toml.Text
import DBindings.Toml.Value

/-!
# Reading TOML text

* `Toml.read?`   the root table of a document, or `none` if the text is not TOML.
-/

namespace DBindings.Toml

/-- Drops blanks, line ends and comments. -/
def skipTrivia : Nat → List Char → List Char
  | 0, s => s
  | fuel + 1, s =>
    match skipBlank s with
    | '#' :: rest => skipTrivia fuel (rest.dropWhile isPlain)
    | rest => rest

/-- The levels of arrays and inline tables that a value may have. -/
def maxLevels : Nat := 79

/-- The last part of a key and those before it. -/
def splitKey? : List String → Option (List String × String)
  | [] => none
  | first :: rest => some ((first :: rest).dropLast, (first :: rest).getLast (by simp))

mutual

/-- A value; `levels` are those that it may still have, and each unit of fuel is one step. -/
def value? (levels : Nat) : Nat → List Char → Option (Item × List Char)
  | 0, _ => none
  | fuel + 1, s =>
    match s with
    | '[' :: rest =>
      match levels with
      | 0 => none
      | levels + 1 =>
        (items? levels fuel (skipTrivia rest.length rest)).map fun (items, rest) =>
          (.array items, rest)
    | '\x7b' :: rest =>
      match levels with
      | 0 => none
      | levels + 1 =>
        match skipSpace rest with
        | '\x7d' :: rest => some (.inlineTable .explicit [], rest)
        | rest => (pairs? levels fuel {} rest).map fun (t, rest) => (t.toInline, rest)
    | c :: rest =>
      if c = '"' ∨ c = '\'' then
        (text? (c :: rest)).map fun (content, rest) => (.text content, rest)
      else match dateTime? (c :: rest) with
        | some rest => some (.moment, rest)
        | none => (scalar? (c :: rest)).map fun rest => (.scalar, rest)
    | [] => none

/-- The items of an array up to its end; a comma may stand behind the last one. -/
def items? (levels : Nat) : Nat → List Char → Option (List Item × List Char)
  | 0, _ => none
  | fuel + 1, s =>
    match s with
    | ']' :: rest => some ([], rest)
    | s => do
      let (item, rest) ← value? levels fuel s
      match skipTrivia rest.length rest with
      | ',' :: rest =>
        let (items, rest) ← items? levels fuel (skipTrivia rest.length rest)
        return (item :: items, rest)
      | ']' :: rest => return ([item], rest)
      | _ => none

/-- The pairs of an inline table up to its end, added to those before. -/
def pairs? (levels : Nat) : Nat → Table → List Char → Option (Table × List Char)
  | 0, _, _ => none
  | fuel + 1, t, s => do
    let (key, rest) ← key? s
    let rest ← char? '=' rest
    let (item, rest) ← value? levels fuel (skipSpace rest)
    let (path, name) ← splitKey? key
    let t ← t.insertDotted? Table.insideInline path name item
    match skipSpace rest with
    | ',' :: rest => pairs? levels fuel t rest
    | '\x7d' :: rest => return (t, rest)
    | _ => none

end

/-- The end of a line: blanks, a comment, and a line end or the end of the text. -/
def lineEnd? (s : List Char) : Option (List Char) := do
  match ← skipComment? (skipSpace s) with
  | [] => return []
  | rest => newline? rest

/-- A document while it is read: its root, and the table that keys are added to. -/
structure Document where
  root : Table := {}
  path : List String := []

/-- A header in brackets: opens a table. -/
def header? (d : Document) (s : List Char) : Option (Document × List Char) := do
  let (key, rest) ← key? s
  let rest ← char? ']' rest
  let (path, name) ← splitKey? key
  let root ← d.root.alterAt? (Table.openHeader? name) path
  return (⟨root, key⟩, rest)

/-- A header in double brackets: adds a table to those of its name. -/
def repeatedHeader? (d : Document) (s : List Char) : Option (Document × List Char) := do
  let (key, rest) ← key? s
  let rest ← char? ']' rest
  let rest ← char? ']' rest
  let (path, name) ← splitKey? key
  let root ← d.root.alterAt? (Table.repeatHeader? name) path
  return (⟨root, key⟩, rest)

/-- A key and its value: added to the table of the last header. -/
def assignment? (d : Document) (s : List Char) : Option (Document × List Char) := do
  let (key, rest) ← key? s
  let rest ← char? '=' rest
  let rest := skipSpace rest
  let (item, rest) ← value? maxLevels (2 * rest.length + 2) rest
  let (path, name) ← splitKey? key
  let insert (t : Table) := t.insertDotted? Table.underHeaders path name item
  let root ← d.root.alterAt? insert d.path
  return (⟨root, d.path⟩, rest)

/-- The lines of a document, one for each unit of fuel. -/
def lines? : Nat → Document → List Char → Option Document
  | 0, _, _ => none
  | fuel + 1, d, s => do
    let (d, rest) ← match skipSpace s with
      | '[' :: '[' :: rest => repeatedHeader? d rest
      | '[' :: rest => header? d rest
      | '#' :: rest => some (d, '#' :: rest)
      | '\n' :: rest => some (d, '\n' :: rest)
      | '\r' :: rest => some (d, '\r' :: rest)
      | [] => some (d, [])
      | rest => assignment? d rest
    match ← lineEnd? rest with
    | [] => return d
    | rest => lines? fuel d rest

/-- The root table of a document; a byte order mark may stand at its start. -/
def read? (text : String) : Option Table :=
  let s := match text.toList with
    | c :: rest => if c.toNat = 0xFEFF then rest else c :: rest
    | [] => []
  (lines? (s.length + 1) {} s).map (·.root)

end DBindings.Toml
