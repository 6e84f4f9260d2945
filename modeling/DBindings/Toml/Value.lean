/-!
# TOML documents

A document is a table of keys.  A table remembers how it came about, because that decides who may
add to it: a table with a header of its own is complete, one that only stands on the way to
another may still get a header, and one that a dotted key made may be extended by dotted keys
alone.

* `Toml.Table.within?`   the table that an item stands for, and its place in the item;
* `Toml.Table.insertDotted?`   adds a value under a dotted key;
* `Toml.Table.alterAt?`   changes the table at the end of a path of headers;
* `Toml.Table.openHeader?`, `Toml.Table.repeatHeader?`   what a header adds to that table.
-/

namespace DBindings.Toml

/-- How a table came about. -/
inductive Origin where
  /-- by a header of its own, or as an inline table -/
  | explicit
  /-- on the way to the table of a longer header -/
  | passage
  /-- by a dotted key -/
  | dotted
  deriving Repr, DecidableEq, Inhabited

/-- A value or a table. -/
inductive Item where
  | text (value : String)
  /-- a number or a truth value -/
  | scalar
  /-- a date, a time, or both -/
  | moment
  | array (items : List Item)
  /-- a table written in one place, which nothing can be added to -/
  | inlineTable (origin : Origin) (entries : List (String × Item))
  | table (origin : Origin) (entries : List (String × Item))
  /-- the tables of a repeated header, which all are `table` -/
  | tables (items : List Item)
  deriving Repr, Inhabited

/-- A table with its entries. -/
structure Table where
  origin : Origin := .explicit
  entries : List (String × Item) := []
  deriving Repr, Inhabited

namespace Table

/-- Replaces the entry of a key, or adds it at the end. -/
def put (key : String) (item : Item) : List (String × Item) → List (String × Item)
  | [] => [(key, item)]
  | (k, old) :: rest => if k = key then (k, item) :: rest else (k, old) :: put key item rest

/-- Adds a value under a key that is not in use. -/
def insertNew? (t : Table) (key : String) (item : Item) : Option Table :=
  match t.entries.lookup key with
  | some _ => none
  | none => some { t with entries := t.entries ++ [(key, item)] }

/-- The item of a table under a header. -/
def toItem (t : Table) : Item := .table t.origin t.entries

/-- The item of a table written in one place. -/
def toInline (t : Table) : Item := .inlineTable t.origin t.entries

/-- The table that an item of a document stands for, which is the last one of a repeated header,
with the item that results when another table takes its place. -/
def within? : Item → Option (Table × (Table → Item))
  | .table origin entries => some (⟨origin, entries⟩, toItem)
  | .tables items =>
    match items.reverse with
    | .table origin entries :: before =>
      some (⟨origin, entries⟩, fun t => .tables (before.reverse ++ [t.toItem]))
    | _ => none
  | _ => none

/-- How dotted keys make tables and enter those that are there. -/
structure DottedPath where
  /-- the item of a table that is made -/
  wrap : Table → Item
  /-- the table that a key leads into, as for `within?` -/
  enter? : Item → Option (Table × (Table → Item))

/-- Dotted keys of a document do not enter the table of a header, unless the header is repeated. -/
def underHeaders : DottedPath where
  wrap := toItem
  enter?
    | .table .explicit _ => none
    | item => within? item

/-- Dotted keys of an inline table do not enter the tables that are values in it. -/
def insideInline : DottedPath where
  wrap := toInline
  enter?
    | .inlineTable .explicit _ => none
    | .inlineTable origin entries => some (⟨origin, entries⟩, toInline)
    | _ => none

/-- Adds a value inside the table of a key, which is found or made, along the rest of a path.  The
table at its end must be one that a dotted key made. -/
def insertInside? (kind : DottedPath) (t : Table) (first : String) (path : List String)
    (key : String) (item : Item) : Option Table := do
  let (child, close) ← match t.entries.lookup first with
    | none => some ({ origin := .dotted }, kind.wrap)
    | some old => kind.enter? old
  let child ← match path with
    | [] => if child.origin = .dotted then child.insertNew? key item else none
    | second :: path => insertInside? kind child second path key item
  return { t with entries := put first (close child) t.entries }

/-- Adds a value under a key: the path in front of it leads through tables that dotted keys have
made. -/
def insertDotted? (kind : DottedPath) (t : Table) : List String → String → Item → Option Table
  | [], key, item => if t.origin = .dotted then none else t.insertNew? key item
  | first :: path, key, item => insertInside? kind t first path key item

/-- Changes the table at the end of a path of headers; tables on the way are made, and of a repeated
header the last table counts. -/
def alterAt? (change : Table → Option Table) (t : Table) : List String → Option Table
  | [] => change t
  | key :: path => do
    let (child, close) ← match t.entries.lookup key with
      | none => some ({ origin := .passage }, toItem)
      | some item => within? item
    let child ← alterAt? change child path
    return { t with entries := put key (close child) t.entries }

/-- A header of a table: its name must be free, or lead to a table that only stood on the way. -/
def openHeader? (key : String) (t : Table) : Option Table :=
  match t.entries.lookup key with
  | none => some { t with entries := t.entries ++ [(key, .table .explicit [])] }
  | some (.table .passage entries) =>
    some { t with entries := put key (.table .explicit entries) t.entries }
  | some _ => none

/-- A repeated header: one more table under its name. -/
def repeatHeader? (key : String) (t : Table) : Option Table :=
  match t.entries.lookup key with
  | none => some { t with entries := t.entries ++ [(key, .tables [.table .explicit []])] }
  | some (.tables items) =>
    some { t with entries := put key (.tables (items ++ [.table .explicit []])) t.entries }
  | some _ => none

end Table

end DBindings.Toml
