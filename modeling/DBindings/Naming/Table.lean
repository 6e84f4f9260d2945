import DBindings.Naming.Index

/-!
# Names for what has none

D has no anonymous record at module scope, so every anonymous record gets a name before anything is
written.  The names are kept beside the tree.

* A record that a typedef names takes the first such name.
* Other records of files and namespaces are `AnonType_1`, `AnonType_2`, … over the whole unit.
* Other records inside a record are `_anon1`, `_anon2`, … over the outermost record.
* An unnamed field is `a1_`, … if its type is `_anon1`, …, and `_field0`, … by its position if not;
  bit-fields keep no name.
-/

namespace DBindings

/-- Names given to anonymous records and to unnamed fields. -/
structure NameTable where
  records : List (DeclId × String) := []
  fields : List ((DeclId × Nat) × String) := []
  deriving Repr, Inhabited

namespace NameTable

def get? (table : NameTable) (id : DeclId) : Option String := table.records.lookup id

/-- Gives a name to a declaration that has been given none. -/
def name (table : NameTable) (id : DeclId) (name : String) : NameTable :=
  if (table.get? id).isSome then table
  else { table with records := (id, name) :: table.records }

/-- The name to declare: the given one, else its own. -/
def declName (table : NameTable) (head : DeclHead) : String :=
  (table.get? head.id).getD (head.name.getD "")

/-- The name to refer to a declaration by. -/
def refName (table : NameTable) (ref : DeclRef) : String := (table.get? ref.id).getD ref.name

/-- The name given to the field at a position of a record. -/
def fieldName? (table : NameTable) (record : DeclId) (position : Nat) : Option String :=
  table.fields.lookup (record, position)

/-! ## Names from typedefs -/

/-- A typedef names the anonymous record below it, and a record that carries the name of its typedef
is named by it. -/
def nameByTypedef (index : DeclIndex) (table : NameTable) : Decl → NameTable
  | .typedef head underlying =>
    match head.name, underlying.desugar with
    | some name, .record ref =>
      match index.get? ref.id with
      | some target => if target.head.name.isNone then table.name ref.id name else table
      | none => table
    | _, _ => table
  | .record head info _ _ =>
    match head.name, info.typedefName with
    | none, some name => table.name head.id name
    | _, _ => table
  | _ => table

/-! ## Numbered names -/

/-- A number in decimal digits, with an optional plus sign, below `2^32`. -/
def parseNumber? (text : List Char) : Option Nat :=
  let digits := match text with
    | '+' :: rest => rest
    | rest => rest
  if digits.isEmpty || !digits.all fun c => '0' ≤ c && c ≤ '9' then none
  else
    let n := digits.foldl (fun n c => 10 * n + (c.toNat - '0'.toNat)) 0
    if n < UInt32.size then some n else none

/-- The number in a name `_anon1`, `_anon2`, … -/
def anonNumber? (name : String) : Option Nat :=
  match name.toList with
  | '_' :: 'a' :: 'n' :: 'o' :: 'n' :: digits => parseNumber? digits
  | _ => none

/-- The name of an unnamed field by its type and position. -/
def fieldNameFor (table : NameTable) (ty : Ty) (position : Nat) : String :=
  let number := match ty.desugar with
    | .record ref => (table.get? ref.id).bind anonNumber?
    | _ => none
  match number with
  | some n => "a" ++ toString n ++ "_"
  | none => "_field" ++ toString position

/-- Names the unnamed fields of a record, from a position on. -/
def nameFields (table : NameTable) (record : DeclId) : Nat → List Field → NameTable
  | _, [] => table
  | position, field :: rest =>
    let table :=
      if field.name.isSome || field.bitWidth.isSome then table
      else
        let name := table.fieldNameFor field.ty position
        { table with fields := ((record, position), name) :: table.fields }
    nameFields table record (position + 1) rest

/-- A table and the number of the next name. -/
structure Counter where
  table : NameTable
  next : Nat

/-- Gives an anonymous record a numbered name unless it has one. -/
def Counter.visit (c : Counter) (stem : String) (d : Decl) : Counter :=
  if d.isRecord && d.head.name.isNone && (c.table.get? d.id).isNone then
    ⟨c.table.name d.id (stem ++ toString c.next), c.next + 1⟩
  else c

mutual

/-- Names what is inside a record: its members in order, then its fields. -/
def nameInside (c : Counter) : Decl → Counter
  | .record head info members _ =>
    let c := nameMembers c members
    { c with table := c.table.nameFields head.id 0 info.fields }
  | _ => c

/-- Names the records among the members of a record, each before what is inside it. -/
def nameMembers (c : Counter) : List Decl → Counter
  | [] => c
  | d :: ds => nameMembers (nameInside (c.visit "_anon" d) d) ds

end

mutual

/-- Names the records of files and namespaces, each with all that is inside it. -/
def nameScope (c : Counter) : Decl → Counter
  | .space _ members => nameScopes c members
  | d =>
    let c := c.visit "AnonType_" d
    { c with table := (nameInside ⟨c.table, 1⟩ d).table }

def nameScopes (c : Counter) : List Decl → Counter
  | [] => c
  | d :: ds => nameScopes (nameScope c d) ds

end

/-- The names that a unit needs: those from typedefs first, then the numbered ones. -/
def assign (unit : TranslationUnit) : NameTable :=
  let named := unit.walk.foldl (nameByTypedef (.ofUnit unit)) {}
  (unit.files.foldl (fun c file => nameScopes c file.decls) ⟨named, 1⟩).table

end NameTable

end DBindings
