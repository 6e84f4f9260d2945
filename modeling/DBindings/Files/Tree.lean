import DBindings.Files.Path

/-!
# File trees

A tree of directories, files and symbolic links, with a working directory.  Paths are followed the
usual way: a link on the way is replaced by its target, at most forty times, and everything that
is passed through must be a directory.  Names and paths have bounds on their length, and nothing can
be made that goes beyond them.

* `FileTree.place?`     the place that a path leads to;
* `FileTree.read?`, `FileTree.write?`, `FileTree.makeDirs?`   reading and writing.
-/

namespace DBindings

/-- A place in a tree: the names on the way from its root. -/
abbrev Place := List String

inductive FileNode where
  | directory
  | file (text : String)
  | link (target : String)
  deriving Repr, DecidableEq, Inhabited

structure FileTree where
  nodes : List (Place × FileNode)
  /-- working directory -/
  cwd : Place
  deriving Repr, Inhabited

namespace FileTree

/-- The node at a place; the root is a directory. -/
def node? (t : FileTree) (place : Place) : Option FileNode :=
  if place = [] then some .directory else t.nodes.lookup place

def isDirectoryAt (t : FileTree) (place : Place) : Bool := t.node? place == some .directory

def put (t : FileTree) (place : Place) (node : FileNode) : FileTree :=
  { t with nodes := (place, node) :: t.nodes.filter (·.1 != place) }

/-- A tree that holds nothing but a working directory and the directories around it. -/
def empty (cwd : Place) : FileTree :=
  ⟨(List.range cwd.length).map fun n => (cwd.take (n + 1), .directory), cwd⟩

/-- The texts between the slashes of a path. -/
def names (path : String) : List String := (Path.split path.toList []).map String.ofList

def isAbsolute (path : String) : Bool := path.toList.head? == some '/'

/-- The links that may be followed on the way. -/
def maxLinks : Nat := 40

/-- The bytes that a name may have. -/
def maxNameBytes : Nat := 255

/-- The bytes that a path may have. -/
def maxPathBytes : Nat := 4095

/-- A name that something new can get. -/
def isNewName (name : String) : Bool :=
  name != "" && name != "." && name != ".." && decide (name.utf8ByteSize ≤ maxNameBytes)

/-- A path that an operation takes: it is not empty or too long, and has no null character. -/
def isUsable (path : String) : Bool :=
  path != "" && decide (path.utf8ByteSize ≤ maxPathBytes) && !path.toList.contains '\x00'

/-- Follows names from a place.  A name that is empty or a dot stays, two dots go up; the place
that is left must be a directory in any case. -/
def follow (t : FileTree) (links : Nat) (place : Place) (way : List String) : Option Place :=
  match way with
  | [] => some place
  | name :: rest =>
    if !t.isDirectoryAt place then none
    else if name = "" ∨ name = "." then follow t links place rest
    else if name = ".." then follow t links place.dropLast rest
    else match t.node? (place ++ [name]) with
      | none => none
      | some (.link target) =>
        match links with
        | 0 => none
        | links + 1 =>
          follow t links (if isAbsolute target then [] else place) (names target ++ rest)
      | some _ => follow t links (place ++ [name]) rest
termination_by (links, way.length)

def startOf (t : FileTree) (path : String) : Place := if isAbsolute path then [] else t.cwd

/-- The place that a path leads to, if there is something.  Its names are followed one by one, so
that the path may have any length. -/
def place? (t : FileTree) (path : String) : Option Place :=
  if path = "" then none else t.follow maxLinks (t.startOf path) (names path)

/-- The place that a path leads to which is given to an operation as a whole. -/
def walk? (t : FileTree) (path : String) : Option Place :=
  if isUsable path then t.place? path else none

def isPresent (t : FileTree) (path : String) : Bool := (t.walk? path).isSome

/-- The components of the place that a path leads to. -/
def canonical? (t : FileTree) (path : String) : Option (List Path.Component) :=
  (t.place? path).map fun place => .root :: place.map .normal

def read? (t : FileTree) (path : String) : Option String := do
  match t.node? (← t.walk? path) with
  | some (.file text) => some text
  | _ => none

/-- The place where a new file for a way from a place comes to be: the last name in an existing
directory, or where a link of that name leads. -/
def target? (t : FileTree) : Nat → Place → List String → Option Place
  | links, place, way => do
    let name ← way.getLast?
    let dir ← t.follow links place way.dropLast
    if !isNewName name || !t.isDirectoryAt dir then none
    match t.node? (dir ++ [name]) with
    | some (.link target) =>
      match links with
      | 0 => none
      | links + 1 => target? t links (if isAbsolute target then [] else dir) (names target)
    | _ => some (dir ++ [name])

/-- The tree after a text has been written to a file, which is made if it does not exist. -/
def write? (t : FileTree) (path text : String) : Option FileTree := do
  if !isUsable path then none
  let place ← t.target? maxLinks (t.startOf path) (names path)
  if t.isDirectoryAt place then none
  return t.put place (.file text)

/-- The tree after a directory has been made in an existing one, or is found to exist. -/
def makeDir? (t : FileTree) (start : Place) (way : List String) : Option FileTree :=
  match t.follow maxLinks start way with
  | some place => if t.isDirectoryAt place then some t else none
  | none => do
    let name ← way.getLast?
    let dir ← t.follow maxLinks start way.dropLast
    if !isNewName name || !t.isDirectoryAt dir || (t.node? (dir ++ [name])).isSome then none
    return t.put (dir ++ [name]) .directory

/-- The tree after a directory has been made with all that are missing above it. -/
def makeDirs? (t : FileTree) (path : String) : Option FileTree :=
  if isUsable path then
    let way := (names path).filter fun name => name != "" && name != "."
    (List.range way.length).foldlM
      (fun t n => t.makeDir? (t.startOf path) (way.take (n + 1))) t
  else none

/-- The tree after the directory of a path has been made. -/
def makeParent? (t : FileTree) (path : String) : Option FileTree :=
  let parent := Path.parent path
  if parent = "" then some t else t.makeDirs? parent

/-- The tree with a symbolic link, if its place is free. -/
def link? (t : FileTree) (path target : String) : Option FileTree := do
  if !isUsable path || !isUsable target then none
  let name ← (names path).getLast?
  let dir ← t.follow maxLinks (t.startOf path) (names path).dropLast
  if !isNewName name || !t.isDirectoryAt dir || (t.node? (dir ++ [name])).isSome then none
  return t.put (dir ++ [name]) (.link target)

end FileTree

end DBindings
