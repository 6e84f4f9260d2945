/-!
# Paths

A path is compared by its components: repeated and trailing slashes do not count, nor do dots,
except one at the start of a relative path.

* `Path.components`   the components of a path;
* `Path.parent`       the path of the directory that the last component is in;
* `Path.startsWith`   one path begins with the components of another.
-/

namespace DBindings.Path

inductive Component where
  | root
  | current
  | parent
  | normal (name : String)
  deriving Repr, DecidableEq, Inhabited

/-- The texts between slashes. -/
def split : List Char → List Char → List (List Char)
  | [], current => [current.reverse]
  | '/' :: rest, current => current.reverse :: split rest []
  | c :: rest, current => split rest (c :: current)

/-- The component that a text between slashes stands for behind the start of a path. -/
def component? (name : List Char) : Option Component :=
  if name = [] ∨ name = ['.'] then none
  else if name = ['.', '.'] then some .parent
  else some (.normal (String.ofList name))

def components (path : String) : List Component :=
  match split path.toList [] with
  | [] => []
  | first :: rest =>
    let start : List Component :=
      if first = [] then (if rest = [] then [] else [.root])
      else if first = ['.'] then [.current]
      else (component? first).toList
    start ++ rest.filterMap component?

/-- The components of `path` begin with those of `start`. -/
def startsWith (path start : List Component) : Bool := start.isPrefixOf path

/-- Drops names that do not count from the end of a path, whose names stand in reverse.  The first
name of a path always counts. -/
def dropIdle : List (List Char) → List (List Char)
  | name :: before :: rest =>
    if name = [] ∨ name = ['.'] then dropIdle (before :: rest) else name :: before :: rest
  | names => names

/-- The path without its last component, as written; empty if nothing is left, or if the path is the
root. -/
def parent (path : String) : String :=
  match dropIdle (split path.toList []).reverse with
  | _ :: before :: rest =>
    match dropIdle (before :: rest) with
    | [[]] => "/"
    | names => String.intercalate "/" (names.reverse.map String.ofList)
  | _ => ""

end DBindings.Path
