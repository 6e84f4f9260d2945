import DBindings.Files.Path

/-!
# Input roots

Only declarations from files under one of the input roots are written.  A path that exists counts by
the place it leads to, any other by its components as written.

* `PathFilter.isRelevant`   the file of a declaration is under a root, or there are no roots.
-/

namespace DBindings

/-- Input roots, and the place that each path leads to, if it exists. -/
structure PathFilter where
  roots : List (List Path.Component)
  canonical : String → Option (List Path.Component)

namespace PathFilter

/-- The components of a path that exists, from the root of the file system, or as written. -/
def resolve (canonical : String → Option (List Path.Component)) (path : String) :
    List Path.Component :=
  (canonical path).getD (Path.components path)

def ofRoots (canonical : String → Option (List Path.Component)) (roots : List String) :
    PathFilter :=
  ⟨roots.map (resolve canonical), canonical⟩

def acceptAll : PathFilter := ⟨[], fun _ => none⟩

/-- The path stands for a missing location. -/
def isMissing (path : String) : Bool :=
  path == "" || Path.components path == [.normal "<invalid loc>"]

def isRelevant (filter : PathFilter) (file : Option String) : Bool :=
  filter.roots.isEmpty || match file with
    | some path =>
      !isMissing path && filter.roots.any (Path.startsWith (resolve filter.canonical path))
    | none => false

end PathFilter

end DBindings
