import DBindings.Files.Tree

/-!
# File operations

The commands need few operations on files, and are written against these.  `FileSystem.ofTree`
gives them on a file tree; the command line gives them on the machine.
-/

namespace DBindings

/-- The operations on files that commands need. -/
structure FileSystem (m : Type → Type) where
  /-- the text of a file -/
  read : String → m (Option String)
  /-- writes a file; false if that fails -/
  write : String → String → m Bool
  /-- makes the directory of a path; false if that fails -/
  makeParent : String → m Bool
  isPresent : String → m Bool
  /-- the components of the place that a path leads to -/
  canonical : String → m (Option (List Path.Component))

namespace FileSystem

/-- Keeps the changed tree, if there is one. -/
def attempt (change : FileTree → Option FileTree) : StateM FileTree Bool := do
  match change (← get) with
  | some t => set t; return true
  | none => return false

/-- The operations on a file tree. -/
def ofTree : FileSystem (StateM FileTree) where
  read path := return (← get).read? path
  write path text := attempt (·.write? path text)
  makeParent path := attempt (·.makeParent? path)
  isPresent path := return (← get).isPresent path
  canonical path := return (← get).canonical? path

end FileSystem

end DBindings
