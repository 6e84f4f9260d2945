import DBindings.Tree.Decl

/-!
# Declarations by number

Where a unit uses a number twice, the first declaration in document order counts.
-/

namespace DBindings

/-- The declarations of a unit in document order, for looking them up by number. -/
structure DeclIndex where
  decls : List Decl
  deriving Inhabited

namespace DeclIndex

def ofUnit (unit : TranslationUnit) : DeclIndex := ⟨unit.walk⟩

/-- The first declaration with a number. -/
def get? (index : DeclIndex) (id : DeclId) : Option Decl := index.decls.find? (·.id == id)

/-- The first declaration with a number, if it is a record. -/
def record? (index : DeclIndex) (id : DeclId) : Option RecordDecl :=
  (index.get? id).bind Decl.record?

/-- The numbers in use, each once. -/
def ids (index : DeclIndex) : List DeclId := (index.decls.map Decl.id).eraseDups

def size (index : DeclIndex) : Nat := index.ids.length

end DeclIndex

end DBindings
