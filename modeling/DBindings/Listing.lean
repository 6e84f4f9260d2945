import DBindings.Tree.Decl

/-!
# Listings of units

A listing has a line for each file and, below it, a line for each declaration, indented by its
depth.
-/

namespace DBindings

/-- The word for the kind of a declaration. -/
def Decl.kindLabel : Decl → String
  | .space .. => "namespace"
  | .record .. => "record"
  | .enumeration .. => "enum"
  | .function .. => "function"
  | .typedef .. => "typedef"
  | .var .. => "variable"
  | .macroDef .. => "macro"

/-- Kind, name, number and location of a declaration, two spaces deep for each level. -/
def Decl.listingLine (depth : Nat) (d : Decl) : String :=
  String.ofList (List.replicate (2 * depth) ' ') ++ d.kindLabel ++ " " ++
    d.head.name.getD "<anonymous>" ++ " #" ++ toString d.id ++ " @ " ++ d.head.loc.text

mutual

/-- The lines of a declaration and of all that nest in it. -/
def Decl.listing (depth : Nat) : Decl → List String
  | .space head members =>
    Decl.listingLine depth (.space head members) :: Decl.listingAll (depth + 1) members
  | .record head info members methods =>
    Decl.listingLine depth (.record head info members methods) ::
      (Decl.listingAll (depth + 1) members ++ Decl.listingAll (depth + 1) methods)
  | d => [Decl.listingLine depth d]

def Decl.listingAll (depth : Nat) : List Decl → List String
  | [] => []
  | d :: ds => Decl.listing depth d ++ Decl.listingAll depth ds

end

def TranslationUnit.listingLines (unit : TranslationUnit) : List String :=
  unit.files.flatMap fun file => file.path :: Decl.listingAll 1 file.decls

def TranslationUnit.listing (unit : TranslationUnit) : String :=
  String.join (unit.listingLines.map (· ++ "\n"))

end DBindings
