import DBindings.Tree.Decl
import DBindings.Text.Writer

/-!
# Linkage and namespaces of top-level declarations

* `NamespaceStyle`          what is written before and after a top-level declaration;
* `NamespaceStyle.strings`  writes linkage and namespaces in front of the declaration.
-/

namespace DBindings

inductive Linkage where
  | cpp | c
  deriving Repr, DecidableEq, Inhabited

namespace Linkage

/-- C++ linkage holds where it is the default, outside C linkage blocks. -/
def of (ctx : DeclContext) (cppDefault : Bool) : Linkage :=
  if cppDefault && !ctx.cLinkage then cpp else c

def text : Linkage → String
  | cpp => "C++"
  | c => "C"

end Linkage

/-- What is written around a top-level declaration. -/
structure NamespaceStyle where
  begin_ : DeclContext → Linkage → List Stroke
  finish : DeclContext → List Stroke

namespace NamespaceStyle

/-- The attribute with the linkage and the enclosing namespaces, which C linkage does not have. -/
def attributeText (ctx : DeclContext) (linkage : Linkage) : String :=
  if ctx.namespaces.isEmpty || linkage = .c then "extern(" ++ linkage.text ++ ")"
  else
    let quoted := ctx.namespaces.map fun name => "\"" ++ name ++ "\""
    "extern(C++, " ++ String.intercalate ", " quoted ++ ")"

/-- Writes the attribute on a line before the declaration. -/
def strings : NamespaceStyle where
  begin_ ctx linkage := [.line (attributeText ctx linkage)]
  finish _ := []

end NamespaceStyle

end DBindings
