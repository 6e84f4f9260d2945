/-!
# Identifiers of D

A C++ name that D reserves gets an underscore behind it; every other name is kept.
-/

namespace DBindings.Identifier

/-- Keywords and names of builtin types of D that are names in C and C++. -/
def reserved : List String :=
  ["out", "ref", "version", "debug", "mixin", "with", "unittest", "typeof", "typeid", "super",
   "body", "shared", "pure", "package", "module", "inout", "in", "is", "import", "invariant",
   "immutable", "interface", "function", "delegate", "final", "export", "deprecated", "alias",
   "abstract", "synchronized", "byte", "ubyte", "uint", "ushort", "string"]

def isReserved (name : String) : Bool := reserved.contains name

/-- The name as D can declare it. -/
def sanitize (name : String) : String := if isReserved name then name ++ "_" else name

end DBindings.Identifier
