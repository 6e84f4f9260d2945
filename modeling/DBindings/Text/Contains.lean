/-!
# Texts inside texts
-/

namespace DBindings.Text

/-- Some part of a list of characters equals another one. -/
def containsChars (part : List Char) : List Char → Bool
  | [] => part.isEmpty
  | c :: cs => part.isPrefixOf (c :: cs) || containsChars part cs

/-- The text contains another one. -/
def contains (s part : String) : Bool := containsChars part.toList s.toList

end DBindings.Text
