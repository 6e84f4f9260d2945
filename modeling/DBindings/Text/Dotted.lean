/-!
# Scope and arrow symbols as dots

D writes one dot where C++ writes `::` or `->`.

* `replacePair`   replaces each pair of neighbouring characters, from the left, by one character;
* `dotted`        `::` becomes a dot.
-/

namespace DBindings.Text

/-- Replaces each occurrence of `a` followed by `b` by `c`, from the left. -/
def replacePair (a b c : Char) : List Char → List Char
  | x :: y :: rest =>
    if x = a ∧ y = b then c :: replacePair a b c rest else x :: replacePair a b c (y :: rest)
  | rest => rest

/-- The text with `::` written as a dot. -/
def dotted (s : String) : String := String.ofList (replacePair ':' ':' '.' s.toList)

/-- The text with `->` written as a dot. -/
def dottedArrows (s : String) : String := String.ofList (replacePair '-' '>' '.' s.toList)

end DBindings.Text
