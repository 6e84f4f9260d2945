/-!
# Lines of a text

A line ends with a line feed, or with a carriage return and a line feed; the end of the text ends
the last line unless that line is empty.
-/

namespace DBindings.Text

/-- The characters up to each line feed; behind the last one, the rest if there is any. -/
def splitLines : List Char → List Char → List (List Char × Bool)
  | [], [] => []
  | [], current => [(current.reverse, false)]
  | '\n' :: rest, current => (current.reverse, true) :: splitLines rest []
  | c :: rest, current => splitLines rest (c :: current)

/-- A line that ended with a line feed loses one carriage return at its end. -/
def stripReturn (line : List Char) (ended : Bool) : List Char :=
  if ended && line.getLast? == some '\r' then line.dropLast else line

def lines (s : String) : List String :=
  (splitLines s.toList []).map fun (line, ended) => String.ofList (stripReturn line ended)

end DBindings.Text
