/-!
# Indented code

`CodeWriter` is a text under construction with an indentation of four spaces a level.  Code is
produced as a list of strokes and written in one go.

* `CodeWriter.run`      writes strokes;
* `CodeWriter.insert`   puts text in at an earlier place.
-/

namespace DBindings

/-- A text under construction and its indentation level. -/
structure CodeWriter where
  text : String := ""
  level : Nat := 0
  deriving Repr, DecidableEq, Inhabited

/-- Four spaces for each level. -/
def indentation (level : Nat) : String := String.ofList (List.replicate (4 * level) ' ')

namespace CodeWriter

def push (w : CodeWriter) (s : String) : CodeWriter := { w with text := w.text ++ s }

/-- Adds one indented line; an empty line carries no indentation. -/
def writeln (w : CodeWriter) (s : String) : CodeWriter :=
  if s = "" then w.push "\n" else w.push (indentation w.level ++ s ++ "\n")

/-- Starts an indented line without ending it. -/
def write (w : CodeWriter) (s : String) : CodeWriter := w.push (indentation w.level ++ s)

def newline (w : CodeWriter) : CodeWriter := w.push "\n"

def indent (w : CodeWriter) : CodeWriter := { w with level := w.level + 1 }

/-- One level less, but never below zero. -/
def dedent (w : CodeWriter) : CodeWriter := { w with level := w.level - 1 }

/-- The size of the text in bytes. -/
def offset (w : CodeWriter) : Nat := w.text.utf8ByteSize

/-- The longest part at the start that takes no more than so many bytes, and the rest. -/
def splitAtByte : Nat → List Char → List Char × List Char
  | _, [] => ([], [])
  | bytes, c :: cs =>
    if c.utf8Size ≤ bytes then
      let (front, rest) := splitAtByte (bytes - c.utf8Size) cs
      (c :: front, rest)
    else ([], c :: cs)

/-- Puts text in at an earlier byte offset, or at the end. -/
def insert (w : CodeWriter) (offset : Nat) (s : String) : CodeWriter :=
  let (front, rest) := splitAtByte offset w.text.toList
  { w with text := String.ofList front ++ s ++ String.ofList rest }

end CodeWriter

/-- One step of writing code. -/
inductive Stroke where
  /-- an indented line -/
  | line (s : String)
  /-- text as it is -/
  | raw (s : String)
  | indent
  | dedent
  deriving Repr, DecidableEq, Inhabited

namespace CodeWriter

def apply (w : CodeWriter) : Stroke → CodeWriter
  | .line s => w.writeln s
  | .raw s => w.push s
  | .indent => w.indent
  | .dedent => w.dedent

def run (w : CodeWriter) (strokes : List Stroke) : CodeWriter := strokes.foldl apply w

end CodeWriter

end DBindings
