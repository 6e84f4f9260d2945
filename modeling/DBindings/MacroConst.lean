import DBindings.Tree.Decl
import DBindings.Text.Blank

/-!
# Preprocessor definitions as constants

A definition that looks like one value becomes a constant of D; any other is left as a comment that
says where it is.  Each name is written once.

* `MacroNames.define`   the lines of a definition and the names written so far.
-/

namespace DBindings

namespace MacroDef

/-- The replacement is one token, or a minus and one token. -/
def isValueLike (m : MacroDef) : Bool :=
  match m.tokens with
  | [_] => true
  | [first, _] => first.kind == .punctuation && first.text == "-"
  | _ => false

/-- A space follows the token: after words, and after closing punctuation. -/
def isSpaced (token : Token) : Bool :=
  match token.kind with
  | .identifier | .keyword | .literal => true
  | .punctuation => [",", ")", "\x7d", ";"].contains token.text

/-- The replacement list as text. -/
def renderTokens (tokens : List Token) : String :=
  Text.trimEnd (String.join (tokens.map fun t => t.text ++ if isSpaced t then " " else ""))

/-- Include guards and empty definitions are not written. -/
def isSkipped (m : MacroDef) : Bool := m.headerGuard || m.tokens.isEmpty

/-- The lines that stand for a definition. -/
def lines (name : String) (m : MacroDef) (loc : SourceLoc) : List String :=
  if m.isValueLike then
    let value := renderTokens m.tokens
    match m.params with
    | some params =>
      let head := name ++ "(" ++ String.intercalate ", " params ++ ")"
      ["/*", "enum " ++ head ++ " = " ++ value ++ ";", "*/"]
    | none => ["enum " ++ name ++ " = " ++ value ++ ";"]
  else ["//" ++ loc.text, "//#define " ++ name ++ " ..."]

end MacroDef

/-- The names of the definitions written so far. -/
structure MacroNames where
  seen : List String := []
  deriving Repr, DecidableEq, Inhabited

/-- The lines of a definition, none if it is skipped or its name has been written. -/
def MacroNames.define (names : MacroNames) (name : String) (m : MacroDef) (loc : SourceLoc) :
    Option (List String) × MacroNames :=
  if m.isSkipped || names.seen.contains name then (none, names)
  else (some (m.lines name loc), ⟨name :: names.seen⟩)

end DBindings
