import DBindings.Proofs.Text.Brackets

/-!
# Operators in a text

What stands outside brackets and literals is read as words, operands and operator symbols.  A suffix
behind a text applies to all of it if there is no operator among them other than a suffix itself.

* `Outline.next`, `Outline.read`   reads characters outside brackets;
* `Outline.of`                     what a text has been read as at its end;
* `OperatorFree`                   no prefix, binary, assignment or conditional operator in a text;
* `Outline.of_append`, `Outline.read_between`, `Outline.read_spaced`   composed texts.
-/

namespace DBindings

/-- What has been read. -/
inductive Outline where
  /-- nothing but blanks -/
  | start
  /-- an operand whose last word may go on -/
  | word (w : List Char)
  /-- an operand -/
  | operand
  /-- an operand and one half of a suffix, or an operator -/
  | plus | minus
  /-- an operand and what may begin template arguments, or an operator -/
  | bang
  /-- an operator -/
  | operator
  deriving Repr, DecidableEq

namespace Outline

/-- The words that are operators. -/
def operatorWords : List (List Char) :=
  ["cast".toList, "new".toList, "delete".toList, "throw".toList, "in".toList, "is".toList]

def isSymbol (c : Char) : Bool := "+-*/%&|^~!=<>?:,".toList.contains c

def isDelimiter (c : Char) : Bool := ".;'\"([\x7b)]\x7d".toList.contains c

def isWordChar (c : Char) : Bool := !isSymbol c && !isDelimiter c && !c.isWhitespace

/-- What has been read where a word or symbol does not go on. -/
def settle : Outline → Outline
  | word w => if operatorWords.contains w then operator else operand
  | plus | minus | bang => operator
  | s => s

/-- Reads a character that is no part of a word, behind what does not go on. -/
def nextSettled (s : Outline) (c : Char) : Outline :=
  match s with
  | start => if c.isWhitespace then start else if isSymbol c then operator else operand
  | operand =>
    if c = '+' then plus
    else if c = '-' then minus
    else if c = '!' then bang
    else if isSymbol c then operator
    else operand
  | _ => operator

/-- Reads a character outside brackets and literals. -/
def next (s : Outline) (c : Char) : Outline :=
  if isWordChar c then
    match s with
    | word w => word (w ++ [c])
    | start | operand => word [c]
    | _ => operator
  else
    match s, c with
    | plus, '+' | minus, '-' | bang, '(' => operand
    | s, c => s.settle.nextSettled c

def read (s : Outline) (t : String) : Outline := (outer t).foldl next s

def of (t : String) : Outline := start.read t

/-- Behind an operator everything is part of its operand. -/
theorem next_operator (c : Char) : next operator c = operator := by
  unfold next
  split <;> rfl

theorem foldl_operator (cs : List Char) : cs.foldl next operator = operator := by
  induction cs with
  | nil => rfl
  | cons c cs ih =>
    rw [List.foldl_cons, next_operator]
    exact ih

theorem read_operator (t : String) : operator.read t = operator := foldl_operator _

section
variable {a b t : String} {d : Char} {x : List Char}

theorem read_append (s : Outline) (ha : Closed a) : s.read (a ++ b) = (s.read a).read b := by
  unfold read
  rw [outer_append ha, List.foldl_append]

theorem of_append (ha : Closed a) : of (a ++ b) = (of a).read b := read_append start ha

theorem of_append_operator (ha : Leads [] x a) (h : of a = operator) :
    of (a ++ b) = operator := by
  unfold of read outer at h ⊢
  rw [String.toList_append, Reading.outer_append ha, List.foldl_append, h, foldl_operator]

theorem read_between (s : Outline) (ha : Leads [] (d :: x) a) (ht : Closed t)
    (hb : Reading.outer ⟨d :: x, .code⟩ b.toList = []) : s.read (a ++ t ++ b) = s.read a := by
  unfold read
  rw [outer_wrap ha ht, hb, List.append_nil]

end

theorem next_blank (s : Outline) :
    s.next ' ' = start ∨ s.next ' ' = operand ∨ s.next ' ' = operator := by
  cases s with
  | word w =>
    have hnext : next (word w) ' '
        = (if operatorWords.contains w then operator else operand).nextSettled ' ' := rfl
    rw [hnext]
    split
    · exact Or.inr (Or.inr rfl)
    · exact Or.inr (Or.inl rfl)
  | _ => decide

/-- A symbol between blanks is an operator, if it is one between and in front of operands. -/
theorem read_spaced {t : String}
    (h : ∀ s ∈ [start, operand], s.read (t ++ " ") = operator) (s : Outline) :
    s.read (" " ++ t ++ " ") = operator := by
  have hblank : s.read " " = s.next ' ' := rfl
  rw [String.append_assoc, read_append s (by decide), hblank]
  rcases next_blank s with hs | hs | hs
  · rw [hs]
    exact h start (by decide)
  · rw [hs]
    exact h operand (by decide)
  · rw [hs]
    exact read_operator _

theorem read_comma (s : Outline) : s.read ", " = operator := by
  have hcomma : s.next ',' = operator := by
    cases s with
    | word w =>
      have hnext : next (word w) ','
          = (if operatorWords.contains w then operator else operand).nextSettled ',' := rfl
      rw [hnext]
      split <;> rfl
    | _ => rfl
  have hread : s.read ", " = (s.next ',').next ' ' := rfl
  rw [hread, hcomma]
  rfl

end Outline

/-- Outside brackets and literals there is no prefix, binary, assignment or conditional operator. -/
def OperatorFree (t : String) : Prop := (Outline.of t).settle ≠ .operator

instance (t : String) : Decidable (OperatorFree t) := inferInstanceAs (Decidable (_ ≠ _))

example : OperatorFree "f(a + b)[i]++" ∧ ¬OperatorFree "a + b" ∧ ¬OperatorFree "cast(T) a" := by
  decide

end DBindings
