import Mathlib.Data.List.Infix

/-!
# Tokens of D

A text is split from left to right.  Each token is the longest one that the rest of the text begins
with; blanks and comments stand between tokens.

* `Token.symbols`              the operators and separators;
* `Token.first`                the length of the first token of a text;
* `Token.split`, `Text.tokens` the tokens of a text;
* `Token.symbol_append_iff`    a symbol is the longest one in front of a text exactly if it is no
                               symbol together with the next character;
* `Token.split_symbol_iff`     then it is a token of its own.

Delimited strings and strings of tokens are not told apart from the word that they begin with.
-/

namespace DBindings
namespace Token

/-! ## What a text begins with -/

/-- The operators and separators. -/
def symbols : List (List Char) :=
  ["/", "/=", ".", "..", "...", "&", "&=", "&&", "|", "|=", "||", "-", "-=", "--", "+", "+=", "++",
    "<", "<=", "<<", "<<=", ">", ">=", ">>", ">>=", ">>>", ">>>=", "!", "!=", "(", ")", "[", "]",
    "\x7b", "\x7d", "?", ",", ";", ":", "$", "=", "==", "=>", "*", "*=", "%", "%=", "^", "^=", "^^",
    "^^=", "~", "~=", "@", "#"].map String.toList

/-- The length of the longest text of a table that a text begins with. -/
def longest : List (List Char) → List Char → Nat
  | [], _ => 0
  | t :: table, cs => max (if t.isPrefixOf cs then t.length else 0) (longest table cs)

/-- The symbol that a text begins with. -/
def symbol (cs : List Char) : Nat := longest symbols cs

def isBlank (c : Char) : Bool := " \t\x0b\x0c\r\n\u2028\u2029".toList.contains c

def isWordStart (c : Char) : Bool := c.isAlpha || c = '_' || (0x80 ≤ c.toNat && !isBlank c)

def isWordPart (c : Char) : Bool := isWordStart c || c.isDigit

def word (cs : List Char) : Nat :=
  if cs.head?.any isWordStart then (cs.takeWhile isWordPart).length else 0

/-- The rest of a number.  A sign belongs to it behind the letter of an exponent, and one point in
front of a digit or of what is no word. -/
def numberRest (exponent : List Char) : Bool → List Char → Nat
  | _, [] => 0
  | pointed, [c] => if isWordPart c || (c = '.' && !pointed) then 1 else 0
  | pointed, c :: d :: cs =>
    if exponent.contains c && (d = '+' || d = '-') then 2 + numberRest exponent true cs
    else if isWordPart c then 1 + numberRest exponent pointed (d :: cs)
    else if c = '.' && !pointed && d != '.' && !isWordStart d then
      1 + numberRest exponent true (d :: cs)
    else 0

def number : List Char → Nat
  | '0' :: 'x' :: cs | '0' :: 'X' :: cs => 2 + numberRest ['p', 'P'] false cs
  | '.' :: d :: cs => if d.isDigit then 1 + numberRest ['e', 'E'] true (d :: cs) else 0
  | c :: cs => if c.isDigit then numberRest ['e', 'E'] false (c :: cs) else 0
  | [] => 0

/-- The rest of a literal up to its closing quote. -/
def untilQuote (quote : Char) (escapes : Bool) : List Char → Nat
  | [] => 0
  | [_] => 1
  | c :: d :: cs =>
    if c = quote then 1
    else if escapes && c = '\\' then 2 + untilQuote quote escapes cs
    else 1 + untilQuote quote escapes (d :: cs)

/-- The rest of a string literal, with the letter for the width of its characters. -/
def stringRest (quote : Char) (escapes : Bool) (cs : List Char) : Nat :=
  let n := untilQuote quote escapes cs
  if (cs.drop n).head?.any ['c', 'w', 'd'].contains then n + 1 else n

def literal : List Char → Nat
  | '"' :: cs => 1 + stringRest '"' true cs
  | '\x60' :: cs => 1 + stringRest '\x60' false cs
  | 'r' :: '"' :: cs | 'x' :: '"' :: cs => 2 + stringRest '"' false cs
  | '\'' :: cs => 1 + untilQuote '\'' true cs
  | _ => 0

/-- The rest of a comment up to its closing mark. -/
def blockRest : List Char → Nat
  | [] => 0
  | [_] => 1
  | c :: d :: cs => if c = '*' ∧ d = '/' then 2 else 1 + blockRest (d :: cs)

/-- The rest of a comment that may hold comments of its kind. -/
def nestedRest : Nat → List Char → Nat
  | _, [] => 0
  | _, [_] => 1
  | depth, c :: d :: cs =>
    if c = '+' ∧ d = '/' then
      match depth with
      | 0 => 2
      | depth + 1 => 2 + nestedRest depth cs
    else if c = '/' ∧ d = '+' then 2 + nestedRest (depth + 1) cs
    else 1 + nestedRest depth (d :: cs)

def gap : List Char → Nat
  | '/' :: '/' :: cs => 2 + (cs.takeWhile fun c => c != '\n' && c != '\r').length
  | '/' :: '*' :: cs => 2 + blockRest cs
  | '/' :: '+' :: cs => 2 + nestedRest 0 cs
  | c :: _ => if isBlank c then 1 else 0
  | [] => 0

/-- The length of the first token. -/
def first (cs : List Char) : Nat :=
  max (symbol cs) (max (word cs) (max (number cs) (literal cs)))

/-- The tokens of a text behind so many characters.  A character that begins no token stands
alone. -/
def split : Nat → List Char → List (List Char)
  | _, [] => []
  | skip + 1, _ :: cs => split skip cs
  | 0, c :: cs =>
    if 0 < gap (c :: cs) then split (gap (c :: cs) - 1) cs
    else (c :: cs.take (first (c :: cs) - 1)) :: split (first (c :: cs) - 1) cs

end Token

def Text.tokens (t : String) : List String := (Token.split 0 t.toList).map String.ofList

example : Text.tokens "x+=-1.5e-3*f(\"a b\"d, 3.ptr) // end" =
    ["x", "+=", "-", "1.5e-3", "*", "f", "(", "\"a b\"d", ",", "3", ".", "ptr", ")"] := by
  decide +kernel

namespace Token

/-! ## The longest symbol -/

section
variable {table : List (List Char)} {t s x cs : List Char}

theorem le_longest (ht : t ∈ table) (h : t <+: cs) : t.length ≤ longest table cs := by
  induction table with
  | nil => exact absurd ht List.not_mem_nil
  | cons u table ih =>
    rw [longest]
    rcases List.mem_cons.1 ht with rfl | ht
    · rw [if_pos (List.isPrefixOf_iff_prefix.2 h)]
      exact Nat.le_max_left _ _
    · exact Nat.le_trans (ih ht) (Nat.le_max_right _ _)

theorem longest_eq (table : List (List Char)) (cs : List Char) :
    longest table cs = 0 ∨ ∃ t ∈ table, t <+: cs ∧ t.length = longest table cs := by
  induction table with
  | nil => exact Or.inl rfl
  | cons u table ih =>
    rw [longest]
    by_cases hle : (if u.isPrefixOf cs then u.length else 0) ≤ longest table cs
    · rw [Nat.max_eq_right hle]
      refine ih.imp_right ?_
      rintro ⟨t, ht, hprefix, hlength⟩
      exact ⟨t, List.mem_cons_of_mem _ ht, hprefix, hlength⟩
    · rw [Nat.max_eq_left (by omega)]
      by_cases hu : u.isPrefixOf cs = true
      · rw [if_pos hu]
        exact Or.inr ⟨u, List.mem_cons_self, List.isPrefixOf_iff_prefix.1 hu, rfl⟩
      · rw [if_neg hu]
        exact Or.inl rfl

theorem mem_symbols_of_begins (ht : t ∈ symbols) (hs : s ≠ []) (h : s <+: t) : s ∈ symbols := by
  have hall : ∀ t ∈ symbols, ∀ s ∈ t.inits, s = [] ∨ s ∈ symbols := by decide +kernel
  exact (hall t ht s ((List.mem_inits s t).2 h)).resolve_left hs

theorem concat_blank_not_mem_symbols (s : List Char) : s ++ [' '] ∉ symbols := by
  have hall : ∀ t ∈ symbols, ' ' ∉ t := by decide +kernel
  intro h
  exact hall _ h (List.mem_append_right _ List.mem_cons_self)

theorem le_symbol (hs : s ∈ symbols) (x : List Char) : s.length ≤ symbol (s ++ x) :=
  le_longest hs (List.prefix_append s x)

theorem symbol_eq (cs : List Char) :
    symbol cs = 0 ∨ ∃ t ∈ symbols, t <+: cs ∧ t.length = symbol cs := longest_eq symbols cs

theorem symbol_le_length (cs : List Char) : symbol cs ≤ cs.length := by
  obtain hzero | ⟨t, -, hprefix, hlength⟩ := symbol_eq cs
  · omega
  · rw [← hlength]
    exact hprefix.length_le

/-- What stands behind a symbol makes no longer one of it exactly if the next character does not. -/
theorem symbol_append_iff (hs : s ∈ symbols) (x : List Char) :
    symbol (s ++ x) = s.length ↔ ∀ c ∈ x.head?, s ++ [c] ∉ symbols := by
  have hle := le_symbol hs x
  constructor
  · intro h c hc hlonger
    obtain ⟨x, rfl⟩ := List.head?_eq_some_iff.1 hc
    have hprefix : s ++ [c] <+: s ++ c :: x := ⟨x, by simp⟩
    have hlonger : (s ++ [c]).length ≤ symbol (s ++ c :: x) := le_longest hlonger hprefix
    rw [h, List.length_append, List.length_singleton] at hlonger
    omega
  · intro h
    by_contra hne
    obtain hzero | ⟨t, ht, hprefix, hlength⟩ := symbol_eq (s ++ x)
    · omega
    · obtain ⟨y, rfl⟩ : s <+: t :=
        List.prefix_of_prefix_length_le (List.prefix_append s x) hprefix (by omega)
      have hyx : y <+: x := (List.prefix_append_right_inj s).1 hprefix
      cases y with
      | nil =>
        rw [List.append_nil] at hlength
        omega
      | cons c y =>
        obtain ⟨z, rfl⟩ := hyx
        refine h c rfl (mem_symbols_of_begins ht (by simp) ⟨y, ?_⟩)
        simp

end

/-! ## Symbols as tokens -/

/-- Only symbols begin with the character. -/
def startsSymbol (c : Char) : Bool :=
  !isWordPart c && !isBlank c && !"/.\"'".toList.contains c && c != '\x60'

section
variable {c : Char} {cs : List Char}

theorem gap_cons (hc : c ≠ '/') : gap (c :: cs) = if isBlank c then 1 else 0 := by
  unfold gap
  split
  case h_4 heq =>
    obtain ⟨rfl, -⟩ := List.cons.inj heq
    rfl
  case h_5 heq => exact nomatch heq
  all_goals
    next heq => exact absurd (List.cons.inj heq).1 hc

theorem gap_of_startsSymbol (h : startsSymbol c = true) : gap (c :: cs) = 0 := by
  have hc : c ≠ '/' := by
    rintro rfl
    exact absurd h (by decide)
  have hblank : isBlank c = false := by
    simp only [startsSymbol, Bool.and_eq_true, Bool.not_eq_true'] at h
    exact h.1.1.2
  rw [gap_cons hc, hblank, if_neg (by decide)]

theorem word_of_startsSymbol (h : startsSymbol c = true) : word (c :: cs) = 0 := by
  have hstart : isWordStart c = false := by
    simp only [startsSymbol, isWordPart, Bool.and_eq_true, Bool.not_eq_true',
      Bool.or_eq_false_iff] at h
    exact h.1.1.1.1
  unfold word
  exact if_neg (by simp [hstart])

theorem number_of_startsSymbol (h : startsSymbol c = true) : number (c :: cs) = 0 := by
  have hdigit : c.isDigit = false := by
    simp only [startsSymbol, isWordPart, Bool.and_eq_true, Bool.not_eq_true',
      Bool.or_eq_false_iff] at h
    exact h.1.1.1.2
  unfold number
  split
  case h_4 heq =>
    obtain ⟨rfl, -⟩ := List.cons.inj heq
    rw [hdigit, if_neg (by decide)]
  case h_5 heq => exact nomatch heq
  all_goals
    next heq =>
      obtain ⟨rfl, -⟩ := List.cons.inj heq
      exact absurd h (by decide)

theorem literal_of_startsSymbol (h : startsSymbol c = true) : literal (c :: cs) = 0 := by
  unfold literal
  split
  case h_6 => rfl
  all_goals
    next heq =>
      obtain ⟨rfl, -⟩ := List.cons.inj heq
      exact absurd h (by decide)

theorem first_of_startsSymbol (h : startsSymbol c = true) : first (c :: cs) = symbol (c :: cs) := by
  unfold first
  rw [word_of_startsSymbol h, number_of_startsSymbol h, literal_of_startsSymbol h, Nat.max_self,
    Nat.max_self, Nat.max_zero]

theorem split_blank (h : isBlank c = true) : split 0 (c :: cs) = split 0 cs := by
  have hc : c ≠ '/' := by
    rintro rfl
    exact absurd h (by decide)
  rw [split, gap_cons hc, if_pos h, if_pos (by decide)]

theorem split_append (a x : List Char) : split a.length (a ++ x) = split 0 x := by
  induction a with
  | nil => rfl
  | cons c a ih => exact ih

/-- A symbol in front of a text is a token of its own exactly if it does not grow. -/
theorem split_symbol_iff (hc : startsSymbol c = true) (hs : c :: cs ∈ symbols) (x : List Char) :
    split 0 (c :: cs ++ x) = (c :: cs) :: split 0 x ↔ ∀ d ∈ x.head?, c :: cs ++ [d] ∉ symbols := by
  have hsplit : split 0 (c :: cs ++ x) = (c :: (cs ++ x).take (symbol (c :: cs ++ x) - 1)) ::
      split (symbol (c :: cs ++ x) - 1) (cs ++ x) := by
    rw [List.cons_append, split, gap_of_startsSymbol hc, if_neg (by decide),
      first_of_startsSymbol hc]
  rw [← symbol_append_iff hs, hsplit]
  constructor
  · intro h
    have htoken := congrArg List.length (List.cons.inj (List.cons.inj h).1).2
    have hlower := le_symbol hs x
    have hupper := symbol_le_length (c :: cs ++ x)
    rw [List.length_take, List.length_append] at htoken
    rw [List.length_append, List.length_cons] at hupper
    rw [List.length_cons] at hlower ⊢
    omega
  · intro h
    rw [h, List.length_cons, Nat.add_sub_cancel, List.take_left, split_append]

end

end Token

namespace Text
open Token

theorem tokens_space (x : String) : tokens (" " ++ x) = tokens x := by
  unfold tokens
  rw [String.toList_append]
  exact congrArg _ (split_blank (by decide))

theorem tokens_symbol_iff {s : String} (hs : s.toList ∈ symbols)
    (hstart : ∀ c ∈ s.toList.head?, startsSymbol c = true) (x : String) :
    tokens (s ++ x) = s :: tokens x ↔ ∀ c ∈ x.toList.head?, s.toList ++ [c] ∉ symbols := by
  obtain ⟨c, cs, hcs⟩ : ∃ c cs, s.toList = c :: cs := by
    apply List.exists_cons_of_ne_nil
    intro hnil
    exact absurd (hnil ▸ hs) (by decide +kernel)
  rw [hcs] at hs hstart ⊢
  rw [← split_symbol_iff (hstart c rfl) hs]
  unfold tokens
  rw [String.toList_append, hcs, ← String.ofList_toList (s := s), hcs, ← List.map_cons]
  exact (List.map_injective_iff.2 fun a b h => String.ofList_injective h).eq_iff

end Text

end DBindings
