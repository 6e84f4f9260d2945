import DBindings.Proofs.Printing.StmtLandmarks
import DBindings.Proofs.Text.Literals
import DBindings.Proofs.Text.Pairs

/-!
# The literals of printed code

* `Literal.contains_string`   a string literal has a scope or arrow symbol if its value has;
* `Landmark.literals`         the literals that a landmark brings;
* `Text.Quotes`               the literals of a text that has no line feed in a literal;
* `Shows.quotes`              the literals of printed code are those of its landmarks.
-/

namespace DBindings
open Text

namespace Literal

/-! ## The characters of literals -/

/-- The letters of escapes. -/
def escapeLetters : List Char :=
  ['\\', '"', '\'', 'a', 'b', 'c', 'd', 'e', 'f', 'n', 'r', 't', 'v', 'x', 'u', 'U',
    '0', '1', '2', '3', '4', '5', '6', '7', '8', '9']

theorem mem_escapeLetters {width n : Nat} {c : Char} (h : c ∈ hexDigits width n) :
    c ∈ escapeLetters := by
  have hall : "0123456789abcdef".toList ⊆ escapeLetters := by decide +kernel
  exact hall (mem_hexDigits h)

/-- What stands for a character in a literal: itself, if it is no line feed, or an escape. -/
inductive Escaped (c : Char) : List Char → Prop
  | self (h : c ≠ '\n') : Escaped c [c]
  | escape {cs : List Char} (h : cs ⊆ escapeLetters) : Escaped c ('\\' :: cs)

theorem escaped_hexDigits (c : Char) {d : Char} (hd : d ∈ escapeLetters) (width n : Nat) :
    Escaped c ('\\' :: d :: hexDigits width n) :=
  .escape fun _ hx => (List.mem_cons.1 hx).elim (fun h => h ▸ hd) mem_escapeLetters

theorem escaped_stringChar (c : Char) : Escaped c (stringChar c) := by
  unfold stringChar
  iterate 2 refine iteInduction (fun _ => .escape (by decide)) fun _ => ?_
  refine iteInduction (fun _ => .escape (by decide)) fun hline => ?_
  iterate 3 refine iteInduction (fun _ => .escape (by decide)) fun _ => ?_
  exact iteInduction (fun _ => escaped_hexDigits c (by decide) 2 _) fun _ => .self hline

theorem escaped_characterBody (n : Nat) : Escaped (Char.ofNat n) (characterBody n) := by
  unfold characterBody
  iterate 9 refine iteInduction (fun _ => .escape (by decide)) fun _ => ?_
  refine iteInduction (fun h => .self (ofNat_ne h ?_)) fun _ => ?_
  · exact Nat.ne_of_gt (Nat.lt_of_lt_of_le (by decide) h.1)
  refine iteInduction (fun _ => escaped_hexDigits _ (by decide) 2 n) fun _ => ?_
  exact iteInduction (fun _ => escaped_hexDigits _ (by decide) 4 n)
    fun _ => escaped_hexDigits _ (by decide) 8 n

theorem Escaped.lineFeed_not_mem {c : Char} {l : List Char} (h : Escaped c l) : '\n' ∉ l := by
  cases h with
  | self h => exact fun hmem => h (List.mem_singleton.1 hmem).symm
  | escape h =>
    intro hmem
    rcases List.mem_cons.1 hmem with hmem | hmem
    · exact absurd hmem (by decide)
    · exact absurd (h hmem) (by decide)

theorem lineFeed_not_mem_stringBody (cs : List Char) : '\n' ∉ cs.flatMap stringChar := by
  intro h
  obtain ⟨c, -, hc⟩ := List.mem_flatMap.1 h
  exact (escaped_stringChar c).lineFeed_not_mem hc

theorem lineFeed_not_mem_quoted {q : Char} (hq : '\n' ≠ q) {body : List Char}
    (h : '\n' ∉ body) : '\n' ∉ q :: body ++ [q] := by
  rw [List.cons_append, List.mem_cons, List.mem_append, List.mem_singleton, not_or, not_or]
  exact ⟨hq, h, hq⟩

/-! ## Scope and arrow symbols in literals -/

/-- A character that is no letter of an escape. -/
def isSymbol (c : Char) : Bool := !escapeLetters.contains c

theorem not_mem_of_isSymbol {c : Char} (h : isSymbol c = true) : c ∉ escapeLetters := by
  simpa [isSymbol] using h

theorem Escaped.contains_pair {a b c : Char} (ha : isSymbol a = true) {l : List Char}
    (h : Escaped c l) : containsChars [a, b] l = false := by
  cases h with
  | self =>
    rw [containsChars_pair, decide_eq_false fun h => nomatch h.2]
    rfl
  | @escape cs h =>
    have hletters : a ∉ '\\' :: cs := by
      intro hmem
      rcases List.mem_cons.1 hmem with rfl | hmem
      · exact not_mem_of_isSymbol ha (by decide)
      · exact not_mem_of_isSymbol ha (h hmem)
    rw [← List.append_nil ('\\' :: cs), containsChars_append hletters]
    rfl

theorem keeps_stringChar {a b : Char} (ha : stringChar a = [a]) (hb : stringChar b = [b])
    (hasymbol : isSymbol a = true) (hbsymbol : isSymbol b = true) : Keeps stringChar a b := by
  refine ⟨ha, hb, fun x hx => ?_, fun x hx => ?_, fun x => ?_⟩ <;>
    have hescaped := escaped_stringChar x <;>
    generalize stringChar x = l at hescaped <;>
    cases hescaped
  case refine_1.self => exact fun h => hx (List.mem_singleton.1 h).symm
  case refine_1.escape cs hcs =>
    intro h
    rcases List.mem_cons.1 h with rfl | h
    · exact not_mem_of_isSymbol hasymbol (by decide)
    · exact not_mem_of_isSymbol hasymbol (hcs h)
  case refine_2.self => exact fun h => hx (Option.some.inj h)
  case refine_2.escape =>
    exact fun h => not_mem_of_isSymbol hbsymbol (Option.some.inj h ▸ by decide)
  case refine_3.self | refine_3.escape => exact List.cons_ne_nil _ _

/-- A pair of symbols occurs in a string literal exactly if it does in the value. -/
theorem contains_string {a b : Char} (h : Keeps stringChar a b) (ha : '"' ≠ a) (hb : '"' ≠ b)
    (value : String) :
    containsChars [a, b] (string value).toList = containsChars [a, b] value.toList := by
  unfold string
  rw [String.toList_ofList, containsChars_concat ha hb, containsChars_pair,
    decide_eq_false fun h => ha h.1, Bool.false_or, containsChars_flatMap h]

/-! ## Quoted texts -/

/-- A character literal without the suffix of its encoding. -/
def quotedCharacter (value : UInt32) (kind : CharKind) : String :=
  String.ofList ('\'' :: characterBody (characterValue value kind) ++ ['\''])

end Literal

theorem Literal.contains_quotedCharacter {a b : Char} (ha : isSymbol a = true)
    (hb : isSymbol b = true) (value : UInt32) (kind : CharKind) :
    containsChars [a, b] (quotedCharacter value kind).toList = false := by
  have hquote : ∀ {d}, isSymbol d = true → '\'' ≠ d :=
    fun h heq => absurd (heq ▸ h) (by decide +kernel)
  unfold quotedCharacter
  rw [String.toList_ofList, containsChars_concat (hquote ha) (hquote hb), containsChars_pair,
    decide_eq_false fun h => hquote ha h.1, Bool.false_or]
  exact (escaped_characterBody _).contains_pair ha

/-- The symbol that the name of an operator quotes. -/
def OverloadedOp.quoted? (op : OverloadedOp) (params : Nat) : Option String :=
  match op.boundName?, op.template? params with
  | none, some (_, symbol) => some ("\"" ++ symbol ++ "\"")
  | _, _ => none

theorem OverloadedOp.quoted?_eq (op : OverloadedOp) (params : Nat) :
    op.quoted? params = op.quoted? 1 := by cases op <;> rfl

def Landmark.literals : Landmark → List String
  | character value kind => [Literal.quotedCharacter value kind]
  | string value => [Literal.string value]
  | operator ref => (ref.op.quoted? ref.params).toList
  | null _ => []

namespace Text
open Mode

/-- The literals of a text that ends in code and has no line feed in a literal. -/
def Quotes (s : String) (ls : List String) : Prop :=
  settles code s.toList = true ∧ literals s = ls

instance (s : String) (ls : List String) : Decidable (Quotes s ls) :=
  inferInstanceAs (Decidable (_ ∧ _))

/-- Neither a double nor a single quote. -/
def isUnquoted (c : Char) : Bool := c != '"' && c != '\''

theorem admits_isUnquoted : Admits isUnquoted := fun c hc => by
  simp only [isOrdinary, isUnquoted, Bool.and_eq_true] at hc ⊢
  exact hc.1

theorem Quotes.append {a b : String} {ls ms : List String} (ha : Quotes a ls) (hb : Quotes b ms) :
    Quotes (a ++ b) (ls ++ ms) := by
  refine ⟨?_, ?_⟩
  · rw [String.toList_append]
    exact settles_append ha.1 hb.1
  · rw [literals_append (run_of_settles ha.1), ha.2, hb.2]

theorem quotes_of_unquoted {s : String} (h : All isUnquoted s) : Quotes s [] := by
  have hstep : ∀ cs : List Char, (∀ c ∈ cs, isUnquoted c = true) →
      settles code cs = true ∧ code.literals cs = [] := by
    intro cs
    induction cs with
    | nil => exact fun _ => ⟨rfl, rfl⟩
    | cons c cs ih =>
      intro hcs
      obtain ⟨hquote, hquote'⟩ := Bool.and_eq_true_iff.1 (hcs c List.mem_cons_self)
      have hnext : code.next c = code :=
        (if_neg (bne_iff_ne.1 hquote)).trans (if_neg (bne_iff_ne.1 hquote'))
      obtain ⟨hsettles, hliterals⟩ := ih fun d hd => hcs d (List.mem_cons_of_mem _ hd)
      refine ⟨Bool.and_eq_true_iff.2 ⟨Bool.or_true _, ?_⟩, ?_⟩
      · rw [hnext]
        exact hsettles
      · rw [literals_code hnext, hliterals]
  obtain ⟨hsettles, hliterals⟩ := hstep s.toList h
  exact ⟨hsettles, by rw [literals, hliterals, List.map_nil]⟩

theorem quotes_quoted {q : Char} {m : Mode} {body : List Char} (hopen : code.next q = m)
    (hm : m ≠ code) (hbody : m.within body = some m) (hclose : m.next q = code)
    (hline : '\n' ∉ q :: body ++ [q]) :
    Quotes (String.ofList (q :: body ++ [q])) [String.ofList (q :: body ++ [q])] := by
  have hlast : m.literals [q] = [[q]] := literals_closing hm hclose
  have hwhole : code.literals (q :: body ++ [q]) = [q :: body ++ [q]] := by
    rw [List.cons_append, literals_open (hopen ▸ hm), hopen, literals_of_within hbody, hlast]
    rfl
  refine ⟨settles_of_not_mem ?_ ?_, ?_⟩
  · rw [String.toList_ofList]
    exact hline
  · rw [String.toList_ofList, run_append]
    show ((code.next q).run body).next q = code
    rw [hopen, run_of_within hbody, hclose]
  · rw [literals, String.toList_ofList, hwhole]
    rfl

end Text

theorem Literal.quotes_string (value : String) : Quotes (string value) [string value] :=
  quotes_quoted rfl (by decide) (within_stringBody value.toList) rfl
    (lineFeed_not_mem_quoted (by decide) (lineFeed_not_mem_stringBody value.toList))

theorem Literal.quotes_character (value : UInt32) (kind : CharKind) :
    Quotes (character value kind) [quotedCharacter value kind] := by
  have hquoted : Quotes (quotedCharacter value kind) [quotedCharacter value kind] :=
    quotes_quoted rfl (by decide) (within_characterBody _) rfl
      (lineFeed_not_mem_quoted (by decide) (escaped_characterBody _).lineFeed_not_mem)
  exact hquoted.append (quotes_of_unquoted (by cases kind <;> decide))

theorem OverloadedOp.quotes_memberName (op : OverloadedOp) (params : Nat) :
    Quotes (op.memberName params) (op.quoted? params).toList := by
  rw [op.quoted?_eq]
  rcases op.memberName_cases params with h | h <;> rw [h] <;> cases op <;> decide +kernel

/-- The literals of printed code are those of its landmarks. -/
theorem Shows.quotes {cx : PrintContext} {pointer : Bool} {margin : Nat} {l : List Landmark}
    {a b : String} (h : Shows cx pointer isUnquoted margin l a b) :
    Quotes a (l.flatMap Landmark.literals) := by
  induction h with
  | code h => exact quotes_of_unquoted h
  | lineBreak => exact quotes_of_unquoted (all_lineBreak rfl rfl _)
  | character value kind => exact Literal.quotes_character value kind
  | string value => exact Literal.quotes_string value
  | operator ref =>
    rw [List.flatMap_singleton]
    exact ref.op.quotes_memberName ref.params
  | null => exact quotes_of_unquoted (by decide)
  | append _ _ iha ihb =>
    rw [List.flatMap_append]
    exact iha.append ihb

end DBindings
