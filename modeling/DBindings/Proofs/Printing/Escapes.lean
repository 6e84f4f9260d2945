import DBindings.Proofs.Printing.Quotes
import Mathlib.Algebra.Group.Nat.Defs

/-!
# Literals read back

D reads the text between two quotes one character at a time.  A backslash begins an escape: a named
one, one with a fixed number of hexadecimal digits, or one with as many octal digits as follow, up
to three.  Where an octal escape ends is decided by what stands behind it.

* `Literal.Pending`            what has been read of an escape;
* `Literal.readQuoted`         the values of the characters of a literal;
* `Literal.read_stringChar`    an escaped character is read back;
* `Literal.string_reads_iff`   which strings are read back from their literal.
-/

namespace DBindings.Literal

/-! ## Reading -/

/-- What has been read of an escape. -/
inductive Pending where
  /-- nothing -/
  | plain
  /-- a backslash -/
  | backslash
  /-- digits with a value so far; exactly so many more must follow -/
  | hex (left value : Nat)
  /-- digits with a value so far; up to so many more may follow -/
  | octal (left value : Nat)
  /-- the quote that ends the literal -/
  | closed
  deriving DecidableEq

/-- The value of a digit, sixteen if it is none. -/
def digitValue (c : Char) : Nat :=
  if '0' ≤ c ∧ c ≤ '9' then c.toNat - '0'.toNat
  else if 'a' ≤ c ∧ c ≤ 'f' then c.toNat - 'a'.toNat + 10
  else if 'A' ≤ c ∧ c ≤ 'F' then c.toNat - 'A'.toNat + 10
  else 16

def isOctal (c : Char) : Bool := '0' ≤ c && c ≤ '7'

/-- The escapes with a name of one letter. -/
def named? : Char → Option Nat
  | '\\' => some 0x5C
  | '"' => some 0x22
  | '\'' => some 0x27
  | '?' => some 0x3F
  | 'a' => some 0x07
  | 'b' => some 0x08
  | 'f' => some 0x0C
  | 'n' => some 0x0A
  | 'r' => some 0x0D
  | 't' => some 0x09
  | 'v' => some 0x0B
  | _ => none

namespace Pending

/-- A character where no escape is pending; a line does not end inside a literal. -/
def stepPlain (quote c : Char) : Option (List Nat × Pending) :=
  if c = '\\' then some ([], backslash)
  else if c = quote then some ([], closed)
  else if c = '\n' ∨ c = '\r' then none
  else some ([c.toNat], plain)

/-- The character behind a backslash. -/
def stepEscape (c : Char) : Option (List Nat × Pending) :=
  match named? c with
  | some value => some ([value], plain)
  | none =>
    if c = 'x' then some ([], hex 2 0)
    else if c = 'u' then some ([], hex 4 0)
    else if c = 'U' then some ([], hex 8 0)
    else if isOctal c then some ([], octal 2 (digitValue c))
    else none

/-- Behind a digit: the value, if it was the last one. -/
def digits (left value : Nat) : List Nat × Pending :=
  if left = 0 then ([value], plain) else ([], hex left value)

/-- The values that the next character completes, and what is pending behind it. -/
def step (quote : Char) : Pending → Char → Option (List Nat × Pending)
  | plain, c => stepPlain quote c
  | backslash, c => stepEscape c
  | hex left value, c =>
    if digitValue c < 16 then some (digits (left - 1) (16 * value + digitValue c)) else none
  | octal left value, c =>
    if 0 < left ∧ isOctal c = true then some ([], octal (left - 1) (8 * value + digitValue c))
    else (stepPlain quote c).map fun (values, p) => (value :: values, p)
  | closed, _ => none

/-- The values in the rest of a literal, if it ends exactly with its closing quote. -/
def read (quote : Char) : Pending → List Char → Option (List Nat)
  | p, [] => if p = closed then some [] else none
  | p, c :: cs => (p.step quote c).bind fun (values, p) => (p.read quote cs).map (values ++ ·)

end Pending

/-- The values of the characters in a text that is one literal between two quotes. -/
def readQuoted (quote : Char) : List Char → Option (List Nat)
  | [] => none
  | c :: cs => if c = quote then Pending.plain.read quote cs else none

/-! ## What the reader makes of written text -/

namespace Pending
variable {quote : Char}

theorem read_cons {p q : Pending} {c : Char} {values : List Nat}
    (h : p.step quote c = some (values, q)) (cs : List Char) :
    p.read quote (c :: cs) = (q.read quote cs).map (values ++ ·) := by
  rw [read, h]
  rfl

theorem digitValue_hexDigit {n : Nat} (h : n < 16) : digitValue (hexDigit n) = n := by
  have hall : ∀ m < 16, digitValue (hexDigit m) = m := by decide
  exact hall n h

theorem step_hexDigit (left value n : Nat) : (hex (left + 1) value).step quote (hexDigit (n % 16)) =
    some (digits left (16 * value + n % 16)) := by
  have hlt : n % 16 < 16 := Nat.mod_lt n (by decide)
  rw [step, digitValue_hexDigit hlt, if_pos hlt]
  rfl

/-- Digits are read as the number that they stand for, whatever has been read of it. -/
theorem read_hexDigits (left value width n : Nat) (rest : List Char) :
    (hex (width + left + 1) value).read quote (hexDigits width n ++ rest) =
      (hex (left + 1) (16 ^ width * value + n % 16 ^ width)).read quote rest := by
  induction width generalizing left n rest with
  | zero => simp [hexDigits, Nat.mod_one]
  | succ width ih =>
    have hvalue : 16 * (16 ^ width * value + n / 16 % 16 ^ width) + n % 16 =
        16 ^ (width + 1) * value + n % 16 ^ (width + 1) := by
      rw [Nat.pow_succ, Nat.mul_comm (16 ^ width) 16, Nat.mod_mul, Nat.mul_assoc]
      omega
    have hwidth : width + 1 + left + 1 = width + (left + 1) + 1 := by omega
    rw [hexDigits, List.append_assoc, hwidth, ih, List.singleton_append,
      read_cons (step_hexDigit (left + 1) _ n), hvalue]
    exact congrFun Option.map_id _

theorem read_hexEscape (width : Nat) {n : Nat} (h : n < 16 ^ (width + 1)) (rest : List Char) :
    (hex (width + 1) 0).read quote (hexDigits (width + 1) n ++ rest) =
      (plain.read quote rest).map (n :: ·) := by
  have hleading : n / 16 % 16 ^ width = n / 16 := by
    apply Nat.mod_eq_of_lt
    rw [Nat.div_lt_iff_lt_mul (by decide)]
    exact h
  have hvalue : 16 * (16 ^ width * 0 + n / 16) + n % 16 = n := by omega
  have hdigits : (hex (width + 1) 0).read quote _ = _ :=
    read_hexDigits 0 0 width (n / 16) (hexDigit (n % 16) :: rest)
  rw [hleading] at hdigits
  rw [hexDigits, List.append_assoc, List.singleton_append, hdigits,
    read_cons (step_hexDigit 0 _ n), hvalue]
  rfl

theorem step_raw {c : Char} (hbackslash : c ≠ '\\') (hquote : c ≠ quote) (hline : c ≠ '\n')
    (hreturn : c ≠ '\r') : plain.step quote c = some ([c.toNat], plain) := by
  show stepPlain quote c = _
  rw [stepPlain, if_neg hbackslash, if_neg hquote, if_neg (by simp [hline, hreturn])]

theorem read_named {c : Char} {value : Nat} (h : named? c = some value) (rest : List Char) :
    plain.read quote ('\\' :: c :: rest) = (plain.read quote rest).map (value :: ·) := by
  have hstep : backslash.step quote c = some ([value], plain) := by
    show stepEscape c = _
    rw [stepEscape, h]
  rw [read_cons (q := backslash) rfl, read_cons hstep, Option.map_map]
  rfl

/-- What stands for a character in a string literal is read as the character, unless it is NUL. -/
theorem read_stringChar {c : Char} (hzero : c.toNat ≠ 0) (rest : List Char) :
    plain.read '"' (stringChar c ++ rest) = (plain.read '"' rest).map (c.toNat :: ·) := by
  unfold stringChar
  by_cases hbackslash : c = '\\'
  · rw [if_pos hbackslash, hbackslash]
    exact read_named rfl rest
  by_cases hquote : c = '"'
  · rw [if_neg hbackslash, if_pos hquote, hquote]
    exact read_named rfl rest
  by_cases hline : c = '\n'
  · rw [if_neg hbackslash, if_neg hquote, if_pos hline, hline]
    exact read_named rfl rest
  by_cases hreturn : c = '\r'
  · rw [if_neg hbackslash, if_neg hquote, if_neg hline, if_pos hreturn, hreturn]
    exact read_named rfl rest
  by_cases htab : c = '\t'
  · rw [if_neg hbackslash, if_neg hquote, if_neg hline, if_neg hreturn, if_pos htab, htab]
    exact read_named rfl rest
  rw [if_neg hbackslash, if_neg hquote, if_neg hline, if_neg hreturn, if_neg htab, if_neg hzero]
  by_cases hcontrol : c.toNat < 0x20 ∨ c.toNat = 0x7F
  · rw [if_pos hcontrol, List.cons_append, List.cons_append, read_cons (q := backslash) rfl,
      read_cons (q := hex 2 0) rfl, read_hexEscape 1 (by omega), Option.map_map, Option.map_map]
    rfl
  · rw [if_neg hcontrol]
    exact read_cons (step_raw hbackslash hquote hline hreturn) rest

/-! ## NUL

Of all characters only NUL is written with an octal escape, and with the shortest one. -/

theorem read_nul {c : Char} (hzero : c.toNat = 0) (rest : List Char) :
    plain.read '"' (stringChar c ++ rest) = (octal 2 0).read '"' rest := by
  have hc : c = '\x00' := Char.ext (UInt32.toNat_inj.1 hzero)
  rw [hc, show stringChar '\x00' = ['\\', '0'] from by decide, List.cons_append, List.cons_append,
    read_cons (q := backslash) rfl, read_cons (q := octal 2 0) rfl, Option.map_map]
  exact congrFun Option.map_id _

theorem read_octalDigit {left value : Nat} {c : Char} (hleft : 0 < left) (hc : isOctal c = true)
    (rest : List Char) : (octal left value).read quote (c :: rest) =
      (octal (left - 1) (8 * value + digitValue c)).read quote rest := by
  rw [read, step, if_pos ⟨hleft, hc⟩]
  exact congrFun Option.map_id _

/-- An octal escape ends in front of a character that does not go on with it. -/
theorem read_octalEnd {left value : Nat} {c : Char} (h : ¬ (0 < left ∧ isOctal c = true))
    (rest : List Char) : (octal left value).read quote (c :: rest) =
      (plain.read quote (c :: rest)).map (value :: ·) := by
  rw [read, step, if_neg h, read]
  show ((stepPlain quote c).map _).bind _ = ((stepPlain quote c).bind _).map _
  cases stepPlain quote c with
  | none => rfl
  | some out =>
    show Option.map _ _ = Option.map _ (Option.map _ _)
    rw [Option.map_map]
    rfl

theorem stringChar_of_isOctal {c : Char} (h : isOctal c = true) : stringChar c = [c] := by
  have hne {d : Char} (hd : isOctal d = false) : c ≠ d := by
    rintro rfl
    rw [h] at hd
    exact nomatch hd
  have hrange : 0x30 ≤ c.toNat ∧ c.toNat ≤ 0x37 := by
    obtain ⟨hlower, hupper⟩ := Bool.and_eq_true_iff.1 h
    exact ⟨of_decide_eq_true hlower, of_decide_eq_true hupper⟩
  rw [stringChar, if_neg (hne (by decide)), if_neg (hne (by decide)), if_neg (hne (by decide)),
    if_neg (hne (by decide)), if_neg (hne (by decide)), if_neg (by omega), if_neg (by omega)]

theorem read_octalDigit_stringChar {left value : Nat} {c : Char} (hleft : 0 < left)
    (hc : isOctal c = true) (rest : List Char) :
    (octal left value).read quote (stringChar c ++ rest) =
      (octal (left - 1) (8 * value + digitValue c)).read quote rest := by
  rw [stringChar_of_isOctal hc]
  exact read_octalDigit hleft hc rest

theorem read_octalEnd_stringChar {left value : Nat} {c : Char}
    (h : ¬ (0 < left ∧ isOctal c = true)) (rest : List Char) :
    (octal left value).read quote (stringChar c ++ rest) =
      (plain.read quote (stringChar c ++ rest)).map (value :: ·) := by
  have hescaped := escaped_stringChar c
  generalize stringChar c = l at hescaped
  cases hescaped with
  | self => exact read_octalEnd h rest
  | escape => exact read_octalEnd (fun hdigit => absurd hdigit.2 (by decide)) _

end Pending

/-! ## Whole strings -/

/-- The rest of a string literal, from a character of its value on. -/
def stringRest (cs : List Char) : List Char := cs.flatMap stringChar ++ ['"']

theorem stringRest_cons (c : Char) (cs : List Char) :
    stringRest (c :: cs) = stringChar c ++ stringRest cs := List.append_assoc ..

/-- A string literal is always complete.  No character of the value is read as more than one, and a
pending octal escape adds at most one value. -/
theorem reads_stringRest (cs : List Char) :
    (∃ values, Pending.plain.read '"' (stringRest cs) = some values ∧ values.length ≤ cs.length) ∧
    ∀ left value, ∃ values, (Pending.octal left value).read '"' (stringRest cs) = some values ∧
      values.length ≤ cs.length + 1 := by
  induction cs with
  | nil =>
    refine ⟨⟨[], rfl, Nat.le_refl 0⟩, fun left value => ⟨[value], ?_, Nat.le_refl 1⟩⟩
    exact Pending.read_octalEnd (fun h => absurd h.2 (by decide)) []
  | cons c cs ih =>
    obtain ⟨⟨values, hvalues, hlength⟩, hoctal⟩ := ih
    have hplain : ∃ values, Pending.plain.read '"' (stringRest (c :: cs)) = some values ∧
        values.length ≤ cs.length + 1 := by
      rw [stringRest_cons]
      by_cases hzero : c.toNat = 0
      · rw [Pending.read_nul hzero]
        exact hoctal 2 0
      · rw [Pending.read_stringChar hzero, hvalues]
        exact ⟨c.toNat :: values, rfl, Nat.succ_le_succ hlength⟩
    refine ⟨hplain, fun left value => ?_⟩
    by_cases hdigit : 0 < left ∧ isOctal c = true
    · obtain ⟨values, hvalues, hlength⟩ := hoctal (left - 1) (8 * value + digitValue c)
      refine ⟨values, ?_, Nat.le_succ_of_le hlength⟩
      rw [stringRest_cons, Pending.read_octalDigit_stringChar hdigit.1 hdigit.2, hvalues]
    · obtain ⟨values, hvalues, hlength⟩ := hplain
      refine ⟨value :: values, ?_, Nat.succ_le_succ hlength⟩
      rw [stringRest_cons] at hvalues ⊢
      rw [Pending.read_octalEnd_stringChar hdigit, hvalues]
      rfl

/-- No NUL stands directly in front of an octal digit. -/
def NulApart (cs : List Char) : Prop := cs.IsChain fun a b => a.toNat = 0 → isOctal b = false

instance (cs : List Char) : Decidable (NulApart cs) :=
  inferInstanceAs (Decidable (cs.IsChain fun a b => a.toNat = 0 → isOctal b = false))

theorem map_cons_eq_some_iff {value : Nat} {read? : Option (List Nat)} {values : List Nat} :
    read?.map (value :: ·) = some (value :: values) ↔ read? = some values := by
  cases read? <;> simp

/-- The rest of a string literal is read as its value unless an octal escape goes on too far. -/
theorem read_stringRest_iff (cs : List Char) :
    Pending.plain.read '"' (stringRest cs) = some (cs.map Char.toNat) ↔ NulApart cs := by
  induction cs with
  | nil => exact iff_of_true rfl .nil
  | cons c cs ih =>
    rw [stringRest_cons, List.map_cons]
    by_cases hzero : c.toNat = 0
    · rw [Pending.read_nul hzero, hzero]
      cases cs with
      | nil =>
        exact iff_of_true (Pending.read_octalEnd (fun h => absurd h.2 (by decide)) [])
          (.singleton c)
      | cons d ds =>
        rw [NulApart, List.isChain_cons_cons]
        by_cases hdigit : isOctal d = true
        · obtain ⟨values, hvalues, hlength⟩ := (reads_stringRest ds).2 1 (8 * 0 + digitValue d)
          rw [stringRest_cons, Pending.read_octalDigit_stringChar (by decide) hdigit, hvalues]
          refine iff_of_false (fun h => ?_) fun h => ?_
          · rw [Option.some.inj h, List.length_cons, List.length_map, List.length_cons] at hlength
            omega
          · rw [h.1 hzero] at hdigit
            exact nomatch hdigit
        · rw [stringRest_cons, Pending.read_octalEnd_stringChar (fun h => hdigit h.2),
            ← stringRest_cons, map_cons_eq_some_iff, ih]
          exact (and_iff_right fun _ => Bool.not_eq_true _ ▸ hdigit).symm
    · rw [Pending.read_stringChar hzero, map_cons_eq_some_iff, ih]
      cases cs with
      | nil => exact iff_of_true .nil (.singleton c)
      | cons d ds =>
        rw [NulApart, NulApart, List.isChain_cons_cons]
        exact (and_iff_right fun h => absurd h hzero).symm

theorem mem_string_iff {c : Char} (hsymbol : isSymbol c = true) (hquote : c ≠ '"')
    (hself : stringChar c = [c]) (value : String) :
    c ∈ (string value).toList ↔ c ∈ value.toList := by
  unfold string
  rw [String.toList_ofList, List.cons_append, List.mem_cons, List.mem_append, List.mem_singleton,
    or_iff_right hquote, or_iff_left hquote, List.mem_flatMap]
  constructor
  · rintro ⟨d, hd, hmem⟩
    have hescaped := escaped_stringChar d
    generalize stringChar d = l at hescaped hmem
    cases hescaped with
    | self => rwa [List.mem_singleton.1 hmem]
    | escape hletters =>
      rcases List.mem_cons.1 hmem with rfl | hmem
      · exact absurd (by decide) (not_mem_of_isSymbol hsymbol)
      · exact absurd (hletters hmem) (not_mem_of_isSymbol hsymbol)
  · exact fun hc => ⟨c, hc, hself ▸ List.mem_singleton_self c⟩

/-- The literal of a string is complete: only its last character closes it, and no line ends inside
it, apart from the line separators of Unicode, which are kept as they are.  It is read back as the
string exactly if no NUL stands directly in front of an octal digit: `\0` goes on with the digit. -/
theorem string_reads_iff (value : String) :
    (readQuoted '"' (string value).toList).isSome = true ∧
    ('\u2028' ∈ (string value).toList ↔ '\u2028' ∈ value.toList) ∧
    ('\u2029' ∈ (string value).toList ↔ '\u2029' ∈ value.toList) ∧
    (readQuoted '"' (string value).toList = some (value.toList.map Char.toNat) ↔
      NulApart value.toList) := by
  have hread : readQuoted '"' (string value).toList =
      Pending.plain.read '"' (stringRest value.toList) := by
    rw [string, String.toList_ofList]
    rfl
  obtain ⟨values, hvalues, -⟩ := (reads_stringRest value.toList).1
  refine ⟨?_, mem_string_iff (by decide) (by decide) (by decide) value,
    mem_string_iff (by decide) (by decide) (by decide) value, ?_⟩
  · rw [hread, hvalues]
    rfl
  · rw [hread]
    exact read_stringRest_iff value.toList

/-- A NUL in front of a digit is read as the character with that number. -/
theorem nulDigit_misread :
    "\x001".toList.map Char.toNat = [0, 0x31] ∧
    string "\x001" = "\"\\01\"" ∧
    readQuoted '"' (string "\x001").toList = some [1] := by
  decide +kernel

end DBindings.Literal
