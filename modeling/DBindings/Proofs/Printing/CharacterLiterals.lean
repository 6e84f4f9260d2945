import DBindings.Proofs.Printing.Escapes

/-!
# Character literals read back

A character literal is one character between single quotes and a suffix for its encoding.

* `Pending.readUntil`           reads up to the quote that closes a literal;
* `Pending.Reads`               a text is read as one character, whatever stands behind it;
* `Literal.reads_characterBody` what stands between the quotes is;
* `Literal.character_reads`     a literal is read back as its value, with the suffix of its kind.
-/

namespace DBindings.Literal

namespace Pending

/-- The values up to the closing quote, and what stands behind it. -/
def readUntil (quote : Char) : Pending → List Char → Option (List Nat × List Char)
  | p, [] => if p = closed then some ([], []) else none
  | p, c :: cs =>
    if p = closed then some ([], c :: cs)
    else (p.step quote c).bind fun (values, p) =>
      (p.readUntil quote cs).map fun (more, rest) => (values ++ more, rest)

section
variable {quote : Char}

theorem readUntil_closed (rest : List Char) : closed.readUntil quote rest = some ([], rest) := by
  cases rest <;> rfl

theorem readUntil_append {p : Pending} {cs : List Char} {values : List Nat}
    (h : p.read quote cs = some values) (rest : List Char) :
    p.readUntil quote (cs ++ rest) = some (values, rest) := by
  induction cs generalizing p values with
  | nil =>
    obtain ⟨hp, hvalues⟩ := Option.ite_none_right_eq_some.1 h
    rw [hp, ← Option.some.inj hvalues]
    exact readUntil_closed rest
  | cons c cs ih =>
    obtain ⟨⟨first, q⟩, hstep, h⟩ := Option.bind_eq_some_iff.1 h
    obtain ⟨more, hmore, hvalues⟩ := Option.map_eq_some_iff.1 h
    have hopen : p ≠ closed := by
      rintro rfl
      exact nomatch hstep
    rw [List.cons_append, readUntil, if_neg hopen, hstep]
    show (q.readUntil quote (cs ++ rest)).map _ = _
    rw [ih hmore, ← hvalues]
    rfl

end

/-- A text is read as one character, whatever stands behind it. -/
def Reads (quote : Char) (cs : List Char) (value : Nat) : Prop :=
  ∀ rest, plain.read quote (cs ++ rest) = (plain.read quote rest).map (value :: ·)

section
variable {quote c : Char} {value : Nat}

theorem reads_ite {p : Prop} [Decidable p] {a b : List Char} (ha : p → Reads quote a value)
    (hb : ¬p → Reads quote b value) : Reads quote (if p then a else b) value :=
  iteInduction (motive := fun cs => Reads quote cs value) ha hb

theorem reads_named {n : Nat} (h : named? c = some n) (hvalue : value = n) :
    Reads quote ['\\', c] value := by
  rw [hvalue]
  exact read_named h

theorem reads_hex (width : Nat) (hc : backslash.step quote c = some ([], hex (width + 1) 0))
    (h : value < 16 ^ (width + 1)) :
    Reads quote ('\\' :: c :: hexDigits (width + 1) value) value := by
  intro rest
  rw [List.cons_append, List.cons_append, read_cons (q := backslash) rfl, read_cons hc,
    read_hexEscape width h, Option.map_map, Option.map_map]
  rfl

end

end Pending

open Pending

theorem toNat_ofNat_printable {n : Nat} (h : n ≤ 0x7E) : (Char.ofNat n).toNat = n := by
  have hvalid : n.isValidChar := Or.inl (by omega)
  unfold Char.ofNat
  rw [dif_pos hvalid]
  exact UInt32.toNat_ofNatLT

/-- Each range of values has an escape with enough digits for it. -/
theorem reads_characterBody {n : Nat} (h : n < 2 ^ 32) : Reads '\'' (characterBody n) n := by
  unfold characterBody
  refine reads_ite (reads_named rfl) fun hbackslash => ?_
  refine reads_ite (reads_named rfl) fun hquote => ?_
  refine reads_ite (reads_named rfl) fun _ => ?_
  refine reads_ite (reads_named rfl) fun _ => ?_
  refine reads_ite (reads_named rfl) fun _ => ?_
  refine reads_ite (reads_named rfl) fun hline => ?_
  refine reads_ite (reads_named rfl) fun hreturn => ?_
  refine reads_ite (reads_named rfl) fun _ => ?_
  refine reads_ite (reads_named rfl) fun _ => ?_
  refine reads_ite (fun hprintable rest => ?_) fun _ => ?_
  · have hstep : plain.step '\'' (Char.ofNat n) = some ([(Char.ofNat n).toNat], plain) :=
      step_raw (ofNat_ne hprintable hbackslash) (ofNat_ne hprintable hquote)
        (ofNat_ne hprintable hline) (ofNat_ne hprintable hreturn)
    rw [List.singleton_append, read_cons hstep, toNat_ofNat_printable hprintable.2]
    rfl
  · refine reads_ite (fun hbyte => reads_hex 1 rfl (by omega)) fun _ => ?_
    exact reads_ite (fun hshort => reads_hex 3 rfl (by omega))
      fun _ => reads_hex 7 rfl (by omega)

/-! ## Values that were extended by their sign -/

theorem toNat_and_upper (value : UInt32) :
    (value &&& 0xFFFFFF00).toNat = 256 * (value.toNat / 256) := by
  have hlt : value.toNat < 2 ^ 32 := value.toNat_lt
  have hupper : (value.toNat &&& 0xFFFFFF00) / 2 ^ 8 = value.toNat / 256 := by
    rw [Nat.and_div_two_pow]
    show value.toNat / 256 &&& (2 ^ 24 - 1) = _
    rw [Nat.and_two_pow_sub_one_eq_mod, Nat.mod_eq_of_lt (by omega)]
  have hlower : (value.toNat &&& 0xFFFFFF00) % 2 ^ 8 = 0 := by
    rw [Nat.and_mod_two_pow]
    exact Nat.and_zero _
  rw [UInt32.toNat_and]
  show value.toNat &&& 0xFFFFFF00 = _
  omega

theorem and_upper_eq_iff (value : UInt32) :
    value &&& 0xFFFFFF00 = 0xFFFFFF00 ↔ 0xFFFFFF00 ≤ value.toNat := by
  have hlt : value.toNat < 2 ^ 32 := value.toNat_lt
  rw [← UInt32.toNat_inj, toNat_and_upper]
  show 256 * (value.toNat / 256) = 0xFFFFFF00 ↔ _
  omega

theorem toNat_and_byte (value : UInt32) : (value &&& 0xFF).toNat = value.toNat % 256 := by
  rw [UInt32.toNat_and]
  exact Nat.and_two_pow_sub_one_eq_mod value.toNat 8

theorem characterValue_eq (value : UInt32) (kind : CharKind) : characterValue value kind =
    (if kind = .ascii ∧ value &&& 0xFFFFFF00 = 0xFFFFFF00 then value &&& 0xFF
      else value).toNat := by
  unfold characterValue
  simp only [and_upper_eq_iff]
  split
  · exact (toNat_and_byte value).symm
  · rfl

/-! ## Whole literals -/

/-- The one character of a literal between single quotes, and the suffix behind it. -/
def readCharacter (t : String) : Option (Nat × String) :=
  match t.toList with
  | '\'' :: cs =>
    match plain.readUntil '\'' cs with
    | some ([value], suffix) => some (value, String.ofList suffix)
    | _ => none
  | _ => none

theorem readCharacter_character (value : UInt32) (kind : CharKind) :
    readCharacter (character value kind) =
      some (characterValue value kind, characterSuffix kind) := by
  have hlt : characterValue value kind < 2 ^ 32 := by
    rw [characterValue_eq]
    exact UInt32.toNat_lt _
  have hbody : plain.read '\'' (characterBody (characterValue value kind) ++ ['\'']) =
      some [characterValue value kind] := reads_characterBody hlt ['\'']
  have hquoted := readUntil_append hbody (characterSuffix kind).toList
  have hchars : (character value kind).toList = '\'' ::
      (characterBody (characterValue value kind) ++ ['\''] ++ (characterSuffix kind).toList) := by
    simp [character]
  unfold readCharacter
  rw [hchars]
  simp only [hquoted, String.ofList_toList]

/-- A character literal is one character and a suffix.  The first quote that is not escaped closes
it, and it is read back as its value; only a plain character whose upper bits are all set is read as
its lowest byte.  The suffix tells the encodings of wider characters apart. -/
theorem character_reads (value : UInt32) (kind : CharKind) :
    ∃ suffix, readCharacter (character value kind) = some
        ((if kind = .ascii ∧ value &&& 0xFFFFFF00 = 0xFFFFFF00 then value &&& 0xFF
          else value).toNat, suffix) ∧
      (suffix = "w" ↔ kind = .wide ∨ kind = .utf16) ∧ (suffix = "d" ↔ kind = .utf32) ∧
      (suffix = "" ↔ kind = .ascii ∨ kind = .utf8) := by
  refine ⟨characterSuffix kind, ?_, ?_⟩
  · rw [readCharacter_character, characterValue_eq]
  · cases kind <;> decide

end DBindings.Literal
