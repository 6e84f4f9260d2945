import DBindings.Tree.Decl
import Mathlib.Data.List.TakeWhile

/-!
# Runs of bit-fields among fields

A run is a longest block of consecutive bit-fields.  Going through the fields with the sum of the
current run, starting anew behind every other field, finds the first run that is wider than 64 bits,
and the sum where it becomes so.

* `Field.IsRun`                  a block of bit-fields with no bit-field next to it;
* `Field.ExceedsAt`              the sum of the shortest part, from the start, that is too wide;
* `Field.overflow?_eq_none_iff`  no sum is found exactly if all runs fit;
* `Field.exceedsAt_of_overflow?` a sum that is found is that of a run.
-/

namespace DBindings
namespace Field

def bits : List Field → Nat
  | [] => 0
  | field :: rest => field.bitWidth.elim 0 UInt32.toNat + bits rest

/-- Consecutive bit-fields with no bit-field in front of them and none behind. -/
def IsRun (fields run : List Field) : Prop :=
  run ≠ [] ∧ (∀ field ∈ run, field.bitWidth.isSome = true) ∧
    ∃ before after, fields = before ++ run ++ after ∧
      (∀ field ∈ before.getLast?, field.bitWidth = none) ∧
      (∀ field ∈ after.head?, field.bitWidth = none)

/-- The first bit-fields of a run that are wider than 64 bits together have this sum. -/
def ExceedsAt (run : List Field) (sum : Nat) : Prop :=
  64 < sum ∧ ∃ n, bits (run.take n) = sum ∧ ∀ m < n, bits (run.take m) ≤ 64

/-- The first sum beyond 64 bits, when a run of so many bits stands in front of the fields. -/
def overflow? (sum : Nat) : List Field → Option Nat
  | [] => none
  | field :: rest =>
    match field.bitWidth with
    | some width =>
      if sum + width.toNat ≤ 64 then overflow? (sum + width.toNat) rest
      else some (sum + width.toNat)
    | none => overflow? 0 rest

/-- No run of the fields is wider than 64 bits. -/
def Fit (fields : List Field) : Prop := ∀ run, IsRun fields run → bits run ≤ 64

theorem bits_append (a b : List Field) : bits (a ++ b) = bits a + bits b := by
  induction a with
  | nil => exact (Nat.zero_add _).symm
  | cons field a ih => rw [List.cons_append, bits, bits, ih, Nat.add_assoc]

theorem bits_singleton {field : Field} {width : UInt32} (h : field.bitWidth = some width) :
    bits [field] = width.toNat := by
  rw [bits, bits, h]
  rfl

theorem bits_take_le (run : List Field) (n : Nat) : bits (run.take n) ≤ bits run := by
  have h := bits_append (run.take n) (run.drop n)
  rw [List.take_append_drop] at h
  omega

theorem ExceedsAt.le_bits {run : List Field} {sum : Nat} (h : ExceedsAt run sum) :
    64 < bits run := by
  obtain ⟨hsum, n, hn, -⟩ := h
  have := bits_take_le run n
  omega

/-! ## A sum that is found -/

/-- The bit-fields of the current run, up to one that exceeds, go on to a whole run. -/
theorem exceedsAt_current {before current rest : List Field} {field : Field} {width : UInt32}
    (hbefore : ∀ f ∈ before.getLast?, f.bitWidth = none)
    (hcurrent : ∀ f ∈ current, f.bitWidth.isSome = true) (hfits : bits current ≤ 64)
    (hwidth : field.bitWidth = some width) (hover : 64 < bits current + width.toNat) :
    ∃ run, IsRun (before ++ current ++ field :: rest) run ∧
      ExceedsAt run (bits current + width.toNat) := by
  let tail := rest.takeWhile (·.bitWidth.isSome)
  refine ⟨current ++ field :: tail, ⟨by simp, fun f hf => ?_, before,
    rest.dropWhile (·.bitWidth.isSome), ?_, hbefore, fun f hf => ?_⟩, hover, current.length + 1, ?_,
    fun m hm => ?_⟩
  · rcases List.mem_append.1 hf with hf | hf
    · exact hcurrent f hf
    · rcases List.mem_cons.1 hf with rfl | hf
      · rw [hwidth]
        rfl
      · exact List.mem_takeWhile_imp (p := fun f : Field => f.bitWidth.isSome) hf
  · have hrest : tail ++ rest.dropWhile (·.bitWidth.isSome) = rest :=
      List.takeWhile_append_dropWhile
    simp only [List.append_assoc, List.cons_append, hrest]
  · have h := List.head?_dropWhile_not (fun f : Field => f.bitWidth.isSome) rest
    rw [Option.mem_def.1 hf] at h
    simpa using h
  · have htake : (current ++ field :: tail).take (current.length + 1) = current ++ [field] := by
      rw [List.take_append, List.take_of_length_le (Nat.le_succ _), Nat.add_sub_cancel_left]
      rfl
    rw [htake, bits_append, bits_singleton hwidth]
  · have htake : (current ++ field :: tail).take m = current.take m :=
      List.take_append_of_le_length (by omega)
    rw [htake]
    exact Nat.le_trans (bits_take_le current m) hfits

theorem exceedsAt_of_overflow?_aux {sum : Nat} (fields before current : List Field)
    (hbefore : ∀ f ∈ before.getLast?, f.bitWidth = none)
    (hcurrent : ∀ f ∈ current, f.bitWidth.isSome = true) (hfits : bits current ≤ 64)
    (h : overflow? (bits current) fields = some sum) :
    ∃ run, IsRun (before ++ current ++ fields) run ∧ ExceedsAt run sum := by
  induction fields generalizing before current with
  | nil => exact nomatch h
  | cons field rest ih =>
    unfold overflow? at h
    cases hwidth : field.bitWidth with
    | some width =>
      rw [hwidth] at h
      dsimp only at h
      by_cases hle : bits current + width.toNat ≤ 64
      · -- the field joins the current run
        rw [if_pos hle] at h
        have hbits : bits (current ++ [field]) = bits current + width.toNat := by
          rw [bits_append, bits_singleton hwidth]
        have hjoined : ∀ f ∈ current ++ [field], f.bitWidth.isSome = true := by
          intro f hf
          rcases List.mem_append.1 hf with hf | hf
          · exact hcurrent f hf
          · rw [List.mem_singleton.1 hf, hwidth]
            rfl
        have := ih before (current ++ [field]) hbefore hjoined (hbits ▸ hle) (hbits ▸ h)
        simpa using this
      · rw [if_neg hle] at h
        rw [← Option.some.inj h]
        exact exceedsAt_current hbefore hcurrent hfits hwidth (by omega)
    | none =>
      rw [hwidth] at h
      have hlast : ∀ f ∈ (before ++ current ++ [field]).getLast?, f.bitWidth = none := by
        intro f hf
        rw [List.getLast?_append, List.getLast?_singleton] at hf
        rw [← Option.some.inj hf, hwidth]
      have := ih (before ++ current ++ [field]) [] hlast (fun f hf => absurd hf List.not_mem_nil)
        (Nat.zero_le 64) h
      simpa using this

/-- A sum that is found is that of the shortest part of a run that is too wide. -/
theorem exceedsAt_of_overflow? {sum : Nat} {fields : List Field}
    (h : overflow? 0 fields = some sum) : ∃ run, IsRun fields run ∧ ExceedsAt run sum :=
  exceedsAt_of_overflow?_aux fields [] [] (fun _ hf => nomatch hf)
    (fun _ hf => absurd hf List.not_mem_nil) (Nat.zero_le 64) h

/-! ## No sum is found -/

theorem add_bits_le_of_overflow? {sum : Nat} {run after : List Field} (hsum : sum ≤ 64)
    (h : overflow? sum (run ++ after) = none) (hrun : ∀ f ∈ run, f.bitWidth.isSome = true) :
    sum + bits run ≤ 64 := by
  induction run generalizing sum with
  | nil => exact hsum
  | cons field rest ih =>
    obtain ⟨width, hwidth⟩ := Option.isSome_iff_exists.1 (hrun field List.mem_cons_self)
    have hbits : bits (field :: rest) = width.toNat + bits rest := by
      rw [← bits_singleton hwidth, ← bits_append]
      rfl
    rw [List.cons_append] at h
    unfold overflow? at h
    rw [hwidth] at h
    dsimp only at h
    by_cases hle : sum + width.toNat ≤ 64
    · rw [if_pos hle] at h
      have := ih hle h fun f hf => hrun f (List.mem_cons_of_mem _ hf)
      omega
    · rw [if_neg hle] at h
      exact nomatch h

theorem bits_le_of_overflow? {sum : Nat} {before run after : List Field} (hsum : sum ≤ 64)
    (h : overflow? sum (before ++ run ++ after) = none)
    (hrun : ∀ f ∈ run, f.bitWidth.isSome = true) : bits run ≤ 64 := by
  induction before generalizing sum with
  | nil =>
    have hle : sum + bits run ≤ 64 := add_bits_le_of_overflow? hsum h hrun
    omega
  | cons field before ih =>
    rw [List.cons_append, List.cons_append] at h
    unfold overflow? at h
    cases hwidth : field.bitWidth with
    | some width =>
      rw [hwidth] at h
      dsimp only at h
      by_cases hle : sum + width.toNat ≤ 64
      · rw [if_pos hle] at h
        exact ih hle h
      · rw [if_neg hle] at h
        exact nomatch h
    | none =>
      rw [hwidth] at h
      exact ih (Nat.zero_le 64) h

theorem overflow?_eq_none_iff {fields : List Field} : overflow? 0 fields = none ↔ Fit fields := by
  constructor
  · rintro h run ⟨-, hrun, before, after, rfl, -, -⟩
    exact bits_le_of_overflow? (Nat.zero_le 64) h hrun
  · intro hfit
    cases h : overflow? 0 fields with
    | none => rfl
    | some sum =>
      obtain ⟨run, hrun, hexceeds⟩ := exceedsAt_of_overflow? h
      have := hexceeds.le_bits
      have := hfit run hrun
      omega

end Field
end DBindings
