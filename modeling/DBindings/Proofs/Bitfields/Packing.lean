import DBindings.Bitfield
import Mathlib.Order.Bounds.Defs

/-!
# Packing bit-fields

A run is asked to add bit-fields and to close, in any order.  What it has accepted since it was
closed last is known from its answers alone, and all that the run says follows from that.

* `BitfieldRun.History`   a run and the bit-fields that it has accepted since it was closed last;
* `push_eq`               an answer by the exact sum of the widths, on counts of 32 bits;
* `isLeast_groupSize`     the size of a group is the least one that holds the bits;
* `entryLines_concat`     the entries of a group as lines, with the last one apart;
* `history_packs`         the counts, answers and groups of a run after any such calls.
-/

namespace DBindings
namespace BitfieldRun

/-- The exact sum of the widths of bit-fields. -/
def total : List BitfieldEntry → Nat
  | [] => 0
  | entry :: entries => entry.width.toNat + total entries

theorem total_append (a b : List BitfieldEntry) : total (a ++ b) = total a + total b := by
  induction a with
  | nil => exact (Nat.zero_add _).symm
  | cons entry a ih => rw [List.cons_append, total, total, ih, Nat.add_assoc]

theorem total_singleton (entry : BitfieldEntry) : total [entry] = entry.width.toNat :=
  Nat.add_zero _

/-! ## Counting in 32 bits -/

theorem checkedAdd_of_lt {a b : UInt32} (h : a.toNat + b.toNat < UInt32.size) :
    checkedAdd a b = some (a + b) ∧ (a + b).toNat = a.toNat + b.toNat :=
  ⟨if_pos h, by rw [UInt32.toNat_add, Nat.mod_eq_of_lt h]⟩

/-- A bit-field is accepted if the exact sum is at most 64.  If it is refused, the sum is reported
as far as 32 bits go, and the run is as it was. -/
theorem push_eq (run : BitfieldRun) (entry : BitfieldEntry) :
    run.push entry =
      if run.accumulated.toNat + entry.width.toNat ≤ 64 then
        (.ok (), { run with
          entries := run.entries ++ [entry], accumulated := run.accumulated + entry.width })
      else (.error (.bitfieldOverflow run.record
        (.ofNat (min (run.accumulated.toNat + entry.width.toNat) (UInt32.size - 1)))), run) := by
  unfold push
  by_cases hlt : run.accumulated.toNat + entry.width.toNat < UInt32.size
  · obtain ⟨hadd, hsum⟩ := checkedAdd_of_lt hlt
    have hle : run.accumulated + entry.width ≤ maxBits ↔
        run.accumulated.toNat + entry.width.toNat ≤ 64 := by
      rw [UInt32.le_iff_toNat_le, hsum]
      exact Iff.rfl
    have hmin : min (run.accumulated.toNat + entry.width.toNat) (UInt32.size - 1) =
        (run.accumulated + entry.width).toNat := by omega
    rw [hadd, hmin, UInt32.ofNat_toNat]
    simp only [hle]
  · have hnone : checkedAdd run.accumulated entry.width = none := if_neg hlt
    have hmin : min (run.accumulated.toNat + entry.width.toNat) (UInt32.size - 1) =
        UInt32.size - 1 := by omega
    have hwide : ¬ run.accumulated.toNat + entry.width.toNat ≤ 64 :=
      fun hle => hlt (Nat.lt_of_le_of_lt hle (by decide))
    rw [hnone, hmin, if_neg hwide]
    rfl

/-! ## Groups -/

/-- The size of a group is the least one that holds the bits. -/
theorem isLeast_groupSize {bits : UInt32} (h : bits.toNat ≤ 64) :
    IsLeast {size | size ∈ [8, 16, 32, 64] ∧ bits.toNat ≤ size} (groupSize bits).toNat := by
  have hle (size : UInt32) : bits ≤ size ↔ bits.toNat ≤ size.toNat := UInt32.le_iff_toNat_le
  have hcases : (bits.toNat ≤ 8 ∧ groupSize bits = 8) ∨
      (8 < bits.toNat ∧ bits.toNat ≤ 16 ∧ groupSize bits = 16) ∨
      (16 < bits.toNat ∧ bits.toNat ≤ 32 ∧ groupSize bits = 32) ∨
      (32 < bits.toNat ∧ groupSize bits = 64) := by
    unfold groupSize groupSizes
    by_cases h8 : bits.toNat ≤ 8
    · exact Or.inl ⟨h8, by simp [hle, h8]⟩
    · by_cases h16 : bits.toNat ≤ 16
      · exact Or.inr (Or.inl ⟨by omega, h16, by simp [hle, h8, h16]⟩)
      · by_cases h32 : bits.toNat ≤ 32
        · exact Or.inr (Or.inr (Or.inl ⟨by omega, h32, by simp [hle, h8, h16, h32]⟩))
        · exact Or.inr (Or.inr (Or.inr ⟨by omega, by simp [hle, h8, h16, h32, h]⟩))
  have hmem (n : Nat) : n ∈ [8, 16, 32, 64] ↔ n = 8 ∨ n = 16 ∨ n = 32 ∨ n = 64 := by simp
  rcases hcases with ⟨hb, hsize⟩ | ⟨hb, hb', hsize⟩ | ⟨hb, hb', hsize⟩ | ⟨hb, hsize⟩
  all_goals
    rw [hsize]
    refine ⟨⟨by decide, by simpa using by omega⟩, fun size hs => ?_⟩
    have hs' := (hmem size).1 hs.1
    have hbits := hs.2
    simp only [UInt32.toNat_ofNat]
    omega

theorem entryLines_concat (entries : List BitfieldEntry) (last : BitfieldEntry) :
    entryLines (entries ++ [last]) = entries.map (entryLine · ",") ++ [entryLine last ""] := by
  induction entries with
  | nil => rfl
  | cons entry entries ih =>
    have hcons : entryLines (entry :: (entries ++ [last])) =
        entryLine entry "," :: entryLines (entries ++ [last]) := by
      cases entries with
      | nil => rfl
      | cons => rfl
    rw [List.cons_append, hcons, ih]
    rfl

/-! ## Histories -/

/-- What a run can be asked for. -/
inductive Op where
  | push (entry : BitfieldEntry)
  | close

/-- A run and the bit-fields that it has accepted since it was closed last. -/
structure History where
  run : BitfieldRun
  accepted : List BitfieldEntry := []

namespace History

/-- A bit-field counts as accepted when the run does not answer with an error. -/
def step (h : History) : Op → History
  | .push entry => ⟨(h.run.push entry).2,
      if (h.run.push entry).1.isOk then h.accepted ++ [entry] else h.accepted⟩
  | .close => ⟨h.run.close.2, []⟩

/-- What becomes of a new run. -/
def play (record : String) (ops : List Op) : History :=
  ops.foldl step ⟨{ record }, []⟩

/-- The run holds what it has accepted, and its count is exact. -/
structure Sound (record : String) (h : History) : Prop where
  run : h.run = ⟨record, h.accepted, h.run.accumulated⟩
  accumulated : h.run.accumulated.toNat = total h.accepted
  fits : total h.accepted ≤ 64

theorem Sound.step {record : String} {h : History} (hs : h.Sound record) (op : Op) :
    (h.step op).Sound record := by
  have hacc := hs.accumulated
  cases op with
  | push entry =>
    by_cases hle : h.run.accumulated.toNat + entry.width.toNat ≤ 64
    · have hpush : h.step (.push entry) = ⟨{ h.run with
          entries := h.run.entries ++ [entry]
          accumulated := h.run.accumulated + entry.width }, h.accepted ++ [entry]⟩ := by
        show (⟨(h.run.push entry).2, _⟩ : History) = _
        rw [push_eq, if_pos hle]
        rfl
      have htotal : total (h.accepted ++ [entry]) =
          h.run.accumulated.toNat + entry.width.toNat := by
        rw [total_append, total_singleton, hacc]
      have hsum : (h.run.accumulated + entry.width).toNat =
          h.run.accumulated.toNat + entry.width.toNat :=
        (checkedAdd_of_lt (Nat.lt_of_le_of_lt hle (by decide))).2
      rw [hpush]
      refine ⟨?_, hsum.trans htotal.symm, htotal ▸ hle⟩
      rw [hs.run]
    · have hpush : h.step (.push entry) = h := by
        show (⟨(h.run.push entry).2, _⟩ : History) = _
        rw [push_eq, if_neg hle]
        rfl
      rw [hpush]
      exact hs
  | close =>
    have hclose : (h.step .close).run = { record } := by
      show h.run.close.2 = _
      unfold close
      by_cases hopen : h.run.isOpen = true
      · rw [if_pos hopen, hs.run]
      · have hnil : h.accepted = [] := by
          have hentries : h.run.entries = h.accepted := congrArg entries hs.run
          unfold isOpen at hopen
          rw [hentries] at hopen
          simpa using hopen
        have hzero : h.run.accumulated = 0 := by
          rw [hnil] at hacc
          exact UInt32.toNat_inj.1 hacc
        rw [if_neg hopen, hs.run, hnil, hzero]
    have haccepted : (h.step .close).accepted = [] := rfl
    refine ⟨?_, ?_, ?_⟩
    · rw [hclose, haccepted]
    · rw [hclose, haccepted]
      rfl
    · rw [haccepted]
      exact Nat.zero_le 64

theorem sound_play (record : String) (ops : List Op) :
    (play record ops).Sound record := by
  have hrun (h : History) (hs : h.Sound record) : (ops.foldl step h).Sound record := by
    induction ops generalizing h with
    | nil => exact hs
    | cons op ops ih => exact ih (h.step op) (hs.step op)
  exact hrun _ ⟨rfl, rfl, Nat.zero_le 64⟩

end History

/-- What a run says of the bit-fields that it has accepted since it was closed last. -/
structure Packs (record : String) (accepted : List BitfieldEntry) (run : BitfieldRun) : Prop where
  accumulated : run.accumulated.toNat = total accepted
  fits : total accepted ≤ 64
  isOpen : run.isOpen = true ↔ accepted ≠ []
  /-- the padding is a difference that is not below zero -/
  padding : run.accumulated ≤ groupSize run.accumulated
  push_ok : ∀ entry, (run.push entry).1 = .ok () ↔ total accepted + entry.width.toNat ≤ 64
  push_error : ∀ entry, 64 < total accepted + entry.width.toNat →
    run.push entry = (.error (.bitfieldOverflow record
      (.ofNat (min (total accepted + entry.width.toNat) (UInt32.size - 1)))), run)
  /-- a run that is not open stays as it is, which is as new -/
  close_nil : accepted = [] → run.close = (none, run) ∧ run = { record }
  /-- the group has a line for each bit-field, and one for the padding behind them -/
  close_group : accepted ≠ [] → ∃ width : UInt32,
    run.close = (some (["mixin(bitfields!("] ++
      accepted.map (fun entry => "    " ++ entry.ty ++ ", \"" ++ entry.name ++ "\", " ++
        toString entry.width.toNat ++ ",") ++
      ["    uint, \"\", " ++ toString width.toNat, "));"]), { record }) ∧
    IsLeast {size | size ∈ [8, 16, 32, 64] ∧ total accepted ≤ size}
      (total accepted + width.toNat)

/-- However it has been used, a run counts exactly what it has accepted since it was closed last,
refuses what would take it beyond 64 bits and nothing else, and closes with the lines of these
bit-fields in the order in which they came, padded to the least size that holds them. -/
theorem history_packs (record : String) (ops : List Op) :
    Packs record (History.play record ops).accepted (History.play record ops).run := by
  obtain ⟨hrun, hacc, hfits⟩ := History.sound_play record ops
  generalize (History.play record ops).run = run at hrun hacc
  generalize (History.play record ops).accepted = accepted at hrun hacc hfits
  have hleast := @isLeast_groupSize run.accumulated (by omega)
  have hle : run.accumulated ≤ groupSize run.accumulated :=
    UInt32.le_iff_toNat_le.2 hleast.1.2
  have hrecord : run.record = record := congrArg (·.record) hrun
  have hentries : run.entries = accepted := congrArg (·.entries) hrun
  have hopen : run.isOpen = true ↔ accepted ≠ [] := by
    unfold BitfieldRun.isOpen
    rw [hentries]
    simp
  refine ⟨hacc, hfits, hopen, hle, fun entry => ?_, fun entry h => ?_, fun h => ?_, fun h => ?_⟩
  · rw [push_eq, hacc]
    by_cases hsum : total accepted + entry.width.toNat ≤ 64
    · simp [hsum]
    · simp [hsum]
  · rw [push_eq, hacc, if_neg (by omega), hrecord]
  · have hzero : run.accumulated = 0 := by
      rw [h] at hacc
      exact UInt32.toNat_inj.1 hacc
    refine ⟨if_neg fun ho => hopen.1 ho h, ?_⟩
    rw [hrun, h, hzero]
  · have hpadding : total accepted + run.padding.toNat = (groupSize run.accumulated).toNat := by
      have hsub : run.padding.toNat = (groupSize run.accumulated).toNat - run.accumulated.toNat :=
        UInt32.toNat_sub_of_le _ _ hle
      have := UInt32.le_iff_toNat_le.1 hle
      omega
    refine ⟨run.padding, ?_, ?_⟩
    · have hlast : entryLine ⟨"uint", "", run.padding⟩ "" =
          "    uint, \"\", " ++ toString run.padding.toNat := String.append_empty
      unfold BitfieldRun.close
      rw [if_pos (hopen.2 h), group, hentries, hrecord, groupLines, entryLines_concat, hlast,
        List.append_assoc, List.append_assoc]
      rfl
    · rw [hpadding, ← hacc]
      exact hleast

/-- A bit-field that does not fit behind two others is not in their group. -/
theorem history_packs_flags :
    let calls : List Op :=
      [.push ⟨"uint", "a", 3⟩, .push ⟨"ulong", "b", 0⟩, .push ⟨"uint", "c", 4294967295⟩]
    let flags := History.play "Flags" calls
    flags.run.push ⟨"uint", "d", 62⟩ = (.error (.bitfieldOverflow "Flags" 65), flags.run) ∧
    flags.run.close = (some ["mixin(bitfields!(", "    uint, \"a\", 3,", "    ulong, \"b\", 0,",
      "    uint, \"\", 5", "));"], { record := "Flags" }) ∧
    (History.play "Flags" (calls ++ [.close])).run.close = (none, { record := "Flags" }) ∧
    Packs "Flags" [⟨"uint", "a", 3⟩, ⟨"ulong", "b", 0⟩] flags.run := by
  intro calls flags
  have haccepted : flags.accepted = [⟨"uint", "a", 3⟩, ⟨"ulong", "b", 0⟩] := by decide +kernel
  refine ⟨by rfl, by decide +kernel, by decide +kernel, ?_⟩
  rw [← haccepted]
  exact history_packs "Flags" calls

end BitfieldRun
end DBindings
