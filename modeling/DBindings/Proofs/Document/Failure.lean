import DBindings.Proofs.Document.Events
import DBindings.Proofs.Document.Placements

/-!
# When a unit cannot be written

A unit is written unless a run of bit-fields is too wide, and the error tells of such a run.  The
other way round, a record of a file or namespace that is too wide is met on the way, unless it is
left out: it has been registered when the run is over, so there is an entry for it, and the fields
of a record with an entry fit.

* `TranslationUnit.emit_overflows`   when there is an error, and which.
-/

namespace DBindings

namespace TranslationUnit
open DBindings.Field (IsRun ExceedsAt)

/-- A unit whose runs of bit-fields all fit is written.  An error names a complete record outside
templates, and the sum of the shortest part of one of its runs that is too wide, as far as 32 bits
go.  If all files are accepted, a complete record of a file or namespace, outside templates, with a
run that is too wide is an error. -/
theorem emit_overflows (unit : TranslationUnit) (options : EmitOptions)
    (hids : (unit.walk.map Decl.id).Nodup) :
    ((∀ r : RecordDecl, r.toDecl ∈ unit.walk → Field.Fit r.info.fields) →
      ∃ text, unit.emit options = .ok text) ∧
    (∀ record accumulated,
      unit.emit options = .error (.bitfieldOverflow record accumulated) →
      ∃ r : RecordDecl, r.toDecl ∈ unit.walk ∧ r.info.complete = true ∧
        r.info.dependent = false ∧ (NameTable.assign unit).declName r.head = record ∧
        ∃ run sum, IsRun r.info.fields run ∧ ExceedsAt run sum ∧
          accumulated.toNat = min sum (UInt32.size - 1)) ∧
    ((∀ file, options.filter.isRelevant file = true) →
      ∀ r : RecordDecl, r.toDecl ∈ unit.outer → r.info.complete = true →
        r.info.dependent = false → (∃ run, IsRun r.info.fields run ∧ 64 < Field.bits run) →
        ∃ e, unit.emit options = .error e) := by
  rcases unit.emit_cases options with ⟨_, -, hemit⟩ | ⟨e, s, hwrite, hemit⟩
  · -- the unit is written, so a record that is registered has fields that fit
    obtain ⟨s', entries, -, -, hunit⟩ := consists_of_emit hemit
    refine ⟨fun _ => ⟨_, hemit⟩, fun record accumulated herr => ?_,
      fun haccepts r houter hcomplete hindependent ⟨run, hrun, hwide⟩ => ?_⟩
    · rw [hemit] at herr
      exact nomatch herr
    · have hregistered : r.head.id ∈ s'.registered := by
        refine (hunit.settled _ (enterRecord_mem houter)).1 r.toDecl rfl ?_ (haccepts _)
        exact hindependent
      rw [hunit.registered, List.mem_reverse] at hregistered
      obtain ⟨p, hp, rfl⟩ :=
        (Entry.registered_iff_placed rfl hids hunit.fits (mem_walk_of_outer houter)).1 hregistered
      have hfit := (Entry.sound_module hunit.fits hp).admitted.fit hcomplete run hrun
      omega
  · -- the error is that of a run
    obtain ⟨r, hr, hcomplete, hindependent, run, sum, hrun, hexceeds, rfl⟩ :=
      (unit.gives_drive options (.start options)).error hwrite
    refine ⟨fun hfit => ?_, fun record accumulated herr => ?_, fun _ _ _ _ _ _ => ⟨_, hemit⟩⟩
    · have := hfit r hr run hrun
      have := hexceeds.le_bits
      omega
    · rw [hemit] at herr
      obtain ⟨rfl, rfl⟩ := EmitError.bitfieldOverflow.inj (Except.error.inj herr)
      refine ⟨r, hr, hcomplete, hindependent, rfl, run, sum, hrun, hexceeds, ?_⟩
      have hlt : min sum (UInt32.size - 1) < UInt32.size :=
        Nat.lt_of_le_of_lt (Nat.min_le_right _ _) (by decide)
      exact UInt32.toNat_ofNat_of_lt' hlt

end TranslationUnit

/-- A struct with bit-fields of 40, 30 and 8 bits in a row. -/
def wideRecord : RecordDecl :=
  ⟨{ id := 1, name := some "Wide" }, { tag := .struct, fields := [
    { name := some "low", ty := .int, bitWidth := some 40 },
    { name := some "high", ty := .int, bitWidth := some 30 },
    { name := some "flags", ty := .int, bitWidth := some 8 }] }, [], []⟩

def wideUnit : TranslationUnit := ⟨[⟨"wide.h", [wideRecord.toDecl]⟩]⟩

open DBindings.Field in
/-- The error tells of the 70 bits of the first two. -/
theorem wideUnit_overflows : (∃ e, wideUnit.emit {} = .error e) ∧
    ∃ r : RecordDecl, r.toDecl ∈ wideUnit.walk ∧ r.info.complete = true ∧
      r.info.dependent = false ∧ (NameTable.assign wideUnit).declName r.head = "Wide" ∧
      ∃ run sum, IsRun r.info.fields run ∧ ExceedsAt run sum ∧
        (70 : UInt32).toNat = min sum (UInt32.size - 1) := by
  obtain ⟨-, herror, hwide⟩ := TranslationUnit.emit_overflows wideUnit {} (by decide)
  refine ⟨hwide (fun _ => rfl) wideRecord List.mem_cons_self rfl rfl
    ⟨wideRecord.info.fields, ?_, ?_⟩, herror "Wide" 70 (by rfl)⟩
  · exact ⟨by simp [wideRecord], by decide, [], [], by simp, by simp, by simp⟩
  · decide

end DBindings
