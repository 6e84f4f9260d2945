import DBindings.Proofs.Document.Records
import Mathlib.Data.List.Chain

/-!
# The segments of a record

The fields of a record are written in their order.  A field that is no bit-field has a line, and the
bit-fields between two such fields have one group, which is closed in front of the next field or at
the end of the fields.

* `Field.Segmentation`             fields divided into single ones and longest runs of bit-fields;
* `BitfieldRun.Holds`              a run and the bit-fields that wait in it;
* `RecordDecl.emitFields_eq_block` what is written, when some bit-fields wait;
* `RecordDecl.emitInside_segments` the lines of the fields between the members and the methods.
-/

namespace DBindings

/-- One field that is no bit-field, or consecutive bit-fields; each field with its position. -/
inductive Segment where
  | single (field : Field) (position : Nat)
  | run (fields : List (Field × Nat))

namespace Segment

def fields : Segment → List (Field × Nat)
  | single field position => [(field, position)]
  | run fs => fs

def isRun : Segment → Bool
  | single _ _ => false
  | run _ => true

/-- The field is no bit-field, or all are bit-fields, and there are some. -/
def IsPure : Segment → Prop
  | single field _ => field.bitWidth = none
  | run fs => fs ≠ [] ∧ ∀ f ∈ fs, f.1.bitWidth.isSome = true

end Segment

/-- Fields divided into segments: each field is in one of them, in order, and no two runs of
bit-fields are next to each other. -/
structure Field.Segmentation (fields : List (Field × Nat)) (segments : List Segment) : Prop where
  covers : segments.flatMap Segment.fields = fields
  isPure : ∀ segment ∈ segments, segment.IsPure
  longest : segments.IsChain fun a b => ¬ (a.isRun = true ∧ b.isRun = true)

namespace Field

/-- A bit-field as it is written in its group. -/
def bitfield? (env : EmitEnv) (field : Field) : Option BitfieldEntry :=
  field.bitWidth.map fun width =>
    ⟨env.render field.ty, (RecordDecl.givenName? field).getD "", width⟩

def entries (env : EmitEnv) (fields : List (Field × Nat)) : List BitfieldEntry :=
  fields.filterMap fun f => f.1.bitfield? env

theorem entries_append (env : EmitEnv) (a b : List (Field × Nat)) :
    entries env (a ++ b) = entries env a ++ entries env b := List.filterMap_append

end Field

namespace BitfieldRun

/-- The entries of a group with the padding behind them. -/
def padded (entries : List BitfieldEntry) : List BitfieldEntry :=
  let bits := UInt32.ofNat (total entries)
  entries ++ [⟨"uint", "", groupSize bits - bits⟩]

end BitfieldRun

namespace Segment
open BitfieldRun (groupLines padded)

/-- The bit-fields in the group of a segment. -/
def entries (env : EmitEnv) : Segment → List BitfieldEntry
  | single _ _ => []
  | run fs => Field.entries env fs

def lines (env : EmitEnv) (r : RecordDecl) : Segment → List String
  | single field position => [(r.fieldLine env position field).text]
  | run fs => groupLines (padded (Field.entries env fs))

def block (env : EmitEnv) (r : RecordDecl) (segments : List Segment) : Block where
  lines := segments.flatMap (lines env r)
  requests := segments.flatMap fun
    | single field position => (r.fieldLine env position field).requests
    | run _ => []

theorem block_append (env : EmitEnv) (r : RecordDecl) (a b : List Segment) :
    block env r (a ++ b) = block env r a ++ block env r b := by
  unfold block
  rw [List.flatMap_append, List.flatMap_append]
  rfl

end Segment

namespace EmitState

theorem raise_append (s : EmitState) (a b : List Request) :
    s.raise (a ++ b) = (s.raise a).raise b := by
  unfold raise
  cases s.ignoring <;> simp [FeedbackQueue.pushAll, List.append_assoc]

theorem raise_nil (s : EmitState) : s.raise [] = s := by
  obtain ⟨_, _, _, _, raised, queue, ignoring, _, _⟩ := s
  unfold raise
  cases ignoring <;> simp [FeedbackQueue.pushAll]

theorem write_append (s : EmitState) (a b : List Stroke) :
    s.write (a ++ b) = (s.write a).write b := by
  unfold write
  simp [Array.append_assoc]

end EmitState

namespace Emit

theorem exec_block (b : Block) (s : EmitState) :
    (block b).exec s = (.ok (), (s.raise b.requests).write (b.lines.map .line)) := rfl

theorem block_bind (a b : Block) : (do block a; block b) = block (a ++ b) := by
  funext s
  show (Except.ok PUnit.unit, (((s.raise a.requests).write (a.lines.map .line)).raise
      b.requests).write (b.lines.map .line)) =
    (Except.ok PUnit.unit, (s.raise (a.requests ++ b.requests)).write
      ((a.lines ++ b.lines).map .line))
  rw [List.map_append, EmitState.write_append, EmitState.raise_append]
  rfl

theorem lines_eq_block (texts : List String) : lines texts = block ⟨texts, []⟩ := by
  funext s
  show (Except.ok PUnit.unit, s.write _) = (Except.ok PUnit.unit, (s.raise []).write _)
  rw [s.raise_nil]

end Emit

namespace BitfieldRun
variable {env : EmitEnv} {run : BitfieldRun} {waiting : List (Field × Nat)}

/-- A run holds the bit-fields that wait to be written. -/
structure Holds (env : EmitEnv) (run : BitfieldRun) (waiting : List (Field × Nat)) : Prop where
  areBits : ∀ f ∈ waiting, f.1.bitWidth.isSome = true
  entries : run.entries = Field.entries env waiting
  accumulated : run.accumulated.toNat = total run.entries
  fits : total run.entries ≤ 64

theorem Holds.new (env : EmitEnv) (record : String) : Holds env { record } [] :=
  ⟨fun _ hf => absurd hf List.not_mem_nil, rfl, rfl, Nat.zero_le 64⟩

theorem Holds.push (h : run.Holds env waiting) {field : Field} {width : UInt32} (position : Nat)
    (hwidth : field.bitWidth = some width) (hle : run.accumulated.toNat + width.toNat ≤ 64) :
    ∃ pushed, run.push ⟨env.render field.ty, (RecordDecl.givenName? field).getD "", width⟩ =
        (.ok (), pushed) ∧ pushed.Holds env (waiting ++ [(field, position)]) ∧
      pushed.accumulated.toNat = run.accumulated.toNat + width.toNat := by
  have hsum := (checkedAdd_of_lt (Nat.lt_of_le_of_lt hle (by decide))).2
  have hentry : Field.entries env [(field, position)] =
      [⟨env.render field.ty, (RecordDecl.givenName? field).getD "", width⟩] := by
    simp [Field.entries, Field.bitfield?, hwidth]
  have htotal := total_append run.entries (Field.entries env [(field, position)])
  rw [hentry, total_singleton, ← h.accumulated] at htotal
  refine ⟨_, (push_eq run _).trans (if_pos hle), ⟨fun f hf => ?_, ?_, ?_, ?_⟩, hsum⟩
  · rcases List.mem_append.1 hf with hf | hf
    · exact h.areBits f hf
    · rw [List.mem_singleton.1 hf, hwidth]
      rfl
  · rw [Field.entries_append, ← h.entries, hentry]
  · exact hsum.trans htotal.symm
  · exact htotal ▸ hle

/-- The segments of bit-fields that wait: one if there are any. -/
def flushed (waiting : List (Field × Nat)) : List Segment :=
  if waiting.isEmpty then [] else [.run waiting]

/-- A run that is closed writes the bit-fields that wait, and none wait any more. -/
theorem Holds.close (h : run.Holds env waiting) (r : RecordDecl) :
    Emit.lines (run.close.1.getD []) = Emit.block (Segment.block env r (flushed waiting)) ∧
      run.close.2.Holds env [] ∧ run.close.2.accumulated = 0 := by
  have hnothing : ∀ f ∈ ([] : List (Field × Nat)), f.1.bitWidth.isSome = true :=
    fun _ hf => absurd hf List.not_mem_nil
  cases waiting with
  | nil =>
    have hnil : run.entries = [] := h.entries
    have hclose : run.close = (none, run) := if_neg (by simp [isOpen, hnil])
    have hzero := h.accumulated
    rw [hnil] at hzero
    rw [hclose]
    exact ⟨Emit.lines_eq_block [], h, UInt32.toNat_inj.1 hzero⟩
  | cons f rest =>
    obtain ⟨width, hwidth⟩ := Option.isSome_iff_exists.1 (h.areBits f List.mem_cons_self)
    have hopen : run.isOpen = true := by
      simp [isOpen, h.entries, Field.entries, Field.bitfield?, hwidth]
    have hclose : run.close =
      (some (groupLines run.group), { run with entries := [], accumulated := 0 }) := if_pos hopen
    have hgroup : run.group = padded (Field.entries env (f :: rest)) := by
      unfold group padding padded
      rw [← h.entries, ← h.accumulated, UInt32.ofNat_toNat]
    have hblock : Segment.block env r [.run (f :: rest)] =
        ⟨groupLines (padded (Field.entries env (f :: rest))), []⟩ :=
      congrArg (Block.mk · []) (List.append_nil _)
    rw [hclose, Option.getD_some, hgroup, Emit.lines_eq_block, ← hblock]
    exact ⟨rfl, ⟨hnothing, rfl, rfl, Nat.zero_le 64⟩, rfl⟩

end BitfieldRun

namespace Field
variable {waiting fields : List (Field × Nat)} {segments : List Segment}

theorem segmentation_flushed (h : ∀ f ∈ waiting, f.1.bitWidth.isSome = true) :
    Segmentation waiting (BitfieldRun.flushed waiting) := by
  cases waiting with
  | nil => exact ⟨rfl, fun _ hs => absurd hs List.not_mem_nil, .nil⟩
  | cons f rest =>
    refine ⟨List.append_nil _, fun segment hs => ?_, .singleton _⟩
    rw [List.mem_singleton.1 hs]
    exact ⟨List.cons_ne_nil _ _, h⟩

/-- A field that is no bit-field stands between the bit-fields in front of it and what follows. -/
theorem Segmentation.behind (h : Segmentation fields segments)
    (hwaiting : ∀ f ∈ waiting, f.1.bitWidth.isSome = true) {field : Field} (position : Nat)
    (hfield : field.bitWidth = none) :
    Segmentation (waiting ++ (field, position) :: fields)
      (BitfieldRun.flushed waiting ++ .single field position :: segments) := by
  have hfront := segmentation_flushed hwaiting
  refine ⟨?_, ?_, ?_⟩
  · rw [List.flatMap_append, hfront.covers, List.flatMap_cons, h.covers]
    rfl
  · exact List.forall_mem_append.2 ⟨hfront.isPure, List.forall_mem_cons.2 ⟨hfield, h.isPure⟩⟩
  · have hsingle : (Segment.single field position :: segments).IsChain
        fun a b => ¬ (a.isRun = true ∧ b.isRun = true) :=
      List.isChain_cons.2 ⟨fun _ _ hboth => (nomatch hboth.1), h.longest⟩
    cases waiting with
    | nil => exact hsingle
    | cons f rest => exact .cons_cons (fun hboth => nomatch hboth.2) hsingle

theorem Segmentation.entries_groups {fields : List Field}
    (h : Segmentation fields.zipIdx segments) (env : EmitEnv) :
    segments.flatMap (Segment.entries env) = fields.filterMap (bitfield? env) := by
  have hsegment : ∀ segment ∈ segments, segment.entries env = entries env segment.fields := by
    intro segment hs
    cases segment with
    | single field position =>
      have hnone : field.bitWidth = none := h.isPure _ hs
      simp [Segment.fields, Segment.entries, entries, bitfield?, hnone]
    | run fs => rfl
  calc segments.flatMap (Segment.entries env)
      = segments.flatMap fun segment => entries env segment.fields := List.flatMap_congr hsegment
    _ = entries env fields.zipIdx := by
        rw [← h.covers]
        exact List.filterMap_flatMap.symm
    _ = (fields.zipIdx.map Prod.fst).filterMap (bitfield? env) := by
        rw [List.filterMap_map]
        rfl
    _ = fields.filterMap (bitfield? env) := by rw [List.zipIdx_map_fst]

end Field

namespace RecordDecl
variable {env : EmitEnv}

/-- The fields from a position on, when some bit-fields wait. -/
theorem emitFields_eq_block (r : RecordDecl) {run : BitfieldRun} {waiting : List (Field × Nat)}
    (hrun : run.Holds env waiting) (position : Nat) (fields : List Field)
    (hfit : Field.overflow? run.accumulated.toNat fields = none) :
    ∃ segments, Field.Segmentation (waiting ++ fields.zipIdx position) segments ∧
      emitFields env r run position fields = Emit.block (Segment.block env r segments) := by
  induction fields generalizing run waiting position with
  | nil =>
    refine ⟨BitfieldRun.flushed waiting, ?_, ?_⟩
    · rw [List.zipIdx_nil, List.append_nil]
      exact Field.segmentation_flushed hrun.areBits
    · rw [← (hrun.close r).1]
      rfl
  | cons field rest ih =>
    rw [List.zipIdx_cons]
    unfold Field.overflow? at hfit
    unfold emitFields
    cases hwidth : field.bitWidth with
    | some width =>
      rw [hwidth] at hfit
      dsimp only at hfit ⊢
      have hle : run.accumulated.toNat + width.toNat ≤ 64 := by
        by_contra hover
        rw [if_neg hover] at hfit
        exact Option.some_ne_none _ hfit
      obtain ⟨pushed, hpush, hpushed, hsum⟩ := hrun.push position hwidth hle
      rw [if_pos hle, ← hsum] at hfit
      rw [hpush]
      have hrest := ih hpushed (position + 1) hfit
      rw [List.append_assoc] at hrest
      exact hrest
    | none =>
      rw [hwidth] at hfit
      dsimp only at hfit ⊢
      obtain ⟨hlines, hclosed, hzero⟩ := hrun.close r
      obtain ⟨segments, hsegments, hrest⟩ := ih hclosed (position + 1) (by rw [hzero]; exact hfit)
      refine ⟨_, hsegments.behind hrun.areBits position hwidth, ?_⟩
      have hfield : Emit.printed (fieldLine env r position field) >>= Emit.line =
          Emit.block (Segment.block env r [.single field position]) := by
        unfold Segment.block
        rw [List.flatMap_singleton, List.flatMap_singleton]
        rfl
      calc (do
            let run ← closeRun run
            Emit.line (← Emit.printed (fieldLine env r position field))
            emitFields env r run (position + 1) rest)
          = (do
            Emit.lines (run.close.1.getD [])
            Emit.printed (fieldLine env r position field) >>= Emit.line
            emitFields env r run.close.2 (position + 1) rest) := rfl
        _ = _ := by
          rw [hlines, hfield, hrest, Emit.block_bind, Emit.block_bind, ← Segment.block_append,
            ← Segment.block_append]
          rfl

/-- If all runs of bit-fields fit, the fields of a record are written segment by segment: a line for
each field that is no bit-field, and a group for each longest run of bit-fields.  The groups have
the bit-fields of the record, and the last one is closed in front of the methods. -/
theorem emitInside_segments (env : EmitEnv) (r : RecordDecl) (hfit : Field.Fit r.info.fields) :
    ∃ segments, Field.Segmentation r.info.fields.zipIdx segments ∧
      segments.flatMap (Segment.entries env) = r.info.fields.filterMap (Field.bitfield? env) ∧
      (∀ s, (emitFields env r { record := env.names.declName r.head } 0 r.info.fields).exec s =
        (.ok (), (s.raise (Segment.block env r segments).requests).write
          ((segments.flatMap (Segment.lines env r)).map .line))) ∧
      ∀ nested polymorphic, emitInside env nested r polymorphic = (do
        Emit.lines (baseLines env r polymorphic)
        r.members.forM (emitMember env nested r polymorphic)
        Emit.block (Segment.block env r segments)
        r.methods.forM (emitMethod env r polymorphic)) := by
  have hnew := BitfieldRun.Holds.new env (env.names.declName r.head)
  obtain ⟨segments, hsegments, hfields⟩ :=
    r.emitFields_eq_block hnew 0 r.info.fields (Field.overflow?_eq_none_iff.2 hfit)
  refine ⟨segments, hsegments, hsegments.entries_groups env, fun s => ?_,
    fun nested polymorphic => ?_⟩
  · rw [hfields, Emit.exec_block]
    rfl
  · unfold emitInside
    rw [hfields]

/-- A field between two runs: the first group is closed in front of it, the second one behind the
last field. -/
theorem emitInside_segments_flags :
    let env := EmitEnv.ofUnit { files := [] } {} .strings
    let bit (name : String) (width : UInt32) : Field :=
      { name := some name, ty := .builtin .uInt, bitWidth := some width }
    let level : Field := { name := some "level", ty := .builtin .int, sizeBits := some 32 }
    let flags : RecordDecl := ⟨{ id := 1, name := some "Flags" },
      { tag := .struct, fields := [bit "ready" 1, bit "width" 4, level, bit "debug" 9] }, [], []⟩
    Field.Fit flags.info.fields ∧
    ((emitFields env flags { record := "Flags" } 0 flags.info.fields).exec {}).2.script.toList =
      ["mixin(bitfields!(", "    uint, \"ready\", 1,", "    uint, \"width\", 4,",
        "    uint, \"\", 3", "));", "@cppsize(4) public int level;",
        "mixin(bitfields!(", "    uint, \"debug_\", 9,", "    uint, \"\", 7", "));"].map .line ∧
    ∃ segments, Field.Segmentation flags.info.fields.zipIdx segments ∧
      segments.flatMap (Segment.entries env) =
        [⟨"uint", "ready", 1⟩, ⟨"uint", "width", 4⟩, ⟨"uint", "debug_", 9⟩] := by
  intro env bit level flags
  have hfit : Field.Fit flags.info.fields := Field.overflow?_eq_none_iff.1 (by decide +kernel)
  obtain ⟨segments, hsegments, hentries, -⟩ := emitInside_segments env flags hfit
  exact ⟨hfit, by decide +kernel, segments, hsegments, hentries.trans (by decide +kernel)⟩

end RecordDecl

end DBindings
