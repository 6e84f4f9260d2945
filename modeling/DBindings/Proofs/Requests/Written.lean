import DBindings.Proofs.Run.Lawful

/-!
# The text that acts add

While acts are played a struct gets the mixin if a request waits for it when it is closed.  Where
each record is closed is written down, so that lines can be put in there later.

* `settle_eq`             what handing out the requests to a record does;
* `Act.Written`           text, places and mixins that are added between two states;
* `Act.written_playAll`   lawful acts add the text of their pieces.
-/

namespace DBindings
open Stroke Piece

namespace EmitState

/-- The record has the mixin already. -/
def hasMixin (s : EmitState) (record : DeclId) : Bool := s.withMixin.contains record

def awaits (s : EmitState) (record : DeclId) : Bool := s.queue.pending.any (·.record == record)

theorem hasMixin_iff {s : EmitState} {record : DeclId} :
    s.hasMixin record = true ↔ record ∈ s.withMixin := List.contains_iff_mem

theorem awaits_iff {s : EmitState} {record : DeclId} :
    s.awaits record = true ↔ ∃ r ∈ s.queue.pending, r.record = record := by
  unfold awaits
  rw [List.any_eq_true]
  simp only [beq_iff_eq]

theorem writer_write (s : EmitState) (ss : List Stroke) :
    (s.write ss).writer =
      ⟨s.writer.text ++ codeAll s.writer.level ss, levelAll s.writer.level ss⟩ := by
  have hscript : (s.script ++ ss.toArray).toList = s.script.toList ++ ss := by simp
  show CodeWriter.run {} (s.script ++ ss.toArray).toList = _
  rw [hscript, CodeWriter.run_append, CodeWriter.run_eq]
  rfl

/-! ## Handing out the requests to a record -/

theorem ignoring_settle (s : EmitState) (record : DeclId) (isStruct : Bool) :
    (s.settle record isStruct).ignoring = s.ignoring := by
  unfold settle
  dsimp only
  split <;> rfl

theorem closed_settle (s : EmitState) (record : DeclId) (isStruct : Bool) :
    (s.settle record isStruct).closed = s.closed := by
  unfold settle
  dsimp only
  split <;> rfl

theorem pending_settle (s : EmitState) (record : DeclId) (isStruct : Bool) :
    (s.settle record isStruct).queue.pending
      = s.queue.pending.filter (·.record != record) := by
  unfold settle
  dsimp only
  split <;> rfl

/-- A struct without the mixin gets it when a request waits. -/
theorem settle_eq (s : EmitState) (record : DeclId) (isStruct : Bool)
    (h : record ∉ s.withMixin) :
    s.settle record isStruct =
      if isStruct && s.awaits record then
        { s.write [.line mixinLine] with
          queue := (s.queue.takeFor record).2
          withMixin := record :: s.withMixin }
      else { s with queue := (s.queue.takeFor record).2 } := by
  have hmixin : s.withMixin.contains record = false := by simpa using h
  have hawaits : (!(s.queue.takeFor record).1.isEmpty) = s.awaits record := by
    rw [Bool.eq_iff_iff, awaits_iff]
    show (!(s.queue.pending.filter (·.record == record)).isEmpty) = true ↔ _
    simp [List.filter_eq_nil_iff]
  unfold settle
  dsimp only
  rw [hawaits, hmixin, Bool.not_false, Bool.and_true, Bool.and_comm]
  rfl

theorem hasMixin_settle (s : EmitState) (record : DeclId) (isStruct : Bool)
    (h : record ∉ s.withMixin) :
    (isStruct && (s.settle record isStruct).hasMixin record) = (isStruct && s.awaits record) := by
  have hmixin : s.hasMixin record = false := by
    rw [← Bool.not_eq_true, hasMixin_iff]
    exact h
  rw [settle_eq s record isStruct h]
  cases isStruct with
  | false => rfl
  | true =>
    cases ha : s.awaits record with
    | false => exact hmixin
    | true =>
      show (record :: s.withMixin).contains record = true
      simp

theorem mem_withMixin_settle {s : EmitState} {record id : DeclId} {isStruct : Bool} :
    id ∈ (s.settle record isStruct).withMixin ↔
      id ∈ s.withMixin ∨ id = record ∧ isStruct = true ∧ s.awaits record = true := by
  by_cases h : record ∈ s.withMixin
  · have hsame : (s.settle record isStruct).withMixin = s.withMixin := by
      unfold settle
      dsimp only
      rw [List.contains_iff_mem.2 h, Bool.not_true, Bool.and_false]
      rfl
    rw [hsame]
    exact ⟨Or.inl, fun hor => hor.elim (fun h => h) fun hand => hand.1 ▸ h⟩
  · rw [settle_eq s record isStruct h]
    cases isStruct with
    | false => simp
    | true => cases ha : s.awaits record <;> simp [or_comm]

theorem writer_settle (s : EmitState) (record : DeclId) (isStruct : Bool)
    (h : record ∉ s.withMixin) :
    (s.settle record isStruct).writer =
      ⟨s.writer.text ++ mixinCode (isStruct && (s.settle record isStruct).hasMixin record)
        s.writer.level, s.writer.level⟩ := by
  rw [hasMixin_settle s record isStruct h, settle_eq s record isStruct h]
  cases isStruct && s.awaits record with
  | false => exact congrArg (CodeWriter.mk · _) String.append_empty.symm
  | true =>
    show (s.write [.line mixinLine]).writer = _
    rw [writer_write]
    show CodeWriter.mk (s.writer.text ++ (lineCode s.writer.level mixinLine ++ "")) _ = _
    rw [String.append_empty]
    rfl

end EmitState

namespace Act
open EmitState

/-! ## The text that acts add -/

/-- Between two states the text of pieces has been added, with the mixins that the later state
knows of. -/
structure Written (s s' : EmitState) (ps : List Piece) : Prop where
  writer : s'.writer =
    ⟨s.writer.text ++ renderAll s'.hasMixin s.writer.level ps, s.writer.level⟩
  closed : s'.closed = (placesAll s'.hasMixin s.writer.level s.writer.offset ps).reverse ++ s.closed
  kept : ∀ id ∈ s.withMixin, id ∈ s'.withMixin
  new : ∀ id ∈ s'.withMixin, id ∈ s.withMixin ∨ id ∈ records ps

namespace Written
variable {s s' s'' : EmitState}

theorem silent (hscript : s'.script = s.script) (hclosed : s'.closed = s.closed)
    (hmixin : s'.withMixin = s.withMixin) : Written s s' [] := by
  refine ⟨?_, hclosed, fun _ h => hmixin ▸ h, fun _ h => Or.inl (hmixin ▸ h)⟩
  show CodeWriter.run {} s'.script.toList = _
  rw [hscript]
  exact congrArg (CodeWriter.mk · _) String.append_empty.symm

theorem write {ss : List Stroke} (h : Balanced ss) : Written s (s.write ss) [.plain ss] := by
  refine ⟨?_, rfl, fun _ h => h, fun _ h => Or.inl h⟩
  show _ = CodeWriter.mk (s.writer.text ++ (codeAll s.writer.level ss ++ "")) s.writer.level
  rw [writer_write, h, String.append_empty]

theorem print (b : Block) : Written s (s.print b) [.code b] := by
  refine ⟨?_, rfl, fun _ h => h, fun _ h => Or.inl h⟩
  show ((s.raise b.requests).write (b.lines.map .line)).writer =
    CodeWriter.mk (s.writer.text ++ (codeAll s.writer.level (b.lines.map .line) ++ ""))
      s.writer.level
  rw [writer_write, balanced_lines, String.append_empty]
  rfl

theorem trans {ps qs : List Piece} (h : Written s s' ps) (h' : Written s' s'' qs)
    (hfresh : ∀ id ∈ records ps, id ∉ s.withMixin ∧ id ∉ records qs) :
    Written s s'' (ps ++ qs) := by
  have hsame : ∀ id, (id, true) ∈ bodiesAll ps → s'.hasMixin id = s''.hasMixin id := by
    intro id hid
    have hrec : id ∈ records ps := List.mem_map.2 ⟨(id, true), hid, rfl⟩
    rw [Bool.eq_iff_iff, hasMixin_iff, hasMixin_iff]
    refine ⟨h'.kept id, fun hmem => ?_⟩
    rcases h'.new id hmem with hmem | hmem
    · exact hmem
    · exact absurd hmem (hfresh id hrec).2
  have hsize : s'.writer.offset = s.writer.offset +
      (renderAll s''.hasMixin s.writer.level ps).utf8ByteSize := by
    show s'.writer.text.utf8ByteSize = _
    rw [h.writer, renderAll_congr _ ps hsame]
    exact String.utf8ByteSize_append
  have hlevel : s'.writer.level = s.writer.level := by rw [h.writer]
  have htext : s'.writer.text = s.writer.text ++ renderAll s''.hasMixin s.writer.level ps := by
    rw [h.writer, renderAll_congr _ ps hsame]
  refine ⟨?_, ?_, fun id hid => h'.kept id (h.kept id hid), fun id hid => ?_⟩
  · rw [h'.writer, htext, hlevel, renderAll_append, String.append_assoc]
  · rw [h'.closed, h.closed, hlevel, hsize, placesAll_append, List.reverse_append,
      List.append_assoc, placesAll_congr _ _ ps hsame]
  · rw [records_append, List.mem_append]
    rcases h'.new id hid with hid | hid
    · rcases h.new id hid with hid | hid
      · exact Or.inl hid
      · exact Or.inr (Or.inl hid)
    · exact Or.inr (Or.inr hid)

theorem body {record : DeclId} {isStruct : Bool} {header : Printed} {members : List Piece}
    (h : Written (s.openBody header) s' members)
    (hrec : record ∉ s'.withMixin) (hmembers : record ∉ records members) :
    Written s ((s'.settle record isStruct).close record isStruct)
      [.body record isStruct header members] := by
  have hopen : (s.openBody header).writer =
      ⟨s.writer.text ++ opening s.writer.level header, s.writer.level + 1⟩ := by
    unfold openBody
    rw [writer_write]
    show CodeWriter.mk (s.writer.text ++ (lineCode s.writer.level header.text ++
      (lineCode s.writer.level "\x7b" ++ ("" ++ "")))) _ = _
    rw [String.empty_append, String.append_empty]
    rfl
  have hsame : ∀ id, (id, true) ∈ bodiesAll members →
      s'.hasMixin id = (s'.settle record isStruct).hasMixin id := by
    intro id hid
    have hne : id ≠ record := by
      rintro rfl
      exact hmembers (List.mem_map.2 ⟨(id, true), hid, rfl⟩)
    rw [Bool.eq_iff_iff, hasMixin_iff, hasMixin_iff, mem_withMixin_settle]
    exact ⟨Or.inl, fun hor => hor.resolve_right fun hand => hne hand.1⟩
  have hinside := h.writer
  rw [hopen, renderAll_congr _ members hsame] at hinside
  have hsettle := writer_settle s' record isStruct hrec
  rw [hinside] at hsettle
  have hoffset : CodeWriter.offset ⟨s.writer.text ++ opening s.writer.level header,
      s.writer.level + 1⟩ = s.writer.offset + (opening s.writer.level header).utf8ByteSize :=
    String.utf8ByteSize_append
  have hplaces : s'.closed = (placesAll (s'.settle record isStruct).hasMixin (s.writer.level + 1)
      (s.writer.offset + (opening s.writer.level header).utf8ByteSize) members).reverse ++
        s.closed := by
    have hclosed := h.closed
    rw [hopen] at hclosed
    rw [← hoffset, ← placesAll_congr _ _ members hsame]
    exact hclosed
  refine ⟨?_, ?_, fun id hid => ?_, fun id hid => ?_⟩
  · show ((s'.settle record isStruct).write [.dedent, .line "\x7d"]).writer = CodeWriter.mk
      (s.writer.text ++ (render (s'.settle record isStruct).hasMixin s.writer.level
        (.body record isStruct header members) ++ "")) s.writer.level
    rw [writer_write, hsettle, render, String.append_empty]
    show CodeWriter.mk (_ ++ ("" ++ (lineCode (s.writer.level + 1 - 1) "\x7d" ++ ""))) _ = _
    rw [String.append_empty, String.empty_append, Nat.add_sub_cancel]
    simp only [String.append_assoc]
    rfl
  · show ⟨record, (s'.settle record isStruct).writer.offset,
      (s'.settle record isStruct).writer.level, isStruct⟩ :: (s'.settle record isStruct).closed =
      ((places (s'.settle record isStruct).hasMixin s.writer.level s.writer.offset
          (.body record isStruct header members) ++ []).reverse ++ s.closed)
    have hend : (s'.settle record isStruct).writer.offset = s.writer.offset +
        (opening s.writer.level header ++
          renderAll (s'.settle record isStruct).hasMixin (s.writer.level + 1) members ++
          mixinCode (isStruct && (s'.settle record isStruct).hasMixin record)
            (s.writer.level + 1)).utf8ByteSize := by
      show (s'.settle record isStruct).writer.text.utf8ByteSize = _
      rw [hsettle]
      simp only [String.utf8ByteSize_append, CodeWriter.offset, Nat.add_assoc]
    have hlevel : (s'.settle record isStruct).writer.level = s.writer.level + 1 := by rw [hsettle]
    rw [places, List.append_nil, List.reverse_append, closed_settle, hplaces, hend, hlevel]
    rfl
  · exact mem_withMixin_settle.2 (Or.inl (h.kept id hid))
  · show _ ∨ id ∈ (bodiesAll members ++ [(record, isStruct)] ++ []).map Prod.fst
    rw [List.append_nil, List.map_append, List.mem_append]
    rcases mem_withMixin_settle.1 hid with hid | ⟨rfl, _⟩
    · rcases h.new id hid with hid | hid
      · exact Or.inl hid
      · exact Or.inr (Or.inl hid)
    · exact Or.inr (Or.inr List.mem_cons_self)

end Written

section
variable {env : EmitEnv}

mutual

theorem written_play (scope : Option RecordDecl) (s : EmitState) : (a : Act) →
    SoundAll env scope a.piece?.toList →
    (records a.piece?.toList).Nodup → (∀ id ∈ records a.piece?.toList, id ∉ s.withMixin) →
      Written s (a.play s) a.piece?.toList
  | write _, hs, _, _ => Written.write hs.1.balanced
  | code b, _, _, _ => Written.print b
  | register _, _, _, _ | enter _, _, _, _ | leave, _, _, _
  | define _, _, _, _ => Written.silent rfl rfl rfl
  | body record isStruct header members, hs, hn, hf => by
    have hrecords : records (piece? (.body record isStruct header members)).toList
        = records (pieces members) ++ [record] := by
      show ((bodiesAll (pieces members) ++ [(record, isStruct)]) ++ []).map Prod.fst = _
      rw [List.append_nil, List.map_append]
      rfl
    rw [hrecords] at hn hf
    obtain ⟨hn, _, hdisjoint⟩ := List.nodup_append.1 hn
    have hmembers : record ∉ records (pieces members) :=
      fun hmem => hdisjoint record hmem record List.mem_cons_self rfl
    obtain ⟨⟨r, -, hs⟩, -⟩ := hs
    have h := written_playAll (some r) (s.openBody header) members hs hn
      fun id hid => hf id (List.mem_append_left _ hid)
    refine h.body (fun hmem => ?_) hmembers
    rcases h.new record hmem with hmem | hmem
    · exact hf record (List.mem_append_right _ List.mem_cons_self) hmem
    · exact hmembers hmem

/-- Lawful acts add the text of their pieces. -/
theorem written_playAll (scope : Option RecordDecl) (s : EmitState) : (as : List Act) →
    SoundAll env scope (pieces as) → (records (pieces as)).Nodup →
      (∀ id ∈ records (pieces as), id ∉ s.withMixin) → Written s (playAll as s) (pieces as)
  | [], _, _, _ => Written.silent rfl rfl rfl
  | a :: as, hs, hn, hf => by
    rw [pieces, soundAll_append] at hs
    rw [pieces, records_append] at hn hf
    obtain ⟨hna, hnas, hdisjoint⟩ := List.nodup_append.1 hn
    have ha := written_play scope s a hs.1 hna fun id hid => hf id (List.mem_append_left _ hid)
    refine ha.trans (written_playAll scope (a.play s) as hs.2 hnas fun id hid hmem => ?_)
      fun id hid => ⟨hf id (List.mem_append_left _ hid),
        fun hid' => hdisjoint id hid id hid' rfl⟩
    rcases ha.new id hmem with hmem | hmem
    · exact hf id (List.mem_append_right _ hid) hmem
    · exact hdisjoint id hmem id hid rfl

end

end

end Act

end DBindings
