import DBindings.Proofs.Run.Emitter

/-!
# The preamble

A module with the preamble is written by the same steps as one without.  What has been written
stands behind the preamble, and so do the places where records have been closed; nothing else
depends on it.

* `CodeWriter.insert_behind`       text is put in behind a text in front;
* `EmitState.behind`               a state with a text in front of what has been written;
* `EmitState.finish_behind`        the module of such a state;
* `Act.playAll_behind`             acts go on in the same way;
* `TranslationUnit.emit_preamble`  the preamble stands in front of the module, or the error is the
                                   same.
-/

namespace DBindings

/-! ## Text in front -/

namespace CodeWriter

/-- A writer with a text in front of its own. -/
def behind (p : String) (w : CodeWriter) : CodeWriter := { w with text := p ++ w.text }

theorem run_behind (p : String) (w : CodeWriter) (ss : List Stroke) :
    (w.behind p).run ss = (w.run ss).behind p := by
  rw [run_eq, run_eq]
  exact congrArg (CodeWriter.mk · _) String.append_assoc

theorem insert_behind (p : String) (w : CodeWriter) (offset : Nat) (s : String) :
    (w.behind p).insert (p.utf8ByteSize + offset) s = (w.insert offset s).behind p := by
  have h := splitAtByte_behind p.toList offset w.text.toList
  rw [String.ofList_toList] at h
  unfold insert behind
  simp only [String.toList_append, h, String.ofList_append, String.ofList_toList,
    String.append_assoc]

end CodeWriter

/-- A place behind so many bytes more. -/
def ClosedRecord.shift (bytes : Nat) (c : ClosedRecord) : ClosedRecord :=
  { c with offset := bytes + c.offset }

namespace EmitState

/-- A state with a text in front of what has been written. -/
def behind (p : String) (s : EmitState) : EmitState :=
  { s with
    script := #[.raw p] ++ s.script
    closed := s.closed.map (ClosedRecord.shift p.utf8ByteSize) }

variable (p : String) (s : EmitState)

theorem writer_behind : (s.behind p).writer = s.writer.behind p := by
  have hscript : (s.behind p).script.toList = .raw p :: s.script.toList := by simp [behind]
  unfold writer
  rw [hscript]
  show CodeWriter.run ⟨"" ++ p, 0⟩ s.script.toList = _
  rw [String.empty_append, ← CodeWriter.run_behind]
  show _ = CodeWriter.run ⟨p ++ "", 0⟩ _
  rw [String.append_empty]

theorem write_behind (ss : List Stroke) : (s.behind p).write ss = (s.write ss).behind p := by
  unfold write behind
  simp only [Array.append_assoc]

theorem settle_behind (record : DeclId) (isStruct : Bool) :
    (s.behind p).settle record isStruct = (s.settle record isStruct).behind p := by
  unfold settle
  dsimp only
  have hqueue : (s.behind p).queue = s.queue := rfl
  have hmixin : (s.behind p).withMixin = s.withMixin := rfl
  rw [hqueue, hmixin]
  split
  · have hwrite := write_behind p { s with queue := (s.queue.takeFor record).2 } [.line mixinLine]
    exact congrArg (fun t : EmitState => { t with withMixin := record :: s.withMixin }) hwrite
  · rfl

theorem close_behind (record : DeclId) (isStruct : Bool) :
    (s.behind p).close record isStruct = (s.close record isStruct).behind p := by
  have hoffset : (s.behind p).writer.offset = p.utf8ByteSize + s.writer.offset := by
    rw [writer_behind]
    exact String.utf8ByteSize_append
  have hlevel : (s.behind p).writer.level = s.writer.level := by
    rw [writer_behind]
    rfl
  unfold close
  rw [hoffset, hlevel, write_behind]
  rfl

/-! ## The end of a run -/

theorem lateRecords_shift (bytes : Nat) (closed : List ClosedRecord) (withMixin : List DeclId)
    (requests : List Request) : lateRecords (closed.map (ClosedRecord.shift bytes)) withMixin
      requests = (lateRecords closed withMixin requests).map (ClosedRecord.shift bytes) := by
  induction requests generalizing withMixin with
  | nil => rfl
  | cons r rest ih =>
    have hfind : (closed.map (ClosedRecord.shift bytes)).find? (·.record == r.record) =
        (closed.find? (·.record == r.record)).map (ClosedRecord.shift bytes) := by
      rw [List.find?_map]
      rfl
    unfold lateRecords
    rw [hfind, ih, ih]
    split
    · rfl
    · cases closed.find? (·.record == r.record) with
      | none => rfl
      | some c =>
        dsimp only [Option.map_some, ClosedRecord.shift]
        split <;> rfl

theorem insertMixin_behind (w : CodeWriter) (c : ClosedRecord) :
    insertMixin (w.behind p) (c.shift p.utf8ByteSize) = (insertMixin w c).behind p :=
  CodeWriter.insert_behind p w c.offset _

theorem foldl_insertMixin_behind (w : CodeWriter) (places : List ClosedRecord) :
    (places.map (ClosedRecord.shift p.utf8ByteSize)).foldl insertMixin (w.behind p) =
      (places.foldl insertMixin w).behind p := by
  induction places generalizing w with
  | nil => rfl
  | cons c places ih =>
    rw [List.map_cons, List.foldl_cons, List.foldl_cons, insertMixin_behind, ih]

/-- Late requests are met at the same places behind the text in front. -/
theorem finish_behind : (s.behind p).finish = p ++ s.finish := by
  have hlate : lateRecords (s.behind p).closed (s.behind p).withMixin (s.behind p).queue.drain.1 =
      (lateRecords s.closed s.withMixin s.queue.drain.1).map
        (ClosedRecord.shift p.utf8ByteSize) :=
    lateRecords_shift p.utf8ByteSize s.closed s.withMixin s.queue.drain.1
  have hsort : ∀ late : List ClosedRecord,
      ((late.map (ClosedRecord.shift p.utf8ByteSize)).mergeSort fun a b => b.offset ≤ a.offset) =
        (late.mergeSort fun a b => b.offset ≤ a.offset).map
          (ClosedRecord.shift p.utf8ByteSize) := by
    intro late
    refine (List.map_mergeSort fun a _ b _ => ?_).symm
    exact decide_eq_decide.2 Nat.add_le_add_iff_left.symm
  unfold finish
  dsimp only
  rw [hlate, hsort, writer_behind, foldl_insertMixin_behind]
  rfl

end EmitState

/-! ## Runs -/

namespace Act
open EmitState

mutual

theorem play_behind (p : String) (s : EmitState) : (a : Act) →
    a.play (s.behind p) = (a.play s).behind p
  | write ss => write_behind p s ss
  | code b => write_behind p (s.raise b.requests) _
  | register _ | enter _ | leave | define _ => rfl
  | body record isStruct header members => by
    have hopen : (s.behind p).openBody header = (s.openBody header).behind p :=
      write_behind p (s.raise header.requests) _
    unfold play
    rw [hopen, playAll_behind p _ members, settle_behind, close_behind]

theorem playAll_behind (p : String) (s : EmitState) : (as : List Act) →
    playAll as (s.behind p) = (playAll as s).behind p
  | [] => rfl
  | a :: as => by
    unfold playAll
    rw [play_behind p s a, playAll_behind p _ as]

end

end Act

/-! ## Settings -/

/-- The settings of a run with or without the preamble. -/
def EmitEnv.withPreamble (env : EmitEnv) (preamble : Bool) : EmitEnv :=
  { env with options := { env.options with preamble } }

section
variable (env : EmitEnv) (b : Bool)

namespace RecordDecl

variable (nested : RecordDecl → Emit PUnit)

theorem emitMember_withPreamble (r : RecordDecl) (polymorphic : Bool) (d : Decl) :
    emitMember (env.withPreamble b) nested r polymorphic d =
      emitMember env nested r polymorphic d := by
  cases d <;> rfl

theorem emitMethod_withPreamble (r : RecordDecl) (polymorphic : Bool) (d : Decl) :
    emitMethod (env.withPreamble b) r polymorphic d = emitMethod env r polymorphic d := by
  cases d <;> rfl

theorem emit_withPreamble (r : RecordDecl) (topLevel : Bool) :
    emit (env.withPreamble b) nested r topLevel = emit env nested r topLevel := by
  have hmember := funext (emitMember_withPreamble env b nested r (env.index.isPolymorphic r))
  have hmethod := funext (emitMethod_withPreamble env b r (env.index.isPolymorphic r))
  have hinside : emitInside (env.withPreamble b) nested r (env.index.isPolymorphic r) =
      emitInside env nested r (env.index.isPolymorphic r) := by
    unfold emitInside
    rw [hmember, hmethod, emitFields_congr env (env.withPreamble b) rfl]
    rfl
  have hcomplete : emitComplete (env.withPreamble b) nested r = emitComplete env nested r := by
    unfold emitComplete
    dsimp only
    rw [show (env.withPreamble b).index = env.index from rfl, hinside]
    rfl
  unfold emit
  dsimp only
  rw [hcomplete]
  rfl

end RecordDecl

namespace Emit

theorem nestedWithin_withPreamble (depth : Nat) (r : RecordDecl) :
    nestedWithin (env.withPreamble b) depth r = nestedWithin env depth r := by
  induction depth generalizing r with
  | zero => rfl
  | succ depth ih =>
    unfold nestedWithin
    rw [RecordDecl.emit_withPreamble, funext ih]

theorem handle_withPreamble (event : Event) :
    handle (env.withPreamble b) event = handle env event := by
  have henter : ∀ r, enterRecord (env.withPreamble b) r = enterRecord env r := by
    intro r
    have hnested : nested (env.withPreamble b) = nested env :=
      funext (nestedWithin_withPreamble env b _)
    unfold enterRecord
    rw [hnested, RecordDecl.emit_withPreamble]
    rfl
  cases event with
  | beginFile path => rfl
  | endFile path => rfl
  | define name definition loc => rfl
  | leaveRecord d => rfl
  | enterRecord d =>
    unfold handle
    dsimp only
    simp only [henter]
  | enumeration d => cases d <;> rfl
  | function d => cases d <;> rfl
  | variable_ d => cases d <;> rfl
  | typedef d =>
    cases d with
    | typedef head underlying =>
      unfold handle
      dsimp only
      simp only [henter]
      rfl
    | _ => rfl

end Emit

end

namespace TranslationUnit
variable (unit : TranslationUnit) (options : EmitOptions)

theorem write_withPreamble (b : Bool) (s : EmitState) :
    unit.write { options with preamble := b } s = unit.write options s := by
  have hhandle : Emit.handle (EmitEnv.ofUnit unit { options with preamble := b } .strings) =
      Emit.handle (EmitEnv.ofUnit unit options .strings) :=
    funext (Emit.handle_withPreamble (EmitEnv.ofUnit unit options .strings) b)
  unfold write
  rw [hhandle]

/-- A run behind a text in front plays the same acts, or fails in the same way. -/
theorem write_behind (p : String) (s : EmitState) :
    (∃ run, unit.write options s = (.ok (), run) ∧
      unit.write options (s.behind p) = (.ok (), run.behind p)) ∨
    ∃ e run run', unit.write options s = (.error e, run) ∧
      unit.write options (s.behind p) = (.error e, run') := by
  obtain ⟨_, acts, -, hexec⟩ | ⟨e, herror⟩ := Emit.writes_drive unit options s.control
  · refine Or.inl ⟨Act.playAll acts s, hexec s rfl, ?_⟩
    rw [← Act.playAll_behind]
    exact hexec (s.behind p) rfl
  · exact Or.inr ⟨e, _, _, Prod.ext (herror s rfl) rfl, Prod.ext (herror (s.behind p) rfl) rfl⟩

/-- The preamble is a text in front of the module: with it a unit is written as the preamble and
then what it is written as without it, or there is the same error. -/
theorem emit_preamble : unit.emit { options with preamble := true } =
    (unit.emit { options with preamble := false }).map (modulePreamble ++ ·) := by
  have hstart : EmitState.start { options with preamble := true } =
      (EmitState.start { options with preamble := false }).behind modulePreamble := rfl
  unfold emit
  rw [write_withPreamble unit options true, write_withPreamble unit options false, hstart]
  obtain ⟨run, hrun, hbehind⟩ | ⟨e, run, run', hrun, hbehind⟩ :=
    unit.write_behind options modulePreamble
    (EmitState.start { options with preamble := false })
  · rw [hrun, hbehind]
    exact congrArg Except.ok (run.finish_behind modulePreamble)
  · rw [hrun, hbehind]
    rfl

end TranslationUnit

end DBindings
