import DBindings.Proofs.Requests.Lines
import DBindings.Proofs.Requests.Queue
import DBindings.Proofs.Run.Emitter
import Mathlib.Data.List.Nodup

/-!
# The mixin in records that are asked for it

A request may be raised before its record is opened, while it is open or after it has been closed.
In each case the record gets the mixin once, as the last line of its body, if it is a struct.

* `EmitState.Delivered`     each request waits, or its record has been closed and, if it is a
                            struct, has the mixin;
* `Act.delivered_playAll`   acts keep it so;
* `sort_lateRecords`        the requests that are left name places of the text;
* `EmitState.finish_eq`     the end of a run meets them;
* `TranslationUnit.emit_mixins`   the text of a module.
-/

namespace DBindings
open Piece

namespace EmitState

/-- No request is lost: it waits, or its record has been closed with the mixin if it is a struct.
No record is taken for one that was asked for. -/
structure Delivered (s : EmitState) : Prop where
  pending : ∀ r ∈ s.queue.pending, ∃ q ∈ s.raised, q.record = r.record
  withMixin : ∀ id ∈ s.withMixin, ∃ q ∈ s.raised, q.record = id
  raised : ∀ q ∈ s.raised, s.awaits q.record = true ∨
    ∃ c ∈ s.closed, c.record = q.record ∧ (c.isStruct = true → q.record ∈ s.withMixin)

namespace Delivered
variable {s : EmitState}

theorem of_eq {s' : EmitState} (h : s.Delivered) (hq : s'.queue = s.queue)
    (hr : s'.raised = s.raised) (hm : s'.withMixin = s.withMixin) (hc : s'.closed = s.closed) :
    s'.Delivered := by
  refine ⟨?_, ?_, ?_⟩
  · rw [hq, hr]
    exact h.pending
  · rw [hm, hr]
    exact h.withMixin
  · unfold awaits
    rw [hq, hr, hm, hc]
    exact h.raised

theorem raise (h : s.Delivered) (hi : s.ignoring = false) (rs : List Request) :
    (s.raise rs).Delivered := by
  have hpending : ∀ r, r ∈ (s.raise rs).queue.pending ↔ r ∈ s.queue.pending ∨ r ∈ rs := by
    intro r
    unfold EmitState.raise
    rw [hi]
    exact FeedbackQueue.mem_pushAll
  have hraised : ∀ q, q ∈ (s.raise rs).raised ↔ q ∈ s.raised ∨ q ∈ rs := fun q => List.mem_append
  refine ⟨fun r hr => ?_, fun id hid => ?_, fun q hq => ?_⟩
  · rcases (hpending r).1 hr with hr | hr
    · obtain ⟨q, hq, hqr⟩ := h.pending r hr
      exact ⟨q, (hraised q).2 (Or.inl hq), hqr⟩
    · exact ⟨r, (hraised r).2 (Or.inr hr), rfl⟩
  · obtain ⟨q, hq, hqid⟩ := h.withMixin id hid
    exact ⟨q, (hraised q).2 (Or.inl hq), hqid⟩
  · rcases (hraised q).1 hq with hq | hq
    · refine (h.raised q hq).imp_left fun ha => ?_
      obtain ⟨r, hr, hrq⟩ := awaits_iff.1 ha
      exact awaits_iff.2 ⟨r, (hpending r).2 (Or.inl hr), hrq⟩
    · exact Or.inl (awaits_iff.2 ⟨q, (hpending q).2 (Or.inr hq), rfl⟩)

theorem close (h : s.Delivered) (record : DeclId) (isStruct : Bool) :
    ((s.settle record isStruct).close record isStruct).Delivered := by
  have hraised := raised_settle s record isStruct
  refine ⟨fun r hr => ?_, fun id hid => ?_, fun q hq => ?_⟩
  · have hr' : r ∈ (s.settle record isStruct).queue.pending := hr
    rw [pending_settle] at hr'
    show ∃ q ∈ (s.settle record isStruct).raised, _
    rw [hraised]
    exact h.pending r (List.mem_filter.1 hr').1
  · show ∃ q ∈ (s.settle record isStruct).raised, _
    rw [hraised]
    rcases mem_withMixin_settle.1 hid with hid | ⟨rfl, _, ha⟩
    · exact h.withMixin id hid
    · obtain ⟨r, hr, hrid⟩ := awaits_iff.1 ha
      obtain ⟨q, hq, hqr⟩ := h.pending r hr
      exact ⟨q, hq, hqr.trans hrid⟩
  · have hq' : q ∈ s.raised := hraised ▸ hq
    rcases h.raised q hq' with ha | ⟨c, hc, hcq, hmixin⟩
    · by_cases hqr : q.record = record
      · refine Or.inr ⟨_, List.mem_cons_self, hqr.symm, fun hstruct => ?_⟩
        exact mem_withMixin_settle.2 (Or.inr ⟨hqr, hstruct, hqr ▸ ha⟩)
      · obtain ⟨r, hr, hrq⟩ := awaits_iff.1 ha
        refine Or.inl (awaits_iff.2 ⟨r, ?_, hrq⟩)
        show r ∈ (s.settle record isStruct).queue.pending
        rw [pending_settle]
        exact List.mem_filter.2 ⟨hr, by simpa [hrq] using hqr⟩
    · refine Or.inr ⟨c, List.mem_cons_of_mem _ ?_, hcq, fun hstruct => ?_⟩
      · rw [closed_settle]
        exact hc
      · exact mem_withMixin_settle.2 (Or.inl (hmixin hstruct))

end Delivered

/-! ## The requests that are left at the end -/

section
variable {closed : List ClosedRecord} (hn : (closed.map (·.record)).Nodup)
include hn

/-- What is due at the end are the closed structs without the mixin that requests wait for. -/
theorem mem_lateRecords {c : ClosedRecord} (withMixin : List DeclId) (rs : List Request) :
    c ∈ lateRecords closed withMixin rs ↔
      c ∈ closed ∧ c.isStruct = true ∧ c.record ∉ withMixin ∧ ∃ r ∈ rs, r.record = c.record := by
  have hinj : ∀ {x y}, x ∈ closed → y ∈ closed → x.record = y.record → x = y :=
    fun hx hy h => List.inj_on_of_nodup_map hn hx hy h
  induction rs generalizing withMixin with
  | nil => simp [lateRecords]
  | cons r rest ih =>
    unfold lateRecords
    by_cases hmem : r.record ∈ withMixin
    · rw [if_pos (List.contains_iff_mem.2 hmem)]
      refine (ih withMixin).trans ?_
      refine and_congr_right fun _ => and_congr_right fun _ => and_congr_right fun hc => ?_
      rw [List.exists_mem_cons_iff]
      exact ⟨Or.inr, fun h => h.resolve_left fun h => hc (h ▸ hmem)⟩
    · rw [if_neg (fun h => hmem (List.contains_iff_mem.1 h))]
      cases hfind : closed.find? (·.record == r.record) with
      | none =>
        have hnone : ∀ c ∈ closed, c.record ≠ r.record := by simpa using hfind
        dsimp only
        refine (ih withMixin).trans ?_
        refine and_congr_right fun hc => and_congr_right fun _ => and_congr_right fun _ => ?_
        rw [List.exists_mem_cons_iff]
        exact ⟨Or.inr, fun h => h.resolve_left fun h => hnone c hc h.symm⟩
      | some d =>
        have hd : d ∈ closed := List.mem_of_find?_eq_some hfind
        have hdr : d.record = r.record := by simpa using List.find?_some hfind
        dsimp only
        cases hstruct : d.isStruct with
        | false =>
          rw [if_neg (by decide)]
          refine (ih withMixin).trans ?_
          refine and_congr_right fun hc => and_congr_right fun hs => and_congr_right fun _ => ?_
          rw [List.exists_mem_cons_iff]
          refine ⟨Or.inr, fun h => h.resolve_left fun h => ?_⟩
          have hcd : c = d := hinj hc hd (h.symm.trans hdr.symm)
          rw [hcd, hstruct] at hs
          exact absurd hs (by decide)
        | true =>
          rw [if_pos rfl, List.mem_cons]
          refine (or_congr_right (ih (r.record :: withMixin))).trans ?_
          rw [List.exists_mem_cons_iff, List.mem_cons, not_or]
          constructor
          · rintro (rfl | ⟨hc, hs, ⟨-, hw⟩, hrest⟩)
            · exact ⟨hd, hstruct, hdr ▸ hmem, Or.inl hdr.symm⟩
            · exact ⟨hc, hs, hw, Or.inr hrest⟩
          · rintro ⟨hc, hs, hw, hrest⟩
            by_cases hcr : c.record = r.record
            · exact Or.inl (hinj hc hd (hcr.trans hdr.symm))
            · exact Or.inr ⟨hc, hs, ⟨hcr, hw⟩, hrest.resolve_left fun h => hcr h.symm⟩

theorem nodup_lateRecords (withMixin : List DeclId) (rs : List Request) :
    (lateRecords closed withMixin rs).Nodup := by
  induction rs generalizing withMixin with
  | nil => exact List.nodup_nil
  | cons r rest ih =>
    unfold lateRecords
    split
    · exact ih withMixin
    · split
      · next d hfind =>
        have hdr : d.record = r.record := by simpa using List.find?_some hfind
        split
        · refine List.nodup_cons.2 ⟨fun hmem => ?_, ih _⟩
          exact ((mem_lateRecords hn _ rest).1 hmem).2.2.1 (hdr ▸ List.mem_cons_self)
        · exact ih withMixin
      · exact ih withMixin

end

theorem sort_lateRecords {s : EmitState} {places : List ClosedRecord}
    (hclosed : s.closed = places.reverse) (hn : (places.map (·.record)).Nodup)
    (hasc : places.Pairwise (·.offset < ·.offset)) :
    ((lateRecords s.closed s.withMixin s.queue.pending).mergeSort fun a b => b.offset ≤ a.offset)
      = (places.filter (isDue s.hasMixin s.awaits)).reverse := by
  have hn' : (s.closed.map (·.record)).Nodup := by
    rw [hclosed, List.map_reverse]
    exact List.nodup_reverse.2 hn
  have hperm : (lateRecords s.closed s.withMixin s.queue.pending).Perm
      (places.filter (isDue s.hasMixin s.awaits)).reverse := by
    refine (List.perm_ext_iff_of_nodup (nodup_lateRecords hn' _ _) ?_).2 fun c => ?_
    · exact List.nodup_reverse.2 ((List.Nodup.of_map _ hn).filter _)
    · rw [mem_lateRecords hn', hclosed, List.mem_reverse, List.mem_reverse, List.mem_filter, isDue,
        Bool.and_eq_true, Bool.and_eq_true, awaits_iff, Bool.not_eq_true', ← Bool.not_eq_true,
        hasMixin_iff]
      exact and_congr_right fun _ => ⟨fun h => ⟨⟨h.1, h.2.2⟩, h.2.1⟩, fun h => ⟨h.1.1, h.2, h.1.2⟩⟩
  have hdesc : (places.filter (isDue s.hasMixin s.awaits)).reverse.Pairwise
      fun a b => decide (b.offset ≤ a.offset) = true := by
    rw [List.pairwise_reverse]
    exact (hasc.filter _).imp fun h => decide_eq_true (Nat.le_of_lt h)
  refine List.Perm.eq_of_pairwise ?_ (List.pairwise_mergeSort ?_ ?_ _) hdesc
    ((List.mergeSort_perm _ _).trans hperm)
  · -- places with the same offset are the same place
    intro a b ha hb hab hba
    have hoffset : a.offset = b.offset := by
      have h1 := of_decide_eq_true hab
      have h2 := of_decide_eq_true hba
      omega
    have hmem : ∀ x ∈ (places.filter (isDue s.hasMixin s.awaits)).reverse, x ∈ places :=
      fun x hx => (List.mem_filter.1 (List.mem_reverse.1 hx)).1
    have hnodup : (places.map (·.offset)).Nodup :=
      List.pairwise_map.2 (hasc.imp fun h => Nat.ne_of_lt h)
    refine List.inj_on_of_nodup_map hnodup (hmem a (hperm.subset ?_)) (hmem b hb) hoffset
    exact (List.mergeSort_perm _ _).subset ha
  · intro a b c hab hbc
    have h1 := of_decide_eq_true hab
    have h2 := of_decide_eq_true hbc
    exact decide_eq_true (Nat.le_trans h2 h1)
  · intro a b
    rw [Bool.or_eq_true, decide_eq_true_eq, decide_eq_true_eq]
    exact Nat.le_total _ _

/-- At the end of a run the requests that wait are met too. -/
theorem finish_eq {s s' : EmitState} {ps : List Piece} (h : Act.Written s s' ps)
    (hlevel : s.writer.level = 0) (hstart : s.closed = []) (hn : (records ps).Nodup) :
    s'.finish = s.text ++ renderAll (fun id => s'.hasMixin id || s'.awaits id) 0 ps := by
  have hclosed := h.closed
  have hwriter := h.writer
  rw [hlevel] at hclosed hwriter
  rw [hstart, List.append_nil] at hclosed
  have hplaces : (placesAll s'.hasMixin 0 s.writer.offset ps).map (·.record) = records ps := by
    show _ = (bodiesAll ps).map Prod.fst
    rw [← map_placesAll s'.hasMixin 0 s.writer.offset ps, List.map_map]
    rfl
  have hinsert := insert_placesAll s'.hasMixin s'.awaits 0 0 s.text "" ps
  unfold finish
  dsimp only [FeedbackQueue.drain]
  rw [sort_lateRecords hclosed (hplaces ▸ hn) (placesAll_ascending _ _ _ ps), hwriter]
  rw [String.append_empty, String.append_empty] at hinsert
  exact congrArg CodeWriter.text hinsert

end EmitState

namespace Act
open EmitState

/-! ## Runs -/

mutual

theorem ignoring_play (s : EmitState) : (a : Act) → (a.play s).ignoring = s.ignoring
  | write _ | code _ | register _ | enter _ | leave | define _ => rfl
  | body record isStruct header members => by
    show ((playAll members (s.openBody header)).settle record isStruct).ignoring = _
    rw [ignoring_settle, ignoring_playAll]
    rfl

theorem ignoring_playAll (s : EmitState) :
    (as : List Act) → (playAll as s).ignoring = s.ignoring
  | [] => rfl
  | a :: as => by rw [playAll, ignoring_playAll, ignoring_play]

end

mutual

theorem delivered_play {s : EmitState} (h : s.Delivered) (hi : s.ignoring = false) :
    (a : Act) → (a.play s).Delivered
  | write _ | register _ | enter _ | leave | define _ => h.of_eq rfl rfl rfl rfl
  | code b => (h.raise hi b.requests).of_eq rfl rfl rfl rfl
  | body record isStruct header members =>
    (delivered_playAll (s := s.openBody header)
      ((h.raise hi header.requests).of_eq rfl rfl rfl rfl) hi members).close record isStruct

theorem delivered_playAll {s : EmitState} (h : s.Delivered) (hi : s.ignoring = false) :
    (as : List Act) → (playAll as s).Delivered
  | [] => h
  | a :: as => delivered_playAll (delivered_play h hi a) ((ignoring_play s a).trans hi) as

end

/-- Requests are ignored, and none waits. -/
structure Quiet (s : EmitState) : Prop where
  ignoring : s.ignoring = true
  pending : s.queue.pending = []
  withMixin : s.withMixin = []

theorem Quiet.raise {s : EmitState} (h : Quiet s) (requests : List Request) (ss : List Stroke) :
    Quiet ((s.raise requests).write ss) := by
  refine ⟨h.ignoring, ?_, h.withMixin⟩
  show (if s.ignoring then s.queue else s.queue.pushAll requests).pending = []
  rw [h.ignoring]
  exact h.pending

mutual

theorem quiet_play {s : EmitState} (h : Quiet s) : (a : Act) → Quiet (a.play s)
  | write _ | register _ | enter _ | leave | define _ => ⟨h.ignoring, h.pending, h.withMixin⟩
  | code b => h.raise b.requests _
  | body record isStruct header members => by
    have hinside := quiet_playAll (s := s.openBody header) (h.raise header.requests _) members
    refine ⟨(ignoring_settle _ _ _).trans hinside.ignoring, ?_, ?_⟩
    · exact (pending_settle _ _ _).trans (by rw [hinside.pending, List.filter_nil])
    · refine List.eq_nil_iff_forall_not_mem.2 fun id hid => ?_
      rcases mem_withMixin_settle.1 hid with hid | ⟨_, _, ha⟩
      · rw [hinside.withMixin] at hid
        exact absurd hid List.not_mem_nil
      · obtain ⟨r, hr, _⟩ := awaits_iff.1 ha
        rw [hinside.pending] at hr
        exact absurd hr List.not_mem_nil

theorem quiet_playAll {s : EmitState} (h : Quiet s) : (as : List Act) → Quiet (playAll as s)
  | [] => h
  | a :: as => quiet_playAll (quiet_play h a) as

end

end Act

namespace EmitState

theorem level_start (options : EmitOptions) : (start options).writer.level = 0 := by
  unfold start writer
  split <;> rfl

theorem delivered_start (options : EmitOptions) : (start options).Delivered :=
  ⟨fun _ hr => absurd hr List.not_mem_nil, fun _ hid => absurd hid List.not_mem_nil,
    fun _ hq => absurd hq List.not_mem_nil⟩

theorem quiet_start (options : EmitOptions) :
    Act.Quiet { start options with ignoring := true } := ⟨rfl, rfl, rfl⟩

theorem nodup_closed {s : EmitState} {ps : List Piece} (hn : (records ps).Nodup)
    (h : bodiesAll ps = (s.closed.map fun c => (c.record, c.isStruct)).reverse) :
    (s.closed.map (·.record)).Nodup := by
  unfold records at hn
  rw [h, List.map_reverse, List.map_map] at hn
  exact List.nodup_reverse.1 hn

/-- A record is asked for by a request of the run. -/
def isAsked (s : EmitState) (record : DeclId) : Bool := s.raised.any (·.record == record)

/-- At the end of a run the structs that have the mixin, or are to get it, are those that were asked
for at any time. -/
theorem Delivered.asked {s : EmitState} (h : s.Delivered)
    (hn : (s.closed.map (·.record)).Nodup) {id : DeclId}
    (hid : (id, true) ∈ s.closed.map fun c => (c.record, c.isStruct)) :
    (s.hasMixin id || s.awaits id) = s.isAsked id := by
  have hasked : s.isAsked id = true ↔ ∃ q ∈ s.raised, q.record = id := by
    unfold isAsked
    rw [List.any_eq_true]
    simp only [beq_iff_eq]
  rw [Bool.eq_iff_iff, Bool.or_eq_true, hasMixin_iff, awaits_iff, hasked]
  constructor
  · rintro (hm | ⟨r, hr, rfl⟩)
    · exact h.withMixin id hm
    · exact h.pending r hr
  · rintro ⟨q, hq, rfl⟩
    rcases h.raised q hq with ha | ⟨c, hc, hcq, hmixin⟩
    · exact Or.inr (awaits_iff.1 ha)
    · obtain ⟨d, hd, hdq⟩ := List.mem_map.1 hid
      have hcd : c = d :=
        List.inj_on_of_nodup_map hn hc hd (hcq.trans (congrArg Prod.fst hdq).symm)
      exact Or.inl (hmixin (hcd ▸ congrArg Prod.snd hdq))

end EmitState

open EmitState Act Text in
/-- The text of a module is that of the strokes of its pieces.  Among those that are not the code of
a declaration, the mixin stands once in the body of each struct to which the code raises a request
at any time of the run, and nowhere else; without these lines it is the text of the run that ignores
requests.  A line in the code of a member that reads like the mixin is in the body of a method. -/
theorem TranslationUnit.emit_mixins {unit : TranslationUnit} {options : EmitOptions} {text : String}
    (h : unit.emit options = .ok text) :
    ∃ (run quiet : EmitState) (ps : List Piece),
      unit.write options (.start options) = (.ok (), run) ∧
      unit.write options { EmitState.start options with ignoring := true } = (.ok (), quiet) ∧
      SoundAll (.ofUnit unit options .strings) none ps ∧
      (records ps).Nodup ∧
      bodiesAll ps = (run.closed.map fun c => (c.record, c.isStruct)).reverse ∧
      run.raised = requestsAll ps ∧
      text = (EmitState.start options).text ++
        Stroke.codeAll 0 ((strokesAll run.isAsked none ps).map Prod.snd) ∧
      mixins (strokesAll run.isAsked none ps) =
        ((bodiesAll ps).filter fun b => b.2 && run.isAsked b.1).map (fun b => some b.1) ∧
      quiet.finish = (EmitState.start options).text ++
        Stroke.codeAll 0 ((without (strokesAll run.isAsked none ps)).map Prod.snd) ∧
      ∀ r b, (EmitEnv.ofUnit unit options .strings).Prints (some r) b → mixinLine ∈ b.lines →
        ∃ head f body, .function head f ∈ r.members ++ r.methods ∧ f.inlineBody? = some body ∧
          ∃ line ∈ lines (body.print { (EmitEnv.ofUnit unit options .strings).print with
            polymorphic := (EmitEnv.ofUnit unit options .strings).index.isPolymorphic r,
            pointerReturn := f.returnType.isPointer }).text, bodyLine false line = mixinLine := by
  obtain ⟨_, acts, hacts, hexec⟩ | ⟨e, herror⟩ :=
    Emit.writes_drive unit options (EmitState.start options).control
  · have hrun : unit.write options (.start options) = (.ok (), playAll acts (.start options)) :=
      hexec (.start options) rfl
    have hquiet : unit.write options { EmitState.start options with ignoring := true }
        = (.ok (), playAll acts { EmitState.start options with ignoring := true }) :=
      hexec { EmitState.start options with ignoring := true } rfl
    have hn : (records (pieces acts)).Nodup := by
      obtain ⟨l, hl, hsub⟩ := hacts.covered
      exact hl.nodup_iff.1 (hacts.nodup.sublist hsub)
    have hwritten := written_playAll none (.start options) acts hacts.sound hn
      fun _ _ hmem => absurd hmem List.not_mem_nil
    have hwritten' := written_playAll none { EmitState.start options with ignoring := true } acts
      hacts.sound hn fun _ _ hmem => absurd hmem List.not_mem_nil
    have hbodies : bodiesAll (pieces acts) =
        ((playAll acts (.start options)).closed.map fun c => (c.record, c.isStruct)).reverse := by
      rw [hwritten.closed, List.map_append, List.map_reverse, map_placesAll]
      show _ = ((bodiesAll (pieces acts)).reverse ++ []).reverse
      rw [List.append_nil, List.reverse_reverse]
    refine ⟨_, _, pieces acts, hrun, hquiet, hacts.sound, hn, hbodies,
      raised_playAll (.start options) acts, ?_, mixins_strokesAll _ none _ hacts.sound, ?_,
      fun r b => EmitEnv.Prints.statement⟩
    · have htext : text = (playAll acts (.start options)).finish := by
        unfold TranslationUnit.emit at h
        rw [hrun] at h
        exact (Except.ok.inj h).symm
      have hdelivered := delivered_playAll (delivered_start options) rfl acts
      rw [htext, finish_eq hwritten (level_start options) rfl hn,
        codeAll_strokesAll _ 0 none _ hacts.sound]
      refine congrArg _ (renderAll_congr 0 (pieces acts) fun id hid => ?_)
      rw [hbodies, List.mem_reverse] at hid
      exact hdelivered.asked (nodup_closed hn hbodies) hid
    · have hq := quiet_playAll (quiet_start options) acts
      rw [finish_eq hwritten' (level_start options) rfl hn,
        without_strokesAll _ none _ hacts.sound, codeAll_strokesAll _ 0 none _ hacts.sound]
      refine congrArg _ (renderAll_congr 0 (pieces acts) fun id _ => ?_)
      rw [hasMixin, awaits, hq.withMixin, hq.pending]
      rfl
  · have hfail : (unit.write options (.start options)).1 = .error e := herror _ rfl
    unfold TranslationUnit.emit at h
    cases hw : unit.write options (.start options) with
    | mk result s =>
      rw [hw] at h hfail
      cases result with
      | ok _ => exact absurd hfail (by simp)
      | error e' => exact absurd h (by simp)

/-- Two structs and a class, and after them a function with temporaries of one struct and of the
class as default arguments. -/
def pointUnit : TranslationUnit :=
  let point : Ty := .record ⟨1, "Point"⟩
  let shape : Ty := .record ⟨3, "Shape"⟩
  ⟨[⟨"point.h", [
    .record { id := 1, name := some "Point" }
      { tag := .struct, fields := [{ name := some "x", ty := .int }] } [] [],
    .record { id := 2, name := some "Size" } { tag := .struct } [] [],
    .record { id := 3, name := some "Shape" } { tag := .class_ } []
      [.function { id := 4, name := some "draw", access := .pub }
        { returnType := .void, method := some { isVirtual := true } }],
    .function { id := 5, name := some "norm" }
      { returnType := .int,
        params := [⟨some "p", point.constRef, some (.temporaryObject point [])⟩,
          ⟨some "s", shape.constRef, some (.temporaryObject shape [])⟩] }]⟩]⟩

/-- The text of the module up to the last line in the body of the first struct. -/
def pointFront : String :=
  "\n// ------ point.h\n\nextern(C++)\nstruct Point\n\x7b\n    @cppsize(0) public int x;\n"

/-- The text behind it. -/
def pointBack : String :=
  "\x7d\n\nextern(C++)\nstruct Size\n\x7b\n\x7d\n\n" ++
  "extern(C++)\nclass Shape\n\x7b\n    public void draw();\n\x7d\n\n" ++
  "extern(C++)\nint norm(ref const(Point) p = Point().byRef, " ++
  "ref const(Shape) s = Shape().byRef);\n\n"

/-- The run of the emitter. -/
def pointRun (ignoring : Bool) : EmitState :=
  (pointUnit.write { preamble := false }
    { EmitState.start { preamble := false } with ignoring }).2

open EmitState in
/-- The struct that is asked for late has the mixin, the other struct and the class have none. -/
theorem pointUnit_mixin :
    pointUnit.emit { preamble := false } =
      .ok (pointFront ++ "    mixin RvalueRef;\n" ++ pointBack) ∧
    ∃ (run quiet : EmitState) (ps : List Piece),
      pointUnit.write { preamble := false } (.start { preamble := false }) = (.ok (), run) ∧
      pointUnit.write { preamble := false }
        { EmitState.start { preamble := false } with ignoring := true } = (.ok (), quiet) ∧
      bodiesAll ps = [(1, true), (2, true), (3, false)] ∧
      run.raised = [⟨1, "Point"⟩, ⟨3, "Shape"⟩] ∧
      requestsAll ps = [⟨1, "Point"⟩, ⟨3, "Shape"⟩] ∧
      mixins (strokesAll run.isAsked none ps) = [some 1] ∧
      quiet.finish = pointFront ++ pointBack := by
  have hclosed : (pointRun false).closed =
      [⟨3, 159, 1, false⟩, ⟨2, 106, 1, true⟩, ⟨1, 77, 1, true⟩] := by decide +kernel
  have hraised : (pointRun false).raised = [⟨1, "Point"⟩, ⟨3, "Shape"⟩] := rfl
  have hqueue : (pointRun false).queue.drain.1 = [⟨1, "Point"⟩, ⟨3, "Shape"⟩] := rfl
  have hmixin : (pointRun false).withMixin = [] := rfl
  have hwriter : ∀ ignoring, (pointRun ignoring).writer = ⟨pointFront ++ pointBack, 0⟩ := by
    decide +kernel
  have hline : Stroke.lineCode 1 mixinLine = "    mixin RvalueRef;\n" := by decide +kernel
  have hinsert := insertMixin_append pointFront pointBack 0 ⟨1, 77, 1, true⟩ (by decide +kernel)
  have hfinish : (pointRun false).finish =
      pointFront ++ "    mixin RvalueRef;\n" ++ pointBack := by
    unfold finish
    rw [hclosed, hqueue, hmixin]
    show CodeWriter.text ((([⟨1, 77, 1, true⟩] : List ClosedRecord).mergeSort _).foldl _ _) = _
    rw [List.mergeSort_singleton, List.foldl_cons, List.foldl_nil, hwriter, hinsert, hline]
  have hquiet : (pointRun true).finish = pointFront ++ pointBack := by
    have hnone : (pointRun true).queue.drain.1 = [] := rfl
    unfold finish
    rw [hnone]
    show CodeWriter.text ((([] : List ClosedRecord).mergeSort _).foldl _ _) = _
    rw [List.mergeSort_nil, List.foldl_nil, hwriter]
  have hemit : pointUnit.emit { preamble := false } =
      .ok (pointFront ++ "    mixin RvalueRef;\n" ++ pointBack) := by
    rw [← hfinish]
    rfl
  obtain ⟨run, quiet, ps, hrun, hsilent, -, -, hbodies, hrequests, -, hmixins, -⟩ :=
    TranslationUnit.emit_mixins hemit
  obtain rfl : pointRun false = run := congrArg Prod.snd hrun
  obtain rfl : pointRun true = quiet := congrArg Prod.snd hsilent
  have hbodies : bodiesAll ps = [(1, true), (2, true), (3, false)] := by
    rw [hbodies, hclosed]
    rfl
  refine ⟨hemit, _, _, ps, hrun, hsilent, hbodies, hraised, hrequests ▸ hraised, ?_, hquiet⟩
  unfold isAsked at hmixins ⊢
  rw [hmixins, hbodies, hraised]
  rfl

end DBindings
