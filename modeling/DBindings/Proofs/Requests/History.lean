import DBindings.Proofs.Requests.Queue
import Mathlib.Data.List.DropRight

/-!
# The history of a queue

A queue of requests is used in any order, and what it holds is told by the history alone: a request
waits exactly if it has been pushed since it was last removed, and requests stand in the order of
the first such pushes.

* `FeedbackQueue.Use`             one use of a queue, and `Use.run` what it does;
* `FeedbackQueue.after`           the queue behind a history;
* `FeedbackQueue.recent`          what has happened since a request was last removed;
* `FeedbackQueue.entry`           where it was pushed first since then;
* `FeedbackQueue.Told`            a queue holds what a history tells, and each use keeps this;
* `FeedbackQueue.pushes_handed`   no push is lost or answered twice, and the order is kept.
-/

namespace DBindings
namespace FeedbackQueue

/-- One use of a queue. -/
inductive Use where
  | push (r : Request)
  | takeFor (record : DeclId)
  | drain
  deriving Repr, DecidableEq

namespace Use

/-- What is handed out, and the queue behind the use. -/
def run (q : FeedbackQueue) : Use → List Request × FeedbackQueue
  | push r => ([], q.push r)
  | takeFor record => q.takeFor record
  | drain => q.drain

/-- The use removes a request from the queue if it waits. -/
def removes (use : Use) (r : Request) : Bool := use == takeFor r.record || use == drain

theorem removes_iff {use : Use} {r : Request} :
    use.removes r = true ↔ use = takeFor r.record ∨ use = drain := by
  simp [removes]

/-- Of the requests that wait, those are handed out that the use removes. -/
theorem handed_eq (q : FeedbackQueue) (use : Use) :
    (use.run q).1 = q.pending.filter use.removes := by
  cases use with
  | push r => exact (List.filter_eq_nil_iff.2 fun x _ => by simp [removes]).symm
  | takeFor record =>
    exact List.filter_congr fun x _ => by simp [removes, eq_comm, beq_eq_decide]
  | drain => exact (List.filter_eq_self.2 fun x _ => by simp [removes]).symm

theorem kept_eq (q : FeedbackQueue) {use : Use} (h : ∀ r, use ≠ push r) :
    (use.run q).2.pending = q.pending.filter (!use.removes ·) := by
  cases use with
  | push r => exact absurd rfl (h r)
  | takeFor record =>
    exact List.filter_congr fun x _ => by simp [removes, eq_comm, bne, beq_eq_decide]
  | drain => exact (List.filter_eq_nil_iff.2 fun x _ => by simp [removes]).symm

end Use

/-- The queue behind a history, which starts with an empty one. -/
def after (uses : List Use) : FeedbackQueue := uses.foldl (fun q use => (use.run q).2) {}

theorem after_concat (uses : List Use) (use : Use) :
    after (uses ++ [use]) = (use.run (after uses)).2 := List.foldl_concat _ _ _ _

/-- What a use hands out behind a history. -/
def handed (uses : List Use) (use : Use) : List Request := (use.run (after uses)).1

/-- What follows the last use that removes a request. -/
def recent (uses : List Use) (r : Request) : List Use := uses.rtakeWhile (!·.removes r)

/-- The position in a history of the first push of a request since it was last removed. -/
def entry (uses : List Use) (r : Request) : Nat :=
  uses.length - (recent uses r).length + (recent uses r).idxOf (.push r)

/-- Requests stand in the order of their first pushes since they were last removed. -/
def InOrder (uses : List Use) (rs : List Request) : Prop :=
  rs.Pairwise fun x y => entry uses x < entry uses y

section
variable {uses : List Use} {use : Use} {r : Request}

/-! ## One more use -/

theorem recent_concat_of_removes (h : use.removes r = true) : recent (uses ++ [use]) r = [] :=
  List.rtakeWhile_concat_neg _ _ _ (by simpa using h)

theorem recent_concat (h : use.removes r = false) :
    recent (uses ++ [use]) r = recent uses r ++ [use] :=
  List.rtakeWhile_concat_pos _ _ _ (by simpa using h)

theorem length_recent_le (uses : List Use) (r : Request) : (recent uses r).length ≤ uses.length :=
  (List.rtakeWhile_suffix _ _).length_le

theorem entry_lt (h : .push r ∈ recent uses r) : entry uses r < uses.length := by
  have hpush := List.idxOf_lt_length_iff.2 h
  have hrecent := length_recent_le uses r
  unfold entry
  omega

/-- A request that waits keeps its place as long as it is not removed. -/
theorem entry_concat (h : .push r ∈ recent uses r) (hkept : use.removes r = false) :
    entry (uses ++ [use]) r = entry uses r := by
  have hrecent := length_recent_le uses r
  unfold entry
  rw [recent_concat hkept, List.idxOf_append_of_mem h, List.length_append, List.length_append,
    List.length_singleton]
  omega

/-- A request that does not wait gets its place behind all others. -/
theorem entry_concat_push (h : .push r ∉ recent uses r) :
    entry (uses ++ [.push r]) r = uses.length := by
  have hrecent := length_recent_le uses r
  unfold entry
  rw [recent_concat (by simp [Use.removes]), List.idxOf_append_of_notMem h, List.length_append,
    List.length_append, List.length_singleton, List.idxOf_cons_self]
  omega

theorem InOrder.concat {rs : List Request} (h : InOrder uses rs)
    (hwaits : ∀ r ∈ rs, .push r ∈ recent uses r) (hkept : ∀ r ∈ rs, use.removes r = false) :
    InOrder (uses ++ [use]) rs := by
  refine List.Pairwise.imp_of_mem (fun {x y} hx hy hxy => ?_) h
  rw [entry_concat (hwaits x hx) (hkept x hx), entry_concat (hwaits y hy) (hkept y hy)]
  exact hxy

end

/-! ## Whole histories -/

/-- A queue holds what a history tells. -/
structure Told (uses : List Use) (q : FeedbackQueue) : Prop where
  nodup : q.pending.Nodup
  waits : ∀ r, r ∈ q.pending ↔ .push r ∈ recent uses r
  order : InOrder uses q.pending

namespace Told
variable {uses : List Use} {q : FeedbackQueue}

theorem push (h : Told uses q) (x : Request) : Told (uses ++ [.push x]) (q.push x) := by
  have hkept (r : Request) : (Use.push x).removes r = false := by simp [Use.removes]
  have horder : InOrder (uses ++ [.push x]) q.pending :=
    h.order.concat (fun r hr => (h.waits r).1 hr) fun r _ => hkept r
  have hwaits (r : Request) : r ∈ (q.push x).pending ↔ .push r ∈ recent (uses ++ [.push x]) r := by
    rw [mem_push, recent_concat (hkept r), List.mem_append, h.waits, List.mem_singleton,
      Use.push.injEq]
  by_cases hx : x ∈ q.pending
  · rw [push_of_mem hx] at hwaits ⊢
    exact ⟨h.nodup, hwaits, horder⟩
  · rw [push_of_not_mem hx] at hwaits ⊢
    refine ⟨?_, hwaits, ?_⟩
    · exact List.nodup_append.2 ⟨h.nodup, List.nodup_singleton x, fun y hy z hz hyz => by
        rw [hyz, List.mem_singleton.1 hz] at hy
        exact hx hy⟩
    · refine List.pairwise_append.2 ⟨horder, List.pairwise_singleton _ x, fun y hy z hz => ?_⟩
      have hy' := (h.waits y).1 hy
      rw [List.mem_singleton.1 hz, entry_concat hy' (hkept y),
        entry_concat_push fun hmem => hx ((h.waits x).2 hmem)]
      exact entry_lt hy'

theorem remove (h : Told uses q) {use : Use} (huse : ∀ r, use ≠ .push r) :
    Told (uses ++ [use]) (use.run q).2 := by
  have hkept := use.kept_eq q huse
  have hmem (r : Request) :
      r ∈ (use.run q).2.pending ↔ r ∈ q.pending ∧ use.removes r = false := by
    rw [hkept, List.mem_filter, Bool.not_eq_true']
  have hsub : (use.run q).2.pending.Sublist q.pending := hkept ▸ List.filter_sublist
  refine ⟨h.nodup.sublist hsub, fun r => ?_, ?_⟩
  · rw [hmem]
    by_cases hr : use.removes r = true
    · rw [recent_concat_of_removes hr]
      simp [hr]
    · have hr' : use.removes r = false := by simpa using hr
      rw [recent_concat hr', List.mem_append, h.waits, List.mem_singleton]
      simp [hr', (huse r).symm]
  · exact InOrder.concat (h.order.sublist hsub) (fun r hr => (h.waits r).1 ((hmem r).1 hr).1)
      fun r hr => ((hmem r).1 hr).2

theorem step (h : Told uses q) (use : Use) : Told (uses ++ [use]) (use.run q).2 := by
  cases use with
  | push x => exact h.push x
  | takeFor record => exact h.remove fun _ => Use.noConfusion
  | drain => exact h.remove fun _ => Use.noConfusion

end Told

theorem told_after (uses : List Use) : Told uses (after uses) := by
  induction uses using List.reverseRecOn with
  | nil => exact ⟨List.nodup_nil, by simp [after, recent], List.Pairwise.nil⟩
  | append_singleton uses use ih =>
    rw [after_concat]
    exact ih.step use

theorem mem_handed {uses : List Use} {use : Use} {r : Request} :
    r ∈ handed uses use ↔ .push r ∈ recent uses r ∧ use.removes r = true := by
  rw [handed, Use.handed_eq, List.mem_filter, (told_after uses).waits]

/-! ## Parts of a history -/

section
variable {before later : List Use} {use : Use} {r : Request}

theorem recent_append (h : ∀ use ∈ later, use.removes r = false) :
    recent (before ++ later) r = recent before r ++ later := by
  induction later using List.reverseRecOn with
  | nil => rw [List.append_nil, List.append_nil]
  | append_singleton later last ih =>
    rw [← List.append_assoc, recent_concat (h last (by simp)),
      ih fun use hu => h use (by simp [hu]), List.append_assoc]

/-- What follows a use that removes a request is all that is recent. -/
theorem recent_subset (h : use.removes r = true) : recent (before ++ use :: later) r ⊆ later := by
  induction later using List.reverseRecOn with
  | nil =>
    rw [recent_concat_of_removes h]
    exact List.nil_subset _
  | append_singleton later last ih =>
    rw [← List.cons_append, ← List.append_assoc]
    by_cases hlast : last.removes r = true
    · rw [recent_concat_of_removes hlast]
      exact List.nil_subset _
    · rw [recent_concat (by simpa using hlast)]
      exact List.append_subset.2 ⟨List.Subset.trans ih (List.subset_append_left _ _),
        List.subset_append_right _ _⟩

/-- A request that has been pushed waits, or the first use since then that removes it has handed it
out. -/
theorem waits_or_handed (before : List Use) (r : Request) (later : List Use) :
    r ∈ (after (before ++ .push r :: later)).pending ∨
      ∃ mid use rest, later = mid ++ use :: rest ∧ use.removes r = true ∧
        r ∈ handed (before ++ .push r :: mid) use := by
  have hwaits {mid : List Use} (hmid : ∀ use ∈ mid, use.removes r = false) :
      .push r ∈ recent (before ++ .push r :: mid) r := by
    rw [recent_append (List.forall_mem_cons.2 ⟨by simp [Use.removes], hmid⟩)]
    exact List.mem_append_right _ List.mem_cons_self
  cases hfirst : later.find? (·.removes r) with
  | none =>
    refine Or.inl (((told_after _).waits r).2 (hwaits fun use hu => ?_))
    simpa using List.find?_eq_none.1 hfirst use hu
  | some use =>
    obtain ⟨hremoves, mid, rest, rfl, hmid⟩ := List.find?_eq_some_iff_append.1 hfirst
    have hmid' (use : Use) (hu : use ∈ mid) : use.removes r = false := by simpa using hmid use hu
    exact Or.inr ⟨mid, use, rest, rfl, hremoves, mem_handed.2 ⟨hwaits hmid', hremoves⟩⟩

end

/-- No request waits twice, and it waits exactly if it has been pushed since it was last removed.  A
push is never lost: the request waits, or a later use for its record or for all has handed it out,
and it is handed out again only if it is pushed again.  Taking the requests to a record leaves the
others, which make the same queue when they are pushed anew.  Requests are handed out and left in
the order of their first pushes since they were last removed. -/
theorem pushes_handed (uses : List Use) :
    (after uses).pending.Nodup ∧
    (∀ r, r ∈ (after uses).pending ↔ .push r ∈ recent uses r) ∧
    (∀ before r later, uses = before ++ .push r :: later → r ∈ (after uses).pending ∨
      ∃ mid use rest, later = mid ++ use :: rest ∧ (use = .takeFor r.record ∨ use = .drain) ∧
        r ∈ handed (before ++ .push r :: mid) use) ∧
    (∀ before use mid again r, uses = before ++ use :: mid → r ∈ handed before use →
      r ∈ handed uses again → .push r ∈ mid) ∧
    (∀ record r,
      (r ∈ ((after uses).takeFor record).1 ↔ r ∈ (after uses).pending ∧ r.record = record) ∧
      (r ∈ ((after uses).takeFor record).2.pending ↔
        r ∈ (after uses).pending ∧ r.record ≠ record)) ∧
    (∀ record, ({} : FeedbackQueue).pushAll ((after uses).takeFor record).2.pending =
      ((after uses).takeFor record).2) ∧
    InOrder uses (after uses).pending ∧
    ∀ use, InOrder uses (handed uses use) ∧
      InOrder (uses ++ [use]) (after (uses ++ [use])).pending := by
  have htold := told_after uses
  refine ⟨htold.nodup, htold.waits, ?_, ?_, fun record r => ⟨?_, ?_⟩, fun record => ?_, htold.order,
    fun use => ⟨?_, (told_after _).order⟩⟩
  · rintro before r later rfl
    refine (waits_or_handed before r later).imp_right ?_
    rintro ⟨mid, use, rest, hlater, hremoves, hhanded⟩
    exact ⟨mid, use, rest, hlater, Use.removes_iff.1 hremoves, hhanded⟩
  · rintro before use mid again r rfl hfirst hagain
    exact recent_subset (mem_handed.1 hfirst).2 (mem_handed.1 hagain).1
  · exact List.mem_filter.trans (and_congr_right fun _ => beq_iff_eq)
  · exact List.mem_filter.trans (and_congr_right fun _ => bne_iff_ne)
  · exact pushAll_of_nodup (htold.step (.takeFor record)).nodup
  · rw [handed, Use.handed_eq]
    exact htold.order.sublist List.filter_sublist

/-- Requests to two records, of which one is raised twice, taken and raised again. -/
def vecHistory : List Use :=
  [.push ⟨1, "Vec"⟩, .push ⟨2, "Mat"⟩, .push ⟨1, "Vec"⟩, .takeFor 1, .push ⟨1, "Vec"⟩]

/-- The request that was taken is handed out again, behind the one that has been waiting. -/
theorem vecHistory_handed :
    ⟨1, "Vec"⟩ ∈ handed (vecHistory.take 3) (.takeFor 1) ∧
    ⟨1, "Vec"⟩ ∈ handed vecHistory .drain ∧
    .push ⟨1, "Vec"⟩ ∈ vecHistory.drop 4 ∧
    (after vecHistory).pending = [⟨2, "Mat"⟩, ⟨1, "Vec"⟩] := by
  have htaken : ⟨1, "Vec"⟩ ∈ handed (vecHistory.take 3) (.takeFor 1) := by decide
  have hdrained : ⟨1, "Vec"⟩ ∈ handed vecHistory .drain := by decide
  exact ⟨htaken, hdrained, (pushes_handed vecHistory).2.2.2.1 (vecHistory.take 3) (.takeFor 1)
    (vecHistory.drop 4) .drain ⟨1, "Vec"⟩ rfl htaken hdrained, by decide⟩

end FeedbackQueue
end DBindings
