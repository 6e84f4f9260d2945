import DBindings.Feedback
import DBindings.Proofs.Fresh

/-!
# The queue of requests

* `FeedbackQueue.mem_pushAll`        what waits after requests have been pushed;
* `FeedbackQueue.pending_pushAll`    and in which order;
* `FeedbackQueue.pushAll_of_nodup`   requests of which none waits.
-/

namespace DBindings
namespace FeedbackQueue

theorem push_of_mem {q : FeedbackQueue} {r : Request} (h : r ∈ q.pending) : q.push r = q :=
  if_pos (List.contains_iff_mem.2 h)

theorem push_of_not_mem {q : FeedbackQueue} {r : Request} (h : r ∉ q.pending) :
    q.push r = ⟨q.pending ++ [r]⟩ :=
  if_neg fun hc => h (List.contains_iff_mem.1 hc)

theorem mem_push {q : FeedbackQueue} {x r : Request} :
    r ∈ (q.push x).pending ↔ r ∈ q.pending ∨ r = x := by
  by_cases hx : x ∈ q.pending
  · rw [push_of_mem hx]
    exact ⟨Or.inl, fun h => h.elim id fun h => h ▸ hx⟩
  · rw [push_of_not_mem hx]
    exact List.mem_append.trans (or_congr Iff.rfl List.mem_singleton)

theorem mem_pushAll {q : FeedbackQueue} {rs : List Request} {r : Request} :
    r ∈ (q.pushAll rs).pending ↔ r ∈ q.pending ∨ r ∈ rs := by
  induction rs generalizing q with
  | nil => simp [pushAll]
  | cons x rs ih =>
    show r ∈ ((q.push x).pushAll rs).pending ↔ _
    rw [ih, mem_push, List.mem_cons, or_assoc]

/-- Requests line up in the order in which they come first, unless they wait already. -/
theorem pending_pushAll (q : FeedbackQueue) (rs : List Request) :
    (q.pushAll rs).pending = q.pending ++ (rs.filter (· ∉ q.pending)).eraseDups := by
  show _ = q.pending ++ fresh q.pending rs
  induction rs generalizing q with
  | nil => exact (List.append_nil _).symm
  | cons r rs ih =>
    show ((q.push r).pushAll rs).pending = _
    by_cases hr : r ∈ q.pending
    · rw [push_of_mem hr, ih, fresh_cons_of_mem hr]
    · rw [push_of_not_mem hr, ih, fresh_cons_of_not_mem hr, List.append_assoc,
        List.singleton_append]

theorem pushAll_of_nodup {q : FeedbackQueue} {rs : List Request} (h : (q.pending ++ rs).Nodup) :
    q.pushAll rs = ⟨q.pending ++ rs⟩ := by
  induction rs generalizing q with
  | nil => exact congrArg mk (List.append_nil _).symm
  | cons r rs ih =>
    have hr : r ∉ q.pending := fun hr =>
      (List.nodup_append.1 h).2.2 r hr r List.mem_cons_self rfl
    have hmiddle : q.pending ++ r :: rs = q.pending ++ [r] ++ rs := by simp
    show (q.push r).pushAll rs = _
    rw [hmiddle] at h ⊢
    rw [push_of_not_mem hr]
    exact ih h

end FeedbackQueue
end DBindings
