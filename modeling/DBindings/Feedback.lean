import DBindings.Tree.Ty

/-!
# Requests to records

Binding a temporary to a reference parameter needs a helper inside the record of the temporary.
Such a request is raised while code elsewhere is written, and waits until the record is closed.

* `FeedbackQueue`   the requests that wait, in the order in which they were raised, each once.
-/

namespace DBindings

/-- A record is to be given the means to pass temporaries by reference. -/
structure Request where
  record : DeclId
  name : String
  deriving Repr, DecidableEq, Inhabited

/-- The requests that wait. -/
structure FeedbackQueue where
  pending : List Request := []
  deriving Repr, DecidableEq, Inhabited

namespace FeedbackQueue

/-- Adds a request unless it waits already. -/
def push (q : FeedbackQueue) (r : Request) : FeedbackQueue :=
  if q.pending.contains r then q else ⟨q.pending ++ [r]⟩

def pushAll (q : FeedbackQueue) (rs : List Request) : FeedbackQueue := rs.foldl push q

def takeFor (q : FeedbackQueue) (record : DeclId) : List Request × FeedbackQueue :=
  (q.pending.filter (·.record == record), ⟨q.pending.filter (·.record != record)⟩)

def drain (q : FeedbackQueue) : List Request × FeedbackQueue := (q.pending, {})

end FeedbackQueue

end DBindings
