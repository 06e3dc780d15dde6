import OlmReceiver.Identity

/-!
# Unwedging

When a session is out of sync with its peer, the device of the peer is marked, so that the next
message to it starts a new session. A queue keeps each marked device once, in the order of the
first marks, until it is taken or cleared; a recorder keeps every mark.
-/

namespace OlmReceiver

/-- A device whose session is out of sync, known by its owner and its identity key. -/
structure UnwedgeRequest where
  userId : UserId
  senderKey : IdentityKey
deriving DecidableEq

/-- The requests that are pending, oldest first. -/
abbrev UnwedgeQueue := List UnwedgeRequest

namespace UnwedgeQueue

/-- Adds a request unless it is pending. -/
def mark (q : UnwedgeQueue) (r : UnwedgeRequest) : UnwedgeQueue :=
  if r ∈ q then q else q ++ [r]

/-- All pending requests, and the queue without them. -/
def take (q : UnwedgeQueue) : List UnwedgeRequest × UnwedgeQueue :=
  (q, [])

/-- Whether a request is pending. -/
def isMarked (q : UnwedgeQueue) (r : UnwedgeRequest) : Bool :=
  r ∈ q

/-- Removes a request, and says whether it was pending. -/
def clear (q : UnwedgeQueue) (r : UnwedgeRequest) : Bool × UnwedgeQueue :=
  let rest := q.filter fun r' => decide (r' ≠ r)
  (rest.length ≠ q.length, rest)

theorem mem_mark {q : UnwedgeQueue} {r r' : UnwedgeRequest} :
    r' ∈ q.mark r ↔ r' = r ∨ r' ∈ q := by
  unfold mark
  split
  · grind
  · grind

end UnwedgeQueue

/-- Where marks go: a queue that drops repeated marks, or a record of all of them. -/
inductive UnwedgeSink where
  | queue (pending : UnwedgeQueue)
  | record (marks : List UnwedgeRequest)

namespace UnwedgeSink

/-- Marks a device. -/
def mark (s : UnwedgeSink) (r : UnwedgeRequest) : UnwedgeSink :=
  match s with
  | .queue q => .queue (q.mark r)
  | .record marks => .record (marks ++ [r])

/-- Takes the requests of a queue; a record has none to take. -/
def take : UnwedgeSink → Option (List UnwedgeRequest) × UnwedgeSink
  | .queue q => (some q.take.1, .queue q.take.2)
  | .record marks => (none, .record marks)

/-- Clears a request of a queue, and says whether it was pending. -/
def clear (s : UnwedgeSink) (r : UnwedgeRequest) : Option Bool × UnwedgeSink :=
  match s with
  | .queue q => (some (q.clear r).1, .queue (q.clear r).2)
  | .record marks => (none, .record marks)

/-- Whether a request is pending in a queue. -/
def isMarked (s : UnwedgeSink) (r : UnwedgeRequest) : Option Bool :=
  match s with
  | .queue q => some (q.isMarked r)
  | .record _ => none

/-- The requests that wait, or all that were recorded. -/
def requests : UnwedgeSink → List UnwedgeRequest
  | .queue q => q
  | .record marks => marks

/-- Marking adds the request, and loses none. -/
theorem mem_requests_mark {s : UnwedgeSink} {r r' : UnwedgeRequest} :
    r' ∈ (s.mark r).requests ↔ r' = r ∨ r' ∈ s.requests := by
  cases s with
  | queue q => exact UnwedgeQueue.mem_mark
  | record marks => simp [mark, requests, or_comm]

/-- Marking one after the other adds all of them. -/
theorem mem_requests_foldl_mark {s : UnwedgeSink} {r : UnwedgeRequest}
    (marks : List UnwedgeRequest) :
    r ∈ (marks.foldl mark s).requests ↔ r ∈ marks ∨ r ∈ s.requests := by
  induction marks generalizing s with
  | nil => simp
  | cons r' marks ih =>
    rw [List.foldl_cons, ih, mem_requests_mark, List.mem_cons, or_left_comm, or_assoc]

end UnwedgeSink

end OlmReceiver
