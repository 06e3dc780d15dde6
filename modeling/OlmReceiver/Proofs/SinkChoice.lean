import OlmReceiver.Proofs.SameState

/-!
# The sink is written to and never read

A receiver hands its sink requests and does not look at what becomes of them. Two receivers that
differ in nothing but their sinks answer every event alike and keep differing in nothing else, step by
step along every run. Only the steps that take, clear or look up requests are answered by the sink.

A queue is then a view of a record: as long as nothing is taken or cleared, what is pending is what was
recorded, each request where it was recorded first. The sinks may have been in use before.
-/

namespace OlmReceiver

/-- Whether an answer is given by the sink. -/
def Answer.isSinks : Answer → Bool
  | .taken _ | .pending _ => true
  | _ => false

/-- Whether a step can remove requests from a sink. -/
def Step.removesRequests : Step → Bool
  | .take | .clear _ => true
  | _ => false

/-- A mark adds a request to the distinct ones of a record if it was not recorded before. -/
theorem UnwedgeQueue.mark_eraseDups (marks : List UnwedgeRequest) (request : UnwedgeRequest) :
    UnwedgeQueue.mark marks.eraseDups request = (marks ++ [request]).eraseDups := by
  rw [List.eraseDups_append, UnwedgeQueue.mark]
  by_cases hmarked : request ∈ marks
  · simp [hmarked, List.removeAll]
  · simp [hmarked, List.removeAll, List.eraseDups_cons]

/-- A queue that holds the distinct requests of a record does so behind any further marks. -/
theorem UnwedgeSink.foldl_mark_queue (marks requests : List UnwedgeRequest) :
    requests.foldl UnwedgeSink.mark (.queue marks.eraseDups) =
      .queue (marks ++ requests).eraseDups := by
  induction requests generalizing marks with
  | nil => rw [List.append_nil, List.foldl_nil]
  | cons request requests ih =>
    rw [List.foldl_cons, UnwedgeSink.mark, UnwedgeQueue.mark_eraseDups, ih, List.append_assoc,
      List.singleton_append]

namespace Receiver

/-- The receiver with another sink. -/
def withSink (r : Receiver) (sink : UnwedgeSink) : Receiver :=
  { r with sink }

/-- Two receivers differ in nothing but their sinks. -/
def SameButSink (r r' : Receiver) : Prop :=
  ∃ sink, r' = r.withSink sink

/-- Two turns are the same but for the sinks: so are the receivers that they leave, and the answers
are the same, unless it is the sinks that answer. -/
structure SameTurnButSink (t t' : Answer × Receiver × List Notice) : Prop where
  answer : t'.1 = t.1 ∨ t.1.isSinks = true ∧ t'.1.isSinks = true
  receiver : SameButSink t.2.1 t'.2.1

/-- The turns of a run: what each step answers, leaves behind and reports. -/
def turns (r : Receiver) : List Step → List (Answer × Receiver × List Notice)
  | [] => []
  | s :: steps => r.step s :: (r.step s).2.1.turns steps

/-! ## One step -/

/-- Receivers that differ in their sinks alone agree on everything that a decryption looks at. -/
theorem SameButSink.agreeOn {r r' : Receiver} (h : SameButSink r r') (sender : Option IdentityKey)
    (named : String → Prop) : AgreeOn sender named r r' := by
  obtain ⟨sink, rfl⟩ := h
  exact ⟨⟨rfl, rfl, rfl, rfl, rfl, rfl, rfl⟩, fun _ _ => rfl, fun _ _ => rfl⟩

/-- Receivers that differ in their sinks alone answer an event alike and make the same calls for it. -/
theorem SameButSink.answer_calls {r r' : Receiver} (h : SameButSink r r') (e : Event) :
    (r'.decrypt e).answer = (r.decrypt e).answer ∧ r'.calls e = r.calls e := by
  obtain ⟨hanswer, hcalls, -⟩ := (h.agreeOn e.senderKey? fun _ => True).calls fun _ _ => trivial
  exact ⟨hanswer, hcalls⟩

/-- No call lets the sinks reach another part of the receivers. -/
theorem SameButSink.perform {r r' : Receiver} (h : SameButSink r r') (call : Call) :
    SameButSink (r.perform call) (r'.perform call) := by
  obtain ⟨sink, rfl⟩ := h
  cases call with
  | tryStored env =>
    cases hreads : r.store.faults.failReads with
    | true =>
      rw [perform_tryStored, perform_tryStored, tryStored_of_failReads hreads,
        tryStored_of_failReads (r := r.withSink sink) hreads]
      exact ⟨sink, rfl⟩
    | false =>
      rw [perform_tryStored, perform_tryStored, receiver_tryStored_of_reads hreads,
        receiver_tryStored_of_reads (r := r.withSink sink) hreads]
      exact ⟨sink, rfl⟩
  | mark request => exact ⟨sink.mark request, rfl⟩
  | _ => exact ⟨sink, rfl⟩

/-- No calls let the sinks reach another part of the receivers. -/
theorem SameButSink.performAll {r r' : Receiver} (h : SameButSink r r') (calls : List Call) :
    SameButSink (r.performAll calls) (r'.performAll calls) := by
  induction calls generalizing r r' with
  | nil => exact h
  | cons call calls ih => exact ih (h.perform call)

/-- Receivers that differ in their sinks alone take every step alike, but for what the sinks answer. -/
theorem SameButSink.step {r r' : Receiver} (h : SameButSink r r') (s : Step) :
    SameTurnButSink (r.step s) (r'.step s) := by
  cases s with
  | decrypt e =>
    obtain ⟨hanswer, hcalls⟩ := h.answer_calls e
    refine ⟨.inl (congrArg Answer.decrypted hanswer), ?_⟩
    rw [step_decrypt, step_decrypt, decrypt_receiver, decrypt_receiver, hcalls]
    exact h.performAll (r.calls e)
  | take =>
    obtain ⟨sink, rfl⟩ := h
    exact ⟨.inr ⟨rfl, rfl⟩, sink.take.2, rfl⟩
  | clear request =>
    obtain ⟨sink, rfl⟩ := h
    exact ⟨.inr ⟨rfl, rfl⟩, (sink.clear request).2, rfl⟩
  | isMarked request => exact ⟨.inr ⟨rfl, rfl⟩, h⟩
  | mark request =>
    obtain ⟨sink, rfl⟩ := h
    exact ⟨.inl rfl, sink.mark request, rfl⟩
  | addSession key session throughSwitches =>
    obtain ⟨sink, rfl⟩ := h
    cases throughSwitches with
    | true => exact ⟨.inl rfl, sink, rfl⟩
    | false => exact ⟨.inl rfl, sink, rfl⟩
  | _ =>
    obtain ⟨sink, rfl⟩ := h
    exact ⟨.inl rfl, sink, rfl⟩

/-- A step that removes nothing marks the requests that it hands over, and does no more to the sink. -/
theorem sink_step {s : Step} (hs : s.removesRequests = false) (r : Receiver) :
    (r.step s).2.1.sink = (r.requests s).foldl UnwedgeSink.mark r.sink := by
  cases s with
  | decrypt e => rw [step_decrypt, sink_decrypt, handed_eq_requests]
  | take => cases hs
  | clear request => cases hs
  | addSession key session throughSwitches =>
    cases throughSwitches with
    | true => rfl
    | false => rfl
  | _ => rfl

/-! ## Runs -/

/-- Receivers that differ in their sinks alone take every run alike, but for what the sinks answer. -/
theorem SameButSink.turns {r r' : Receiver} (h : SameButSink r r') (steps : List Step) :
    List.Forall₂ SameTurnButSink (r.turns steps) (r'.turns steps) := by
  induction steps generalizing r r' with
  | nil => exact .nil
  | cons s steps ih => exact .cons (h.step s) (ih (h.step s).receiver)

/-- Receivers that differ in their sinks alone hand over the same requests in every run. -/
theorem SameButSink.requestsAlong {r r' : Receiver} (h : SameButSink r r') (steps : List Step) :
    r'.requestsAlong steps = r.requestsAlong steps := by
  induction steps generalizing r r' with
  | nil => rfl
  | cons s steps ih =>
    have hrequests : r'.requests s = r.requests s := by
      cases s with
      | decrypt e => rw [requests, requests, (h.answer_calls e).1]
      | _ => rfl
    rw [Receiver.requestsAlong, Receiver.requestsAlong, hrequests, ih (h.step s).receiver]

/-- A run that removes nothing marks the requests that its steps hand over, in order. -/
theorem sink_after {steps : List Step} (h : ∀ s ∈ steps, s.removesRequests = false) (r : Receiver) :
    (r.after steps).sink = (r.requestsAlong steps).foldl UnwedgeSink.mark r.sink := by
  induction steps generalizing r with
  | nil => rfl
  | cons s steps ih =>
    have hrest := ih (fun s' hs' => h s' (List.mem_cons_of_mem s hs')) (r.step s).2.1
    rw [after_cons, hrest, sink_step (h s List.mem_cons_self), requestsAlong, List.foldl_append]

/-- Run with a queue, a receiver takes the same turns as with a record of its marks, but for what the
sinks answer. If nothing is taken or cleared, the record holds all requests that were handed over, and
the queue those of the record without their repetitions, each in the place where it stands first. -/
theorem sink_unseen (r : Receiver) (pending : UnwedgeQueue) (marks : List UnwedgeRequest)
    (steps : List Step) :
    List.Forall₂ SameTurnButSink ((r.withSink (.record marks)).turns steps)
        ((r.withSink (.queue pending)).turns steps) ∧
      ((r.withSink (.record marks)).after steps).sink.requests =
        marks ++ (r.withSink (.record marks)).requestsAlong steps ∧
      (pending = marks.eraseDups → (∀ s ∈ steps, s.removesRequests = false) →
        ((r.withSink (.queue pending)).after steps).sink.requests =
          ((r.withSink (.record marks)).after steps).sink.requests.eraseDups) := by
  have hsame : SameButSink (r.withSink (.record marks)) (r.withSink (.queue pending)) :=
    ⟨.queue pending, rfl⟩
  have hrecord : ((r.withSink (.record marks)).after steps).sink =
      .record (marks ++ (r.withSink (.record marks)).requestsAlong steps) :=
    sink_after_of_record rfl steps
  refine ⟨hsame.turns steps, congrArg UnwedgeSink.requests hrecord, ?_⟩
  rintro rfl hkeep
  have hqueue : ((r.withSink (.queue marks.eraseDups)).after steps).sink =
      .queue (marks ++ (r.withSink (.record marks)).requestsAlong steps).eraseDups := by
    rw [sink_after hkeep, hsame.requestsAlong]
    exact UnwedgeSink.foldl_mark_queue marks _
  rw [hqueue, hrecord]
  rfl

/-- A device whose message is sent again and again, past a mark of another one, is recorded twice and
pending once. -/
theorem sink_unseen_sent_again :
    let bob : UnwedgeRequest := ⟨⟨"@bob:localhost"⟩, ⟨"BOBKEY"⟩⟩
    let steps : List Step := [.decrypt (preKeyEvent "OTK9"), .mark bob, .decrypt (preKeyEvent "OTK9")]
    let alice : UnwedgeRequest := ⟨⟨"@alice:localhost"⟩, ⟨"ALICEKEY"⟩⟩
    ((withTwoKeys.withSink (.record [])).after steps).sink.requests = [alice, bob, alice] ∧
      ((withTwoKeys.withSink (.queue [])).after steps).sink.requests = [alice, bob] := by
  intro bob steps alice
  have hkeep : ∀ s ∈ steps, s.removesRequests = false := by decide
  have hrecord : ((withTwoKeys.withSink (.record [])).after steps).sink.requests =
      [alice, bob, alice] := by
    decide +kernel
  obtain ⟨-, -, hqueue⟩ := withTwoKeys.sink_unseen [] [] steps
  refine ⟨hrecord, (hqueue rfl hkeep).trans ?_⟩
  rw [hrecord]
  decide

end Receiver

end OlmReceiver
