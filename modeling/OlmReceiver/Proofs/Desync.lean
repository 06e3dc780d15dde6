import OlmReceiver.Proofs.Decryption
import OlmReceiver.Proofs.Payload
import OlmReceiver.Receiver.Run

/-!
# Unwedging exactly on desync

A decryption hands the sink one request when it fails with an error of the kind `sessionDesync`, and
none in all other cases. Which requests a run hands over can therefore be told from its answers
alone. A sink that records its marks holds them in order, along with those marked by hand; the
answers of a queue say less, as it drops repeated marks.
-/

namespace OlmReceiver

/-- The answer is an error that shows a session to be out of sync. -/
def desynced {α : Type} : Except DecryptError α → Bool
  | .error err => err.isSessionDesync
  | .ok _ => false

/-- The request for the device that the content of an event names as its sender's. -/
def Event.request? (e : Event) : Option UnwedgeRequest :=
  e.senderKey?.map fun key => ⟨e.sender, key⟩

/-- The request that a call hands to the sink. -/
def Call.request? : Call → Option UnwedgeRequest
  | .mark request => some request
  | _ => none

namespace Receiver

/-- The requests that decrypting an event hands to the sink, in order. -/
def handed (r : Receiver) (e : Event) : List UnwedgeRequest :=
  (r.calls e).filterMap Call.request?

/-! ## One decryption -/

/-- Only the call that marks reaches the sink. -/
theorem sink_perform (r : Receiver) (call : Call) :
    (r.perform call).sink = call.request?.toList.foldl UnwedgeSink.mark r.sink := by
  cases call with
  | tryStored env =>
    rw [perform_tryStored, receiver_tryStored]
    rfl
  | _ => rfl

/-- The sink is changed by the requests that it is handed, and by nothing else. -/
theorem sink_performAll (r : Receiver) (calls : List Call) :
    (r.performAll calls).sink = (calls.filterMap Call.request?).foldl UnwedgeSink.mark r.sink := by
  induction calls generalizing r with
  | nil => rfl
  | cons call calls ih =>
    rw [performAll_cons, ih, sink_perform]
    cases h : call.request? <;> simp [h]

/-- The sink after a decryption. -/
theorem sink_decrypt (r : Receiver) (e : Event) :
    (r.decrypt e).receiver.sink = (r.handed e).foldl UnwedgeSink.mark r.sink := by
  rw [decrypt_receiver, sink_performAll, handed]

/-- A course marks the sender's device once where its answer is out of sync, and else never. -/
theorem Course.requests {r : Receiver} {sender : UserId} {env : Envelope}
    {answer : Except DecryptError Text} {calls : List Call} (h : Course r sender env answer calls) :
    calls.filterMap Call.request? =
      if desynced answer then [⟨sender, env.senderKey⟩] else [] := by
  cases h <;> rfl

/-- What is made of a plaintext shows no session to be out of sync. -/
theorem desynced_bind_accept (r : Receiver) (e : Event) (senderKey : IdentityKey)
    (answer : Except DecryptError Text) :
    desynced (answer.bind (r.accept e senderKey)) = desynced answer := by
  cases answer with
  | error err => rfl
  | ok t =>
    simp only [Except.bind]
    cases haccept : r.accept e senderKey t with
    | ok d => rfl
    | error err =>
      have hkind := kind_ne_sessionDesync_of_accept haccept
      simp [desynced, DecryptError.isSessionDesync, hkind]

/-- Reading a plaintext hands the sink nothing. -/
theorem requests_acceptCalls (env : Envelope) (answer : Except DecryptError Text) :
    (acceptCalls env answer).filterMap Call.request? = [] := by
  cases answer <;> rfl

/-- A decryption is out of sync only with a sender key, and hands over just the request for it. -/
theorem handed_eq (r : Receiver) (e : Event) :
    (∃ key, e.senderKey? = some key ∧ desynced (r.decrypt e).answer = true ∧
      r.handed e = [⟨e.sender, key⟩]) ∨
    desynced (r.decrypt e).answer = false ∧ r.handed e = [] := by
  unfold handed
  rcases r.decrypt_course e with
    ⟨err, hopen, hanswer, hcalls⟩ | ⟨env, answer, calls, hopen, hcourse, hanswer, hcalls⟩
  · have hkind := Envelope.kind_of_ofContent hopen
    refine .inr ⟨?_, by rw [hcalls]; rfl⟩
    simp [hanswer, desynced, DecryptError.isSessionDesync, hkind]
  · rw [hcalls, hanswer, desynced_bind_accept, List.filterMap_append, requests_acceptCalls,
      List.append_nil, hcourse.requests]
    cases desynced answer with
    | true => exact .inl ⟨env.senderKey, Envelope.senderKey?_of_ofContent hopen, rfl, rfl⟩
    | false => exact .inr ⟨rfl, rfl⟩

/-! ## Runs -/

/-- The requests that a step should hand to the sink, told from its answer alone. -/
def requests (r : Receiver) : Step → List UnwedgeRequest
  | .mark request => [request]
  | .decrypt e => if desynced (r.decrypt e).answer then e.request?.toList else []
  | _ => []

/-- The requests that the steps of a run should hand to the sink, in order. -/
def requestsAlong (r : Receiver) : List Step → List UnwedgeRequest
  | [] => []
  | s :: steps => r.requests s ++ (r.step s).2.1.requestsAlong steps

/-- A decryption hands over what its answer says that it should. -/
theorem handed_eq_requests (r : Receiver) (e : Event) : r.handed e = r.requests (.decrypt e) := by
  rcases r.handed_eq e with ⟨key, hkey, hdesynced, hhanded⟩ | ⟨hsynced, hhanded⟩
  · simp [requests, hdesynced, hhanded, Event.request?, hkey]
  · simp [requests, hsynced, hhanded]

/-- Marks are appended to a record one after the other. -/
theorem foldl_mark_record (marks requests : List UnwedgeRequest) :
    requests.foldl UnwedgeSink.mark (.record marks) = .record (marks ++ requests) := by
  induction requests generalizing marks with
  | nil => simp
  | cons request requests ih =>
    rw [List.foldl_cons, UnwedgeSink.mark, ih, List.append_assoc, List.singleton_append]

/-- A step appends its requests to a record. -/
theorem sink_step_of_record {r : Receiver} {marks : List UnwedgeRequest}
    (h : r.sink = .record marks) (s : Step) :
    (r.step s).2.1.sink = .record (marks ++ r.requests s) := by
  cases s with
  | decrypt e =>
    rw [step_decrypt, sink_decrypt, h, foldl_mark_record, handed_eq_requests]
  | addSession key session throughSwitches =>
    cases throughSwitches <;> simp [step, requests, h]
  | mark request => simp [step, requests, mark, UnwedgeSink.mark, h]
  | take => simp [step, requests, UnwedgeSink.take, h]
  | clear request => simp [step, requests, UnwedgeSink.clear, h]
  | _ => simp [step, requests, h]

/-- A run appends the requests of its steps to a record, in order. -/
theorem sink_after_of_record {r : Receiver} {marks : List UnwedgeRequest}
    (h : r.sink = .record marks) (steps : List Step) :
    (r.after steps).sink = .record (marks ++ r.requestsAlong steps) := by
  induction steps generalizing r marks with
  | nil => simp [after, requestsAlong, h]
  | cons s steps ih =>
    have hstep := sink_step_of_record h s
    rw [after_cons, ih hstep, requestsAlong, List.append_assoc]

/-- A decryption hands the sink the request for its sender's device, once, exactly when it fails
with an error of the kind `sessionDesync`; a record holds these requests and the marks in order. -/
theorem marked_iff_desynced (r : Receiver) (e : Event) :
    (∀ err, (r.decrypt e).answer = .error err → err.kind = .sessionDesync →
      ∃ key, e.senderKey? = some key ∧ r.handed e = [⟨e.sender, key⟩]) ∧
    ((∀ err, (r.decrypt e).answer = .error err → err.kind ≠ .sessionDesync) → r.handed e = []) ∧
    (r.decrypt e).receiver.sink = (r.handed e).foldl UnwedgeSink.mark r.sink ∧
    ∀ marks steps, r.sink = .record marks →
      (r.after steps).sink = .record (marks ++ r.requestsAlong steps) := by
  refine ⟨fun err hanswer hkind => ?_, fun hkind => ?_, r.sink_decrypt e, ?_⟩
  · rcases r.handed_eq e with ⟨key, hkey, -, hhanded⟩ | ⟨hsynced, -⟩
    · exact ⟨key, hkey, hhanded⟩
    · simp [hanswer, desynced, DecryptError.isSessionDesync, hkind] at hsynced
  · rcases r.handed_eq e with ⟨key, -, hdesynced, -⟩ | ⟨-, hhanded⟩
    · cases hanswer : (r.decrypt e).answer with
      | ok d => simp [hanswer, desynced] at hdesynced
      | error err =>
        simp only [hanswer, desynced, DecryptError.isSessionDesync, decide_eq_true_eq] at hdesynced
        exact absurd hdesynced (hkind err hanswer)
    · exact hhanded
  · exact fun marks steps h => sink_after_of_record h steps

end Receiver

end OlmReceiver
