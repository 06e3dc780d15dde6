import OlmReceiver.Proofs.Decryption
import OlmReceiver.Proofs.OneTimeKeys
import OlmReceiver.Proofs.Payload

/-!
# What one decryption records

A decryption appends one of three blocks to the journal of the account: nothing, a one-time key that
was used up without the account being persisted, or a used up key and the persisted account behind
it. The block tells how far the creation of a session went, and with it what the store was asked to
add and whether a plaintext was read.

A call is held against the journal as it is when the call is made.
-/

namespace OlmReceiver

open Ratchet (Session Account JournalEntry Message)

/-- The session that a call hands to the store, with its sender key. -/
def Call.added? : Call → Option (IdentityKey × Session)
  | .add senderKey session => some (senderKey, session)
  | _ => none

namespace Receiver

/-- The sessions that decrypting an event hands to the store, in order. -/
def added (r : Receiver) (e : Event) : List (IdentityKey × Session) :=
  (r.calls e).filterMap Call.added?

/-- The attempts to write that the store has counted. -/
def writeAttempts (r : Receiver) : Nat :=
  r.store.faults.writeAttempts

/-! ## The parts that a call reaches -/

/-- Only the call that adds a session attempts to write. -/
theorem writeAttempts_perform (r : Receiver) (call : Call) :
    (r.perform call).writeAttempts = r.writeAttempts + call.added?.toList.length := by
  cases call with
  | tryStored env => exact congrArg Faults.writeAttempts (faults_tryStored r env)
  | add senderKey session => exact FaultyStore.writeAttempts_add r.store senderKey session
  | _ => rfl

/-- Each session that is handed to the store is one attempt to write. -/
theorem writeAttempts_performAll (r : Receiver) (calls : List Call) :
    (r.performAll calls).writeAttempts =
      r.writeAttempts + (calls.filterMap Call.added?).length := by
  induction calls generalizing r with
  | nil => rfl
  | cons call calls ih =>
    rw [performAll_cons, ih, writeAttempts_perform, Nat.add_assoc]
    cases h : call.added? with
    | none => simp [h]
    | some added => simp [h, Nat.add_comm]

/-- Marks hand nothing to the store. -/
theorem added_marks (requests : List UnwedgeRequest) :
    (requests.map Call.mark).filterMap Call.added? = [] := by
  simp [List.filterMap_map, Call.added?]

/-- Marks leave the account as it is. -/
theorem account_performAll_marks (r : Receiver) (requests : List UnwedgeRequest) :
    (r.performAll (requests.map .mark)).account = r.account := by
  induction requests generalizing r with
  | nil => rfl
  | cons request requests ih => exact ih (r.perform (.mark request))

/-- A pre-key message that no stored session claims leaves every stored session as it was. -/
theorem sessions_tryStored_of_unclaimed {r : Receiver} {env : Envelope}
    (htype : env.type = .preKey)
    (hnone : ∀ s ∈ r.sessions env.senderKey, s.matchesBody env.body = .ok false)
    (key : IdentityKey) : (r.tryStored env).receiver.sessions key = r.sessions key := by
  rw [sessions_tryStored, trial_of_unclaimed htype hnone]
  split
  · rename_i h
    rw [h.1]
  · rfl

/-! ## Sessions created for a message -/

/-- The calls up to the one that persists the account. -/
def bootstrapCalls (env : Envelope) : List Call :=
  [.tryStored env, .create env.senderKey env.body, .persist]

/-- The calls that hand a created session to the store, and marks behind them. -/
def keepingCalls (env : Envelope) (session : Session) (requests : List UnwedgeRequest) :
    List Call :=
  .add env.senderKey session :: requests.map .mark

namespace Bootstraps

variable {r : Receiver} {env : Envelope} {m : Message} {key : String}

/-- The account that the created session leaves behind. -/
theorem account_created (h : r.Bootstraps env m key) :
    (r.performAll [.tryStored env, .create env.senderKey env.body]).account =
      r.account.consume key := by
  have hcreate := Account.newInbound_of_unused h.body h.named h.unused
  change ((r.tryStored env).receiver.account.newInbound env.body).2 = _
  rw [account_tryStored, hcreate]

/-- The account behind the created session, persisted or not. -/
theorem account_persist (h : r.Bootstraps env m key) :
    (r.performAll (bootstrapCalls env)).account =
      (r.account.consume key).persist.2 := by
  change (r.performAll [.tryStored env, .create env.senderKey env.body]).account.persist.2 = _
  rw [h.account_created]

/-- An account that cannot be persisted has recorded the used up key alone. -/
theorem journal_unpersisted (h : r.Bootstraps env m key) (hpersist : r.account.failPersist = true) :
    (r.performAll (bootstrapCalls env)).account.journal =
      r.account.journal ++ [.consumed key] := by
  have hfail : (r.account.consume key).failPersist = true := hpersist
  rw [h.account_persist, Account.persist_of_fail hfail]
  rfl

/-- A persisted account has recorded the used up key, and how many are left. -/
theorem journal_persisted (h : r.Bootstraps env m key) (hpersist : r.account.failPersist = false) :
    (r.performAll (bootstrapCalls env)).account.journal =
      r.account.journal ++
        [.consumed key, .persisted (r.account.consume key).oneTimeKeys.length] := by
  have hok : (r.account.consume key).failPersist = false := hpersist
  rw [h.account_persist, Account.persist_of_ok hok]
  simp [Account.consume]

end Bootstraps

/-! ## Recordings -/

/-- What a decryption with some answer and some calls appends to the journal. -/
inductive Recording {α : Type} (r : Receiver) (answer : Except DecryptError α) (calls : List Call) :
    List JournalEntry → Prop
  /-- No session is created. -/
  | nothing (hanswer : ∀ cause, answer ≠ .error (.persistAccount cause))
    (hadded : calls.filterMap Call.added? = []) : Recording r answer calls []
  /-- A session is created and dropped again, with nothing done to the stored ones. -/
  | unpersisted {key : String} {cause : Cause} (hanswer : answer = .error (.persistAccount cause))
    (hadded : calls.filterMap Call.added? = [])
    (hunread : ∀ senderKey t, .accept senderKey t ∉ calls)
    (hsessions : ∀ senderKey, (r.performAll calls).sessions senderKey = r.sessions senderKey) :
    Recording r answer calls [.consumed key]
  /-- A session is created and, once its key and the account are recorded, handed to the store. -/
  | persisted {key : String} {unused : Nat} {senderKey : IdentityKey} {session : Session}
    (hanswer : ∀ cause, answer ≠ .error (.persistAccount cause))
    (hunused : unused = (r.performAll calls).account.oneTimeKeys.length)
    (hadded : calls.filterMap Call.added? = [(senderKey, session)])
    (hkey : session.oneTimeKey = some key)
    (hmoment : ∀ r', (r', .add senderKey session) ∈ r.moments calls →
      r'.account.journal = r.account.journal ++ [.consumed key, .persisted unused]) :
    Recording r answer calls [.consumed key, .persisted unused]

/-- The calls append to the journal what they should with this answer. -/
def Records (r : Receiver) (answer : Except DecryptError Text) (calls : List Call) : Prop :=
  ∃ block, Recording r answer calls block ∧
    (r.performAll calls).account.journal = r.account.journal ++ block

namespace Bootstraps

variable {r : Receiver} {env : Envelope} {m : Message} {key : String}

/-- An account that cannot be persisted records the used up key alone. -/
theorem records_of_unpersisted (h : r.Bootstraps env m key)
    (hpersist : r.account.failPersist = true) (request : UnwedgeRequest) :
    r.Records (.error (.persistAccount (.ratchet .persistFailed)))
      [.tryStored env, .create env.senderKey env.body, .persist, .mark request] := by
  refine ⟨[.consumed key], .unpersisted rfl rfl (by simp) fun senderKey => ?_, ?_⟩
  · exact sessions_tryStored_of_unclaimed h.type h.matchesBody senderKey
  · exact h.journal_unpersisted hpersist

/-- A persisted account records the used up key and itself before the session is handed over. -/
theorem records_of_persisted (h : r.Bootstraps env m key) (hpersist : r.account.failPersist = false)
    {session : Session} (hkey : session.oneTimeKey = some key) {answer : Except DecryptError Text}
    (hanswer : ∀ cause, answer ≠ .error (.persistAccount cause)) (requests : List UnwedgeRequest) :
    r.Records answer (bootstrapCalls env ++ keepingCalls env session requests) := by
  have hjournal := h.journal_persisted hpersist
  have haccount : (r.performAll (bootstrapCalls env ++ keepingCalls env session requests)).account =
      (r.performAll (bootstrapCalls env)).account := by
    rw [performAll_append, keepingCalls, performAll_cons, account_performAll_marks]
    rfl
  have hadded : (bootstrapCalls env ++ keepingCalls env session requests).filterMap Call.added? =
      [(env.senderKey, session)] := by
    exact congrArg (List.cons (env.senderKey, session)) (added_marks requests)
  refine ⟨[.consumed key, .persisted (r.account.consume key).oneTimeKeys.length],
    .persisted hanswer ?_ hadded hkey fun r' hr' => ?_, by rw [haccount, hjournal]⟩
  · rw [haccount, h.account_persist, Account.oneTimeKeys_persist]
  · rw [moments_append, List.mem_append] at hr'
    rcases hr' with hbefore | hbehind
    · simpa [bootstrapCalls] using mem_of_mem_moments hbefore
    · rcases List.mem_cons.mp hbehind with heq | hmarks
      · cases heq
        exact hjournal
      · simpa using mem_of_mem_moments hmarks

end Bootstraps

/-- A course that only tries the stored sessions, and marks, records nothing. -/
theorem records_of_uncreated {r : Receiver} {env : Envelope} {answer : Except DecryptError Text}
    (hanswer : ∀ cause, answer ≠ .error (.persistAccount cause)) (requests : List UnwedgeRequest) :
    r.Records answer (.tryStored env :: requests.map .mark) := by
  refine ⟨[], .nothing hanswer (added_marks requests), ?_⟩
  rw [performAll_cons, account_performAll_marks, List.append_nil]
  exact congrArg Account.journal (account_tryStored r env)

/-- Every course records what it should. -/
theorem Course.records {r : Receiver} {sender : UserId} {env : Envelope}
    {answer : Except DecryptError Text} {calls : List Call} (h : Course r sender env answer calls) :
    r.Records answer calls := by
  cases h with
  | unread _ => exact records_of_uncreated (by simp) []
  | unmatched _ _ _ _ => exact records_of_uncreated (by simp) []
  | opened _ _ _ => exact records_of_uncreated (by simp) []
  | refused _ _ _ _ _ => exact records_of_uncreated (by simp) [⟨sender, env.senderKey⟩]
  | exhausted _ _ _ => exact records_of_uncreated (by simp) [⟨sender, env.senderKey⟩]
  | uncreated _ _ _ hcreate =>
    refine ⟨[], .nothing (by simp) rfl, ?_⟩
    change ((r.tryStored env).receiver.account.newInbound env.body).2.journal = _
    rw [account_tryStored, hcreate, List.append_nil]
  | unpersisted _ hnew hpersist => exact hnew.records_of_unpersisted hpersist _
  | @created m key _ hnew hpersist _ =>
    have hkey : (r.account.sessionFor m.sessionId key).advance.oneTimeKey = some key :=
      Account.oneTimeKey_sessionFor r.account m.sessionId key
    exact hnew.records_of_persisted hpersist hkey (by simp) []
  | @unusable m key _ hnew hpersist _ =>
    have hkey : (r.account.sessionFor m.sessionId key).advance.oneTimeKey = some key :=
      Account.oneTimeKey_sessionFor r.account m.sessionId key
    exact hnew.records_of_persisted hpersist hkey (by simp) [⟨sender, env.senderKey⟩]

/-! ## Events -/

/-- A payload is refused for other reasons than an account that is not persisted. -/
theorem bind_accept_ne_persistAccount {r : Receiver} {answer : Except DecryptError Text}
    (h : ∀ cause, answer ≠ .error (.persistAccount cause)) (e : Event) (senderKey : IdentityKey) :
    ∀ cause, answer.bind (r.accept e senderKey) ≠ .error (.persistAccount cause) := by
  intro cause hbind
  rcases bind_eq_error_iff.mp hbind with hanswer | ⟨t, -, haccept⟩
  · exact h cause hanswer
  · exact kind_ne_sessionDesync_of_accept haccept rfl

/-- Reading a plaintext changes nothing of what is recorded. -/
theorem Recording.accept {r : Receiver} {answer : Except DecryptError Text} {calls : List Call}
    {block : List JournalEntry} (h : Recording r answer calls block) (e : Event) (env : Envelope) :
    Recording r (answer.bind (r.accept e env.senderKey)) (calls ++ acceptCalls env answer)
      block := by
  have hadds : (acceptCalls env answer).filterMap Call.added? = [] := by
    cases answer <;> rfl
  cases h with
  | nothing hanswer hadded =>
    refine .nothing (bind_accept_ne_persistAccount hanswer e env.senderKey) ?_
    rw [List.filterMap_append, hadded, hadds, List.nil_append]
  | unpersisted hanswer hadded hunread hsessions =>
    subst hanswer
    simpa only [acceptCalls, List.append_nil] using .unpersisted rfl hadded hunread hsessions
  | @persisted key unused senderKey session hanswer hunused hadded hkey hmoment =>
    have hadded' : (calls ++ acceptCalls env answer).filterMap Call.added? =
        [(senderKey, session)] := by
      rw [List.filterMap_append, hadded, hadds, List.append_nil]
    refine .persisted (bind_accept_ne_persistAccount hanswer e env.senderKey) ?_ hadded' hkey
      fun r' hr' => ?_
    · rw [performAll_append, performAll_acceptCalls, hunused]
    · rw [moments_append, List.mem_append] at hr'
      rcases hr' with hbefore | hbehind
      · exact hmoment r' hbefore
      · have hcall := mem_of_mem_moments hbehind
        cases answer <;> simp [acceptCalls] at hcall

/-- Every decryption records what it should. -/
theorem decrypt_recording (r : Receiver) (e : Event) :
    ∃ block, Recording r (r.decrypt e).answer (r.calls e) block ∧
      (r.decrypt e).receiver.account.journal = r.account.journal ++ block := by
  rw [decrypt_receiver]
  rcases r.decrypt_course e with
    ⟨err, hopen, hanswer, hcalls⟩ | ⟨env, answer, calls, -, hcourse, hanswer, hcalls⟩
  · rw [hanswer, hcalls]
    refine ⟨[], .nothing (fun cause heq => ?_) rfl, (List.append_nil _).symm⟩
    have hkind := Envelope.kind_of_ofContent hopen
    cases heq
    cases hkind
  · obtain ⟨block, hrecording, hjournal⟩ := hcourse.records
    rw [hanswer, hcalls]
    refine ⟨block, hrecording.accept e env, ?_⟩
    rw [performAll_append, performAll_acceptCalls, hjournal]

end Receiver

end OlmReceiver
