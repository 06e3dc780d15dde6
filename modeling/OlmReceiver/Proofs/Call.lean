import OlmReceiver.Receiver.Decrypt

/-!
# The calls of a decryption

The list of the calls that decrypting an event makes, in the order in which they are made, says more
than the receiver afterwards: effects on different parts of a receiver commute, their order does not
show in the final state. The calls and the outcome come from one execution of one script. Each call
changes the receiver through the part that it calls on, and replaying them in order passes through
the very receivers that the execution passed through.

The stages of a decryption are given once more as equations, without the script, each for its
outcome and for its calls.
-/

namespace OlmReceiver

open Ratchet (Session Account)

namespace Receiver

/-- The receiver after a call. -/
def perform (r : Receiver) (c : Call) : Receiver :=
  (r.call c).receiver

@[simp] theorem perform_tryStored (r : Receiver) (env : Envelope) :
    r.perform (.tryStored env) = (r.tryStored env).receiver := rfl

@[simp] theorem perform_create (r : Receiver) (key : IdentityKey) (body : String) :
    r.perform (.create key body) = { r with account := (r.account.newInbound body).2 } := rfl

@[simp] theorem perform_persist (r : Receiver) :
    r.perform .persist = { r with account := r.account.persist.2 } := rfl

@[simp] theorem perform_add (r : Receiver) (key : IdentityKey) (session : Session) :
    r.perform (.add key session) = { r with store := (r.store.add key session).2 } := rfl

@[simp] theorem perform_mark (r : Receiver) (request : UnwedgeRequest) :
    r.perform (.mark request) = { r with sink := r.sink.mark request } := rfl

@[simp] theorem perform_accept (r : Receiver) (key : IdentityKey) (t : Text) :
    r.perform (.accept key t) = r := rfl

/-- The receiver after some calls in order. -/
def performAll (r : Receiver) (calls : List Call) : Receiver :=
  calls.foldl perform r

@[simp] theorem performAll_nil (r : Receiver) : r.performAll [] = r := rfl

@[simp] theorem performAll_cons (r : Receiver) (call : Call) (calls : List Call) :
    r.performAll (call :: calls) = (r.perform call).performAll calls := rfl

/-- Calls made one batch after the other. -/
theorem performAll_append (r : Receiver) (first second : List Call) :
    r.performAll (first ++ second) = (r.performAll first).performAll second :=
  List.foldl_append

/-- Calls in order, each with the receiver as it is when the call is made. -/
def moments (r : Receiver) : List Call → List (Receiver × Call)
  | [] => []
  | call :: calls => (r, call) :: (r.perform call).moments calls

/-- The second batch of calls is made on the receiver that the first one leaves. -/
theorem moments_append (r : Receiver) (first second : List Call) :
    r.moments (first ++ second) = r.moments first ++ (r.performAll first).moments second := by
  induction first generalizing r with
  | nil => rfl
  | cons call first ih =>
    rw [List.cons_append, moments, moments, ih, List.cons_append, performAll_cons]

/-- Only calls of the list are made. -/
theorem mem_of_mem_moments {r r' : Receiver} {call : Call} {calls : List Call}
    (h : (r', call) ∈ r.moments calls) : call ∈ calls := by
  induction calls generalizing r with
  | nil => simp [moments] at h
  | cons call' calls ih =>
    rcases List.mem_cons.mp h with heq | hrest
    · cases heq
      exact List.mem_cons_self
    · exact List.mem_cons_of_mem call' (ih hrest)

end Receiver

/-! ## Replaying the calls of a script -/

namespace Script

variable {α : Type}

/-- Replaying the calls of a script passes through the receivers that it made them on. -/
theorem trail_eq_moments (s : Script α) (r : Receiver) : s.trail r = r.moments (s.calls r) := by
  induction s generalizing r with
  | answer result => rfl
  | report notices s ih => exact ih r
  | call c next ih =>
    rw [trail_call, calls_call, Receiver.moments, Receiver.perform]
    cases (r.call c).answer with
    | error err => rfl
    | ok reply => exact congrArg _ (ih reply (r.call c).receiver)

/-- The calls of a script account for every change of the receiver. -/
theorem receiver_run (s : Script α) (r : Receiver) :
    (s.run r).receiver = r.performAll (s.calls r) := by
  induction s generalizing r with
  | answer result => rfl
  | report notices s ih => exact ih r
  | call c next ih =>
    rw [run_call, calls_call, Receiver.performAll_cons, Receiver.perform]
    rcases r.call c with ⟨_ | reply, r', notices⟩
    · rfl
    · exact ih reply r'

end Script

/-! ## The stages and their outcomes -/

/-- What creating a session makes: the session or why there is none, the account afterwards. -/
structure Bootstrap where
  session : Except DecryptError Session
  account : Account

/-- Creates a session from the body of a pre-key message and persists the account. -/
def Bootstrap.ofBody (account : Account) (body : String) : Bootstrap :=
  match account.newInbound body with
  | (.error e, account) => ⟨.error (.createInboundSession (.ratchet e)), account⟩
  | (.ok session, account) =>
    match account.persist with
    | (.error e, account) => ⟨.error (.persistAccount (.ratchet e)), account⟩
    | (.ok (), account) => ⟨.ok session, account⟩

namespace Script

/-- A bootstrap touches the account alone, and is told of if there is a session. -/
theorem run_bootstrap (env : Envelope) (r : Receiver) :
    (bootstrap env).run r =
      match Bootstrap.ofBody r.account env.body with
      | ⟨.error err, account⟩ => ⟨.ok (.error err), { r with account }, []⟩
      | ⟨.ok session, account⟩ =>
        ⟨.ok (.ok session), { r with account }, [.sessionCreated env.senderKey session.id]⟩ := by
  unfold bootstrap Bootstrap.ofBody
  -- The type of a reply is computed from its call, which `Outcome.andThen_ok` does not see through.
  simp only [run_bind, run_ask, Receiver.call, Outcome.andThen]
  rcases r.account.newInbound env.body with ⟨_ | session, account⟩
  · rfl
  · simp only [run_bind, run_ask, Receiver.call, Outcome.andThen]
    rcases account.persist with ⟨_ | _, account'⟩
    · rfl
    · rfl

/-- Keeping a session never fails a message. -/
theorem run_keepSession (key : IdentityKey) (session : Session) (r : Receiver) :
    (keepSession key session).run r =
      ⟨.ok (), { r with store := (r.store.add key session).2 },
        match (r.store.add key session).1 with
        | .ok () => []
        | .error err => [.sessionNotStored key session.id err]⟩ := by
  unfold keepSession
  simp only [run_bind, run_ask, Receiver.call, Outcome.andThen]
  rcases r.store.add key session with ⟨_ | _, store⟩ <;> rfl

/-- A bootstrap asks for the session first, and then for the account to be persisted. -/
theorem calls_bootstrap (env : Envelope) (r : Receiver) :
    (bootstrap env).calls r =
      .create env.senderKey env.body ::
        match (r.account.newInbound env.body).1 with
        | .error _ => []
        | .ok _ => [.persist] := by
  unfold bootstrap
  rcases hnew : r.account.newInbound env.body with ⟨_ | session, account⟩
  · simp [Receiver.call, hnew]
  · rcases hpersist : account.persist with ⟨_ | _, account'⟩ <;>
      simp [Receiver.call, hnew, hpersist]

@[simp] theorem calls_keepSession (key : IdentityKey) (session : Session) (r : Receiver) :
    (keepSession key session).calls r = [.add key session] := by
  unfold keepSession
  rcases hadd : r.store.add key session with ⟨_ | _, store⟩ <;> simp [Receiver.call, hadd]

@[simp] theorem run_desync (sender : UserId) (key : IdentityKey) (notice : Notice)
    (err : DecryptError) (r : Receiver) :
    (desync sender key notice err).run r = ⟨.error err, r.mark sender key, [notice]⟩ := by
  simp [desync, Outcome.andThen, Receiver.call, Receiver.mark]

@[simp] theorem calls_desync (sender : UserId) (key : IdentityKey) (notice : Notice)
    (err : DecryptError) (r : Receiver) :
    (desync sender key notice err).calls r = [.mark ⟨sender, key⟩] := by
  simp [desync, Receiver.call]

end Script

namespace Receiver

/-- A pre-key message that no stored session claims is decrypted with the session of a bootstrap,
behind which the session is kept whether or not it decrypts. -/
theorem decryptWithNew_eq (r : Receiver) (sender : UserId) (env : Envelope) :
    r.decryptWithNew sender env =
      match Bootstrap.ofBody r.account env.body with
      | ⟨.error err, account⟩ =>
        ⟨.error err, { r with account }.mark sender env.senderKey,
          [.bootstrapFailed env.senderKey err]⟩
      | ⟨.ok session, account⟩ =>
        let kept := (Script.keepSession env.senderKey session.advance).run { r with account }
        let notices := .sessionCreated env.senderKey session.id :: kept.notices
        match session.attempt env.body with
        | .ok t => ⟨.ok t, kept.receiver, notices⟩
        | .error err =>
          ⟨.error (.decryptWithNewSession (.ratchet err)), kept.receiver.mark sender env.senderKey,
            notices ++ [.newSessionFailed env.senderKey err]⟩ := by
  rw [decryptWithNew, Script.decryptWithNew, Script.run_bind, Script.run_bootstrap]
  rcases Bootstrap.ofBody r.account env.body with ⟨_ | session, account⟩
  · simp
  · simp only [Outcome.andThen_ok, Session.decrypt, Script.run_bind, Script.run_keepSession]
    cases session.attempt env.body <;> simp

/-- What follows from the verdict of the stored sessions, verdict by verdict. -/
theorem afterTrial_eq (r : Receiver) (sender : UserId) (env : Envelope) (verdict : Verdict) :
    r.afterTrial sender env verdict =
      match verdict with
      | .decrypted t => ⟨.ok t, r, []⟩
      | .refused id =>
        ⟨.error .decryptionFailedWithMatchingSession, r.mark sender env.senderKey,
          [.matchingSessionDesync sender env.senderKey id]⟩
      | .unclaimed =>
        match env.type with
        | .preKey => r.decryptWithNew sender env
        | .normal =>
          ⟨.error .decryptionFailedForNormalMessage, r.mark sender env.senderKey,
            [.normalMessageDesync sender env.senderKey]⟩ := by
  cases verdict with
  | decrypted t => rfl
  | refused id => exact Script.run_desync ..
  | unclaimed =>
    unfold afterTrial Script.afterTrial
    cases env.type with
    | preKey => rfl
    | normal => exact Script.run_desync ..

/-- The stored sessions are tried first, and what follows goes on from what the trial left. -/
theorem plaintext_eq (r : Receiver) (sender : UserId) (env : Envelope) :
    r.plaintext sender env =
      (r.tryStored env).andThen fun verdict r' => r'.afterTrial sender env verdict := by
  rw [plaintext, Script.plaintext, Script.run_bind, Script.run_ask]
  rfl

/-- The envelope is opened, its message decrypted, and the payload accepted in the end. -/
theorem decrypt_eq (r : Receiver) (e : Event) :
    r.decrypt e =
      let began := Notice.began e.sender r.device.deviceId
      match Envelope.ofContent r.ownKey e.content with
      | .error err => ⟨.error err, r, [began]⟩
      | .ok env =>
        match r.plaintext e.sender env with
        | ⟨.error err, r, notices⟩ => ⟨.error err, r, began :: notices⟩
        | ⟨.ok t, r, notices⟩ =>
          let answer := r.accept e env.senderKey t
          ⟨answer, r, began :: notices ++ acceptNotices answer⟩ := by
  unfold decrypt Script.decrypt
  simp only [Script.run_bind, Script.run_tell, Script.run_answer, Script.run_ask,
    Script.run_report, call, Outcome.andThen]
  cases Envelope.ofContent r.ownKey e.content with
  | error err => rfl
  | ok env =>
    simp only [plaintext]
    rcases (Script.plaintext e.sender env).run r with ⟨_ | t, r', notices⟩
    · rfl
    · simp

/-! ## The stages and their calls -/

/-- The calls for a pre-key message that no stored session claims. -/
def newSessionCalls (r : Receiver) (sender : UserId) (env : Envelope) : List Call :=
  (Script.decryptWithNew sender env).calls r

/-- The calls that follow the verdict of the stored sessions. -/
def verdictCalls (r : Receiver) (sender : UserId) (env : Envelope) (verdict : Verdict) : List Call :=
  (Script.afterTrial sender env verdict).calls r

/-- The calls that decrypt the message of an envelope. -/
def plaintextCalls (r : Receiver) (sender : UserId) (env : Envelope) : List Call :=
  (Script.plaintext sender env).calls r

/-- The call that reads a plaintext, if there is one. -/
def acceptCalls (env : Envelope) : Except DecryptError Text → List Call
  | .error _ => []
  | .ok plaintext => [.accept env.senderKey plaintext]

/-- The account creates the session and is persisted before the session goes to the store; a failure
on the way is marked at once. -/
theorem newSessionCalls_eq (r : Receiver) (sender : UserId) (env : Envelope) :
    r.newSessionCalls sender env =
      .create env.senderKey env.body ::
        match r.account.newInbound env.body with
        | (.error _, _) => [.mark ⟨sender, env.senderKey⟩]
        | (.ok session, account) =>
          .persist ::
            match account.persist.1 with
            | .error _ => [.mark ⟨sender, env.senderKey⟩]
            | .ok () =>
              .add env.senderKey session.advance ::
                match session.attempt env.body with
                | .error _ => [.mark ⟨sender, env.senderKey⟩]
                | .ok _ => [] := by
  rw [newSessionCalls, Script.decryptWithNew, Script.calls_bind, Script.calls_bootstrap,
    Script.run_bootstrap, Bootstrap.ofBody]
  rcases r.account.newInbound env.body with ⟨_ | session, account⟩
  · simp
  · dsimp only
    rcases account.persist with ⟨_ | _, account'⟩
    · simp
    · simp only [Session.decrypt, Script.calls_bind, Script.run_keepSession]
      cases session.attempt env.body <;> simp

/-- The calls that follow from a verdict, verdict by verdict. -/
theorem verdictCalls_eq (r : Receiver) (sender : UserId) (env : Envelope) (verdict : Verdict) :
    r.verdictCalls sender env verdict =
      match verdict with
      | .decrypted _ => []
      | .refused _ => [.mark ⟨sender, env.senderKey⟩]
      | .unclaimed =>
        match env.type with
        | .preKey => r.newSessionCalls sender env
        | .normal => [.mark ⟨sender, env.senderKey⟩] := by
  cases verdict with
  | decrypted t => rfl
  | refused id => exact Script.calls_desync ..
  | unclaimed =>
    unfold verdictCalls Script.afterTrial
    cases env.type with
    | preKey => rfl
    | normal => exact Script.calls_desync ..

/-- The trial comes first, and the verdict decides on what the trial left. -/
theorem plaintextCalls_eq (r : Receiver) (sender : UserId) (env : Envelope) :
    r.plaintextCalls sender env =
      .tryStored env ::
        match (r.tryStored env).answer with
        | .error _ => []
        | .ok verdict => (r.tryStored env).receiver.verdictCalls sender env verdict := by
  rw [plaintextCalls, Script.plaintext, Script.calls_bind, Script.calls_ask, Script.run_ask, call]
  cases (r.tryStored env).answer <;> rfl

/-- The plaintext is read behind all calls for its message. -/
theorem calls_eq (r : Receiver) (e : Event) :
    r.calls e =
      match Envelope.ofContent r.ownKey e.content with
      | .error _ => []
      | .ok env =>
        r.plaintextCalls e.sender env ++ acceptCalls env (r.plaintext e.sender env).answer := by
  change (Script.decrypt r.device.deviceId r.ownKey e).calls r = _
  unfold Script.decrypt
  simp only [Script.calls_bind, Script.calls_tell, Script.run_tell, Script.calls_answer,
    Script.run_answer, Script.calls_ask, Script.run_ask, Script.calls_report, call,
    List.nil_append]
  cases Envelope.ofContent r.ownKey e.content with
  | error err => rfl
  | ok env =>
    simp only [plaintext, plaintextCalls]
    cases ((Script.plaintext e.sender env).run r).answer <;> rfl

/-! ## Performing the calls -/

/-- Replaying the calls of a decryption passes through the receivers that it made them on. -/
theorem trail_eq_moments (r : Receiver) (e : Event) : r.trail e = r.moments (r.calls e) :=
  Script.trail_eq_moments _ r

/-- Performing the calls of a decryption in order gives exactly the receiver that it leaves. -/
theorem decrypt_receiver (r : Receiver) (e : Event) :
    (r.decrypt e).receiver = r.performAll (r.calls e) :=
  Script.receiver_run _ r

/-- The calls behind a plaintext account for every change of the receiver. -/
theorem plaintext_receiver (r : Receiver) (sender : UserId) (env : Envelope) :
    (r.plaintext sender env).receiver = r.performAll (r.plaintextCalls sender env) :=
  Script.receiver_run _ r

/-- Keeping a session is nothing but the call that adds it. -/
theorem receiver_keepSession (r : Receiver) (key : IdentityKey) (session : Session) :
    ((Script.keepSession key session).run r).receiver = r.perform (.add key session) := by
  rw [Script.receiver_run, Script.calls_keepSession, performAll_cons, performAll_nil]

/-- Reading a plaintext as a payload changes nothing. -/
@[simp] theorem performAll_acceptCalls (r : Receiver) (env : Envelope)
    (answer : Except DecryptError Text) :
    r.performAll (acceptCalls env answer) = r := by
  cases answer <;> rfl

/-- An event that does not open leaves the receiver as it was; else its plaintext decides. -/
theorem decrypt_receiver_eq (r : Receiver) (e : Event) :
    (r.decrypt e).receiver =
      match Envelope.ofContent r.ownKey e.content with
      | .error _ => r
      | .ok env => (r.plaintext e.sender env).receiver := by
  rw [decrypt_receiver, calls_eq]
  cases Envelope.ofContent r.ownKey e.content with
  | error err => rfl
  | ok env => simp only [performAll_append, performAll_acceptCalls, plaintext_receiver]

end Receiver

end OlmReceiver
