import OlmReceiver.Proofs.Call
import OlmReceiver.Proofs.Trial

/-!
# The courses that a decryption can take

A message that is meant for us takes one of nine courses. Each course fixes the answer and the
calls, and names what about the stored sessions, the account and the switches leads to it. The
conditions are those of the receiver before the decryption, as the trial of the stored sessions does
not touch the account.

Laws of single decryptions, and of runs of them, are read off the courses.
-/

namespace OlmReceiver

open Ratchet (Session Account Message)

namespace Receiver

/-- The sessions stored for a sender key, oldest first. -/
def sessions (r : Receiver) (key : IdentityKey) : List Session :=
  r.store.inner.sessions key

/-- A stored session opens the message of an envelope. Any session that reads it does for a normal
message; for a pre-key message it has to be the first one that claims it. -/
def Opens (r : Receiver) (env : Envelope) (m : Message) : Prop :=
  match env.type with
  | .normal => ∃ s ∈ r.sessions env.senderKey, s.Reads m
  | .preKey => ∃ s, (r.sessions env.senderKey).find? (·.claims m) = some s ∧ s.Reads m

/-- The account creates a session for the message of an envelope: no stored session claims the
pre-key message, and it names an unused one-time key. -/
structure Bootstraps (r : Receiver) (env : Envelope) (m : Message) (key : String) : Prop where
  type : env.type = .preKey
  body : Message.decode env.body = .ok m
  unclaimed : ∀ s ∈ r.sessions env.senderKey, s.claims m = false
  named : m.oneTimeKey = some key
  unused : r.account.has key = true

/-- How the message of an envelope is decrypted: the answer, and the calls made for it. -/
inductive Course (r : Receiver) (sender : UserId) (env : Envelope) :
    Except DecryptError Text → List Call → Prop
  /-- The stored sessions cannot be read. -/
  | unread (hreads : r.store.faults.failReads = true) :
    Course r sender env (.error (.sessionLookup env.senderKey (.store FaultyStore.readFailure)))
      [.tryStored env]
  /-- A stored session is asked about a body that is no message. -/
  | unmatched {err : Ratchet.Error} (hreads : r.store.faults.failReads = false)
    (htype : env.type = .preKey) (hbody : Message.decode env.body = .error err)
    (hsome : r.sessions env.senderKey ≠ []) :
    Course r sender env (.error (.inboundSessionMatch (.ratchet err))) [.tryStored env]
  /-- A stored session decrypts the message. -/
  | opened {m : Message} (hreads : r.store.faults.failReads = false)
    (hbody : Message.decode env.body = .ok m) (hopens : r.Opens env m) :
    Course r sender env (.ok (Text.ofString m.plaintext)) [.tryStored env]
  /-- The first session that claims the pre-key message does not read it. -/
  | refused {m : Message} {s : Session} (hreads : r.store.faults.failReads = false)
    (htype : env.type = .preKey) (hbody : Message.decode env.body = .ok m)
    (hfirst : (r.sessions env.senderKey).find? (·.claims m) = some s) (hs : ¬ s.Reads m) :
    Course r sender env (.error .decryptionFailedWithMatchingSession)
      [.tryStored env, .mark ⟨sender, env.senderKey⟩]
  /-- No stored session reads the normal message. -/
  | exhausted (hreads : r.store.faults.failReads = false) (htype : env.type = .normal)
    (hnone : ∀ m, Message.decode env.body = .ok m → ¬ r.Opens env m) :
    Course r sender env (.error .decryptionFailedForNormalMessage)
      [.tryStored env, .mark ⟨sender, env.senderKey⟩]
  /-- No stored session claims the pre-key message, and the account creates none for it. -/
  | uncreated {err : Ratchet.Error} (hreads : r.store.faults.failReads = false)
    (htype : env.type = .preKey)
    (hunclaimed : ∀ s ∈ r.sessions env.senderKey, s.matchesBody env.body = .ok false)
    (hcreate : r.account.newInbound env.body = (.error err, r.account)) :
    Course r sender env (.error (.createInboundSession (.ratchet err)))
      [.tryStored env, .create env.senderKey env.body, .mark ⟨sender, env.senderKey⟩]
  /-- A session is created and dropped again, as the account cannot be persisted. -/
  | unpersisted {m : Message} {key : String} (hreads : r.store.faults.failReads = false)
    (hnew : r.Bootstraps env m key) (hpersist : r.account.failPersist = true) :
    Course r sender env (.error (.persistAccount (.ratchet .persistFailed)))
      [.tryStored env, .create env.senderKey env.body, .persist, .mark ⟨sender, env.senderKey⟩]
  /-- A session is created, persisted, handed to the store, and decrypts the message. -/
  | created {m : Message} {key : String} (hreads : r.store.faults.failReads = false)
    (hnew : r.Bootstraps env m key) (hpersist : r.account.failPersist = false)
    (hpoison : r.account.poisonNewSessions = false) :
    Course r sender env (.ok (Text.ofString m.plaintext))
      [.tryStored env, .create env.senderKey env.body, .persist,
        .add env.senderKey (r.account.sessionFor m.sessionId key).advance]
  /-- A session is created, persisted and handed to the store, yet fails on its own message. -/
  | unusable {m : Message} {key : String} (hreads : r.store.faults.failReads = false)
    (hnew : r.Bootstraps env m key) (hpersist : r.account.failPersist = false)
    (hpoison : r.account.poisonNewSessions = true) :
    Course r sender env (.error (.decryptWithNewSession (.ratchet (.poisoned m.sessionId))))
      [.tryStored env, .create env.senderKey env.body, .persist,
        .add env.senderKey (r.account.sessionFor m.sessionId key).advance,
        .mark ⟨sender, env.senderKey⟩]

/-! ## The trial of the stored sessions -/

/-- A failing read ends the trial before it begins. -/
theorem tryStored_of_failReads {r : Receiver} (hreads : r.store.faults.failReads = true)
    (env : Envelope) :
    r.tryStored env =
      ⟨.error (.sessionLookup env.senderKey (.store FaultyStore.readFailure)), r, []⟩ := by
  simp [tryStored, FaultyStore.withSessions_of_failReads hreads]

/-- The verdict of the trial is that of the sessions stored for the sender key. -/
theorem answer_tryStored {r : Receiver} (hreads : r.store.faults.failReads = false)
    (env : Envelope) :
    (r.tryStored env).answer =
      (Trial.ofMessage env.type env.body (r.sessions env.senderKey)).verdict := by
  simp [tryStored, FaultyStore.withSessions_of_reads hreads, sessions]

/-- The trial reports what is reported of the sessions stored for the sender key. -/
theorem notices_tryStored {r : Receiver} (hreads : r.store.faults.failReads = false)
    (env : Envelope) :
    (r.tryStored env).notices =
      (Trial.ofMessage env.type env.body (r.sessions env.senderKey)).notices := by
  simp [tryStored, FaultyStore.withSessions_of_reads hreads, sessions]

/-- The trial reaches no part of the receiver but its store. -/
theorem receiver_tryStored (r : Receiver) (env : Envelope) :
    (r.tryStored env).receiver = { r with store := (r.tryStored env).receiver.store } := by
  cases hreads : r.store.faults.failReads with
  | true => simp [tryStored_of_failReads hreads]
  | false => simp [tryStored, FaultyStore.withSessions_of_reads hreads]

/-- The trial leaves the switches of the store and its count as they are. -/
@[simp] theorem faults_tryStored (r : Receiver) (env : Envelope) :
    (r.tryStored env).receiver.store.faults = r.store.faults := by
  cases hreads : r.store.faults.failReads with
  | true => rw [tryStored_of_failReads hreads]
  | false => simp [tryStored, FaultyStore.withSessions_of_reads hreads]

@[simp] theorem account_tryStored (r : Receiver) (env : Envelope) :
    (r.tryStored env).receiver.account = r.account := by
  rw [receiver_tryStored]

/-- The trial makes of the sessions of the sender key what it makes of them, if they are read at
all, and leaves the other sessions as they are. -/
theorem sessions_tryStored (r : Receiver) (env : Envelope) (key : IdentityKey) :
    (r.tryStored env).receiver.sessions key =
      if key = env.senderKey ∧ r.store.faults.failReads = false then
        (Trial.ofMessage env.type env.body (r.sessions env.senderKey)).sessions
      else r.sessions key := by
  cases hreads : r.store.faults.failReads with
  | true => simp [tryStored_of_failReads hreads]
  | false =>
    simp only [tryStored, FaultyStore.withSessions_of_reads hreads, sessions, and_true]
    exact SessionStore.sessions_withSessions r.store.inner env.senderKey key _
      (Trial.sessions_ofMessage_nil env.type env.body)

/-- A stored session that opens the message decides the trial with its plaintext. -/
theorem verdict_of_opens {r : Receiver} {env : Envelope} {m : Message}
    (hbody : Message.decode env.body = .ok m) (hopens : r.Opens env m) :
    (Trial.ofMessage env.type env.body (r.sessions env.senderKey)).verdict =
      .ok (.decrypted (Text.ofString m.plaintext)) := by
  unfold Opens at hopens
  cases htype : env.type with
  | normal =>
    rw [htype] at hopens
    rw [Trial.ofMessage, Trial.verdict_ofNormal hbody, if_pos hopens]
  | preKey =>
    rw [htype] at hopens
    obtain ⟨s, hfirst, hs⟩ := hopens
    rw [Trial.ofMessage, Trial.verdict_ofPreKey_of_claimed hbody hfirst, if_pos hs]

/-- A pre-key message that no stored session claims leaves the sessions as they were. -/
theorem trial_of_unclaimed {r : Receiver} {env : Envelope} (htype : env.type = .preKey)
    (hnone : ∀ s ∈ r.sessions env.senderKey, s.matchesBody env.body = .ok false) :
    Trial.ofMessage env.type env.body (r.sessions env.senderKey) =
      ⟨.ok .unclaimed, r.sessions env.senderKey, []⟩ := by
  rw [htype, Trial.ofMessage, Trial.ofPreKey_of_unclaimed hnone]

/-! ## From the verdict to the answer -/

/-- A trial without a verdict fails the message with its own error and nothing more. -/
theorem plaintext_of_error {r : Receiver} (sender : UserId) {env : Envelope} {err : DecryptError}
    (h : (r.tryStored env).answer = .error err) :
    (r.plaintext sender env).answer = .error err ∧
      r.plaintextCalls sender env = [.tryStored env] := by
  rw [plaintext_eq, plaintextCalls_eq]
  rcases htry : r.tryStored env with ⟨answer, r', notices⟩
  simp only [htry] at h
  subst h
  exact ⟨rfl, rfl⟩

/-- A verdict is followed by what it asks for, on the receiver that the trial left. -/
theorem plaintext_of_verdict {r : Receiver} (sender : UserId) {env : Envelope} {verdict : Verdict}
    (h : (r.tryStored env).answer = .ok verdict) :
    (r.plaintext sender env).answer =
        ((r.tryStored env).receiver.afterTrial sender env verdict).answer ∧
      r.plaintextCalls sender env =
        .tryStored env :: (r.tryStored env).receiver.verdictCalls sender env verdict := by
  rw [plaintext_eq, plaintextCalls_eq]
  rcases htry : r.tryStored env with ⟨answer, r', notices⟩
  simp only [htry] at h
  subst h
  exact ⟨rfl, rfl⟩

/-! ## Sessions created for a message -/

/-- Where the account creates no session, only the failure is marked. -/
theorem decryptWithNew_of_uncreated {r : Receiver} (sender : UserId) {env : Envelope}
    {err : Ratchet.Error} (hcreate : r.account.newInbound env.body = (.error err, r.account)) :
    (r.decryptWithNew sender env).answer = .error (.createInboundSession (.ratchet err)) ∧
      r.newSessionCalls sender env =
        [.create env.senderKey env.body, .mark ⟨sender, env.senderKey⟩] := by
  rw [decryptWithNew_eq, newSessionCalls_eq]
  simp [Bootstrap.ofBody, hcreate]

section Created

variable {r : Receiver} (sender : UserId) {env : Envelope} {m : Message} {key : String}
  (hbody : Message.decode env.body = .ok m) (hnamed : m.oneTimeKey = some key)
  (hunused : r.account.has key = true)

include hbody hnamed hunused

/-- An account that cannot be persisted fails the message before anybody else is called on. -/
theorem decryptWithNew_of_unpersisted (hpersist : r.account.failPersist = true) :
    (r.decryptWithNew sender env).answer = .error (.persistAccount (.ratchet .persistFailed)) ∧
      r.newSessionCalls sender env =
        [.create env.senderKey env.body, .persist, .mark ⟨sender, env.senderKey⟩] := by
  have hcreate := Account.newInbound_of_unused hbody hnamed hunused
  have hfail : (r.account.consume key).persist = (.error .persistFailed, r.account.consume key) :=
    Account.persist_of_fail hpersist
  rw [decryptWithNew_eq, newSessionCalls_eq]
  simp [Bootstrap.ofBody, hcreate, hfail]

/-- Behind the persisted account, the new session goes to the store whether or not it decrypts. -/
theorem decryptWithNew_of_persisted (hpersist : r.account.failPersist = false) :
    (r.decryptWithNew sender env).answer =
        (if r.account.poisonNewSessions then
          .error (.decryptWithNewSession (.ratchet (.poisoned m.sessionId)))
        else .ok (Text.ofString m.plaintext)) ∧
      r.newSessionCalls sender env =
        .create env.senderKey env.body :: .persist ::
          .add env.senderKey (r.account.sessionFor m.sessionId key).advance ::
            if r.account.poisonNewSessions then [.mark ⟨sender, env.senderKey⟩] else [] := by
  have hcreate := Account.newInbound_of_unused hbody hnamed hunused
  have hok := Account.persist_of_ok (a := r.account.consume key) hpersist
  have hboot : Bootstrap.ofBody r.account env.body =
      ⟨.ok (r.account.sessionFor m.sessionId key), (r.account.consume key).persist.2⟩ := by
    simp only [Bootstrap.ofBody, hcreate, hok]
  rw [decryptWithNew_eq, newSessionCalls_eq]
  cases hpoison : r.account.poisonNewSessions with
  | true =>
    have hattempt : (r.account.sessionFor m.sessionId key).attempt env.body =
        .error (.poisoned m.sessionId) := by
      rw [Session.attempt_of_poisoned hbody (by simp [hpoison]), Account.id_sessionFor]
    simp [hboot, hcreate, hok, hattempt]
  | false =>
    have hattempt : (r.account.sessionFor m.sessionId key).attempt env.body =
        .ok (Text.ofString m.plaintext) :=
      Session.attempt_of_reads hbody ⟨by simp [hpoison], Account.id_sessionFor ..⟩
    simp [hboot, hcreate, hok, hattempt]

end Created

/-! ## Every message takes one course -/

/-- The account decides about a pre-key message that no stored session claims. -/
theorem plaintext_of_unclaimed {r : Receiver} (sender : UserId) {env : Envelope}
    (hreads : r.store.faults.failReads = false) (htype : env.type = .preKey)
    (hnone : ∀ s ∈ r.sessions env.senderKey, s.matchesBody env.body = .ok false) :
    (r.plaintext sender env).answer =
        ((r.tryStored env).receiver.decryptWithNew sender env).answer ∧
      r.plaintextCalls sender env =
        .tryStored env :: (r.tryStored env).receiver.newSessionCalls sender env := by
  have hverdict : (r.tryStored env).answer = .ok .unclaimed := by
    rw [answer_tryStored hreads, trial_of_unclaimed htype hnone]
  simpa only [afterTrial_eq, verdictCalls_eq, htype] using plaintext_of_verdict sender hverdict

/-- No stored session says of a message that it was created for it, if the account is to create one. -/
theorem Bootstraps.matchesBody {r : Receiver} {env : Envelope} {m : Message} {key : String}
    (h : r.Bootstraps env m key) :
    ∀ s ∈ r.sessions env.senderKey, s.matchesBody env.body = .ok false := by
  intro s hs
  rw [Session.matchesBody_of_decode h.body, h.unclaimed s hs]

/-- No session that is stored makes anything of a normal message that none opens. -/
theorem verdict_of_exhausted {r : Receiver} {env : Envelope} (htype : env.type = .normal)
    (hnone : ∀ m, Message.decode env.body = .ok m → ¬ r.Opens env m) :
    (Trial.ofMessage env.type env.body (r.sessions env.senderKey)).verdict = .ok .unclaimed := by
  rw [htype, Trial.ofMessage]
  cases hbody : Message.decode env.body with
  | error err => exact Trial.verdict_ofNormal_of_malformed hbody _
  | ok m =>
    have hunread : ¬ ∃ s ∈ r.sessions env.senderKey, s.Reads m := by
      simpa [Opens, htype] using hnone m hbody
    rw [Trial.verdict_ofNormal hbody, if_neg hunread]

/-- A message for which there is a course takes that one. -/
theorem Course.unique {r : Receiver} {sender : UserId} {env : Envelope}
    {answer : Except DecryptError Text} {calls : List Call} (h : Course r sender env answer calls) :
    (r.plaintext sender env).answer = answer ∧ r.plaintextCalls sender env = calls := by
  have haccount := account_tryStored r env
  cases h with
  | unread hreads =>
    exact plaintext_of_error sender (congrArg Outcome.answer (tryStored_of_failReads hreads env))
  | unmatched hreads htype hbody hsome =>
    have htry := answer_tryStored hreads env
    rw [htype, Trial.ofMessage, Trial.ofPreKey_of_malformed hbody hsome] at htry
    exact plaintext_of_error sender htry
  | opened hreads hbody hopens =>
    have htry := (answer_tryStored hreads env).trans (verdict_of_opens hbody hopens)
    exact plaintext_of_verdict sender htry
  | refused hreads htype hbody hfirst hs =>
    have htry := answer_tryStored hreads env
    rw [htype, Trial.ofMessage, Trial.verdict_ofPreKey_of_claimed hbody hfirst, if_neg hs] at htry
    exact plaintext_of_verdict sender htry
  | exhausted hreads htype hnone =>
    have htry := (answer_tryStored hreads env).trans (verdict_of_exhausted htype hnone)
    simpa only [afterTrial_eq, verdictCalls_eq, htype] using plaintext_of_verdict sender htry
  | uncreated hreads htype hunclaimed hcreate =>
    obtain ⟨hanswer, hcalls⟩ := plaintext_of_unclaimed sender hreads htype hunclaimed
    obtain ⟨hnew, hnext⟩ := decryptWithNew_of_uncreated sender (by rw [haccount]; exact hcreate)
    exact ⟨hanswer.trans hnew, by rw [hcalls, hnext]⟩
  | unpersisted hreads hnew hpersist =>
    obtain ⟨hanswer, hcalls⟩ := plaintext_of_unclaimed sender hreads hnew.type hnew.matchesBody
    obtain ⟨hans, hnext⟩ := decryptWithNew_of_unpersisted sender hnew.body hnew.named
      (by rw [haccount]; exact hnew.unused) (by rw [haccount]; exact hpersist)
    exact ⟨hanswer.trans hans, by rw [hcalls, hnext]⟩
  | created hreads hnew hpersist hpoison =>
    obtain ⟨hanswer, hcalls⟩ := plaintext_of_unclaimed sender hreads hnew.type hnew.matchesBody
    obtain ⟨hans, hnext⟩ := decryptWithNew_of_persisted sender hnew.body hnew.named
      (by rw [haccount]; exact hnew.unused) (by rw [haccount]; exact hpersist)
    rw [haccount, hpoison] at hans hnext
    exact ⟨hanswer.trans hans, by rw [hcalls, hnext]; rfl⟩
  | unusable hreads hnew hpersist hpoison =>
    obtain ⟨hanswer, hcalls⟩ := plaintext_of_unclaimed sender hreads hnew.type hnew.matchesBody
    obtain ⟨hans, hnext⟩ := decryptWithNew_of_persisted sender hnew.body hnew.named
      (by rw [haccount]; exact hnew.unused) (by rw [haccount]; exact hpersist)
    rw [haccount, hpoison] at hans hnext
    exact ⟨hanswer.trans hans, by rw [hcalls, hnext]; rfl⟩

/-- A normal message is opened by a stored session, or exhausts them. -/
theorem course_of_normal {r : Receiver} (sender : UserId) {env : Envelope}
    (hreads : r.store.faults.failReads = false) (htype : env.type = .normal) :
    ∃ answer calls, Course r sender env answer calls := by
  by_cases hopens : ∃ m, Message.decode env.body = .ok m ∧ r.Opens env m
  · obtain ⟨m, hbody, hopens⟩ := hopens
    exact ⟨_, _, .opened hreads hbody hopens⟩
  · exact ⟨_, _, .exhausted hreads htype fun m hbody h => hopens ⟨m, hbody, h⟩⟩

/-- A pre-key message that no stored session claims depends on the account. -/
theorem course_of_unclaimed {r : Receiver} (sender : UserId) {env : Envelope}
    (hreads : r.store.faults.failReads = false) (htype : env.type = .preKey)
    (hnone : ∀ s ∈ r.sessions env.senderKey, s.matchesBody env.body = .ok false) :
    ∃ answer calls, Course r sender env answer calls := by
  rcases Account.newInbound_cases r.account env.body with
    ⟨m, key, hbody, hnamed, hunused, -⟩ | ⟨err, hcreate⟩
  · have hnew : r.Bootstraps env m key := by
      refine ⟨htype, hbody, fun s hs => ?_, hnamed, hunused⟩
      simpa [Session.matchesBody_of_decode hbody] using hnone s hs
    cases hpersist : r.account.failPersist with
    | true => exact ⟨_, _, .unpersisted hreads hnew hpersist⟩
    | false =>
      cases hpoison : r.account.poisonNewSessions with
      | true => exact ⟨_, _, .unusable hreads hnew hpersist hpoison⟩
      | false => exact ⟨_, _, .created hreads hnew hpersist hpoison⟩
  · exact ⟨_, _, .uncreated hreads htype hnone hcreate⟩

/-- A pre-key message belongs to its first claiming session, or to none. -/
theorem course_of_preKey {r : Receiver} (sender : UserId) {env : Envelope}
    (hreads : r.store.faults.failReads = false) (htype : env.type = .preKey) :
    ∃ answer calls, Course r sender env answer calls := by
  cases hbody : Message.decode env.body with
  | error err =>
    by_cases hsome : r.sessions env.senderKey = []
    · exact course_of_unclaimed sender hreads htype (by simp [hsome])
    · exact ⟨_, _, .unmatched hreads htype hbody hsome⟩
  | ok m =>
    cases hfirst : (r.sessions env.senderKey).find? (·.claims m) with
    | none =>
      refine course_of_unclaimed sender hreads htype fun s hs => ?_
      rw [Session.matchesBody_of_decode hbody]
      simpa using List.find?_eq_none.mp hfirst s hs
    | some s =>
      by_cases hs : s.Reads m
      · exact ⟨_, _, .opened hreads hbody (by simp [Opens, htype, hfirst, hs])⟩
      · exact ⟨_, _, .refused hreads htype hbody hfirst hs⟩

/-- The answer to a message and the calls made for it are those of one of the courses. -/
theorem plaintext_course (r : Receiver) (sender : UserId) (env : Envelope) :
    Course r sender env (r.plaintext sender env).answer (r.plaintextCalls sender env) := by
  have hcourse : ∃ answer calls, Course r sender env answer calls := by
    cases hreads : r.store.faults.failReads with
    | true => exact ⟨_, _, .unread hreads⟩
    | false =>
      cases htype : env.type with
      | preKey => exact course_of_preKey sender hreads htype
      | normal => exact course_of_normal sender hreads htype
  obtain ⟨answer, calls, h⟩ := hcourse
  obtain ⟨hanswer, hcalls⟩ := h.unique
  rwa [hanswer, hcalls]

end Receiver

end OlmReceiver
