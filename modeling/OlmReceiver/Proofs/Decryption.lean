import OlmReceiver.Proofs.Course

/-!
# The course of an event

An event follows the course of its message, unless its content already does not open. What is made
of the plaintext depends on the device, the registry and the keys of the account alone, and no call
changes these. The answer to an event is therefore that of its message, held against the receiver as
it was before the decryption.
-/

namespace OlmReceiver

open Ratchet (Account)

namespace Receiver

/-- Two receivers are set up in the same way: as the same device, and with the same switches. -/
structure SameSetup (r r' : Receiver) : Prop where
  device : r'.device = r.device
  registry : r'.registry = r.registry
  keys : r'.account.keys = r.account.keys
  failPersist : r'.account.failPersist = r.account.failPersist
  poisonNewSessions : r'.account.poisonNewSessions = r.account.poisonNewSessions
  failReads : r'.store.faults.failReads = r.store.faults.failReads
  failWrites : r'.store.faults.failWrites = r.store.faults.failWrites

/-- A setup is the same as itself. -/
theorem SameSetup.refl (r : Receiver) : SameSetup r r :=
  ⟨rfl, rfl, rfl, rfl, rfl, rfl, rfl⟩

/-- Being set up in the same way is symmetric. -/
theorem SameSetup.symm {r r' : Receiver} (h : SameSetup r r') : SameSetup r' r :=
  ⟨h.device.symm, h.registry.symm, h.keys.symm, h.failPersist.symm, h.poisonNewSessions.symm,
    h.failReads.symm, h.failWrites.symm⟩

/-- Being set up in the same way is transitive. -/
theorem SameSetup.trans {r r' r'' : Receiver} (h : SameSetup r r') (h' : SameSetup r' r'') :
    SameSetup r r'' where
  device := h'.device.trans h.device
  registry := h'.registry.trans h.registry
  keys := h'.keys.trans h.keys
  failPersist := h'.failPersist.trans h.failPersist
  poisonNewSessions := h'.poisonNewSessions.trans h.poisonNewSessions
  failReads := h'.failReads.trans h.failReads
  failWrites := h'.failWrites.trans h.failWrites

/-- Ciphertexts for both receivers are addressed to the same key. -/
theorem SameSetup.ownKey {r r' : Receiver} (h : SameSetup r r') : r'.ownKey = r.ownKey :=
  congrArg IdentityKeys.curve25519 h.keys

/-- Payloads are held against the setup alone. -/
theorem SameSetup.accept {r r' : Receiver} (h : SameSetup r r') : r'.accept = r.accept := by
  funext e key t
  simp only [Receiver.accept, ownFingerprint, h.device, h.registry, h.keys]

/-- No call changes the setup. -/
theorem sameSetup_perform (r : Receiver) (call : Call) : SameSetup r (r.perform call) := by
  cases call with
  | tryStored env =>
    rw [perform_tryStored, receiver_tryStored]
    constructor <;> simp
  | create key body =>
    rcases Account.newInbound_cases r.account body with ⟨m, otk, -, -, -, h⟩ | ⟨err, h⟩
    · constructor <;> simp [h, Account.consume]
    · constructor <;> simp [h]
  | persist =>
    cases h : r.account.failPersist with
    | true => constructor <;> simp [Account.persist_of_fail h]
    | false => constructor <;> simp [Account.persist_of_ok h]
  | add key session => constructor <;> simp [FaultyStore.faults_add]
  | mark request => exact ⟨rfl, rfl, rfl, rfl, rfl, rfl, rfl⟩
  | accept key t => exact .refl r

/-- No calls change the setup. -/
theorem sameSetup_performAll (r : Receiver) (calls : List Call) :
    SameSetup r (r.performAll calls) := by
  induction calls generalizing r with
  | nil => exact .refl r
  | cons call calls ih => exact (r.sameSetup_perform call).trans (ih (r.perform call))

/-- Payloads are held against the same identity before and behind any calls. -/
theorem accept_performAll (r : Receiver) (calls : List Call) :
    (r.performAll calls).accept = r.accept :=
  (r.sameSetup_performAll calls).accept

/-- Content that does not open ends the decryption without a call. -/
theorem decrypt_of_unopened {r : Receiver} {e : Event} {err : DecryptError}
    (hopen : Envelope.ofContent r.ownKey e.content = .error err) :
    (r.decrypt e).answer = .error err ∧ r.calls e = [] := by
  simp [decrypt_eq, calls_eq, hopen]

/-- Behind the envelope, the answer is that of the plaintext and of the payload in it. -/
theorem decrypt_of_opened {r : Receiver} {e : Event} {env : Envelope}
    (hopen : Envelope.ofContent r.ownKey e.content = .ok env) :
    (r.decrypt e).answer =
        (r.plaintext e.sender env).answer.bind (r.accept e env.senderKey) ∧
      r.calls e =
        r.plaintextCalls e.sender env ++ acceptCalls env (r.plaintext e.sender env).answer := by
  have haccept : (r.plaintext e.sender env).receiver.accept = r.accept := by
    rw [plaintext_receiver, accept_performAll]
  refine ⟨?_, by simp [calls_eq, hopen]⟩
  rcases hplain : r.plaintext e.sender env with ⟨answer, r', notices⟩
  rw [hplain] at haccept
  cases answer with
  | error err => simp [decrypt_eq, hopen, hplain, Except.bind]
  | ok t =>
    simp only [decrypt_eq, hopen, hplain, Except.bind]
    exact congrFun (congrFun (congrFun haccept e) env.senderKey) t

/-- Either the content of an event does not open, or the event follows the course of its message. -/
theorem decrypt_course (r : Receiver) (e : Event) :
    (∃ err, Envelope.ofContent r.ownKey e.content = .error err ∧
      (r.decrypt e).answer = .error err ∧ r.calls e = []) ∨
    ∃ env answer calls, Envelope.ofContent r.ownKey e.content = .ok env ∧
      Course r e.sender env answer calls ∧
      (r.decrypt e).answer = answer.bind (r.accept e env.senderKey) ∧
      r.calls e = calls ++ acceptCalls env answer := by
  cases hopen : Envelope.ofContent r.ownKey e.content with
  | error err => exact .inl ⟨err, rfl, decrypt_of_unopened hopen⟩
  | ok env => exact .inr ⟨env, _, _, rfl, r.plaintext_course e.sender env, decrypt_of_opened hopen⟩

end Receiver

end OlmReceiver
