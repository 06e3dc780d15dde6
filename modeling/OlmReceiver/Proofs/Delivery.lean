import OlmReceiver.Proofs.Decryption
import OlmReceiver.Proofs.Payload

/-!
# Which events are delivered

An event is delivered exactly when there is a delivery of it: formats that are read one inside the
other down to the content of a payload, a session that opens the message, and identities that
match. Nothing weaker is let through, and nothing that has a delivery is dropped. What is delivered
repeats the event and the payload, and the plaintext is that of the message in our own entry.

Reading the formats is taken here as it is defined by their shapes.
-/

namespace OlmReceiver

open Ratchet (Session Account Message)

namespace Receiver

/-- The message of an envelope is decrypted to a text: by the trial of the stored sessions, or by a
bootstrap where none of them claims a pre-key message. -/
def Obtains (r : Receiver) (env : Envelope) (t : Text) : Prop :=
  let verdict := (Trial.ofMessage env.type env.body (r.sessions env.senderKey)).verdict
  verdict = .ok (.decrypted t) ∨
    env.type = .preKey ∧ verdict = .ok .unclaimed ∧
      ∃ session account, Bootstrap.ofBody r.account env.body = ⟨.ok session, account⟩ ∧
        session.attempt env.body = .ok t

/-- The message of an envelope has a plaintext for us: a stored session opens it, or the account
creates an unpoisoned session for it and is persisted. -/
def Yields (r : Receiver) (env : Envelope) (m : Message) : Prop :=
  r.Opens env m ∨
    ∃ key, r.Bootstraps env m key ∧ r.account.failPersist = false ∧
      r.account.poisonNewSessions = false

/-- A stored session opens a pre-key message only where one claims it. -/
theorem Opens.claimed {r : Receiver} {env : Envelope} {m : Message} (h : r.Opens env m)
    (htype : env.type = .preKey) : ∃ s ∈ r.sessions env.senderKey, s.claims m = true := by
  simp only [Opens, htype] at h
  obtain ⟨s, hfirst, -⟩ := h
  exact ⟨s, List.mem_of_find?_eq_some hfirst, by simpa using List.find?_some hfirst⟩

/-- No stored session opens a message for which the account creates one. -/
theorem Bootstraps.not_opens {r : Receiver} {env : Envelope} {m : Message} {key : String}
    (h : r.Bootstraps env m key) : ¬ r.Opens env m := by
  intro hopens
  obtain ⟨s, hs, hclaims⟩ := hopens.claimed h.type
  simp [h.unclaimed s hs] at hclaims

/-- A message has a plaintext for us on just the courses that end without an error. -/
theorem Course.answer_of_yields {r : Receiver} {sender : UserId} {env : Envelope}
    {answer : Except DecryptError Text} {calls : List Call} (h : Course r sender env answer calls)
    {m : Message} (hreads : r.store.faults.failReads = false)
    (hbody : Message.decode env.body = .ok m) (hyields : r.Yields env m) :
    answer = .ok (Text.ofString m.plaintext) := by
  cases h with
  | unread hfail => simp [hreads] at hfail
  | unmatched _ _ hmalformed _ => simp [hbody] at hmalformed
  | opened _ hbody' _ => simp_all
  | @refused m' s _ htype hbody' hfirst hs =>
    obtain rfl : m' = m := by simpa [hbody'] using hbody
    rcases hyields with hopens | ⟨key, hnew, -⟩
    · simp only [Opens, htype, hfirst] at hopens
      obtain ⟨s', heq, hs'⟩ := hopens
      cases heq
      exact absurd hs' hs
    · have hclaims : s.claims m' = true := by simpa using List.find?_some hfirst
      simp [hnew.unclaimed s (List.mem_of_find?_eq_some hfirst)] at hclaims
  | exhausted _ htype hnone =>
    rcases hyields with hopens | ⟨key, hnew, -⟩
    · exact absurd hopens (hnone m hbody)
    · simp [hnew.type] at htype
  | uncreated _ htype hunclaimed hcreate =>
    rcases hyields with hopens | ⟨key, hnew, -⟩
    · obtain ⟨s, hs, hclaims⟩ := hopens.claimed htype
      simpa [Session.matchesBody_of_decode hbody, hclaims] using hunclaimed s hs
    · simp [Account.newInbound_of_unused hbody hnew.named hnew.unused] at hcreate
  | @unpersisted m' _ _ hnew hfail =>
    obtain rfl : m' = m := by simpa [hnew.body] using hbody
    rcases hyields with hopens | ⟨_, _, hpersist, -⟩
    · exact absurd hopens hnew.not_opens
    · simp [hpersist] at hfail
  | @created m' _ _ hnew _ _ =>
    obtain rfl : m' = m := by simpa [hnew.body] using hbody
    rfl
  | @unusable m' _ _ hnew _ hpoison =>
    obtain rfl : m' = m := by simpa [hnew.body] using hbody
    rcases hyields with hopens | ⟨_, _, -, hsound⟩
    · exact absurd hopens hnew.not_opens
    · simp [hsound] at hpoison

/-- The plaintext of a message is its own, and there is one exactly where some session yields it. -/
theorem plaintext_eq_ok_iff_yields {r : Receiver} {sender : UserId} {env : Envelope} {t : Text} :
    (r.plaintext sender env).answer = .ok t ↔
      r.store.faults.failReads = false ∧
        ∃ m, Message.decode env.body = .ok m ∧ r.Yields env m ∧ t = Text.ofString m.plaintext := by
  have hcourse := r.plaintext_course sender env
  constructor
  · intro h
    rw [h] at hcourse
    generalize r.plaintextCalls sender env = calls at hcourse
    cases hcourse with
    | opened hreads hbody hopens => exact ⟨hreads, _, hbody, .inl hopens, rfl⟩
    | created hreads hnew hpersist hpoison =>
      exact ⟨hreads, _, hnew.body, .inr ⟨_, hnew, hpersist, hpoison⟩, rfl⟩
  · rintro ⟨hreads, m, hbody, hyields, rfl⟩
    exact hcourse.answer_of_yields hreads hbody hyields

/-- A new session decrypts the message that it was created for, or there is no plaintext. -/
theorem decryptWithNew_eq_ok_iff {r : Receiver} {sender : UserId} {env : Envelope} {t : Text} :
    (r.decryptWithNew sender env).answer = .ok t ↔
      ∃ session account, Bootstrap.ofBody r.account env.body = ⟨.ok session, account⟩ ∧
        session.attempt env.body = .ok t := by
  rw [decryptWithNew_eq]
  rcases Bootstrap.ofBody r.account env.body with ⟨_ | session, account⟩
  · simp
  · simp only [Bootstrap.mk.injEq, Except.ok.injEq]
    cases hattempt : session.attempt env.body with
    | error err => simp [hattempt]
    | ok t' => simp [hattempt]

/-- Where the stored sessions can be read, the plaintext is what the message is decrypted to. -/
theorem plaintext_eq_ok_iff_obtains {r : Receiver} {sender : UserId} {env : Envelope} {t : Text} :
    (r.plaintext sender env).answer = .ok t ↔
      r.store.faults.failReads = false ∧ r.Obtains env t := by
  cases hreads : r.store.faults.failReads with
  | true =>
    have htry := congrArg Outcome.answer (tryStored_of_failReads hreads env)
    obtain ⟨hanswer, -⟩ := plaintext_of_error sender htry
    simp [hanswer]
  | false =>
    have htry := answer_tryStored hreads env
    simp only [Obtains, ← htry, true_and]
    cases hverdict : (r.tryStored env).answer with
    | error err =>
      obtain ⟨hanswer, -⟩ := plaintext_of_error sender hverdict
      simp [hanswer]
    | ok verdict =>
      obtain ⟨hanswer, -⟩ := plaintext_of_verdict sender hverdict
      rw [hanswer]
      cases verdict with
      | decrypted t' => simp [afterTrial_eq]
      | refused id => simp [afterTrial_eq]
      | unclaimed =>
        cases htype : env.type with
        | preKey => simp [afterTrial_eq, htype, decryptWithNew_eq_ok_iff]
        | normal => simp [afterTrial_eq, htype]

/-- Which sessions yield a plaintext does not depend on the switches of the store. -/
theorem yields_withFaults {r : Receiver} {env : Envelope} {m : Message} (faults : Faults) :
    Yields { r with store := { r.store with faults } } env m ↔ r.Yields env m := by
  constructor
  · rintro (hopens | ⟨key, hnew, hsound⟩)
    · exact .inl hopens
    · exact .inr ⟨key, ⟨hnew.type, hnew.body, hnew.unclaimed, hnew.named, hnew.unused⟩, hsound⟩
  · rintro (hopens | ⟨key, hnew, hsound⟩)
    · exact .inl hopens
    · exact .inr ⟨key, ⟨hnew.type, hnew.body, hnew.unclaimed, hnew.named, hnew.unused⟩, hsound⟩

/-- What a message is decrypted to is its own plaintext, and some session yields it. -/
theorem obtains_iff {r : Receiver} {env : Envelope} {t : Text} :
    r.Obtains env t ↔
      ∃ m, Message.decode env.body = .ok m ∧ r.Yields env m ∧ t = Text.ofString m.plaintext := by
  -- Neither side looks at the switches of the store, so they may be taken as off.
  let r' : Receiver := { r with store := { r.store with faults := .none } }
  have hobtains : (r'.plaintext ⟨""⟩ env).answer = .ok t ↔ r.Obtains env t :=
    plaintext_eq_ok_iff_obtains.trans (and_iff_right rfl)
  rw [← hobtains, plaintext_eq_ok_iff_yields]
  refine (and_iff_right rfl).trans (exists_congr fun m => ?_)
  rw [yields_withFaults]

end Receiver

/-- What makes an event deliverable to a receiver: each format that is read on the way to a payload,
a session that yields the plaintext of our entry, and the identities that match. -/
structure Delivery (r : Receiver) (e : Event) where
  encrypted : EncryptedContent
  entries : Json.Members
  entry : Json
  own : RecipientCiphertext
  type : MessageType
  plaintext : Text
  payload : Payload
  content : EventContent
  algorithm : EncryptedContent.algorithmOf? e.content = some olmAlgorithm
  readsContent : Wire.ofJson? e.content = some encrypted
  recipients : encrypted.ciphertext = .recipients entries
  addressed : Dictionary.get? r.ownKey.value entries = some entry
  readsEntry : Wire.ofJson? entry = some own
  ofType : own.type = type.number
  readable : r.store.faults.failReads = false
  obtains : r.Obtains ⟨encrypted.senderKey, type, own.body⟩ plaintext
  readsPayload : Wire.ofText plaintext = .ok payload
  fromSender : payload.sender = e.sender
  forUser : payload.recipient = r.device.userId
  forKey : payload.recipientKeys.ed25519 = r.ownFingerprint
  parses : r.registry.parse payload.type payload.content = .ok content

namespace Delivery

variable {r : Receiver} {e : Event}

/-- The message for us, with the key that it was sent with. -/
def envelope (D : Delivery r e) : Envelope :=
  ⟨D.encrypted.senderKey, D.type, D.own.body⟩

/-- What is delivered: the event, the sender key of its content, and what the payload says. -/
def event (D : Delivery r e) : DecryptedEvent where
  source := e
  senderKey := D.encrypted.senderKey
  sender := D.payload.sender
  senderDevice := D.payload.senderDevice
  keys := D.payload.keys
  recipient := D.payload.recipient
  recipientKeys := D.payload.recipientKeys
  type := D.payload.type
  content := D.content

/-- The content of a deliverable event opens to the message for us. -/
theorem ofContent_envelope (D : Delivery r e) :
    Envelope.ofContent r.ownKey e.content = .ok D.envelope := by
  have holm : Envelope.readOlm e.content = .ok (D.encrypted.senderKey, D.entries) :=
    Envelope.readOlm_eq_ok_iff.mpr ⟨D.algorithm, D.encrypted, D.readsContent, rfl, D.recipients⟩
  have hentry : Envelope.readEntry r.ownKey D.entries = .ok (D.type, D.own.body) :=
    Envelope.readEntry_eq_ok_iff.mpr ⟨D.entry, D.addressed, D.own, D.readsEntry, D.ofType, rfl⟩
  exact Envelope.ofContent_eq_ok_iff.mpr ⟨D.entries, holm, hentry⟩

/-- The plaintext of a deliverable event is accepted for what it says. -/
theorem accept_plaintext (D : Delivery r e) :
    r.accept e D.encrypted.senderKey D.plaintext = .ok D.event :=
  Receiver.accept_eq_ok_iff.mpr
    ⟨D.payload, D.readsPayload, ⟨D.fromSender, D.forUser, D.forKey⟩, D.content, D.parses, rfl⟩

/-- A deliverable event is delivered. -/
theorem answer_decrypt (D : Delivery r e) : (r.decrypt e).answer = .ok D.event := by
  obtain ⟨hanswer, -⟩ := Receiver.decrypt_of_opened D.ofContent_envelope
  have hplain : (r.plaintext e.sender D.envelope).answer = .ok D.plaintext :=
    Receiver.plaintext_eq_ok_iff_obtains.mpr ⟨D.readable, D.obtains⟩
  rw [hanswer, hplain]
  exact D.accept_plaintext

/-- An event that is delivered was deliverable, as what it is delivered as. -/
theorem exists_of_decrypt {d : DecryptedEvent} (h : (r.decrypt e).answer = .ok d) :
    ∃ D : Delivery r e, D.event = d := by
  cases hopen : Envelope.ofContent r.ownKey e.content with
  | error err =>
    obtain ⟨hanswer, -⟩ := Receiver.decrypt_of_unopened hopen
    rw [hanswer] at h
    cases h
  | ok env =>
    obtain ⟨hanswer, -⟩ := Receiver.decrypt_of_opened hopen
    rw [hanswer] at h
    obtain ⟨t, hplain, haccept⟩ := bind_eq_ok_iff.mp h
    obtain ⟨hreads, hobtains⟩ := Receiver.plaintext_eq_ok_iff_obtains.mp hplain
    obtain ⟨p, hpayload, ⟨hfrom, huser, hkey⟩, content, hparse, rfl⟩ :=
      Receiver.accept_eq_ok_iff.mp haccept
    obtain ⟨entries, holm, hentry⟩ := Envelope.ofContent_eq_ok_iff.mp hopen
    obtain ⟨halgorithm, encrypted, hread, hsender, hmap⟩ := Envelope.readOlm_eq_ok_iff.mp holm
    obtain ⟨entry, hget, own, hown, htype, hbody⟩ := Envelope.readEntry_eq_ok_iff.mp hentry
    obtain ⟨senderKey, type, body⟩ := env
    subst hsender hbody
    exact ⟨⟨encrypted, entries, entry, own, type, t, p, content, halgorithm, hread, hmap, hget,
      hown, htype, hreads, hobtains, hpayload, hfrom, huser, hkey, hparse⟩, rfl⟩

end Delivery

/-- An event is delivered as what it is deliverable as, and as nothing else; the plaintext that it
is deliverable with is that of its message, and a stored session or a new one yields it. -/
theorem Receiver.decrypt_eq_ok_iff (r : Receiver) (e : Event) (d : DecryptedEvent) :
    ((r.decrypt e).answer = .ok d ↔ ∃ D : Delivery r e, D.event = d) ∧
      ∀ env t, r.Obtains env t ↔
        ∃ m, Message.decode env.body = .ok m ∧ r.Yields env m ∧ t = Text.ofString m.plaintext := by
  refine ⟨⟨Delivery.exists_of_decrypt, ?_⟩, fun _ _ => obtains_iff⟩
  rintro ⟨D, rfl⟩
  exact D.answer_decrypt

end OlmReceiver
