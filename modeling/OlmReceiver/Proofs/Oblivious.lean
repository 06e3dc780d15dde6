import Mathlib.Control.Monad.Basic
import OlmReceiver.Proofs.ContentFields
import OlmReceiver.Proofs.Members
import OlmReceiver.Proofs.OneTimeKeys
import OlmReceiver.Proofs.Trust

/-!
# The plaintext leaves no trace

Two bodies that stand for messages with the same session and the same one-time key are told apart by
nothing but the plaintext that they yield. Every stage up to the payload makes the same of both, so
whatever a plaintext says, or fails to say, the receiver that its decryption leaves is the one that
any other plaintext would have left.

Each stage is described by one equation: on the second body it yields what it yields on the first,
with the plaintext replaced.
-/

namespace OlmReceiver

open Ratchet (Session Account Message)

/-! ## Events that carry a given body for us -/

/-- The raw entry of a recipient map, with another body. -/
def RecipientCiphertext.withBody (body : String) : Json → Json
  | .object ms => .object (Json.mapNamed ["body"] (fun _ => .string body) ms)
  | .array (type :: _ :: rest) => .array (type :: .string body :: rest)
  | v => v

/-- The recipient map of encrypted content, with another body in the entry for an identity key. -/
def Ciphertext.withOwnBody (ownKey : IdentityKey) (body : String) : Json → Json
  | .object entries =>
    .object (Json.mapNamed [ownKey.value] (RecipientCiphertext.withBody body) entries)
  | v => v

/-- Encrypted content, with another body in the entry for an identity key. -/
def EncryptedContent.withOwnBody (ownKey : IdentityKey) (body : String) : Json → Json
  | .object ms =>
    .object (Json.mapNamed ["ciphertext", "ciphertexts"] (Ciphertext.withOwnBody ownKey body) ms)
  | .array (algorithm :: key :: ciphertext :: rest) =>
    .array (algorithm :: key :: Ciphertext.withOwnBody ownKey body ciphertext :: rest)
  | v => v

/-- The event with another body in the entry for an identity key. -/
def Event.withOwnBody (e : Event) (ownKey : IdentityKey) (body : String) : Event :=
  { e with content := EncryptedContent.withOwnBody ownKey body e.content }

namespace RecipientCiphertext

/-- Whether an entry that is an object is read, and with which type, does not depend on its body. -/
theorem ofJson?_object_withBody (ms : Json.Members) :
    (∀ body, (Wire.ofJson? (withBody body (.object ms)) : Option RecipientCiphertext) = none) ∨
      ∃ type, ∀ body, Wire.ofJson? (withBody body (.object ms)) =
        some (⟨type, body⟩ : RecipientCiphertext) := by
  have htype (body : String) : Wire.FieldName.values ⟨"type", []⟩
      (Json.mapNamed ["body"] (fun _ => .string body) ms) =
        Wire.FieldName.values ⟨"type", []⟩ ms :=
    Wire.FieldName.values_mapNamed_of_not_accepts _ (by decide) _ ms
  have hbody (body : String) : Wire.FieldName.values ⟨"body", []⟩
      (Json.mapNamed ["body"] (fun _ => .string body) ms) =
        (Wire.FieldName.values ⟨"body", []⟩ ms).map fun _ => .string body :=
    Wire.FieldName.values_mapNamed ⟨"body", []⟩ _ ms
  simp only [withBody, Wire.ofJson?, Wire.shape, Wire.Shape.ofJson?, Wire.Fields.ofMembers?,
    Wire.FieldName.required?, htype, hbody]
  generalize Wire.FieldName.values ⟨"type", []⟩ ms = types
  generalize Wire.FieldName.values ⟨"body", []⟩ ms = bodies
  rcases types with _ | ⟨type, _ | ⟨type', types⟩⟩
  · exact .inl fun _ => rfl
  · cases type with
    | number n =>
      rcases bodies with _ | ⟨body, _ | ⟨body', bodies⟩⟩
      · exact .inl fun _ => rfl
      · exact .inr ⟨n, fun _ => rfl⟩
      · exact .inl fun _ => rfl
    | _ => exact .inl fun _ => rfl
  · exact .inl fun _ => rfl

/-- Whether an entry is read, and with which type, does not depend on its body. -/
theorem ofJson?_withBody (v : Json) :
    (∀ body, (Wire.ofJson? (withBody body v) : Option RecipientCiphertext) = none) ∨
      ∃ type, ∀ body, Wire.ofJson? (withBody body v) = some (⟨type, body⟩ : RecipientCiphertext) := by
  cases v with
  | object ms => exact ofJson?_object_withBody ms
  | array items =>
    rcases items with _ | ⟨type, _ | ⟨body, rest⟩⟩
    · exact .inl fun _ => rfl
    · exact .inl fun _ => by cases type <;> rfl
    · cases type with
      | number n =>
        cases rest with
        | nil => exact .inr ⟨n, fun _ => rfl⟩
        | cons v rest => exact .inl fun _ => rfl
      | _ => exact .inl fun _ => rfl
  | _ => exact .inl fun _ => rfl

end RecipientCiphertext

namespace Envelope

/-- Whether our entry is read, and with which message type, does not depend on its body. -/
theorem readEntry_withOwnBody (ownKey : IdentityKey) (entries : Json.Members) :
    (∃ err, ∀ body, readEntry ownKey
        (Json.mapNamed [ownKey.value] (RecipientCiphertext.withBody body) entries) = .error err) ∨
      ∃ type, ∀ body, readEntry ownKey
        (Json.mapNamed [ownKey.value] (RecipientCiphertext.withBody body) entries) =
          .ok (type, body) := by
  unfold readEntry readContent
  simp only [Dictionary.get?_mapNamed]
  cases Dictionary.get? ownKey.value entries with
  | none => exact .inl ⟨_, fun _ => rfl⟩
  | some v =>
    rcases RecipientCiphertext.ofJson?_withBody v with hnone | ⟨n, hsome⟩
    · exact .inl ⟨.invalidEncryptedContent .shape, fun body => by simp [hnone]; rfl⟩
    · cases hn : MessageType.ofNumber? n with
      | none =>
        exact .inl ⟨.unsupportedOlmMessageType n, fun body => by
          simp [hsome, hn, bind, Except.bind]⟩
      | some type => exact .inr ⟨type, fun body => by simp [hsome, hn, bind, Except.bind]⟩

/-- Whether there is one recipient map does not depend on the body of our entry. -/
theorem oneCiphertext?_withOwnBody (ownKey : IdentityKey) (values : List Json) :
    (∃ ciphertext, (∀ entries, ciphertext ≠ some (.recipients entries)) ∧
      ∀ body, EncryptedContent.oneCiphertext? (values.map (Ciphertext.withOwnBody ownKey body)) =
        ciphertext) ∨
      ∃ entries, ∀ body,
        EncryptedContent.oneCiphertext? (values.map (Ciphertext.withOwnBody ownKey body)) =
          some (.recipients
            (Json.mapNamed [ownKey.value] (RecipientCiphertext.withBody body) entries)) := by
  rcases values with _ | ⟨v, _ | ⟨v', rest⟩⟩
  · exact .inl ⟨none, by simp, fun _ => rfl⟩
  · cases v with
    | object entries => exact .inr ⟨entries, fun _ => rfl⟩
    | string x => exact .inl ⟨some (.group x), by simp, fun _ => rfl⟩
    | _ => exact .inl ⟨none, by simp, fun _ => rfl⟩
  · exact .inl ⟨none, by simp, fun _ => by cases v <;> rfl⟩

/-- An array with nothing but an algorithm tag is no encrypted content. -/
theorem readOlm_array_one (algorithm : Json) : ∃ err, readOlm (.array [algorithm]) = .error err := by
  cases algorithm with
  | string x =>
    by_cases holm : x = olmAlgorithm
    · subst holm
      exact ⟨_, rfl⟩
    · have htag : EncryptedContent.algorithmOf? (.array [.string x]) = some x := rfl
      exact ⟨.unsupportedAlgorithm x, by simp [readOlm, htag, holm]⟩
  | _ => exact ⟨_, rfl⟩

/-- How far the recipient map of an object is read does not depend on the body of our entry. -/
theorem readOlm_object_withOwnBody (ownKey : IdentityKey) (ms : Json.Members) :
    (∃ err, ∀ body,
      readOlm (EncryptedContent.withOwnBody ownKey body (.object ms)) = .error err) ∨
      ∃ key entries, ∀ body, readOlm (EncryptedContent.withOwnBody ownKey body (.object ms)) =
        .ok (key, Json.mapNamed [ownKey.value] (RecipientCiphertext.withBody body) entries) := by
  have halgorithm (body : String) : EncryptedContent.algorithmField.values
      (Json.mapNamed ["ciphertext", "ciphertexts"] (Ciphertext.withOwnBody ownKey body) ms) =
        EncryptedContent.algorithmField.values ms :=
    EncryptedContent.algorithmField.values_mapNamed_of_not_accepts (by decide) _ ms
  have hkey (body : String) : EncryptedContent.senderKeyField.values
      (Json.mapNamed ["ciphertext", "ciphertexts"] (Ciphertext.withOwnBody ownKey body) ms) =
        EncryptedContent.senderKeyField.values ms :=
    EncryptedContent.senderKeyField.values_mapNamed_of_not_accepts (by decide) _ ms
  have hciphertext (body : String) : EncryptedContent.ciphertextField.values
      (Json.mapNamed ["ciphertext", "ciphertexts"] (Ciphertext.withOwnBody ownKey body) ms) =
        (EncryptedContent.ciphertextField.values ms).map (Ciphertext.withOwnBody ownKey body) :=
    EncryptedContent.ciphertextField.values_mapNamed _ ms
  simp only [EncryptedContent.withOwnBody, readOlm_object, halgorithm, hkey, hciphertext]
  rcases oneCiphertext?_withOwnBody ownKey (EncryptedContent.ciphertextField.values ms) with
    ⟨ciphertext, hnone, hone⟩ | ⟨entries, hone⟩
  · simp only [hone]
    obtain ⟨err, herr⟩ := readFields_of_no_recipients _ _ hnone
    exact .inl ⟨err, fun _ => herr⟩
  · simp only [hone]
    rcases readFields_recipients (Json.oneString? (EncryptedContent.algorithmField.values ms))
      (Json.oneString? (EncryptedContent.senderKeyField.values ms)) with
      ⟨err, herr⟩ | ⟨key, hok⟩
    · exact .inl ⟨err, fun _ => herr _⟩
    · exact .inr ⟨key, entries, fun _ => hok _⟩

/-- How far the recipient map is read does not depend on the body of our entry. -/
theorem readOlm_withOwnBody (ownKey : IdentityKey) (content : Json) :
    (∃ err, ∀ body, readOlm (EncryptedContent.withOwnBody ownKey body content) = .error err) ∨
      ∃ key entries, ∀ body, readOlm (EncryptedContent.withOwnBody ownKey body content) =
        .ok (key, Json.mapNamed [ownKey.value] (RecipientCiphertext.withBody body) entries) := by
  cases content with
  | object ms => exact readOlm_object_withOwnBody ownKey ms
  | array items =>
    rcases items with _ | ⟨algorithm, _ | ⟨key, _ | ⟨ciphertext, rest⟩⟩⟩
    · exact .inl ⟨_, fun _ => rfl⟩
    · obtain ⟨err, herr⟩ := readOlm_array_one algorithm
      exact .inl ⟨err, fun _ => herr⟩
    · exact .inl ⟨.invalidEncryptedContent .shape, fun _ => by cases algorithm <;> rfl⟩
    · exact .inl ⟨.invalidEncryptedContent .shape, fun _ => by cases algorithm <;> rfl⟩
  | _ => exact .inl ⟨_, fun _ => rfl⟩

/-- An envelope opens with any body of our entry or with none, and it is that body that it carries. -/
theorem ofContent_withOwnBody (ownKey : IdentityKey) (content : Json) :
    (∃ err, ∀ body, ofContent ownKey (EncryptedContent.withOwnBody ownKey body content) =
      .error err) ∨
      ∃ key type, ∀ body, ofContent ownKey (EncryptedContent.withOwnBody ownKey body content) =
        .ok ⟨key, type, body⟩ := by
  unfold ofContent
  rcases readOlm_withOwnBody ownKey content with ⟨err, herr⟩ | ⟨key, entries, hok⟩
  · exact .inl ⟨err, fun body => by rw [herr]; rfl⟩
  · rcases readEntry_withOwnBody ownKey entries with ⟨err, herr⟩ | ⟨type, htype⟩
    · exact .inl ⟨err, fun body => by simp [hok, herr, bind, Except.bind]⟩
    · exact .inr ⟨key, type, fun body => by simp [hok, htype, bind, Except.bind]⟩

end Envelope

/-! ## Bodies that differ in their plaintexts -/

/-- The verdict, with another plaintext where there is one. -/
def Verdict.withPlaintext (t : Text) : Verdict → Verdict
  | .decrypted _ => .decrypted t
  | verdict => verdict

/-- The trial, with another plaintext where there is one. -/
def Trial.withPlaintext (trial : Trial) (t : Text) : Trial :=
  { trial with verdict := trial.verdict.map (Verdict.withPlaintext t) }

/-- The outcome, with another plaintext where there is one. -/
def Outcome.withPlaintext (o : Outcome Text) (t : Text) : Outcome Text :=
  { o with answer := o.answer.map fun _ => t }

/-- Two bodies stand for messages of one session that name the same one-time key, if any; the second
one has the given plaintext. -/
structure TwinBodies (body body' : String) (x : String) : Prop where
  exists_message : ∃ m, Message.decode body = .ok m ∧
    Message.decode body' = .ok { m with plaintext := x }

namespace TwinBodies

variable {body body' x : String}

/-- A session that obtains a plaintext from one body obtains the other's from the other. -/
theorem attempt (h : TwinBodies body body' x) (s : Session) :
    s.attempt body' = (s.attempt body).map fun _ => Text.ofString x := by
  obtain ⟨m, hm, hm'⟩ := h.exists_message
  simp only [Session.attempt, hm, hm', bind, Except.bind]
  split
  · rfl
  · split
    · rfl
    · rfl

/-- A session claims both or neither. -/
theorem matchesBody (h : TwinBodies body body' x) (s : Session) :
    s.matchesBody body' = s.matchesBody body := by
  obtain ⟨m, hm, hm'⟩ := h.exists_message
  rw [Session.matchesBody_of_decode hm, Session.matchesBody_of_decode hm']
  rfl

/-- The stored sessions make the same of both normal messages. -/
theorem ofNormal (h : TwinBodies body body' x) (sessions : List Session) :
    Trial.ofNormal body' sessions =
      (Trial.ofNormal body sessions).withPlaintext (Text.ofString x) := by
  induction sessions with
  | nil => rfl
  | cons s rest ih =>
    simp only [Trial.ofNormal, Session.decrypt, h.attempt s]
    cases s.attempt body with
    | error err =>
      simp only [Except.map]
      rw [ih]
      rfl
    | ok t => rfl

/-- The stored sessions make the same of both pre-key messages. -/
theorem ofPreKey (h : TwinBodies body body' x) (sessions : List Session) :
    Trial.ofPreKey body' sessions =
      (Trial.ofPreKey body sessions).withPlaintext (Text.ofString x) := by
  induction sessions with
  | nil => rfl
  | cons s rest ih =>
    simp only [Trial.ofPreKey, h.matchesBody s, Session.decrypt, h.attempt s]
    cases s.matchesBody body with
    | error err => rfl
    | ok claimed =>
      cases claimed with
      | false =>
        simp only [ih]
        rfl
      | true =>
        cases s.attempt body with
        | error err => rfl
        | ok t => rfl

/-- The stored sessions make the same of both messages. -/
theorem ofMessage (h : TwinBodies body body' x) (type : MessageType) (sessions : List Session) :
    Trial.ofMessage type body' sessions =
      (Trial.ofMessage type body sessions).withPlaintext (Text.ofString x) := by
  cases type with
  | preKey => exact h.ofPreKey sessions
  | normal => exact h.ofNormal sessions

/-- The account creates the same session from both, or fails alike. -/
theorem newInbound (h : TwinBodies body body' x) (account : Account) :
    account.newInbound body' = account.newInbound body := by
  obtain ⟨m, hm, hm'⟩ := h.exists_message
  simp only [Account.newInbound, hm, hm']

variable {key : IdentityKey} {type : MessageType}

/-- The trial reads the same sessions for both. -/
theorem tryStored (h : TwinBodies body body' x) (r : Receiver) :
    r.tryStored ⟨key, type, body'⟩ =
      { r.tryStored ⟨key, type, body⟩ with
        answer := (r.tryStored ⟨key, type, body⟩).answer.map
          (Verdict.withPlaintext (Text.ofString x)) } := by
  cases hreads : r.store.faults.failReads with
  | true => simp [Receiver.tryStored_of_failReads hreads, Except.map]
  | false =>
    simp only [Receiver.tryStored, FaultyStore.withSessions_of_reads hreads,
      SessionStore.withSessions_snd, h.ofMessage]
    rfl

/-- The session created for one fares as the one created for the other. -/
theorem decryptWithNew (h : TwinBodies body body' x) (r : Receiver) (sender : UserId) :
    r.decryptWithNew sender ⟨key, type, body'⟩ =
      (r.decryptWithNew sender ⟨key, type, body⟩).withPlaintext (Text.ofString x) := by
  rw [Receiver.decryptWithNew_eq, Receiver.decryptWithNew_eq]
  simp only [Bootstrap.ofBody, h.newInbound, h.attempt]
  rcases r.account.newInbound body with ⟨_ | session, account⟩
  · rfl
  · dsimp only
    rcases account.persist with ⟨_ | _, account'⟩
    · rfl
    · dsimp only
      cases session.attempt body with
      | error err => rfl
      | ok t => rfl

/-- What follows from a verdict is the same for both. -/
theorem afterTrial (h : TwinBodies body body' x) (r : Receiver) (sender : UserId)
    (verdict : Verdict) :
    r.afterTrial sender ⟨key, type, body'⟩ (verdict.withPlaintext (Text.ofString x)) =
      (r.afterTrial sender ⟨key, type, body⟩ verdict).withPlaintext (Text.ofString x) := by
  cases verdict with
  | decrypted t => rfl
  | refused id => rfl
  | unclaimed =>
    cases type with
    | preKey => exact h.decryptWithNew r sender
    | normal => rfl

/-- Up to the payload, both messages fare alike: they fail alike, or both yield their plaintexts. -/
theorem plaintext (h : TwinBodies body body' x) (r : Receiver) (sender : UserId) :
    r.plaintext sender ⟨key, type, body'⟩ =
      (r.plaintext sender ⟨key, type, body⟩).withPlaintext (Text.ofString x) := by
  rw [Receiver.plaintext_eq, Receiver.plaintext_eq]
  rw [h.tryStored r]
  rcases r.tryStored ⟨key, type, body⟩ with ⟨_ | verdict, r', notices⟩
  · rfl
  · simp only [Except.map, Outcome.andThen_ok]
    rw [h.afterTrial r' sender verdict]
    rfl

/-- Both messages fail for the same reason, or each yields the plaintext of its own. -/
theorem answer_cases {m : Message} (hbody : Message.decode body = .ok m)
    (hbody' : Message.decode body' = .ok { m with plaintext := x }) (r : Receiver) (sender : UserId) :
    (∃ err, (r.plaintext sender ⟨key, type, body⟩).answer = .error err ∧
      (r.plaintext sender ⟨key, type, body'⟩).answer = .error err) ∨
      (r.plaintext sender ⟨key, type, body⟩).answer = .ok (Text.ofString m.plaintext) ∧
        (r.plaintext sender ⟨key, type, body'⟩).answer = .ok (Text.ofString x) := by
  have htwin : TwinBodies body body' x := ⟨m, hbody, hbody'⟩
  have hself : TwinBodies body body m.plaintext := ⟨m, hbody, hbody⟩
  have hplain : (r.plaintext sender ⟨key, type, body'⟩).answer = _ :=
    congrArg Outcome.answer (htwin.plaintext r sender)
  have hsame : (r.plaintext sender ⟨key, type, body⟩).answer = _ :=
    congrArg Outcome.answer (hself.plaintext r sender)
  simp only [Outcome.withPlaintext] at hplain hsame
  cases hanswer : (r.plaintext sender ⟨key, type, body⟩).answer with
  | error err =>
    rw [hanswer] at hplain
    exact .inl ⟨err, rfl, hplain⟩
  | ok t =>
    rw [hanswer] at hplain hsame
    exact .inr ⟨hsame, hplain⟩

end TwinBodies

namespace Receiver

/-- The decryption of an event ends in an error before any plaintext is read as a payload. -/
structure FailsEarly (r : Receiver) (e : Event) (err : DecryptError) : Prop where
  answer : (r.decrypt e).answer = .error err
  unread : ∀ senderKey t, .accept senderKey t ∉ r.calls e

/-- The decryption of an event comes to reading a plaintext as a payload, and answers what is made of
it. -/
def ReadsPayload (r : Receiver) (e : Event) (t : Text) : Prop :=
  ∃ senderKey, .accept senderKey t ∈ r.calls e ∧ (r.decrypt e).answer = r.accept e senderKey t

/-- Content that does not open fails early. -/
theorem failsEarly_of_unopened {r : Receiver} {e : Event} {err : DecryptError}
    (hopen : Envelope.ofContent r.ownKey e.content = .error err) : r.FailsEarly e err := by
  obtain ⟨hanswer, hcalls⟩ := decrypt_of_unopened hopen
  exact ⟨hanswer, fun senderKey t => by simp [hcalls]⟩

/-- A message that yields no plaintext fails early. -/
theorem failsEarly_of_plaintext {r : Receiver} {e : Event} {env : Envelope} {err : DecryptError}
    (hopen : Envelope.ofContent r.ownKey e.content = .ok env)
    (hplain : (r.plaintext e.sender env).answer = .error err) : r.FailsEarly e err := by
  obtain ⟨hanswer, hcalls⟩ := decrypt_of_opened hopen
  refine ⟨by rw [hanswer, hplain]; rfl, fun senderKey t => ?_⟩
  rw [hcalls, hplain]
  simpa [acceptCalls] using (r.plaintext_course e.sender env).accept_notMem senderKey t

/-- A message that yields a plaintext has it read as a payload. -/
theorem readsPayload_of_plaintext {r : Receiver} {e : Event} {env : Envelope} {t : Text}
    (hopen : Envelope.ofContent r.ownKey e.content = .ok env)
    (hplain : (r.plaintext e.sender env).answer = .ok t) : r.ReadsPayload e t := by
  obtain ⟨hanswer, hcalls⟩ := decrypt_of_opened hopen
  refine ⟨env.senderKey, ?_, by rw [hanswer, hplain]; rfl⟩
  rw [hcalls, hplain]
  simp [acceptCalls]

/-- Of two events that differ in the plaintext of the message for us and in nothing else, decrypting
either leaves the same receiver. Either both fail for the same reason before a plaintext is read, or
each answers what is made of its own plaintext. -/
theorem decrypt_oblivious (r : Receiver) (e : Event) {body body' : String} {m : Message} {x : String}
    (hbody : Message.decode body = .ok m)
    (hbody' : Message.decode body' = .ok { m with plaintext := x }) :
    (r.decrypt (e.withOwnBody r.ownKey body')).receiver =
        (r.decrypt (e.withOwnBody r.ownKey body)).receiver ∧
      ((∃ err, r.FailsEarly (e.withOwnBody r.ownKey body) err ∧
          r.FailsEarly (e.withOwnBody r.ownKey body') err) ∨
        r.ReadsPayload (e.withOwnBody r.ownKey body) (Text.ofString m.plaintext) ∧
          r.ReadsPayload (e.withOwnBody r.ownKey body') (Text.ofString x)) := by
  rcases Envelope.ofContent_withOwnBody r.ownKey e.content with ⟨err, herr⟩ | ⟨key, type, hok⟩
  · have hearly (body : String) : r.FailsEarly (e.withOwnBody r.ownKey body) err :=
      failsEarly_of_unopened (herr body)
    refine ⟨?_, .inl ⟨err, hearly body, hearly body'⟩⟩
    rw [decrypt_receiver_eq, decrypt_receiver_eq]
    simp only [Event.withOwnBody, herr]
  · have hopen : Envelope.ofContent r.ownKey (e.withOwnBody r.ownKey body).content = _ := hok body
    have hopen' : Envelope.ofContent r.ownKey (e.withOwnBody r.ownKey body').content = _ := hok body'
    have htwin : TwinBodies body body' x := ⟨m, hbody, hbody'⟩
    refine ⟨?_, ?_⟩
    · rw [decrypt_receiver_eq, decrypt_receiver_eq, hopen, hopen']
      exact (congrArg Outcome.receiver (htwin.plaintext r e.sender)).trans rfl
    · rcases TwinBodies.answer_cases hbody hbody' r e.sender with ⟨err, herr, herr'⟩ | ⟨ht, ht'⟩
      · exact .inl ⟨err, failsEarly_of_plaintext hopen herr, failsEarly_of_plaintext hopen' herr'⟩
      · exact .inr ⟨readsPayload_of_plaintext hopen ht, readsPayload_of_plaintext hopen' ht'⟩

/-- A plaintext that is no payload uses up the one-time key just as an empty one does. -/
theorem decrypt_oblivious_of_empty :
    (withTwoKeys.decrypt ((preKeyEvent "OTK7").withOwnBody ⟨"BOBKEY"⟩
        (Message.encode ⟨"S7", some "OTK7", ""⟩))).receiver =
      (withTwoKeys.decrypt ((preKeyEvent "OTK7").withOwnBody ⟨"BOBKEY"⟩
        (Message.encode ⟨"S7", some "OTK7", "hi"⟩))).receiver ∧
      (withTwoKeys.decrypt ((preKeyEvent "OTK7").withOwnBody ⟨"BOBKEY"⟩
        (Message.encode ⟨"S7", some "OTK7", ""⟩))).receiver.account.consumedKeys = ["OTK7"] := by
  have hbody : Message.decode (Message.encode ⟨"S7", some "OTK7", "hi"⟩) =
      .ok ⟨"S7", some "OTK7", "hi"⟩ := by
    decide +kernel
  have hbody' : Message.decode (Message.encode ⟨"S7", some "OTK7", ""⟩) =
      .ok ⟨"S7", some "OTK7", ""⟩ := by
    decide +kernel
  obtain ⟨hreceiver, -⟩ := withTwoKeys.decrypt_oblivious (preKeyEvent "OTK7") hbody hbody'
  exact ⟨hreceiver, by decide +kernel⟩

end Receiver

end OlmReceiver
