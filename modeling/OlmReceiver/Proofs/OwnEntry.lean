import OlmReceiver.Proofs.ContentFields
import OlmReceiver.Proofs.Members
import OlmReceiver.Proofs.OneTimeKeys

/-!
# Only our own entry counts

Of the content of an encrypted event, the decryption looks at the algorithm tag, at the sender key,
and at the entry of the recipient map for our own identity key. Other members, and the entries for
other devices, may be anything at all. Under which of its two names a field stands does not matter
either, as long as it stands under one of them only.

Nothing is assumed of the machine, nor that the content opens: content that is refused is refused
for the same reason.
-/

namespace OlmReceiver

open Ratchet (Message)

open Wire (FieldName)

namespace EncryptedContent

/-- Two objects say the same to the holder of an identity key: they have the same algorithm tag, the
same sender key under one of its names, and under one of its names a recipient map that says the same
about that key. Other members and other recipients' entries are anything. -/
structure SameForUs (ownKey : IdentityKey) (ms ms' : Json.Members) : Prop where
  algorithm : Json.named ["algorithm"] ms' = Json.named ["algorithm"] ms
  senderKey : ∃ name name' key,
    Json.named ["sender_key", "senderKey"] ms = [(name, key)] ∧
      Json.named ["sender_key", "senderKey"] ms' = [(name', key)]
  recipients : ∃ name name' entries entries',
    Json.named ["ciphertext", "ciphertexts"] ms = [(name, .object entries)] ∧
      Json.named ["ciphertext", "ciphertexts"] ms' = [(name', .object entries')] ∧
      Dictionary.get? ownKey.value entries' = Dictionary.get? ownKey.value entries

end EncryptedContent

namespace Envelope

/-- Objects that say the same to us open alike. -/
theorem ofContent_of_sameForUs {ownKey : IdentityKey} {ms ms' : Json.Members}
    (h : EncryptedContent.SameForUs ownKey ms ms') :
    ofContent ownKey (.object ms') = ofContent ownKey (.object ms) := by
  obtain ⟨_, _, key, hkey, hkey'⟩ := h.senderKey
  obtain ⟨_, _, entries, entries', hmap, hmap', hentry⟩ := h.recipients
  have hread : readEntry ownKey entries' = readEntry ownKey entries := by
    unfold readEntry
    rw [hentry]
  unfold ofContent
  rw [readOlm_object, readOlm_object]
  simp only [FieldName.values_eq_named, h.algorithm, hkey, hkey', hmap, hmap', List.map_cons,
    List.map_nil, EncryptedContent.oneCiphertext?]
  rcases readFields_recipients (Json.oneString? ((Json.named ["algorithm"] ms).map Prod.snd))
    (Json.oneString? [key]) with ⟨err, herr⟩ | ⟨k, hok⟩
  · rw [herr, herr]
  · rw [hok, hok]
    simp only [bind, Except.bind, hread]

end Envelope

namespace Receiver

/-- Of the event itself, what is made of a plaintext depends on the sender alone; the event is only
repeated. -/
theorem accept_of_sender {e e' : Event} (hsender : e'.sender = e.sender) (r : Receiver)
    (senderKey : IdentityKey) (t : Text) :
    r.accept e' senderKey t =
      (r.accept e senderKey t).map fun d => { d with source := e' } := by
  unfold accept
  rw [hsender]
  cases (Wire.ofText t : Except Json.Fault Payload) with
  | error fault => rfl
  | ok p =>
    cases hauth : p.authenticate e.sender r.device.userId r.ownFingerprint with
    | error err => simp [hauth, bind, Except.bind, Except.map]
    | ok _ =>
      cases hparse : p.parseContent r.registry with
      | error err => simp [hauth, hparse, bind, Except.bind, Except.map]
      | ok content => simp [hauth, hparse, bind, Except.bind, Except.map]

/-- Replacing the event that an answer repeats shows in no report. -/
theorem acceptNotices_map_source (e : Event) (answer : Except DecryptError DecryptedEvent) :
    acceptNotices (answer.map fun d => { d with source := e }) = acceptNotices answer := by
  cases answer <;> rfl

/-- Events of one sender whose contents say the same to us are decrypted alike: with the same answer,
up to the event that it repeats, the same receiver afterwards and the same reports. -/
theorem decrypt_of_sameForUs (r : Receiver) {e e' : Event} {ms ms' : Json.Members}
    (hcontent : e.content = .object ms) (hcontent' : e'.content = .object ms')
    (hsender : e'.sender = e.sender) (hsame : EncryptedContent.SameForUs r.ownKey ms ms') :
    (r.decrypt e').answer = (r.decrypt e).answer.map (fun d => { d with source := e' }) ∧
      (r.decrypt e').receiver = (r.decrypt e).receiver ∧
      (r.decrypt e').notices = (r.decrypt e).notices := by
  have hopen : Envelope.ofContent r.ownKey e'.content = Envelope.ofContent r.ownKey e.content := by
    rw [hcontent, hcontent']
    exact Envelope.ofContent_of_sameForUs hsame
  rw [decrypt_eq, decrypt_eq, hopen, hsender]
  cases Envelope.ofContent r.ownKey e.content with
  | error err => exact ⟨rfl, rfl, rfl⟩
  | ok env =>
    dsimp only
    rcases r.plaintext e.sender env with ⟨err | t, r', notices⟩
    · exact ⟨rfl, rfl, rfl⟩
    · have haccept := accept_of_sender hsender r' env.senderKey t
      exact ⟨haccept, rfl, by dsimp only; rw [haccept, acceptNotices_map_source]⟩

/-- A message for two devices, with the other spelling of both aliased fields, entries that cannot be
read and members that nobody knows. -/
def crowdedEvent : Event where
  sender := ⟨"@alice:localhost"⟩
  type := "m.other"
  id := some "$event"
  content := .object
    [("algorithm", .string olmAlgorithm),
      ("ciphertexts", .object
        [("AKEY", .array [.null]),
          ("BOBKEY", RecipientCiphertext.toEntry
            (.ofMessage .preKey (Message.encode ⟨"S7", some "OTK7", "hi"⟩))),
          ("CKEY", .string "no entry")]),
      ("senderKey", .string "ALICEKEY"),
      ("unknown", .bool true)]

/-- The crowd around our entry neither keeps the one-time key from being used up nor shows in what is
left behind. -/
theorem decrypt_of_sameForUs_crowded :
    (withTwoKeys.decrypt crowdedEvent).receiver =
        (withTwoKeys.decrypt (preKeyEvent "OTK7")).receiver ∧
      (withTwoKeys.decrypt crowdedEvent).receiver.account.consumedKeys = ["OTK7"] := by
  have hcontent : (preKeyEvent "OTK7").content = .object
      [("algorithm", .string olmAlgorithm),
        ("ciphertext", .object [("BOBKEY", RecipientCiphertext.toEntry
          (.ofMessage .preKey (Message.encode ⟨"S7", some "OTK7", "hi"⟩)))]),
        ("sender_key", .string "ALICEKEY")] := rfl
  have hcontent' : crowdedEvent.content = .object _ := rfl
  obtain ⟨-, hreceiver, -⟩ := withTwoKeys.decrypt_of_sameForUs hcontent hcontent' rfl
    ⟨rfl, ⟨_, _, _, rfl, rfl⟩, ⟨_, _, _, _, rfl, rfl, rfl⟩⟩
  exact ⟨hreceiver, by decide +kernel⟩

end Receiver

end OlmReceiver
