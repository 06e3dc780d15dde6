import OlmReceiver.Proofs.Attempts
import OlmReceiver.Proofs.Base64
import OlmReceiver.Proofs.ContentFields
import OlmReceiver.Proofs.Delivery
import OlmReceiver.Proofs.OneTimeKeys
import OlmReceiver.Proofs.WireText

/-!
# What is sent is what is delivered

A payload goes through four encoders before it is decrypted: it is written as JSON, put as a string
into the JSON of a message, encoded as base64, and put as a string into the content of an event. Here
the whole way is walked back. The receiver may hold any sessions and one-time keys, as long as one of
them is good for the message.

The content of the payload may be any JSON without doubles that nests at most 126 levels, as the
payload around it takes the last of the 127 levels that are read.
-/

namespace OlmReceiver

open Ratchet (Session Message)

/-- The body of a message stands for the message, whatever its plaintext. -/
theorem Ratchet.Message.decode_encode (m : Message) : Message.decode m.encode = .ok m := by
  have hlegible : (Wire.shape Message).Legible Json.maxDepth (Wire.toValue m) := by
    obtain ⟨id, key, plaintext⟩ := m
    cases key with
    | none => exact ⟨trivial, trivial, trivial⟩
    | some key => exact ⟨trivial, trivial, trivial, trivial⟩
  have hread : Wire.ofText (Wire.toText m) = .ok m := Wire.ofText_toText (by decide) hlegible
  rw [Message.decode, Message.encode, Text.ofString_ofAscii (Base64.isAscii_encode _),
    Base64.decode_encode]
  simp only [hread]

namespace Payload

/-- The payload is from a sender and for the user and the signing key of a receiver. -/
structure MeantFor (p : Payload) (sender : UserId) (r : Receiver) : Prop where
  sender : p.sender = sender
  recipient : p.recipient = r.device.userId
  recipientKeys : p.recipientKeys.ed25519 = r.ownFingerprint

/-- A payload is read back from its text, if its content can be read one level further in. -/
theorem ofText_toText {p : Payload} (h : p.content.Legible 126) :
    Wire.ofText (Wire.toText p) = .ok p := by
  have hlegible : (Wire.shape Payload).Legible Json.maxDepth (Wire.toValue p) :=
    ⟨trivial, trivial, ⟨trivial, trivial⟩, trivial, ⟨trivial, trivial⟩, trivial, h, trivial⟩
  exact Wire.ofText_toText (by decide) hlegible

end Payload

/-- The event in which a message travels to one recipient. -/
def Event.carrying (sender : UserId) (senderKey recipient : IdentityKey) (type : MessageType)
    (m : Message) : Event :=
  .toRecipient sender senderKey recipient (.ofMessage type m.encode)

/-- What a payload is delivered as, with the event it came in and the content that was parsed. -/
def DecryptedEvent.ofPayload (e : Event) (senderKey : IdentityKey) (p : Payload)
    (content : EventContent) : DecryptedEvent :=
  ⟨e, senderKey, p.sender, p.senderDevice, p.keys, p.recipient, p.recipientKeys, p.type, content⟩

/-- The fields of Olm content stand in the order of their names. -/
theorem EncryptedContent.toJson_olm (key : IdentityKey)
    (ciphertexts : Dictionary IdentityKey RecipientCiphertext) :
    Wire.toJson (olm key ciphertexts) =
      .object [("algorithm", .string olmAlgorithm),
        ("ciphertext", .object (ciphertexts.map fun e => (e.1.value, e.2.toEntry))),
        ("sender_key", .string key.value)] := by
  have hmembers : Wire.toJson (olm key ciphertexts) =
      Json.ofMembers [("algorithm", .string olmAlgorithm), ("sender_key", .string key.value),
        ("ciphertext", .object (ciphertexts.map fun e => (e.1.value, e.2.toEntry)))] := rfl
  have hfirst : ¬ "sender_key" < "algorithm" ∧ ¬ "ciphertext" < "algorithm" := by decide
  have hlast : "ciphertext" < "sender_key" := by decide
  rw [hmembers]
  simp [Json.ofMembers, Dictionary.ofList, Dictionary.insert, hfirst, hlast]

namespace Envelope

/-- What was put together as Olm content is taken apart again. -/
theorem readOlm_olm (key : IdentityKey)
    (ciphertexts : Dictionary IdentityKey RecipientCiphertext) :
    readOlm (Wire.toJson (EncryptedContent.olm key ciphertexts)) =
      .ok (key, ciphertexts.map fun e => (e.1.value, e.2.toEntry)) := by
  rw [EncryptedContent.toJson_olm, readOlm_object]
  rfl

/-- The recipient finds the body in the entry that the event carries for it. -/
theorem ofContent_toRecipient (sender : UserId) (senderKey recipient : IdentityKey)
    (type : MessageType) (body : String) :
    ofContent recipient
        (Event.toRecipient sender senderKey recipient (.ofMessage type body)).content =
      .ok ⟨senderKey, type, body⟩ := by
  have hentry : Dictionary.get? recipient.value
      [(recipient.value, (RecipientCiphertext.ofMessage type body).toEntry)] =
        some (RecipientCiphertext.ofMessage type body).toEntry := by
    simp [Dictionary.get?]
  exact ofContent_eq_ok_iff.mpr ⟨_, readOlm_olm senderKey _,
    readEntry_eq_ok_iff.mpr ⟨_, hentry, .ofMessage type body, rfl, rfl, rfl⟩⟩

end Envelope

namespace Receiver

variable {r : Receiver} {sender : UserId} {senderKey : IdentityKey} {p : Payload}
  {content : EventContent}

/-- A message that yields the text of a payload for us delivers the payload. -/
theorem decrypt_of_yields (hmeant : p.MeantFor sender r) (hlegible : p.content.Legible 126)
    (hparse : r.registry.parse p.type p.content = .ok content)
    (hreads : r.store.faults.failReads = false) {type : MessageType} {m : Message}
    (hplaintext : Text.ofString m.plaintext = Wire.toText p)
    (hyields : r.Yields ⟨senderKey, type, m.encode⟩ m) :
    (r.decrypt (.carrying sender senderKey r.ownKey type m)).answer =
      .ok (.ofPayload (.carrying sender senderKey r.ownKey type m) senderKey p content) := by
  have hopen : Envelope.ofContent r.ownKey
      (Event.carrying sender senderKey r.ownKey type m).content = .ok ⟨senderKey, type, m.encode⟩ :=
    Envelope.ofContent_toRecipient sender senderKey r.ownKey type m.encode
  have hplain : (r.plaintext sender ⟨senderKey, type, m.encode⟩).answer = .ok (Wire.toText p) :=
    plaintext_eq_ok_iff_yields.mpr ⟨hreads, m, m.decode_encode, hyields, hplaintext.symm⟩
  obtain ⟨hanswer, -⟩ := decrypt_of_opened hopen
  have hsame : (Event.carrying sender senderKey r.ownKey type m).sender = sender := rfl
  rw [hanswer, hsame, hplain]
  exact accept_eq_ok_iff.mpr ⟨p, Payload.ofText_toText hlegible,
    ⟨hmeant.sender, hmeant.recipient, hmeant.recipientKeys⟩, content, hparse, rfl⟩

/-- A payload that is meant for us is delivered as it was sent: in a pre-key message for an unused
one-time key that no session of the sender key was created from, and in a normal message for a
session of the sender key that is not poisoned. -/
theorem decrypt_carrying (senderKey : IdentityKey) (hmeant : p.MeantFor sender r)
    (hlegible : p.content.Legible 126)
    (hparse : r.registry.parse p.type p.content = .ok content) :
    ∃ t, Text.toString? (Wire.toText p) = some t ∧
      (∀ id key, r.store.faults.failReads = false → r.account.failPersist = false →
        r.account.poisonNewSessions = false → r.account.has key = true →
        (∀ s ∈ r.sessions senderKey, s.oneTimeKey ≠ some key) →
        (r.decrypt (.carrying sender senderKey r.ownKey .preKey ⟨id, some key, t⟩)).answer =
          .ok (.ofPayload (.carrying sender senderKey r.ownKey .preKey ⟨id, some key, t⟩)
            senderKey p content)) ∧
      ∀ id, r.store.faults.failReads = false →
        (∃ s ∈ r.sessions senderKey, s.poisoned = false ∧ s.id = id) →
        (r.decrypt (.carrying sender senderKey r.ownKey .normal ⟨id, none, t⟩)).answer =
          .ok (.ofPayload (.carrying sender senderKey r.ownKey .normal ⟨id, none, t⟩)
            senderKey p content) := by
  obtain ⟨t, ht⟩ := Wire.isUtf8_toText p
  refine ⟨t, by rw [← ht, Text.toString?_ofString], ?_, ?_⟩
  · intro id key hreads hpersist hpoison hunused hfree
    refine decrypt_of_yields hmeant hlegible hparse hreads ht (.inr ⟨key, ?_, hpersist, hpoison⟩)
    exact
      { type := rfl
        body := Message.decode_encode _
        unclaimed := fun s hs => Trial.claims_of_ne rfl (hfree s hs)
        named := rfl
        unused := hunused }
  · intro id hreads hsession
    exact decrypt_of_yields hmeant hlegible hparse hreads ht (.inl hsession)

/-- A payload with text beyond ASCII, with what a string escapes, and with members inside members. -/
def greeting : Payload :=
  .compose ⟨"@alice:localhost"⟩ ⟨"ALICEDEVICE"⟩ ⟨"@bob:localhost"⟩ ⟨"BOBSIG"⟩ "m.greeting"
    (.object [("body", .string "\"Grüße\"\n"), ("times", .array [.number (.ofNat 3), .null])])

/-- The content of the greeting nests two levels, has its members in order and no doubles. -/
theorem legible_greeting : greeting.content.Legible 126 where
  nests := by simp [greeting, Payload.compose, Json.NestsAtMost]
  wellFormed := by
    have hordered : "body" < "times" := by decide
    refine .object (List.pairwise_pair.mpr hordered) (List.forall_mem_cons.mpr ⟨.string _, ?_⟩)
    refine List.forall_mem_singleton.mpr (.array ?_)
    exact List.forall_mem_cons.mpr ⟨.number _, List.forall_mem_singleton.mpr .null⟩
  integers := by
    refine .object (List.forall_mem_cons.mpr ⟨.string _, ?_⟩)
    refine List.forall_mem_singleton.mpr (.array ?_)
    exact List.forall_mem_cons.mpr ⟨.number rfl, List.forall_mem_singleton.mpr .null⟩

/-- The greeting arrives with a new session, and once more with one that is stored; its content is
kept raw, as nobody has registered its type. -/
theorem decrypt_carrying_greeting :
    ∃ t, Text.toString? (Wire.toText greeting) = some t ∧
      (withTwoKeys.decrypt (.carrying ⟨"@alice:localhost"⟩ ⟨"ALICEKEY"⟩ ⟨"BOBKEY"⟩ .preKey
          ⟨"S7", some "OTK7", t⟩)).answer =
        .ok (.ofPayload (.carrying ⟨"@alice:localhost"⟩ ⟨"ALICEKEY"⟩ ⟨"BOBKEY"⟩ .preKey
          ⟨"S7", some "OTK7", t⟩) ⟨"ALICEKEY"⟩ greeting (.unknown greeting.content)) ∧
      ((withTwoKeys.after [.addSession ⟨"ALICEKEY"⟩ ⟨"S7", none, false, 0⟩ false]).decrypt
          (.carrying ⟨"@alice:localhost"⟩ ⟨"ALICEKEY"⟩ ⟨"BOBKEY"⟩ .normal ⟨"S7", none, t⟩)).answer =
        .ok (.ofPayload (.carrying ⟨"@alice:localhost"⟩ ⟨"ALICEKEY"⟩ ⟨"BOBKEY"⟩ .normal
          ⟨"S7", none, t⟩) ⟨"ALICEKEY"⟩ greeting (.unknown greeting.content)) := by
  have hmeant : greeting.MeantFor ⟨"@alice:localhost"⟩ withTwoKeys := ⟨rfl, rfl, rfl⟩
  have hstored : greeting.MeantFor ⟨"@alice:localhost"⟩
      (withTwoKeys.after [.addSession ⟨"ALICEKEY"⟩ ⟨"S7", none, false, 0⟩ false]) := ⟨rfl, rfl, rfl⟩
  obtain ⟨t, ht, hpreKey, -⟩ := decrypt_carrying ⟨"ALICEKEY"⟩ hmeant legible_greeting rfl
  obtain ⟨t', ht', -, hnormal⟩ := decrypt_carrying ⟨"ALICEKEY"⟩ hstored legible_greeting rfl
  obtain rfl : t = t' := Option.some.inj (ht.symm.trans ht')
  refine ⟨t, ht, hpreKey "S7" "OTK7" rfl rfl rfl rfl ?_, hnormal "S7" rfl ?_⟩
  · exact fun s hs => absurd hs List.not_mem_nil
  · exact ⟨⟨"S7", none, false, 0⟩, List.mem_singleton.mpr rfl, rfl, rfl⟩

end Receiver

end OlmReceiver
