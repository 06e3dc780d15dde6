import OlmReceiver.Identity

/-!
# Encrypted events

An event is what the transport delivers: its sender is vouched for by the transport, its content is
raw JSON. The content of an encrypted event names an algorithm; under Olm it carries one ciphertext
per recipient device, and the entries stay raw so that a malformed entry for another device does
not matter to ours.
-/

namespace OlmReceiver

/-- The algorithm tag of device-to-device encryption. -/
def olmAlgorithm : String := "m.olm.v1.curve25519-aes-sha2"

/-- The event type of encrypted events. -/
def encryptedEventType : String := "m.room.encrypted"

/-- An event as the transport delivers it; events sent to devices have no id. -/
structure Event where
  sender : UserId
  type : String
  id : Option String
  content : Json

/-- A ciphertext is a map from recipient identity keys to raw entries, or one group message. -/
inductive Ciphertext where
  | recipients (entries : Json.Members)
  | group (body : String)

/-- The content of an encrypted event. -/
structure EncryptedContent where
  algorithm : String
  senderKey : IdentityKey
  ciphertext : Ciphertext

/-- The entry for one recipient: any number as its type, and the body of a ratchet message. -/
structure RecipientCiphertext where
  type : Number
  body : String
deriving DecidableEq

/-- A message either can establish a session or needs an established one. -/
inductive MessageType where
  | preKey
  | normal
deriving DecidableEq

namespace MessageType

/-- The number of a message type on the wire. -/
def number : MessageType → Number
  | .preKey => .ofNat 0
  | .normal => .ofNat 1

/-- The message type of a number: the integers zero and one have one, floats have none. -/
def ofNumber? (n : Number) : Option MessageType :=
  match n.toInt? with
  | some 0 => some .preKey
  | some 1 => some .normal
  | _ => none

end MessageType

instance : Wire Event where
  shape := .record (.required "sender" .string (.required "type" .string
    (.optional "event_id" .string (.required "content" .any .done))))
  ofValue | (sender, type, id, content, ()) => ⟨⟨sender⟩, type, id, content⟩
  toValue e := (e.sender.value, e.type, e.id, e.content, ())

instance : Wire EncryptedContent where
  shape := .record (.required "algorithm" .string
    (.required ⟨"sender_key", ["senderKey"]⟩ .string
      (.required ⟨"ciphertext", ["ciphertexts"]⟩ .objectOrString .done)))
  ofValue
    | (algorithm, key, .inl entries, ()) => ⟨algorithm, ⟨key⟩, .recipients entries⟩
    | (algorithm, key, .inr body, ()) => ⟨algorithm, ⟨key⟩, .group body⟩
  toValue
    | ⟨algorithm, key, .recipients entries⟩ => (algorithm, key.value, .inl entries, ())
    | ⟨algorithm, key, .group body⟩ => (algorithm, key.value, .inr body, ())
  ofValue_toValue c := by obtain ⟨_, _, _ | _⟩ := c <;> rfl
  toValue_ofValue v := by obtain ⟨_, _, _ | _, _⟩ := v <;> rfl

instance : Wire RecipientCiphertext where
  shape := .record (.required "type" .number (.required "body" .string .done))
  ofValue | (type, body, ()) => ⟨type, body⟩
  toValue c := (c.type, c.body, ())

namespace RecipientCiphertext

/-- The entry of a message in a recipient map. -/
def ofMessage (type : MessageType) (body : String) : RecipientCiphertext :=
  ⟨type.number, body⟩

/-- The raw entry of a recipient map. -/
def toEntry (c : RecipientCiphertext) : Json :=
  .object [("body", .string c.body), ("type", .number c.type)]

end RecipientCiphertext

namespace EncryptedContent

/-- The algorithm tag of raw encrypted content, read as a record with no other field. -/
def algorithmOf? (content : Json) : Option String :=
  ((Wire.Shape.record (.required "algorithm" .string .done)).ofJson? content).map Prod.fst

/-- Olm content with one ciphertext for each recipient. -/
def olm (senderKey : IdentityKey) (ciphertexts : Dictionary IdentityKey RecipientCiphertext) :
    EncryptedContent :=
  ⟨olmAlgorithm, senderKey, .recipients (ciphertexts.map fun e => (e.1.value, e.2.toEntry))⟩

end EncryptedContent

namespace Event

/-- An event sent to devices with encrypted content. -/
def encrypted (sender : UserId) (content : EncryptedContent) : Event :=
  ⟨sender, encryptedEventType, none, Wire.toJson content⟩

/-- An encrypted event with a ciphertext for one recipient. -/
def toRecipient (sender : UserId) (senderKey recipient : IdentityKey)
    (ciphertext : RecipientCiphertext) : Event :=
  encrypted sender (.olm senderKey [(recipient, ciphertext)])

end Event

end OlmReceiver
