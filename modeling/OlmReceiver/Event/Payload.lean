import OlmReceiver.Identity

/-!
# Payloads

A payload is the plaintext of an Olm message. It repeats who sent it and whom it is meant for, so
that the receiver can hold both against the transport and against its own identity.
-/

namespace OlmReceiver

/-- The signing key of one party of a payload. -/
structure SigningKeys where
  ed25519 : FingerprintKey
deriving DecidableEq

/-- A plaintext: the claimed sender and recipient, and an event of some type. -/
structure Payload where
  sender : UserId
  senderDevice : DeviceId
  keys : SigningKeys
  recipient : UserId
  recipientKeys : SigningKeys
  type : String
  content : Json

/-- The shape of the signing key of one party. -/
def SigningKeys.shape : Wire.Shape :=
  .record (.required "ed25519" .string .done)

instance : Wire SigningKeys where
  shape := SigningKeys.shape
  ofValue | (key, ()) => ⟨⟨key⟩⟩
  toValue k := (k.ed25519.value, ())

instance : Wire Payload where
  shape := .record (.required "sender" .string (.required "sender_device" .string
    (.required "keys" SigningKeys.shape (.required "recipient" .string
      (.required "recipient_keys" SigningKeys.shape (.required "type" .string
        (.required "content" .any .done)))))))
  ofValue
    | (sender, device, (key, ()), recipient, (recipientKey, ()), type, content, ()) =>
      ⟨⟨sender⟩, ⟨device⟩, ⟨⟨key⟩⟩, ⟨recipient⟩, ⟨⟨recipientKey⟩⟩, type, content⟩
  toValue p :=
    (p.sender.value, p.senderDevice.value, (p.keys.ed25519.value, ()), p.recipient.value,
      (p.recipientKeys.ed25519.value, ()), p.type, p.content, ())

/-- The payload that a peer writes whose signing key is named after its device. -/
def Payload.compose (sender : UserId) (senderDevice : DeviceId) (recipient : UserId)
    (recipientKey : FingerprintKey) (type : String) (content : Json) : Payload :=
  { sender, senderDevice, recipient, type, content
    keys := ⟨⟨senderDevice.value ++ "_ED25519"⟩⟩
    recipientKeys := ⟨recipientKey⟩ }

end OlmReceiver
