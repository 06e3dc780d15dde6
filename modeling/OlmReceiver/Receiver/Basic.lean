import OlmReceiver.Event.Payload
import OlmReceiver.Event.Registry
import OlmReceiver.Ratchet.Account
import OlmReceiver.Receiver.Verdict
import OlmReceiver.Store.Faulty
import OlmReceiver.Unwedging

/-!
# Receivers

A receiver decrypts the events addressed to one device. Its account, its store of sessions and its
sink for unwedging requests change from event to event; the device and the registry of contents do
not.
-/

namespace OlmReceiver

/-- A device that decrypts events, with all that it does so with. -/
structure Receiver where
  device : LocalDevice
  registry : ContentRegistry
  account : Ratchet.Account
  store : FaultyStore
  sink : UnwedgeSink

/-- An event that was decrypted and authenticated. -/
structure DecryptedEvent where
  /-- The event as the transport delivered it. -/
  source : Event
  /-- The identity key that the event was sent with. -/
  senderKey : IdentityKey
  /-- The sending user, the same for transport and payload. -/
  sender : UserId
  /-- The sending device, as the payload claims. -/
  senderDevice : DeviceId
  /-- The signing key of the sending device, as the payload claims. -/
  keys : SigningKeys
  /-- Our own user. -/
  recipient : UserId
  /-- Our own signing key. -/
  recipientKeys : SigningKeys
  /-- The type of the event inside. -/
  type : String
  /-- The content of the event inside. -/
  content : EventContent

/-- An answer of a receiver, with what the receiver is afterwards and what it reported. -/
structure Outcome (α : Type) where
  answer : Except DecryptError α
  receiver : Receiver
  notices : List Notice

namespace Outcome

variable {α β : Type}

/-- Goes on from an outcome, unless it is a failure. -/
def andThen (o : Outcome α) (next : α → Receiver → Outcome β) : Outcome β :=
  match o with
  | ⟨.error err, r, notices⟩ => ⟨.error err, r, notices⟩
  | ⟨.ok a, r, notices⟩ =>
    let o := next a r
    { o with notices := notices ++ o.notices }

@[simp] theorem andThen_error (err : DecryptError) (r : Receiver) (notices : List Notice)
    (next : α → Receiver → Outcome β) :
    (⟨.error err, r, notices⟩ : Outcome α).andThen next = ⟨.error err, r, notices⟩ := rfl

@[simp] theorem andThen_ok (a : α) (r : Receiver) (notices : List Notice)
    (next : α → Receiver → Outcome β) :
    (⟨.ok a, r, notices⟩ : Outcome α).andThen next =
      { next a r with notices := notices ++ (next a r).notices } := rfl

end Outcome

namespace Receiver

/-- The identity key that ciphertexts for this receiver are addressed to. -/
def ownKey (r : Receiver) : IdentityKey :=
  r.account.keys.curve25519

/-- The signing key that payloads for this receiver name. -/
def ownFingerprint (r : Receiver) : FingerprintKey :=
  r.account.keys.ed25519

/-- Marks the device of a sender for unwedging. -/
def mark (r : Receiver) (sender : UserId) (senderKey : IdentityKey) : Receiver :=
  { r with sink := r.sink.mark ⟨sender, senderKey⟩ }

end Receiver

end OlmReceiver
