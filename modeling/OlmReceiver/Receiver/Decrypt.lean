import OlmReceiver.Receiver.Plaintext

/-!
# Decryption of events

An event is decrypted in three stages: its envelope is opened, the message inside is decrypted, and
the payload is authenticated against the transport and our own identity. Only the middle stage
changes the receiver.
-/

namespace OlmReceiver

/-- Decrypts an event for the device and the holder of the identity key. -/
def Script.decrypt (device : DeviceId) (ownKey : IdentityKey) (e : Event) :
    Script DecryptedEvent := do
  tell (.began e.sender device)
  let env ← .answer (Envelope.ofContent ownKey e.content)
  let t ← plaintext e.sender env
  let become ← ask (.accept env.senderKey t)
  .report (Receiver.acceptNotices (become e)) (.answer (become e))

namespace Receiver

/-- Decrypts an event. -/
def decrypt (r : Receiver) (e : Event) : Outcome DecryptedEvent :=
  (Script.decrypt r.device.deviceId r.ownKey e).run r

/-- The calls that the decryption of an event makes, with the receivers that it makes them on. -/
def trail (r : Receiver) (e : Event) : List (Receiver × Call) :=
  (Script.decrypt r.device.deviceId r.ownKey e).trail r

/-- The calls that the decryption of an event makes, in order. -/
def calls (r : Receiver) (e : Event) : List Call :=
  (r.trail e).map Prod.snd

end Receiver

end OlmReceiver
