import OlmReceiver.Event.Payload
import OlmReceiver.Receiver.Basic

/-!
# Accepting payloads

A plaintext is read as a payload and authenticated against the transport and our own identity.
Payloads are authenticated before their content is parsed, so that no parser sees the content of a
payload that is not from and for whom it should be.
-/

namespace OlmReceiver

namespace Payload

/-- Refuses a payload that is not from this sender and for this user and signing key. -/
def authenticate (p : Payload) (sender : UserId) (user : UserId) (key : FingerprintKey) :
    Except DecryptError Unit :=
  if p.sender ≠ sender then .error (.senderMismatch sender p.sender)
  else if p.recipient ≠ user then .error (.recipientMismatch user p.recipient)
  else if p.recipientKeys.ed25519 ≠ key then
    .error (.recipientKeyMismatch key p.recipientKeys.ed25519)
  else .ok ()

/-- Parses the content of a payload by its type. -/
def parseContent (p : Payload) (registry : ContentRegistry) : Except DecryptError EventContent :=
  match registry.parse p.type p.content with
  | .ok content => .ok content
  | .error fault => .error (.malformedContent p.type fault)

end Payload

namespace Receiver

/-- Reads a plaintext as a payload, authenticates it and parses its content. -/
def accept (r : Receiver) (e : Event) (senderKey : IdentityKey) (plaintext : Text) :
    Except DecryptError DecryptedEvent :=
  match Wire.ofText plaintext with
  | .error fault => .error (.malformedPayload fault)
  | .ok (p : Payload) => do
    p.authenticate e.sender r.device.userId r.ownFingerprint
    let content ← p.parseContent r.registry
    .ok
      { source := e
        senderKey
        sender := p.sender
        senderDevice := p.senderDevice
        keys := p.keys
        recipient := p.recipient
        recipientKeys := p.recipientKeys
        type := p.type
        content }

/-- What is reported of an accepted payload. -/
def acceptNotices : Except DecryptError DecryptedEvent → List Notice
  | .ok d => if d.content.isUnknown then [.keptRaw d.type] else []
  | .error _ => []

end Receiver

end OlmReceiver
