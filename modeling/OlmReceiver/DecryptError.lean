import OlmReceiver.Store.Basic

/-!
# Why an event is not decrypted

Each error is a cause, with the fault below it where there is one. The kind of an error tells its
reader what to do; the errors of one kind, `sessionDesync`, are those that mark the sender's device
for unwedging.
-/

namespace OlmReceiver

/-- A fault of the ratchet or of the session store. -/
inductive Cause where
  | ratchet (error : Ratchet.Error)
  | store (error : StoreError)
deriving DecidableEq

/-- Why an event is not decrypted. Every error ends the decryption of its event. -/
inductive DecryptError where
  /-- The content of the event is not that of an encrypted event. -/
  | invalidEncryptedContent (fault : Json.Fault)
  /-- The algorithm is Olm, but there is a group message in place of a recipient map. -/
  | incorrectEncryptedContentType
  /-- The algorithm is not Olm. -/
  | unsupportedAlgorithm (algorithm : String)
  /-- No entry of the recipient map is for our identity key. -/
  | notEncryptedForMe
  /-- The number of our entry is that of no message type. -/
  | unsupportedOlmMessageType (number : Number)
  /-- The sessions of the sender could not be read. -/
  | sessionLookup (senderKey : IdentityKey) (cause : Cause)
  /-- A stored session could not tell whether a pre-key message belongs to it. -/
  | inboundSessionMatch (cause : Cause)
  /-- The session that a pre-key message belongs to could not decrypt it. -/
  | decryptionFailedWithMatchingSession
  /-- No stored session decrypted a normal message. -/
  | decryptionFailedForNormalMessage
  /-- The account could not create a session from a pre-key message. -/
  | createInboundSession (cause : Cause)
  /-- The account could not be persisted after it created a session. -/
  | persistAccount (cause : Cause)
  /-- A session could not decrypt the pre-key message that created it. -/
  | decryptWithNewSession (cause : Cause)
  /-- The plaintext is no payload. -/
  | malformedPayload (fault : Json.Fault)
  /-- The payload names another sender than the transport. -/
  | senderMismatch (expected found : UserId)
  /-- The payload is meant for another user. -/
  | recipientMismatch (expected found : UserId)
  /-- The payload is meant for another device. -/
  | recipientKeyMismatch (expected found : FingerprintKey)
  /-- The content of a known event type has not its shape. -/
  | malformedContent (eventType : String) (fault : Json.Fault)
deriving DecidableEq

/-- What the reader of an error should do about it. -/
inductive ErrorKind where
  /-- The event is nothing that this device can decrypt. -/
  | input
  /-- The payload is not from or for whom it should be. -/
  | authentication
  /-- The session is out of sync, and the sender's device was marked. -/
  | sessionDesync
  /-- A store, a ratchet or the structure of a payload failed. -/
  | infrastructure
deriving DecidableEq

namespace DecryptError

/-- The kind of an error. -/
def kind : DecryptError → ErrorKind
  | .invalidEncryptedContent _ | .incorrectEncryptedContentType | .unsupportedAlgorithm _
  | .notEncryptedForMe | .unsupportedOlmMessageType _ => .input
  | .senderMismatch .. | .recipientMismatch .. | .recipientKeyMismatch .. => .authentication
  | .decryptionFailedWithMatchingSession | .decryptionFailedForNormalMessage
  | .createInboundSession _ | .persistAccount _ | .decryptWithNewSession _ => .sessionDesync
  | .sessionLookup .. | .inboundSessionMatch _ | .malformedPayload _
  | .malformedContent .. => .infrastructure

/-- Whether an error means that the session is out of sync. -/
def isSessionDesync (e : DecryptError) : Bool :=
  e.kind = .sessionDesync

/-- The text of a mismatch. -/
private def mismatch (what expected found : String) : String :=
  "mismatched " ++ what ++ " in olm payload: expected " ++ expected ++ ", found " ++ found

/-- What an error says, without the fault below it. -/
def message : DecryptError → String
  | .invalidEncryptedContent _ => "event content is not valid encrypted content"
  | .incorrectEncryptedContentType => "olm event has a megolm-shaped ciphertext"
  | .unsupportedAlgorithm algorithm => "unsupported event encryption algorithm: " ++ algorithm
  | .notEncryptedForMe => "olm event doesn't contain ciphertext for this device"
  | .unsupportedOlmMessageType n => "unsupported olm message type: " ++ n.toString
  | .sessionLookup key _ => "failed to get sessions for " ++ key.value
  | .inboundSessionMatch _ => "failed to check if ciphertext matches inbound session"
  | .decryptionFailedWithMatchingSession =>
    "failed to decrypt olm event: decryption failed with matching session"
  | .decryptionFailedForNormalMessage =>
    "failed to decrypt olm event: decryption failed for normal message"
  | .createInboundSession _ => "failed to create new session from prekey message"
  | .persistAccount _ => "failed to persist account after creating inbound session"
  | .decryptWithNewSession _ =>
    "failed to decrypt olm event with session created from prekey message"
  | .malformedPayload _ => "failed to parse olm payload"
  | .senderMismatch expected found => mismatch "sender" expected.value found.value
  | .recipientMismatch expected found => mismatch "recipient" expected.value found.value
  | .recipientKeyMismatch expected found => mismatch "recipient key" expected.value found.value
  | .malformedContent type _ => "failed to parse content of olm payload event " ++ type

end DecryptError

end OlmReceiver
