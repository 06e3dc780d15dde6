import OlmReceiver.DecryptError

/-!
# Notices

What a receiver reports while it decrypts. A notice is what happened; its level, its message and
its fields are how it is told.
-/

namespace OlmReceiver

/-- How much a notice matters. -/
inductive Level where
  | debug
  | info
  | warn
  | error
deriving DecidableEq

/-- What happened while an event was decrypted. -/
inductive Notice where
  /-- The event of this sender is being decrypted on this device. -/
  | began (sender : UserId) (device : DeviceId)
  /-- A stored session decrypted the message. -/
  | decrypted (sessionId : String)
  /-- The stored session that the pre-key message belongs to failed. -/
  | matchingSessionFailed (sessionId : String) (error : Ratchet.Error)
  /-- A stored session failed on the normal message. -/
  | storedSessionFailed (sessionId : String) (error : Ratchet.Error)
  /-- The decryption ended with the failure of the matching session. -/
  | matchingSessionDesync (sender : UserId) (senderKey : IdentityKey) (sessionId : String)
  /-- The decryption ended without a session for the normal message. -/
  | normalMessageDesync (sender : UserId) (senderKey : IdentityKey)
  /-- A session was created from the pre-key message, and the account persisted. -/
  | sessionCreated (senderKey : IdentityKey) (sessionId : String)
  /-- The created session was not stored. -/
  | sessionNotStored (senderKey : IdentityKey) (sessionId : String) (error : StoreError)
  /-- No session was created from the pre-key message. -/
  | bootstrapFailed (senderKey : IdentityKey) (error : DecryptError)
  /-- The created session failed on the message that created it. -/
  | newSessionFailed (senderKey : IdentityKey) (error : Ratchet.Error)
  /-- Content of an unknown type was kept raw. -/
  | keptRaw (eventType : String)
deriving DecidableEq

namespace Notice

/-- How much a notice matters. -/
def level : Notice → Level
  | .began .. | .decrypted _ | .matchingSessionFailed .. | .storedSessionFailed ..
  | .keptRaw _ => .debug
  | .sessionCreated .. => .info
  | .matchingSessionDesync .. | .normalMessageDesync .. | .bootstrapFailed ..
  | .newSessionFailed .. => .warn
  | .sessionNotStored .. => .error

/-- The message of a notice; for the beginning of a decryption, the name of the span it opens. -/
def message : Notice → String
  | .began .. => "decrypt_olm_event"
  | .decrypted _ => "Decrypted olm message with stored session"
  | .matchingSessionFailed .. => "Matching session failed to decrypt pre-key message"
  | .storedSessionFailed .. => "Stored session could not decrypt normal message"
  | .matchingSessionDesync sender _ _ =>
    "Found matching session yet decryption failed for sender " ++ sender.value
  | .normalMessageDesync sender _ =>
    "No stored session could decrypt normal message from " ++ sender.value
  | .sessionCreated .. => "Created inbound olm session from pre-key message"
  | .sessionNotStored _ _ error => "Failed to store created inbound session: " ++ error.message
  | .bootstrapFailed .. => "Inbound session bootstrap failed"
  | .newSessionFailed .. => "Session created from pre-key message failed to decrypt it"
  | .keptRaw _ => "Keeping olm payload content of unknown type raw"

/-- The named values that a notice carries. Of an error it is the text, without those of its causes. -/
def fields : Notice → List (String × String)
  | .began sender device => [("sender", sender.value), ("device", device.value)]
  | .decrypted id => [("session_id", id)]
  | .matchingSessionFailed id error => [("session_id", id), ("error", error.message)]
  | .storedSessionFailed id error => [("session_id", id), ("error", error.message)]
  | .matchingSessionDesync _ key id => [("sender_key", key.value), ("session_id", id)]
  | .normalMessageDesync _ key => [("sender_key", key.value)]
  | .sessionCreated key id => [("sender_key", key.value), ("session_id", id)]
  | .sessionNotStored key id _ => [("sender_key", key.value), ("session_id", id)]
  | .bootstrapFailed key error => [("sender_key", key.value), ("error", error.message)]
  | .newSessionFailed key error => [("sender_key", key.value), ("error", error.message)]
  | .keptRaw type => [("event_type", type)]

/-- Whether a notice opens a span instead of reporting an event. -/
def isSpan : Notice → Bool
  | .began .. => true
  | _ => false

end Notice

end OlmReceiver
