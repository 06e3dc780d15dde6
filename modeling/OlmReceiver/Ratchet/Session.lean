import OlmReceiver.Ratchet.Message

/-!
# Sessions

A session decrypts the messages that name it, unless it is poisoned. Every attempt to decrypt is
counted, successful or not, as a ratchet moves on with every attempt; asking whether a pre-key
message belongs to a session changes nothing.

The count is a word of 32 bits, so that attempt number 4294967296 on one session starts it anew.
Arithmetic that is checked would stop there instead: what is said of counts holds of both as long
as no session has reached the limit.
-/

namespace OlmReceiver.Ratchet

/-- A session with one peer. An inbound session remembers the one-time key it was created from. -/
structure Session where
  id : String
  oneTimeKey : Option String
  poisoned : Bool
  attempts : UInt32
deriving DecidableEq

namespace Session

/-- A session that matches no pre-key message. -/
def established (id : String) : Session :=
  ⟨id, none, false, 0⟩

/-- A session created from a pre-key message with this one-time key. -/
def inbound (id oneTimeKey : String) : Session :=
  ⟨id, some oneTimeKey, false, 0⟩

/-- The session, failing every further attempt. -/
def poison (s : Session) : Session :=
  { s with poisoned := true }

/-- Whether a message was built from the one-time key that the session was created from. -/
def claims (s : Session) (m : Message) : Bool :=
  m.oneTimeKey.isSome && m.oneTimeKey == s.oneTimeKey

/-- Whether a body was created for this session. -/
def matchesBody (s : Session) (body : String) : Except Error Bool := do
  let m ← Message.decode body
  .ok (s.claims m)

/-- What an attempt on a body yields. -/
def attempt (s : Session) (body : String) : Except Error Text := do
  let m ← Message.decode body
  if s.poisoned then .error (.poisoned s.id)
  else if m.sessionId ≠ s.id then .error (.wrongSession s.id)
  else .ok (Text.ofString m.plaintext)

/-- The session after one more attempt. The count starts anew behind its limit. -/
def advance (s : Session) : Session :=
  { s with attempts := s.attempts + 1 }

/-- Decrypts a body: what the attempt yields, and the session after it. -/
def decrypt (s : Session) (body : String) : Except Error Text × Session :=
  (s.attempt body, s.advance)

end Session

end OlmReceiver.Ratchet
