import OlmReceiver.Receiver.Script

/-!
# Plaintexts

The plaintext of an envelope comes from a stored session or, for a pre-key message that no stored
session claims, from a session created for it. The account is persisted before the created session
is used, so a one-time key is known to be used up before anything relies on it. The session is
stored whether or not it decrypts; failing to store it does not fail the message. Every failure
that shows a session to be out of sync marks the sender's device.
-/

namespace OlmReceiver

open Ratchet (Session)

namespace Script

/-- Creates a session from the body of a pre-key message and persists the account. -/
def bootstrap (env : Envelope) : Script (Except DecryptError Session) := do
  match ← ask (.create env.senderKey env.body) with
  | .error err => pure (.error (.createInboundSession (.ratchet err)))
  | .ok session =>
    match ← ask .persist with
    | .error err => pure (.error (.persistAccount (.ratchet err)))
    | .ok () =>
      tell (.sessionCreated env.senderKey session.id)
      pure (.ok session)

/-- Hands a created session to the store; a failure is only reported. -/
def keepSession (senderKey : IdentityKey) (session : Session) : Script Unit := do
  match ← ask (.add senderKey session) with
  | .ok () => pure ()
  | .error err => tell (.sessionNotStored senderKey session.id err)

/-- Fails a message for a session out of sync: the sender's device is marked. -/
def desync (sender : UserId) (senderKey : IdentityKey) (notice : Notice) (err : DecryptError) :
    Script Text := do
  tell notice
  let _ ← ask (.mark ⟨sender, senderKey⟩)
  .answer (.error err)

/-- Decrypts a pre-key message with a session created for it. -/
def decryptWithNew (sender : UserId) (env : Envelope) : Script Text := do
  match ← bootstrap env with
  | .error err => desync sender env.senderKey (.bootstrapFailed env.senderKey err) err
  | .ok session =>
    let (decrypted, session) := session.decrypt env.body
    keepSession env.senderKey session
    match decrypted with
    | .ok t => pure t
    | .error err =>
      desync sender env.senderKey (.newSessionFailed env.senderKey err)
        (.decryptWithNewSession (.ratchet err))

/-- What follows from the verdict of the stored sessions. -/
def afterTrial (sender : UserId) (env : Envelope) : Verdict → Script Text
  | .decrypted t => pure t
  | .refused id =>
    desync sender env.senderKey (.matchingSessionDesync sender env.senderKey id)
      .decryptionFailedWithMatchingSession
  | .unclaimed =>
    match env.type with
    | .preKey => decryptWithNew sender env
    | .normal =>
      desync sender env.senderKey (.normalMessageDesync sender env.senderKey)
        .decryptionFailedForNormalMessage

/-- Decrypts the message of an envelope that came with an event of this sender. -/
def plaintext (sender : UserId) (env : Envelope) : Script Text := do
  let verdict ← ask (.tryStored env)
  afterTrial sender env verdict

end Script

namespace Receiver

/-- Decrypts a pre-key message with a session created for it. -/
def decryptWithNew (r : Receiver) (sender : UserId) (env : Envelope) : Outcome Text :=
  (Script.decryptWithNew sender env).run r

/-- What follows from the verdict of the stored sessions. -/
def afterTrial (r : Receiver) (sender : UserId) (env : Envelope) (verdict : Verdict) :
    Outcome Text :=
  (Script.afterTrial sender env verdict).run r

/-- Decrypts the message of an envelope that came with an event of this sender. -/
def plaintext (r : Receiver) (sender : UserId) (env : Envelope) : Outcome Text :=
  (Script.plaintext sender env).run r

end Receiver

end OlmReceiver
