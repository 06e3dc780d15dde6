import OlmReceiver.Notice
import OlmReceiver.Receiver.Envelope

/-!
# Trials of stored sessions

A pre-key message is tried on the first session that claims it and on no other, and the failure of
that session is final. A normal message carries nothing to claim it by: the sessions are tried in
order until one decrypts it.
-/

namespace OlmReceiver

open Ratchet (Session)

/-- What the stored sessions of a sender make of a message. -/
inductive Verdict where
  /-- A session decrypted it. -/
  | decrypted (plaintext : Text)
  /-- No session decrypted it, and none was shown to be the right one. -/
  | unclaimed
  /-- The session that the pre-key message belongs to failed. -/
  | refused (sessionId : String)
deriving DecidableEq

/-- A verdict, or why there is none, with the sessions after the trial and what was reported. -/
structure Trial where
  verdict : Except DecryptError Verdict
  sessions : List Session
  notices : List Notice

namespace Trial

/-- Puts a session and its notices in front of a trial of those behind it. -/
def before (session : Session) (notices : List Notice) (t : Trial) : Trial :=
  ⟨t.verdict, session :: t.sessions, notices ++ t.notices⟩

/-- Tries a normal message on every session up to the first that decrypts it. -/
def ofNormal (body : String) : List Session → Trial
  | [] => ⟨.ok .unclaimed, [], []⟩
  | s :: rest =>
    match s.decrypt body with
    | (.ok t, s') => ⟨.ok (.decrypted t), s' :: rest, [.decrypted s.id]⟩
    | (.error e, s') => (ofNormal body rest).before s' [.storedSessionFailed s.id e]

/-- Tries a pre-key message on the first session that claims it. -/
def ofPreKey (body : String) : List Session → Trial
  | [] => ⟨.ok .unclaimed, [], []⟩
  | s :: rest =>
    match s.matchesBody body with
    | .error e => ⟨.error (.inboundSessionMatch (.ratchet e)), s :: rest, []⟩
    | .ok false => (ofPreKey body rest).before s []
    | .ok true =>
      match s.decrypt body with
      | (.ok t, s') => ⟨.ok (.decrypted t), s' :: rest, [.decrypted s.id]⟩
      | (.error e, s') => ⟨.ok (.refused s.id), s' :: rest, [.matchingSessionFailed s.id e]⟩

/-- Tries a message on sessions in order. -/
def ofMessage (type : MessageType) (body : String) (sessions : List Session) : Trial :=
  match type with
  | .preKey => ofPreKey body sessions
  | .normal => ofNormal body sessions

end Trial

end OlmReceiver
