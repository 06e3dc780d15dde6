import OlmReceiver.Receiver.Accept
import OlmReceiver.Receiver.Verdict

/-!
# Calls on the parts of a receiver

Decrypting an event calls on the session store, the account, the sink and the payload reader. The
part that is called on replies, and may change; nothing else changes a receiver while it decrypts.
-/

namespace OlmReceiver

open Ratchet (Session)

/-- A call that decrypting an event makes on a part of the receiver. -/
inductive Call where
  /-- The stored sessions of the sender key are tried on the message. -/
  | tryStored (env : Envelope)
  /-- The account is asked for a session created from a body. -/
  | create (senderKey : IdentityKey) (body : String)
  /-- The account is asked to persist itself. -/
  | persist
  /-- The store is asked to add a session. -/
  | add (senderKey : IdentityKey) (session : Session)
  /-- The sink is handed a request. -/
  | mark (request : UnwedgeRequest)
  /-- A plaintext is read as a payload. -/
  | accept (senderKey : IdentityKey) (plaintext : Text)
deriving DecidableEq

/-- What the part that is called on replies. Of a plaintext, it is what becomes of the event that
brought it. -/
def Call.Reply : Call → Type
  | .tryStored _ => Verdict
  | .create _ _ => Except Ratchet.Error Session
  | .persist => Except Ratchet.Error Unit
  | .add _ _ => Except StoreError Unit
  | .mark _ => Unit
  | .accept _ _ => Event → Except DecryptError DecryptedEvent

namespace Receiver

/-- Tries the stored sessions of the sender key of an envelope. -/
def tryStored (r : Receiver) (env : Envelope) : Outcome Verdict :=
  let run (sessions : List Session) :=
    let t := Trial.ofMessage env.type env.body sessions
    ((t.verdict, t.notices), t.sessions)
  match r.store.withSessions env.senderKey run with
  | (.error e, store) =>
    ⟨.error (.sessionLookup env.senderKey (.store e)), { r with store }, []⟩
  | (.ok (verdict, notices), store) => ⟨verdict, { r with store }, notices⟩

/-- Makes a call. Where there is no verdict on the stored sessions, there is no reply either. -/
def call (r : Receiver) : (c : Call) → Outcome c.Reply
  | .tryStored env => r.tryStored env
  | .create _ body =>
    ⟨.ok (r.account.newInbound body).1, { r with account := (r.account.newInbound body).2 }, []⟩
  | .persist => ⟨.ok r.account.persist.1, { r with account := r.account.persist.2 }, []⟩
  | .add key session =>
    ⟨.ok (r.store.add key session).1, { r with store := (r.store.add key session).2 }, []⟩
  | .mark request => ⟨.ok (), { r with sink := r.sink.mark request }, []⟩
  | .accept key t => ⟨.ok fun e => r.accept e key t, r, []⟩

end Receiver

end OlmReceiver
