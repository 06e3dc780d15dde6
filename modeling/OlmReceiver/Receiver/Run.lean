import OlmReceiver.Receiver.Decrypt

/-!
# Runs of receivers

A run is a list of steps. Besides decrypting events, a step may add or poison a stored session,
turn a switch for faults, or mark, take, clear or look up an unwedging request. What a step answers
and what it leaves behind depend on nothing but the receiver before it.
-/

namespace OlmReceiver

open Ratchet (Session)

/-- One step of a run. -/
inductive Step where
  /-- Adds a session, past the switches of the store or through them. -/
  | addSession (senderKey : IdentityKey) (session : Session) (throughSwitches : Bool)
  /-- Poisons the stored session of a sender key at an index. -/
  | poison (senderKey : IdentityKey) (index : Nat)
  | failReads (fail : Bool)
  | failWrites (fail : Bool)
  | failPersist (fail : Bool)
  | poisonNewSessions (poison : Bool)
  | mark (request : UnwedgeRequest)
  | take
  | clear (request : UnwedgeRequest)
  | isMarked (request : UnwedgeRequest)
  | decrypt (event : Event)

/-- What a step answers. -/
inductive Answer where
  | done
  /-- There is no session to poison. -/
  | noSession
  | added (result : Except StoreError Unit)
  | marked
  /-- The requests taken; a record of marks has none. -/
  | taken (requests : Option (List UnwedgeRequest))
  /-- Whether a request is or was pending; a record of marks does not say. -/
  | pending (isPending : Option Bool)
  | decrypted (result : Except DecryptError DecryptedEvent)

namespace Receiver

/-- Takes a step: its answer, the receiver afterwards and what was reported. -/
def step (r : Receiver) : Step → Answer × Receiver × List Notice
  | .addSession key session true =>
    let (result, store) := r.store.add key session
    (.added result, { r with store }, [])
  | .addSession key session false =>
    let store := { r.store with inner := r.store.inner.add key session }
    (.added (.ok ()), { r with store }, [])
  | .poison key index =>
    let (found, inner) := r.store.inner.poison key index
    (if found then .done else .noSession, { r with store := { r.store with inner } }, [])
  | .failReads fail => (.done, { r with store := r.store.setFailReads fail }, [])
  | .failWrites fail => (.done, { r with store := r.store.setFailWrites fail }, [])
  | .failPersist fail => (.done, { r with account := { r.account with failPersist := fail } }, [])
  | .poisonNewSessions poison =>
    (.done, { r with account := { r.account with poisonNewSessions := poison } }, [])
  | .mark request => (.marked, r.mark request.userId request.senderKey, [])
  | .take =>
    let (requests, sink) := r.sink.take
    (.taken requests, { r with sink }, [])
  | .clear request =>
    let (wasPending, sink) := r.sink.clear request
    (.pending wasPending, { r with sink }, [])
  | .isMarked request => (.pending (r.sink.isMarked request), r, [])
  | .decrypt e =>
    let o := r.decrypt e
    (.decrypted o.answer, o.receiver, o.notices)

/-- The receiver after some steps. -/
def after (r : Receiver) (steps : List Step) : Receiver :=
  steps.foldl (fun r s => (r.step s).2.1) r

@[simp] theorem after_nil (r : Receiver) : r.after [] = r := rfl

@[simp] theorem after_cons (r : Receiver) (s : Step) (steps : List Step) :
    r.after (s :: steps) = (r.step s).2.1.after steps := rfl

/-- A run after another. -/
theorem after_append (r : Receiver) (first second : List Step) :
    r.after (first ++ second) = (r.after first).after second :=
  List.foldl_append

/-- What every step preserves holds along every run. -/
theorem after_of_step {P : Receiver → Prop} (hstep : ∀ r s, P r → P (r.step s).2.1)
    {r : Receiver} (h : P r) (steps : List Step) : P (r.after steps) := by
  induction steps generalizing r with
  | nil => exact h
  | cons s steps ih => exact ih (hstep r s h)

/-- Decrypting is a step like any other. -/
@[simp] theorem step_decrypt (r : Receiver) (e : Event) :
    (r.step (.decrypt e)).2.1 = (r.decrypt e).receiver := rfl

end Receiver

end OlmReceiver
