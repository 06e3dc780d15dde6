import OlmReceiver.Proofs.Confinement
import OlmReceiver.Proofs.Dictionaries

/-!
# Receivers in the same state

A store is a map from sender keys to sessions. Two receivers are in the same state if their stores
have the same sessions under the same keys, and all else is equal. No step tells such receivers apart:
they answer and report the same, and are in the same state behind it.

How a store arranges its entries is left open by this. Stores that keep them in the order of their
keys, as every store does that was empty once, leave no choice: receivers in the same state are equal.
-/

namespace OlmReceiver

open Ratchet (Session)

/-- Identity keys are ordered like the strings that they are. -/
instance : IsStrictTotalOrder IdentityKey (· < ·) where
  trichotomous _ _ hab hba :=
    congrArg IdentityKey.mk (String.le_antisymm (String.not_lt.mp hba) (String.not_lt.mp hab))
  irrefl a := String.lt_irrefl a.value
  trans _ _ _ := String.lt_trans

namespace SessionStore

/-- Only what is under the sender key is updated, if there is something. -/
theorem get?_update (st : SessionStore) (key key' : IdentityKey)
    (change : List Session → List Session) :
    Dictionary.get? key' (st.update key change).entries =
      if key' = key then (Dictionary.get? key st.entries).map change
      else Dictionary.get? key' st.entries := by
  cases hget : Dictionary.get? key st.entries with
  | none =>
    by_cases heq : key' = key
    · simp [update, hget, heq]
    · simp [update, hget, heq]
  | some sessions => simp [update, hget, Dictionary.get?_insert]

/-- Only the sessions of a sender key are added to. -/
theorem get?_add (st : SessionStore) (key key' : IdentityKey) (session : Session) :
    Dictionary.get? key' (st.add key session).entries =
      if key' = key then some (st.sessions key ++ [session])
      else Dictionary.get? key' st.entries :=
  Dictionary.get?_insert ..

/-- An update leaves the entries in order. -/
theorem ordered_update {st : SessionStore} (h : Dictionary.Ordered st.entries) (key : IdentityKey)
    (change : List Session → List Session) :
    Dictionary.Ordered (st.update key change).entries := by
  unfold update
  cases Dictionary.get? key st.entries with
  | none => exact h
  | some sessions => exact h.insert key (change sessions)

/-- Adding a session leaves the entries in order. -/
theorem ordered_add {st : SessionStore} (h : Dictionary.Ordered st.entries) (key : IdentityKey)
    (session : Session) : Dictionary.Ordered (st.add key session).entries :=
  h.insert key _

end SessionStore

namespace Receiver

/-! ## The same state -/

/-- Two receivers are in the same state: their stores are the same map, and the rest is equal. -/
structure SameState (r r' : Receiver) : Prop where
  rest : ∃ inner, r' = { r with store := { r.store with inner } }
  entries : ∀ key, Dictionary.get? key r'.store.inner.entries =
    Dictionary.get? key r.store.inner.entries

/-- A receiver is in the same state as itself. -/
theorem SameState.refl (r : Receiver) : SameState r r :=
  ⟨⟨r.store.inner, rfl⟩, fun _ => rfl⟩

/-- Being in the same state is symmetric. -/
theorem SameState.symm {r r' : Receiver} (h : SameState r r') : SameState r' r := by
  obtain ⟨⟨inner, rfl⟩, hentries⟩ := h
  exact ⟨⟨r.store.inner, rfl⟩, fun key => (hentries key).symm⟩

/-- Being in the same state is transitive. -/
theorem SameState.trans {r r' r'' : Receiver} (h : SameState r r') (h' : SameState r' r'') :
    SameState r r'' := by
  obtain ⟨⟨inner, rfl⟩, hentries⟩ := h
  obtain ⟨⟨inner', rfl⟩, hentries'⟩ := h'
  exact ⟨⟨inner', rfl⟩, fun key => (hentries' key).trans (hentries key)⟩

section

variable {r r' : Receiver} (h : SameState r r')

include h

/-- In the same state there are the same sessions under each sender key. -/
theorem SameState.sessions (key : IdentityKey) : r'.sessions key = r.sessions key :=
  congrArg (Option.getD · []) (h.entries key)

/-- Receivers in the same state are alike for any sender key. -/
theorem SameState.alikeFor (sender : Option IdentityKey) : r.AlikeFor sender r' :=
  ⟨h.rest, fun key _ => h.sessions key⟩

/-- Receivers in the same state agree on everything that a decryption looks at. -/
theorem SameState.agreeOn (sender : Option IdentityKey) (named : String → Prop) :
    AgreeOn sender named r r' := by
  have hsessions := h.sessions
  obtain ⟨inner, rfl⟩ := h.rest
  exact ⟨⟨rfl, rfl, rfl, rfl, rfl, rfl, rfl⟩, fun key _ => hsessions key, fun _ _ => rfl⟩

/-! ## What preserves it -/

/-- Receivers in the same state stay so if the sessions of a sender key are updated in both. -/
theorem SameState.update (key : IdentityKey) (change : List Session → List Session) :
    SameState { r with store := { r.store with inner := r.store.inner.update key change } }
      { r' with store := { r'.store with inner := r'.store.inner.update key change } } := by
  have hentries := h.entries
  obtain ⟨inner, rfl⟩ := h.rest
  refine ⟨⟨_, rfl⟩, fun key' => ?_⟩
  simp only [SessionStore.get?_update, hentries]

/-- Receivers in the same state stay so if a session is added to both stores. -/
theorem SameState.addInner (key : IdentityKey) (session : Session) :
    SameState { r with store := { r.store with inner := r.store.inner.add key session } }
      { r' with store := { r'.store with inner := r'.store.inner.add key session } } := by
  have hentries := h.entries
  have hsessions : r'.store.inner.sessions key = r.store.inner.sessions key := h.sessions key
  obtain ⟨inner, rfl⟩ := h.rest
  refine ⟨⟨_, rfl⟩, fun key' => ?_⟩
  simp only [SessionStore.get?_add, hentries, hsessions]

/-- A session is stored or refused alike by receivers in the same state. -/
theorem SameState.add (key : IdentityKey) (session : Session) :
    (r'.store.add key session).1 = (r.store.add key session).1 ∧
      SameState { r with store := (r.store.add key session).2 }
        { r' with store := (r'.store.add key session).2 } := by
  have hadd := h.addInner key session
  have hentries := h.entries
  obtain ⟨inner, rfl⟩ := h.rest
  unfold FaultyStore.add
  cases r.store.faults.failWrites with
  | true => exact ⟨rfl, ⟨inner, rfl⟩, hentries⟩
  | false => exact ⟨rfl, ⟨_, rfl⟩, hadd.entries⟩

end

/-- A trial that reads the store updates the sessions of the sender key with what it makes of them. -/
theorem receiver_tryStored_of_reads {r : Receiver} (hreads : r.store.faults.failReads = false)
    (env : Envelope) :
    (r.tryStored env).receiver =
      { r with
        store :=
          { r.store with
            inner := r.store.inner.update env.senderKey fun sessions =>
              (Trial.ofMessage env.type env.body sessions).sessions } } := by
  simp [tryStored, FaultyStore.withSessions_of_reads hreads, SessionStore.withSessions_snd]

/-- A call leaves receivers in the same state if it found them so. -/
theorem SameState.perform {r r' : Receiver} (h : SameState r r') (call : Call) :
    SameState (r.perform call) (r'.perform call) := by
  have hentries := h.entries
  cases call with
  | tryStored env =>
    have hfaults : r'.store.faults = r.store.faults := by
      obtain ⟨inner, rfl⟩ := h.rest
      rfl
    cases hreads : r.store.faults.failReads with
    | true =>
      rw [perform_tryStored, perform_tryStored, tryStored_of_failReads hreads,
        tryStored_of_failReads (hfaults ▸ hreads)]
      exact h
    | false =>
      rw [perform_tryStored, perform_tryStored, receiver_tryStored_of_reads hreads,
        receiver_tryStored_of_reads (hfaults ▸ hreads)]
      exact h.update _ _
  | add key session => exact (h.add key session).2
  | _ =>
    obtain ⟨inner, rfl⟩ := h.rest
    exact ⟨⟨inner, rfl⟩, hentries⟩

/-- Calls leave receivers in the same state if they found them so. -/
theorem SameState.performAll {r r' : Receiver} (h : SameState r r') (calls : List Call) :
    SameState (r.performAll calls) (r'.performAll calls) := by
  induction calls generalizing r r' with
  | nil => exact h
  | cons call calls ih => exact ih (h.perform call)

/-- Receivers in the same state decrypt an event alike, and are in the same state behind it. -/
theorem SameState.decrypt {r r' : Receiver} (h : SameState r r') (e : Event) :
    (r'.decrypt e).answer = (r.decrypt e).answer ∧
      (r'.decrypt e).notices = (r.decrypt e).notices ∧
      SameState (r.decrypt e).receiver (r'.decrypt e).receiver := by
  have halike := (h.alikeFor e.senderKey?).decrypt
  have hcalls := ((h.agreeOn e.senderKey? fun _ => True).calls fun _ _ => trivial).2.1
  refine ⟨halike.answer, halike.notices, ?_⟩
  -- Both make the same calls, so what they leave is compared call by call.
  rw [decrypt_receiver, decrypt_receiver, hcalls]
  exact h.performAll _

/-- Two steps did the same: they answered and reported the same, and left the same state. -/
structure SameTurn (t t' : Answer × Receiver × List Notice) : Prop where
  answer : t'.1 = t.1
  receiver : SameState t.2.1 t'.2.1
  notices : t'.2.2 = t.2.2

/-- No step tells receivers in the same state apart. -/
theorem SameState.step {r r' : Receiver} (h : SameState r r') (s : Step) :
    SameTurn (r.step s) (r'.step s) := by
  have hentries := h.entries
  cases s with
  | addSession key session throughSwitches =>
    cases throughSwitches with
    | true => exact ⟨congrArg Answer.added (h.add key session).1, (h.add key session).2, rfl⟩
    | false => exact ⟨rfl, h.addInner key session, rfl⟩
  | poison key index =>
    have hsessions : r'.store.inner.sessions key = r.store.inner.sessions key := h.sessions key
    have hupdate := h.update key (List.modify · index Session.poison)
    simp only [Receiver.step, SessionStore.poison, SessionStore.withSessions_fst,
      SessionStore.withSessions_snd]
    exact ⟨by simp only [hsessions], hupdate, rfl⟩
  | decrypt e =>
    obtain ⟨hanswer, hnotices, hstate⟩ := h.decrypt e
    exact ⟨congrArg Answer.decrypted hanswer, hstate, hnotices⟩
  | _ =>
    obtain ⟨inner, rfl⟩ := h.rest
    exact ⟨rfl, ⟨⟨inner, rfl⟩, hentries⟩, rfl⟩

/-! ## Stores in order -/

/-- The store keeps its entries in the order of their keys. -/
def InOrder (r : Receiver) : Prop :=
  Dictionary.Ordered r.store.inner.entries

/-- Receivers in the same state that both keep their stores in order are equal. -/
theorem SameState.eq {r r' : Receiver} (h : SameState r r') (ho : r.InOrder) (ho' : r'.InOrder) :
    r' = r := by
  obtain ⟨inner, rfl⟩ := h.rest
  have hentries : inner.entries = r.store.inner.entries := ho'.ext ho h.entries
  have hinner : inner = r.store.inner := congrArg SessionStore.mk hentries
  rw [hinner]

/-- A store in order is in order behind a session that it was asked to add. -/
theorem InOrder.add {r : Receiver} (h : r.InOrder) (key : IdentityKey) (session : Session) :
    InOrder { r with store := (r.store.add key session).2 } := by
  unfold InOrder FaultyStore.add
  cases r.store.faults.failWrites with
  | true => exact h
  | false => exact SessionStore.ordered_add h key session

/-- No call takes a store out of order. -/
theorem InOrder.perform {r : Receiver} (h : r.InOrder) (call : Call) : (r.perform call).InOrder := by
  cases call with
  | tryStored env =>
    rw [perform_tryStored]
    cases hreads : r.store.faults.failReads with
    | true => rwa [tryStored_of_failReads hreads]
    | false =>
      rw [receiver_tryStored_of_reads hreads]
      exact SessionStore.ordered_update h _ _
  | add key session => exact h.add key session
  | _ => exact h

/-- No calls take a store out of order. -/
theorem InOrder.performAll {r : Receiver} (h : r.InOrder) (calls : List Call) :
    (r.performAll calls).InOrder := by
  induction calls generalizing r with
  | nil => exact h
  | cons call calls ih => exact ih (h.perform call)

/-- No step takes a store out of order. -/
theorem InOrder.step {r : Receiver} (h : r.InOrder) (s : Step) : (r.step s).2.1.InOrder := by
  cases s with
  | addSession key session throughSwitches =>
    cases throughSwitches with
    | true => exact h.add key session
    | false => exact SessionStore.ordered_add h key session
  | poison key index =>
    simp only [Receiver.step, SessionStore.poison, SessionStore.withSessions_snd]
    exact SessionStore.ordered_update h _ _
  | decrypt e =>
    rw [step_decrypt, decrypt_receiver]
    exact h.performAll (r.calls e)
  | _ => exact h

end Receiver

end OlmReceiver
