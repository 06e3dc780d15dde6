import OlmReceiver.Proofs.Course
import OlmReceiver.Receiver.Run

/-!
# One-time keys are used once and never lost

An account that starts with some one-time keys keeps books on them: each key is either unused or
recorded in the journal as used up, and never both. Creating a session is the only operation that
moves a key, from the unused to the used up, so the books balance along every run. They do so
whatever happens to a session behind its creation, as no failure returns a key.
-/

namespace OlmReceiver

open Ratchet (Session Account JournalEntry Message)

namespace Ratchet

/-- The one-time keys that a journal records as used up, in order. -/
def consumedIn (journal : List JournalEntry) : List String :=
  journal.filterMap fun
    | .consumed key => some key
    | .persisted _ => none

namespace Account

/-- The one-time keys that the account has used up, in order. -/
def consumedKeys (a : Account) : List String :=
  consumedIn a.journal

/-- The account has just been given its one-time keys. -/
structure Fresh (a : Account) (initial : List String) : Prop where
  oneTimeKeys : a.oneTimeKeys = KeySet.ofList initial
  journal : a.journal = []

/-- The used up and the unused one-time keys are together the initial ones, each of them once. -/
def Balanced (a : Account) (initial : List String) : Prop :=
  (a.consumedKeys ++ a.oneTimeKeys).Perm (KeySet.ofList initial)

/-- A fresh account has used up nothing. -/
theorem Fresh.consumedKeys {a : Account} {initial : List String} (h : a.Fresh initial) :
    a.consumedKeys = [] := by
  rw [Account.consumedKeys, h.journal]
  rfl

/-- The books of a fresh account are balanced. -/
theorem Fresh.balanced {a : Account} {initial : List String} (h : a.Fresh initial) :
    a.Balanced initial := by
  simp [Balanced, h.consumedKeys, h.oneTimeKeys]

/-! ## What balanced books say -/

section Balanced

variable {a : Account} {initial : List String} (h : a.Balanced initial)

include h

/-- No key is used up twice, left unused twice, or both used up and unused. -/
theorem Balanced.nodup : (a.consumedKeys ++ a.oneTimeKeys).Nodup :=
  h.nodup_iff.mpr (KeySet.nodup_ofList initial)

/-- Exactly the initial keys are used up or unused. -/
theorem Balanced.mem_iff {key : String} :
    key ∈ initial ↔ key ∈ a.consumedKeys ∨ key ∈ a.oneTimeKeys := by
  rw [← List.mem_append, List.Perm.mem_iff h, KeySet.mem_ofList]

/-- The unused keys are the initial ones without those used up. -/
theorem Balanced.has_iff {key : String} :
    a.has key = true ↔ key ∈ initial ∧ key ∉ a.consumedKeys := by
  obtain ⟨-, -, hdisjoint⟩ := List.nodup_append.mp h.nodup
  rw [has, List.contains_iff_mem, h.mem_iff]
  constructor
  · intro hunused
    exact ⟨.inr hunused, fun hused => hdisjoint key hused key hunused rfl⟩
  · rintro ⟨hused | hunused, hnot⟩
    · exact absurd hused hnot
    · exact hunused

end Balanced

/-! ## Operations on the books -/

/-- Using up a key records it behind those used up before. -/
theorem consumedKeys_consume (a : Account) (key : String) :
    (a.consume key).consumedKeys = a.consumedKeys ++ [key] := by
  simp [consumedKeys, consumedIn, consume]

/-- Persisting uses up nothing. -/
@[simp] theorem consumedKeys_persist (a : Account) : a.persist.2.consumedKeys = a.consumedKeys := by
  cases h : a.failPersist with
  | true => rw [persist_of_fail h]
  | false => simp [persist_of_ok h, consumedKeys, consumedIn]

/-- Persisting leaves the unused keys as they are. -/
@[simp] theorem oneTimeKeys_persist (a : Account) : a.persist.2.oneTimeKeys = a.oneTimeKeys := by
  cases h : a.failPersist with
  | true => rw [persist_of_fail h]
  | false => rw [persist_of_ok h]

/-- Persisting keeps the books as they are. -/
theorem Balanced.persist {a : Account} {initial : List String} (h : a.Balanced initial) :
    a.persist.2.Balanced initial := by
  simpa [Balanced] using h

/-- Using up an unused key moves it from one side of the books to the other. -/
theorem Balanced.consume {a : Account} {initial : List String} (h : a.Balanced initial)
    {key : String} (hunused : a.has key = true) : (a.consume key).Balanced initial := by
  have hkey : key ∈ a.oneTimeKeys := List.contains_iff_mem.mp hunused
  obtain ⟨-, hnodup, -⟩ := List.nodup_append.mp h.nodup
  have hmove : (a.consumedKeys ++ key :: KeySet.remove key a.oneTimeKeys).Perm
      (a.consumedKeys ++ a.oneTimeKeys) :=
    (KeySet.perm_remove hnodup hkey).symm.append_left a.consumedKeys
  rw [Balanced, consumedKeys_consume, List.append_assoc, List.singleton_append]
  exact hmove.trans h

/-- Creating a session, or failing to, keeps the books balanced. -/
theorem Balanced.newInbound {a : Account} {initial : List String} (h : a.Balanced initial)
    (body : String) : (a.newInbound body).2.Balanced initial := by
  rcases newInbound_cases a body with ⟨m, key, -, -, hunused, hnew⟩ | ⟨err, hnew⟩
  · rw [hnew]
    exact h.consume hunused
  · rw [hnew]
    exact h

end Account

end Ratchet

namespace Receiver

/-! ## Runs -/

/-- Every call keeps the books balanced. -/
theorem balanced_perform {r : Receiver} {initial : List String} (h : r.account.Balanced initial)
    (call : Call) : (r.perform call).account.Balanced initial := by
  cases call with
  | tryStored env => simpa using h
  | create senderKey body => exact h.newInbound body
  | persist => exact h.persist
  | _ => exact h

/-- Any calls in order keep the books balanced. -/
theorem balanced_performAll {r : Receiver} {initial : List String} (h : r.account.Balanced initial)
    (calls : List Call) : (r.performAll calls).account.Balanced initial := by
  induction calls generalizing r with
  | nil => exact h
  | cons call calls ih => exact ih (balanced_perform h call)

/-- Every step keeps the books balanced. -/
theorem balanced_step {r : Receiver} {initial : List String} (h : r.account.Balanced initial)
    (s : Step) : (r.step s).2.1.account.Balanced initial := by
  cases s with
  | decrypt e =>
    rw [step_decrypt, decrypt_receiver]
    exact balanced_performAll h (r.calls e)
  | addSession key session throughSwitches => cases throughSwitches <;> exact h
  | _ => exact h

/-- The books stay balanced along every run. -/
theorem balanced_after {r : Receiver} {initial : List String} (h : r.account.Balanced initial)
    (steps : List Step) : (r.after steps).account.Balanced initial :=
  after_of_step (P := fun r => r.account.Balanced initial) (fun _ s h => balanced_step h s) h steps

/-! ## Created sessions -/

/-- The session that a call creates, with the sender key that it is for. -/
def createdBy (r : Receiver) : Call → List (IdentityKey × Session)
  | .create senderKey body =>
    match (r.account.newInbound body).1 with
    | .ok session => [(senderKey, session)]
    | .error _ => []
  | _ => []

/-- The sessions that calls create, in order. -/
def createdDuring (r : Receiver) (calls : List Call) : List (IdentityKey × Session) :=
  (r.moments calls).flatMap fun (r', call) => r'.createdBy call

/-- The sessions that a step creates, which only a decryption does. -/
def createdIn (r : Receiver) : Step → List (IdentityKey × Session)
  | .decrypt e => r.createdDuring (r.calls e)
  | _ => []

/-- The sessions that a run creates, in order and for all sender keys. -/
def created (r : Receiver) : List Step → List (IdentityKey × Session)
  | [] => []
  | s :: steps => r.createdIn s ++ (r.step s).2.1.created steps

/-- A call uses up just the keys of the sessions that it creates. -/
theorem consumed_perform (r : Receiver) (call : Call) :
    (r.perform call).account.consumedKeys.map some =
      r.account.consumedKeys.map some ++ (r.createdBy call).map (·.2.oneTimeKey) := by
  cases call with
  | create senderKey body =>
    rcases Account.newInbound_cases r.account body with ⟨m, key, -, -, -, hnew⟩ | ⟨err, hnew⟩
    · simp [createdBy, hnew, Account.consumedKeys_consume]
    · simp [createdBy, hnew]
  | _ => simp [createdBy]

/-- Calls use up just the keys of the sessions that they create. -/
theorem consumed_performAll (r : Receiver) (calls : List Call) :
    (r.performAll calls).account.consumedKeys.map some =
      r.account.consumedKeys.map some ++ (r.createdDuring calls).map (·.2.oneTimeKey) := by
  induction calls generalizing r with
  | nil => simp [createdDuring, moments]
  | cons call calls ih =>
    rw [performAll_cons, ih, consumed_perform, createdDuring, createdDuring, moments,
      List.flatMap_cons, List.map_append, List.append_assoc]

/-- A step uses up just the keys of the sessions that it creates. -/
theorem consumed_step (r : Receiver) (s : Step) :
    (r.step s).2.1.account.consumedKeys.map some =
      r.account.consumedKeys.map some ++ (r.createdIn s).map (·.2.oneTimeKey) := by
  cases s with
  | decrypt e =>
    rw [step_decrypt, decrypt_receiver, consumed_performAll, createdIn]
  | addSession key session throughSwitches =>
    cases throughSwitches <;> exact (List.append_nil _).symm
  | _ => exact (List.append_nil _).symm

/-- The keys used up along a run are those of the sessions created in it, in the same order. -/
theorem consumed_after (r : Receiver) (steps : List Step) :
    (r.after steps).account.consumedKeys.map some =
      r.account.consumedKeys.map some ++ (r.created steps).map (·.2.oneTimeKey) := by
  induction steps generalizing r with
  | nil => exact (List.append_nil _).symm
  | cons s steps ih =>
    calc (r.after (s :: steps)).account.consumedKeys.map some
        = (r.step s).2.1.account.consumedKeys.map some ++
            ((r.step s).2.1.created steps).map (·.2.oneTimeKey) := ih (r.step s).2.1
      _ = r.account.consumedKeys.map some ++ (r.created (s :: steps)).map (·.2.oneTimeKey) := by
        rw [consumed_step, created, List.map_append, List.append_assoc]

/-- A key that is used up stays so. -/
theorem mem_consumed_after {r : Receiver} {key : String} (h : key ∈ r.account.consumedKeys)
    (steps : List Step) : key ∈ (r.after steps).account.consumedKeys := by
  have hsome : some key ∈ (r.after steps).account.consumedKeys.map some := by
    rw [consumed_after]
    exact List.mem_append_left _ (List.mem_map_of_mem h)
  simpa using hsome

/-- From a fresh account on, no one-time key is used up twice, the unused keys are the initial ones
without those used up, a key used up creates no session any more, and the sessions created, for
whichever sender keys, have the used up keys for their own, each another one. -/
theorem oneTimeKeys_used_once {r : Receiver} {initial : List String}
    (h : r.account.Fresh initial) (steps : List Step) :
    (r.after steps).account.consumedKeys.Nodup ∧
    (∀ key ∈ (r.after steps).account.consumedKeys, key ∈ initial) ∧
    (∀ key, (r.after steps).account.has key = true ↔
      key ∈ initial ∧ key ∉ (r.after steps).account.consumedKeys) ∧
    (∀ key ∈ (r.after steps).account.consumedKeys, ∀ later body m,
      Message.decode body = .ok m → m.oneTimeKey = some key →
        ((r.after (steps ++ later)).account.newInbound body).1 =
          .error (.unknownOneTimeKey key)) ∧
    (r.created steps).map (·.2.oneTimeKey) = (r.after steps).account.consumedKeys.map some ∧
    ((r.created steps).map (·.2.oneTimeKey)).Nodup := by
  have hbalanced := balanced_after h.balanced steps
  have hnodup : (r.after steps).account.consumedKeys.Nodup :=
    (List.nodup_append.mp hbalanced.nodup).1
  have hcreated : (r.created steps).map (·.2.oneTimeKey) =
      (r.after steps).account.consumedKeys.map some := by
    rw [consumed_after, h.consumedKeys, List.map_nil, List.nil_append]
  refine ⟨hnodup, fun key hkey => hbalanced.mem_iff.mpr (.inl hkey), fun key => hbalanced.has_iff,
    fun key hkey later body m hbody hnamed => ?_, hcreated, ?_⟩
  · have hlater : key ∈ ((r.after steps).after later).account.consumedKeys :=
      mem_consumed_after hkey later
    have hused : ((r.after steps).after later).account.has key = false := by
      rw [← Bool.not_eq_true, (balanced_after hbalanced later).has_iff]
      exact fun hunused => hunused.2 hlater
    rw [after_append, Account.newInbound_of_used hbody hnamed hused]
  · rw [hcreated]
    exact List.Pairwise.map some (fun a b hne heq => hne (Option.some.inj heq)) hnodup

/-- A receiver with two one-time keys and no session. -/
def withTwoKeys : Receiver where
  device := ⟨⟨"@bob:localhost"⟩, ⟨"BOBDEVICE"⟩⟩
  registry := ⟨[]⟩
  account := .new ⟨⟨"BOBSIG"⟩, ⟨"BOBKEY"⟩⟩ ["OTK7", "OTK8"]
  store := .empty
  sink := .record []

/-- A pre-key message for a one-time key. -/
def preKeyEvent (key : String) : Event :=
  .toRecipient ⟨"@alice:localhost"⟩ ⟨"ALICEKEY"⟩ ⟨"BOBKEY"⟩
    (.ofMessage .preKey (Message.encode ⟨"S7", some key, "hi"⟩))

/-- A message that is sent again, as its session was not stored, finds its key used up. -/
theorem oneTimeKeys_used_once_sent_again :
    withTwoKeys.account.Fresh ["OTK7", "OTK8"] ∧
      (withTwoKeys.after
        [.failWrites true, .decrypt (preKeyEvent "OTK7")]).account.consumedKeys = ["OTK7"] ∧
      ((withTwoKeys.created [.failWrites true, .decrypt (preKeyEvent "OTK7"),
        .decrypt (preKeyEvent "OTK7")]).map (·.2.oneTimeKey)).Nodup := by
  have hfresh : withTwoKeys.account.Fresh ["OTK7", "OTK8"] := ⟨rfl, rfl⟩
  obtain ⟨-, -, -, -, -, hnodup⟩ := oneTimeKeys_used_once hfresh
    [.failWrites true, .decrypt (preKeyEvent "OTK7"), .decrypt (preKeyEvent "OTK7")]
  exact ⟨hfresh, by decide +kernel, hnodup⟩

end Receiver

end OlmReceiver
