import Mathlib.Data.List.Dedup
import OlmReceiver.Proofs.Trust

/-!
# Persisted before trusted

The journal of an account grows by blocks. A used up one-time key stands alone where the account
could not be persisted behind it; the created session is then dropped. Else the persisted account
stands right behind the key, with the number of keys that are left, and only then is the session
handed to the store and its plaintext read.

Nothing is said about what the store makes of a session. An attempt to write counts as one whether
or not it fails.
-/

namespace OlmReceiver

open Ratchet (Account consumedIn)

/-- The set of a list has as many members as the list has distinct strings. -/
theorem KeySet.length_ofList (keys : List String) :
    (KeySet.ofList keys).length = keys.dedup.length := by
  refine List.Perm.length_eq ?_
  refine (List.perm_ext_iff_of_nodup (nodup_ofList keys) keys.nodup_dedup).mpr fun key => ?_
  rw [mem_ofList, List.mem_dedup]

namespace Ratchet

/-- The numbers of unused one-time keys that a journal records with the persisted account. -/
def persistedIn (journal : List JournalEntry) : List Nat :=
  journal.filterMap fun
    | .consumed _ => none
    | .persisted unused => some unused

/-- A journal made of blocks: a used up key alone, or with the persisted account right behind it and
the right number of keys that are left of a total. -/
inductive Recorded (total : Nat) : List JournalEntry → Prop
  | nil : Recorded total []
  | unpersisted {journal : List JournalEntry} (key : String) (h : Recorded total journal) :
    Recorded total (journal ++ [.consumed key])
  | persisted {journal : List JournalEntry} (key : String) {unused : Nat}
    (h : Recorded total journal)
    (hunused : unused + (consumedIn (journal ++ [.consumed key])).length = total) :
    Recorded total (journal ++ [.consumed key, .persisted unused])

/-- The used up and the unused one-time keys are as many as there were initially. -/
theorem Account.Balanced.length {a : Account} {initial : List String} (h : a.Balanced initial) :
    a.oneTimeKeys.length + a.consumedKeys.length = initial.dedup.length := by
  have hlength := List.Perm.length_eq h
  rw [List.length_append, KeySet.length_ofList] at hlength
  omega

end Ratchet

/-! ## Runs -/

/-- Whether a step that is no decryption attempts to write. -/
def Step.writes : Step → Bool
  | .addSession _ _ throughSwitches => throughSwitches
  | _ => false

namespace Receiver

open Ratchet (persistedIn Recorded)

/-- A step appends at most a whole block to a journal made of blocks. -/
theorem recorded_step {r : Receiver} {initial : List String}
    (hbalanced : r.account.Balanced initial)
    (h : Recorded initial.dedup.length r.account.journal) (s : Step) :
    Recorded initial.dedup.length (r.step s).2.1.account.journal := by
  cases s with
  | decrypt e =>
    obtain ⟨block, hrecording, hjournal⟩ := r.decrypt_recording e
    rw [step_decrypt, hjournal]
    cases hrecording with
    | nothing _ _ => rwa [List.append_nil]
    | unpersisted _ _ _ _ => exact .unpersisted _ h
    | @persisted key unused _ _ _ hunused _ _ _ =>
      have hlength := (balanced_performAll hbalanced (r.calls e)).length
      rw [← decrypt_receiver] at hlength hunused
      refine .persisted key h ?_
      rw [hunused, ← hlength, Account.consumedKeys, hjournal]
      simp [consumedIn]
  | addSession key session throughSwitches => cases throughSwitches <;> exact h
  | _ => exact h

/-- A journal made of blocks stays so along every run. -/
theorem recorded_after {r : Receiver} {initial : List String}
    (hbalanced : r.account.Balanced initial)
    (h : Recorded initial.dedup.length r.account.journal) (steps : List Step) :
    Recorded initial.dedup.length (r.after steps).account.journal := by
  -- The numbers that the journal records are right only as the books balance.
  let P (r : Receiver) : Prop :=
    r.account.Balanced initial ∧ Recorded initial.dedup.length r.account.journal
  have hstep : ∀ r s, P r → P (r.step s).2.1 := by
    rintro r s ⟨hbalanced, h⟩
    exact ⟨balanced_step hbalanced s, recorded_step hbalanced h s⟩
  exact (after_of_step hstep ⟨hbalanced, h⟩ steps).2

/-- A decryption persists the account as often as it hands a session to the store. -/
theorem length_persisted_decrypt (r : Receiver) (e : Event) :
    (persistedIn (r.decrypt e).receiver.account.journal).length =
      (persistedIn r.account.journal).length + (r.added e).length := by
  obtain ⟨block, hrecording, hjournal⟩ := r.decrypt_recording e
  have hblock : (persistedIn block).length = (r.added e).length := by
    unfold added
    cases hrecording with
    | nothing _ hadded => rw [hadded]; rfl
    | unpersisted _ hadded _ _ => rw [hadded]; rfl
    | persisted _ _ hadded _ _ => rw [hadded]; rfl
  rw [hjournal, persistedIn, List.filterMap_append, List.length_append, ← hblock]
  rfl

/-- A step attempts to write for each time that it persists the account, or for itself. -/
theorem writeAttempts_step (r : Receiver) (s : Step) :
    (r.step s).2.1.writeAttempts + (persistedIn r.account.journal).length =
      r.writeAttempts + s.writes.toNat +
        (persistedIn (r.step s).2.1.account.journal).length := by
  cases s with
  | decrypt e =>
    have hwrites : (Step.decrypt e).writes = false := rfl
    rw [step_decrypt, writeAttempts_decrypt, length_persisted_decrypt, hwrites, Bool.toNat_false]
    omega
  | addSession key session throughSwitches =>
    cases throughSwitches with
    | true =>
      have hadd := FaultyStore.writeAttempts_add r.store key session
      exact congrArg (· + (persistedIn r.account.journal).length) hadd
    | false => rfl
  | _ => rfl

/-- Behind a run, the attempts to write are those of its own steps, and one for each time that the
account was persisted. -/
theorem writeAttempts_after (r : Receiver) (steps : List Step) :
    (r.after steps).writeAttempts + (persistedIn r.account.journal).length =
      r.writeAttempts + (steps.filter Step.writes).length +
        (persistedIn (r.after steps).account.journal).length := by
  induction steps generalizing r with
  | nil => rfl
  | cons s steps ih =>
    have hstep := r.writeAttempts_step s
    have hrest := ih (r.step s).2.1
    have hwrites : ((s :: steps).filter Step.writes).length =
        s.writes.toNat + (steps.filter Step.writes).length := by
      cases h : s.writes with
      | true => simp [h, Nat.add_comm]
      | false => simp [h]
    rw [after_cons]
    omega

/-- From a fresh account on, the journal is made of blocks along every run, each further decryption
puts the use of a key on record before its session is relied on, and the attempts to write are those
of the run's own steps and one for each time that the account was persisted. -/
theorem persisted_before_trusted {r : Receiver} {initial : List String}
    (h : r.account.Fresh initial) (steps : List Step) :
    Recorded initial.dedup.length (r.after steps).account.journal ∧
      (∀ e, (r.after steps).RecordsFirst e) ∧
      (r.after steps).writeAttempts = r.writeAttempts + (steps.filter Step.writes).length +
        (persistedIn (r.after steps).account.journal).length := by
  have hstart : Recorded initial.dedup.length r.account.journal := by
    rw [h.journal]
    exact .nil
  have hattempts := r.writeAttempts_after steps
  rw [h.journal] at hattempts
  exact ⟨recorded_after h.balanced hstart steps, fun e => (r.after steps).recordsFirst e, hattempts⟩

/-- A key stands alone while the account cannot be persisted; the session of the next key is handed
to the store, and is not stored. -/
theorem persisted_before_trusted_by_switches :
    withTwoKeys.account.Fresh ["OTK7", "OTK8"] ∧
      (withTwoKeys.after [.failPersist true, .decrypt (preKeyEvent "OTK7"), .failPersist false,
        .failWrites true, .decrypt (preKeyEvent "OTK8")]).account.journal =
          [.consumed "OTK7", .consumed "OTK8", .persisted 0] ∧
      (withTwoKeys.after [.failPersist true, .decrypt (preKeyEvent "OTK7"), .failPersist false,
        .failWrites true, .decrypt (preKeyEvent "OTK8")]).writeAttempts = 1 := by
  have hfresh : withTwoKeys.account.Fresh ["OTK7", "OTK8"] := ⟨rfl, rfl⟩
  obtain ⟨-, -, hattempts⟩ := persisted_before_trusted hfresh
    [.failPersist true, .decrypt (preKeyEvent "OTK7"), .failPersist false, .failWrites true,
      .decrypt (preKeyEvent "OTK8")]
  have hjournal : (withTwoKeys.after [.failPersist true, .decrypt (preKeyEvent "OTK7"),
      .failPersist false, .failWrites true, .decrypt (preKeyEvent "OTK8")]).account.journal =
        [.consumed "OTK7", .consumed "OTK8", .persisted 0] := by
    decide +kernel
  rw [hjournal] at hattempts
  exact ⟨hfresh, hjournal, hattempts⟩

end Receiver

end OlmReceiver
