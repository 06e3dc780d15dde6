import OlmReceiver.Proofs.Recording

/-!
# Before a session is trusted

Relying on a created session means to hand it to the store, to read the plaintext that it decrypted,
or to deliver that plaintext. Each of these happens with the used up key and the persisted account
in the journal. Where the account could not be persisted none of them happens, and the session is
dropped. What stands in the journal at a call is told by the trail, which the execution itself
leaves behind.
-/

namespace OlmReceiver

open Ratchet (Session Account JournalEntry consumedIn)

namespace Receiver

/-- A decryption of an event puts the use of a one-time key on record before anything relies on the
session that was created from it. -/
structure RecordsFirst (r : Receiver) (e : Event) : Prop where
  /-- At most one block is added to the journal. -/
  block : (r.decrypt e).receiver.account.journal = r.account.journal ∨
    (∃ key, (r.decrypt e).receiver.account.journal = r.account.journal ++ [.consumed key]) ∨
    ∃ key unused, (r.decrypt e).receiver.account.journal =
      r.account.journal ++ [.consumed key, .persisted unused]
  /-- A key stands alone exactly where the account could not be persisted. -/
  alone_iff :
    (∃ key, (r.decrypt e).receiver.account.journal = r.account.journal ++ [.consumed key]) ↔
      ∃ cause, (r.decrypt e).answer = .error (.persistAccount cause)
  /-- The session of a key that stands alone is dropped. -/
  dropped : ∀ cause, (r.decrypt e).answer = .error (.persistAccount cause) →
    r.added e = [] ∧ (∀ senderKey t, .accept senderKey t ∉ r.calls e) ∧
      (r.decrypt e).receiver.writeAttempts = r.writeAttempts ∧
      ∀ senderKey, (r.decrypt e).receiver.sessions senderKey = r.sessions senderKey
  /-- The account is persisted exactly where one session is handed to the store. -/
  persisted_iff : (∃ key unused, (r.decrypt e).receiver.account.journal =
      r.account.journal ++ [.consumed key, .persisted unused]) ↔ (r.added e).length = 1
  /-- No decryption hands over more than one session. -/
  length_added : (r.added e).length ≤ 1
  /-- The block stands in the journal when the session of its key is handed over. -/
  added_behind : ∀ r' senderKey session,
    (r', .add senderKey session) ∈ r.trail e →
      ∃ key unused, session.oneTimeKey = some key ∧
        r'.account.journal = r.account.journal ++ [.consumed key, .persisted unused] ∧
        (r.decrypt e).receiver.account.journal = r'.account.journal
  /-- All that the journal will say stands in it when the plaintext is read. -/
  read_behind : ∀ r' senderKey t, (r', .accept senderKey t) ∈ r.trail e →
    r'.account.journal = (r.decrypt e).receiver.account.journal
  /-- An event that a created session decrypted is delivered with its key on record. -/
  delivered_behind : ∀ d, (r.decrypt e).answer = .ok d →
    ∀ c ∈ r.createdIn (.decrypt e), ∃ key unused, c.2.oneTimeKey = some key ∧
      (r.decrypt e).receiver.account.journal =
        r.account.journal ++ [.consumed key, .persisted unused]
  /-- The attempts to write are those for sessions handed over. -/
  writeAttempts : (r.decrypt e).receiver.writeAttempts = r.writeAttempts + (r.added e).length

/-- No plaintext is read in the course of a message. -/
theorem Course.accept_notMem {r : Receiver} {sender : UserId} {env : Envelope}
    {answer : Except DecryptError Text} {calls : List Call} (h : Course r sender env answer calls)
    (senderKey : IdentityKey) (t : Text) : .accept senderKey t ∉ calls := by
  cases h <;> simp

/-- The plaintext is read on the receiver that the decryption leaves. -/
theorem eq_of_accept {r r' : Receiver} {e : Event} {senderKey : IdentityKey} {t : Text}
    (h : (r', .accept senderKey t) ∈ r.trail e) : r' = (r.decrypt e).receiver := by
  rw [trail_eq_moments] at h
  rw [decrypt_receiver]
  rcases r.decrypt_course e with ⟨-, -, -, hcalls⟩ | ⟨env, answer, calls, -, hcourse, -, hcalls⟩
  · simp [hcalls, moments] at h
  · rw [hcalls, moments_append, List.mem_append] at h
    rw [hcalls, performAll_append, performAll_acceptCalls]
    rcases h with hcourse' | haccept
    · exact absurd (mem_of_mem_moments hcourse') (hcourse.accept_notMem senderKey t)
    · cases answer with
      | error err => simp [acceptCalls, moments] at haccept
      | ok t' =>
        simp only [acceptCalls, moments, List.mem_singleton, Prod.mk.injEq] at haccept
        exact haccept.1

/-- The attempts to write that a decryption makes are those for sessions handed over. -/
theorem writeAttempts_decrypt (r : Receiver) (e : Event) :
    (r.decrypt e).receiver.writeAttempts = r.writeAttempts + (r.added e).length := by
  rw [decrypt_receiver, writeAttempts_performAll, added]

/-- A session that is handed to the store is among those handed over. -/
theorem mem_added {r r' : Receiver} {e : Event} {senderKey : IdentityKey} {session : Session}
    (h : (r', .add senderKey session) ∈ r.trail e) : (senderKey, session) ∈ r.added e :=
  List.mem_filterMap.mpr ⟨.add senderKey session, List.mem_map_of_mem h, rfl⟩

/-- The keys of the sessions that a decryption creates are those that it records as used up. -/
theorem oneTimeKeys_createdIn {r : Receiver} {e : Event} {block : List JournalEntry}
    (h : (r.decrypt e).receiver.account.journal = r.account.journal ++ block) :
    (r.createdIn (.decrypt e)).map (·.2.oneTimeKey) = (consumedIn block).map some := by
  have hconsumed := r.consumed_step (.decrypt e)
  rw [step_decrypt, Account.consumedKeys, Account.consumedKeys, h] at hconsumed
  simp only [consumedIn, List.filterMap_append, List.map_append] at hconsumed
  exact (List.append_cancel_left hconsumed).symm

/-- Every decryption puts the use of a key on record first. -/
theorem recordsFirst (r : Receiver) (e : Event) : r.RecordsFirst e := by
  obtain ⟨block, hrecording, hjournal⟩ := r.decrypt_recording e
  have hcreated := oneTimeKeys_createdIn hjournal
  have hread : ∀ r' senderKey t, (r', .accept senderKey t) ∈ r.trail e →
      r'.account.journal = (r.decrypt e).receiver.account.journal := by
    intro r' senderKey t h
    rw [eq_of_accept h]
  cases hrecording with
  | nothing hanswer hadded =>
    have hnone : r.added e = [] := hadded
    have huncreated : r.createdIn (.decrypt e) = [] := List.map_eq_nil_iff.mp hcreated
    exact
      { block := .inl (by rw [hjournal, List.append_nil])
        alone_iff := by simp [hjournal, hanswer]
        dropped := fun cause h => absurd h (hanswer cause)
        persisted_iff := by simp [hjournal, hnone]
        length_added := by simp [hnone]
        added_behind := fun r' senderKey session h => by simpa [hnone] using mem_added h
        read_behind := hread
        delivered_behind := fun d _ c hc => by simp [huncreated] at hc
        writeAttempts := r.writeAttempts_decrypt e }
  | @unpersisted key cause hanswer hadded hunread hsessions =>
    have hnone : r.added e = [] := hadded
    have hattempts : (r.decrypt e).receiver.writeAttempts = r.writeAttempts := by
      rw [writeAttempts_decrypt, hnone, List.length_nil, Nat.add_zero]
    rw [← decrypt_receiver] at hsessions
    exact
      { block := .inr (.inl ⟨key, hjournal⟩)
        alone_iff := ⟨fun _ => ⟨cause, hanswer⟩, fun _ => ⟨key, hjournal⟩⟩
        dropped := fun _ _ => ⟨hnone, hunread, hattempts, hsessions⟩
        persisted_iff := by simp [hjournal, hnone]
        length_added := by simp [hnone]
        added_behind := fun r' senderKey session h => by simpa [hnone] using mem_added h
        read_behind := hread
        delivered_behind := fun d hd => by simp [hanswer] at hd
        writeAttempts := r.writeAttempts_decrypt e }
  | @persisted key unused senderKey session hanswer hunused hadded hkey hmoment =>
    have hone : r.added e = [(senderKey, session)] := hadded
    refine
      { block := .inr (.inr ⟨key, unused, hjournal⟩)
        alone_iff := by simp [hjournal, hanswer]
        dropped := fun cause h => absurd h (hanswer cause)
        persisted_iff := ⟨fun _ => by simp [hone], fun _ => ⟨key, unused, hjournal⟩⟩
        length_added := by simp [hone]
        added_behind := fun r' senderKey' session' h => ?_
        read_behind := hread
        delivered_behind := fun d _ c hc => ⟨key, unused, ?_, hjournal⟩
        writeAttempts := r.writeAttempts_decrypt e }
    · have hmem := mem_added h
      rw [hone, List.mem_singleton] at hmem
      cases hmem
      have hrecorded := hmoment r' (by rwa [← trail_eq_moments])
      exact ⟨key, unused, hkey, hrecorded, by rw [hjournal, hrecorded]⟩
    · have hmem : c.2.oneTimeKey ∈ [some key] := by
        change _ = [some key] at hcreated
        rw [← hcreated]
        exact List.mem_map_of_mem hc
      exact List.mem_singleton.mp hmem

end Receiver

end OlmReceiver
