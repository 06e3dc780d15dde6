import OlmReceiver.Proofs.Footprint
import OlmReceiver.Proofs.Trust

/-!
# A failing write is not seen by its own decryption

Whether writes fail is looked at in one place, where the store is asked to add a session. A decryption
takes the same course with writes failing as with writes working: it answers the same, hands the sink
the same requests and leaves the same account and the same counts. The stores differ by the session
that one of them kept, and by nothing where no session was created and persisted.

This is said of one decryption. A later message may well meet the session in one store and miss it in
the other.
-/

namespace OlmReceiver

open Ratchet (Session Message)

namespace Receiver

/-- The receiver with the switch for writes turned. -/
def setFailWrites (r : Receiver) (fail : Bool) : Receiver :=
  { r with store := r.store.setFailWrites fail }

/-- Turning the switch is a step. -/
@[simp] theorem step_failWrites (r : Receiver) (fail : Bool) :
    (r.step (.failWrites fail)).2.1 = r.setFailWrites fail := rfl

@[simp] theorem sessions_setFailWrites (r : Receiver) (fail : Bool) (key : IdentityKey) :
    (r.setFailWrites fail).sessions key = r.sessions key := rfl

/-- What is kept of the sessions handed to the store depends on the switch alone. -/
@[simp] theorem kept_setFailWrites (r : Receiver) (fail : Bool) (added : List Session) :
    (r.setFailWrites fail).kept added = if fail then [] else added := rfl

/-- The trial of the stored sessions writes nothing. -/
@[simp] theorem sessions_tryStored_setFailWrites (r : Receiver) (fail : Bool) (env : Envelope)
    (key : IdentityKey) :
    ((r.setFailWrites fail).tryStored env).receiver.sessions key =
      (r.tryStored env).receiver.sessions key := by
  rw [sessions_tryStored, sessions_tryStored]
  rfl

/-! ## The same course -/

/-- Whether writes fail has no part in creating a session. -/
theorem Bootstraps.setFailWrites {r : Receiver} {env : Envelope} {m : Message} {key : String}
    (h : r.Bootstraps env m key) (fail : Bool) : (r.setFailWrites fail).Bootstraps env m key :=
  ⟨h.type, h.body, h.unclaimed, h.named, h.unused⟩

/-- Whether writes fail has no part in the course of a message. -/
theorem Course.setFailWrites {r : Receiver} {sender : UserId} {env : Envelope}
    {answer : Except DecryptError Text} {calls : List Call} (h : Course r sender env answer calls)
    (fail : Bool) : Course (r.setFailWrites fail) sender env answer calls := by
  cases h with
  | unread hreads => exact .unread hreads
  | unmatched hreads htype hbody hsome => exact .unmatched hreads htype hbody hsome
  | opened hreads hbody hopens => exact .opened hreads hbody hopens
  | refused hreads htype hbody hfirst hs => exact .refused hreads htype hbody hfirst hs
  | exhausted hreads htype hnone => exact .exhausted hreads htype hnone
  | uncreated hreads htype hunclaimed hcreate =>
    exact .uncreated (r := r.setFailWrites fail) hreads htype hunclaimed hcreate
  | unpersisted hreads hnew hpersist =>
    exact .unpersisted hreads (hnew.setFailWrites fail) hpersist
  | created hreads hnew hpersist hpoison =>
    exact .created hreads (hnew.setFailWrites fail) hpersist hpoison
  | unusable hreads hnew hpersist hpoison =>
    exact .unusable hreads (hnew.setFailWrites fail) hpersist hpoison

/-- With writes failing or working, the answer and the calls are the same. -/
theorem decrypt_setFailWrites (r : Receiver) (fail : Bool) (e : Event) :
    ((r.setFailWrites fail).decrypt e).answer = (r.decrypt e).answer ∧
      (r.setFailWrites fail).calls e = r.calls e := by
  rcases r.decrypt_course e with
    ⟨err, hopen, hanswer, hcalls⟩ | ⟨env, answer, calls, hopen, hcourse, hanswer, hcalls⟩
  · rw [hanswer, hcalls]
    exact decrypt_of_unopened hopen
  · obtain ⟨hans, hcalls'⟩ := decrypt_of_opened (r := r.setFailWrites fail) hopen
    obtain ⟨hplain, hplainCalls⟩ := (hcourse.setFailWrites fail).unique
    rw [hplain] at hans hcalls'
    rw [hplainCalls] at hcalls'
    rw [hanswer, hcalls]
    exact ⟨hans, hcalls'⟩

/-! ## What the course leaves -/

/-- What a call makes of the account depends on the account alone. -/
theorem account_perform_congr {r r' : Receiver} (h : r'.account = r.account) (call : Call) :
    (r'.perform call).account = (r.perform call).account := by
  cases call <;> simp [h]

/-- What calls make of the account depends on the account alone. -/
theorem account_performAll_congr {r r' : Receiver} (h : r'.account = r.account)
    (calls : List Call) : (r'.performAll calls).account = (r.performAll calls).account := by
  induction calls generalizing r r' with
  | nil => exact h
  | cons call calls ih => exact ih (account_perform_congr h call)

/-- A session that a decryption hands to the store is for the sender key of its event. -/
theorem senderKey?_of_mem_added {r : Receiver} {e : Event} {key : IdentityKey} {session : Session}
    (h : (key, session) ∈ r.added e) : e.senderKey? = some key := by
  rcases r.decrypt_course e with ⟨err, -, -, hcalls⟩ | ⟨env, answer, calls, hopen, hcourse, -, hcalls⟩
  · simp [added, hcalls] at h
  · rw [added_of_calls hcalls, hcourse.added_eq] at h
    obtain ⟨session', -, heq⟩ := List.mem_map.mp h
    cases heq
    exact Envelope.senderKey?_of_ofContent hopen

/-- With writes working, the sessions of the sender key are those that failing writes leave, and
behind them those that were handed to the store. -/
theorem sessions_decrypt_of_senderKey {r : Receiver} {e : Event} {key : IdentityKey}
    (hkey : e.senderKey? = some key) :
    ((r.setFailWrites false).decrypt e).receiver.sessions key =
      ((r.setFailWrites true).decrypt e).receiver.sessions key ++ (r.added e).map Prod.snd := by
  rw [decrypt_receiver, decrypt_receiver, (r.decrypt_setFailWrites false e).2,
    (r.decrypt_setFailWrites true e).2]
  rcases r.decrypt_course e with ⟨err, -, -, hcalls⟩ | ⟨env, answer, calls, hopen, hcourse, -, hcalls⟩
  · simp [added, hcalls]
  · obtain rfl : env.senderKey = key :=
      Option.some.inj ((Envelope.senderKey?_of_ofContent hopen).symm.trans hkey)
    rw [added_of_calls hcalls, hcalls, performAll_append, performAll_acceptCalls,
      performAll_append, performAll_acceptCalls, (hcourse.setFailWrites false).sessions,
      (hcourse.setFailWrites true).sessions]
    simp

/-! ## Unseen failures -/

/-- The decryption of an event creates a session, uses up its one-time key and persists the account,
as the journal tells behind it. -/
def Persists (r : Receiver) (e : Event) : Prop :=
  ∃ key unused, (r.decrypt e).receiver.account.journal =
    r.account.journal ++ [.consumed key, .persisted unused]

/-- A session is handed to the store exactly where one is created and persisted. -/
theorem added_cases (r : Receiver) (e : Event) :
    (r.Persists e ∧ ∃ key session, e.senderKey? = some key ∧ r.added e = [(key, session)]) ∨
      (¬ r.Persists e ∧ r.added e = []) := by
  have hrecords := r.recordsFirst e
  by_cases hpersists : r.Persists e
  · obtain ⟨⟨key, session⟩, hadded⟩ := List.length_eq_one_iff.mp (hrecords.persisted_iff.mp hpersists)
    have hmem : (key, session) ∈ r.added e := hadded ▸ List.mem_singleton_self _
    exact .inl ⟨hpersists, key, session, senderKey?_of_mem_added hmem, hadded⟩
  · have hlength : (r.added e).length ≠ 1 := fun h => hpersists (hrecords.persisted_iff.mpr h)
    have hle := hrecords.length_added
    exact .inr ⟨hpersists, List.length_eq_zero_iff.mp (by omega)⟩

/-- A decryption with writes failing, held against the same decryption with writes working. -/
structure WriteUnseen (r : Receiver) (e : Event) : Prop where
  answer : ((r.setFailWrites true).decrypt e).answer = ((r.setFailWrites false).decrypt e).answer
  /-- The sink is handed the same requests. -/
  handed : (r.setFailWrites true).handed e = (r.setFailWrites false).handed e
  sink : ((r.setFailWrites true).decrypt e).receiver.sink =
    ((r.setFailWrites false).decrypt e).receiver.sink
  /-- The unused one-time keys and the journal are the same, along with all else of the account. -/
  account : ((r.setFailWrites true).decrypt e).receiver.account =
    ((r.setFailWrites false).decrypt e).receiver.account
  writeAttempts : ((r.setFailWrites true).decrypt e).receiver.writeAttempts =
    ((r.setFailWrites false).decrypt e).receiver.writeAttempts
  /-- Where a session is created and the account persisted, that session stands behind those of the
  sender key if writes work, and is all that is missing if they fail. -/
  persisted : (r.setFailWrites false).Persists e →
    ∃ key session, e.senderKey? = some key ∧
      ((r.setFailWrites false).decrypt e).receiver.sessions key =
        ((r.setFailWrites true).decrypt e).receiver.sessions key ++ [session] ∧
      ∀ key', key' ≠ key → ((r.setFailWrites false).decrypt e).receiver.sessions key' =
        ((r.setFailWrites true).decrypt e).receiver.sessions key'
  /-- Everywhere else all sessions are the same. -/
  unpersisted : ¬ (r.setFailWrites false).Persists e →
    ∀ key, ((r.setFailWrites false).decrypt e).receiver.sessions key =
      ((r.setFailWrites true).decrypt e).receiver.sessions key

/-- No event reaches the sessions of other sender keys, with writes failing or working. -/
theorem sessions_decrypt_setFailWrites_of_ne {r : Receiver} {e : Event} {key : IdentityKey}
    (hkey : e.senderKey? ≠ some key) :
    ((r.setFailWrites false).decrypt e).receiver.sessions key =
      ((r.setFailWrites true).decrypt e).receiver.sessions key := by
  rw [sessions_decrypt_of_ne hkey, sessions_decrypt_of_ne hkey, sessions_setFailWrites,
    sessions_setFailWrites]

/-- A failing write is not seen by its own decryption, whatever the receiver and the event. -/
theorem failed_write_unseen (r : Receiver) (e : Event) : r.WriteUnseen e := by
  obtain ⟨hanswer, hcalls⟩ := r.decrypt_setFailWrites true e
  obtain ⟨hanswer', hcalls'⟩ := r.decrypt_setFailWrites false e
  have hhanded : (r.setFailWrites true).handed e = (r.setFailWrites false).handed e := by
    rw [handed, handed, hcalls, hcalls']
  have hadded (fail : Bool) : (r.setFailWrites fail).added e = r.added e := by
    rw [added, added, (r.decrypt_setFailWrites fail e).2]
  have hcases := (r.setFailWrites false).added_cases e
  rw [hadded] at hcases
  exact
    { answer := hanswer.trans hanswer'.symm
      handed := hhanded
      sink := by
        rw [sink_decrypt, sink_decrypt, hhanded]
        rfl
      account := by
        have haccount : (r.setFailWrites true).account = (r.setFailWrites false).account := rfl
        rw [decrypt_receiver, decrypt_receiver, hcalls, hcalls']
        exact account_performAll_congr haccount (r.calls e)
      writeAttempts := by
        rw [writeAttempts_decrypt, writeAttempts_decrypt, hadded, hadded]
        rfl
      persisted := by
        intro hpersists
        obtain ⟨-, key, session, hkey, hone⟩ | ⟨hnot, -⟩ := hcases
        · refine ⟨key, session, hkey, ?_, fun key' hkey' => ?_⟩
          · rw [sessions_decrypt_of_senderKey hkey, hone]
            rfl
          · apply sessions_decrypt_setFailWrites_of_ne
            rw [hkey]
            exact fun heq => hkey' (Option.some.inj heq).symm
        · exact absurd hpersists hnot
      unpersisted := by
        intro hnot key
        obtain ⟨hpersists, -⟩ | ⟨-, hnone⟩ := hcases
        · exact absurd hpersists hnot
        · by_cases hkey : e.senderKey? = some key
          · rw [sessions_decrypt_of_senderKey hkey, hnone, List.map_nil, List.append_nil]
          · exact sessions_decrypt_setFailWrites_of_ne hkey }

end Receiver

end OlmReceiver
