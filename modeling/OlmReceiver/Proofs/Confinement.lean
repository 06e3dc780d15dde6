import OlmReceiver.Proofs.Footprint
import OlmReceiver.Proofs.Growth
import OlmReceiver.Proofs.PreKeyMessage

/-!
# A decryption is confined to its sender key

Decrypting an event attempts each stored session of its sender key at most once, and may store one
new session behind them, if it created one for its message. It neither changes nor looks at the
sessions of any other sender key. A receiver whose store differs only there answers and reports the
same, and has the same effects.

Counts of attempts are words of 32 bits and start anew behind their limit. That they never fall is
therefore said of runs that stay below the limit; nothing else depends on it.
-/

namespace OlmReceiver

open Ratchet (Session Message)
open Ratchet.Session (Evolves)

namespace Ratchet.Session

/-- A session that is attempted once at most is otherwise what it was. -/
structure AttemptedOnce (s s' : Session) : Prop where
  id : s'.id = s.id
  oneTimeKey : s'.oneTimeKey = s.oneTimeKey
  poisoned : s'.poisoned = s.poisoned
  attempts : s'.attempts = s.attempts ∨ s'.attempts = s.attempts + 1

/-- A session need not be attempted. -/
theorem AttemptedOnce.refl (s : Session) : AttemptedOnce s s :=
  ⟨rfl, rfl, rfl, .inl rfl⟩

/-- An attempt is counted once. -/
theorem attemptedOnce_advance (s : Session) : AttemptedOnce s s.advance :=
  ⟨rfl, rfl, rfl, .inr rfl⟩

/-- The count of attempts has not reached its limit. -/
def BelowLimit (s : Session) : Prop :=
  s.attempts < 4294967295

instance (s : Session) : Decidable s.BelowLimit :=
  inferInstanceAs (Decidable (_ < _))

/-- A session goes through some steps: it stays the session that was created, and its count of
attempts does not fall. -/
structure Ages (s s' : Session) : Prop extends Evolves s s' where
  attempts : s.attempts ≤ s'.attempts

/-- A session may stay as it is. -/
theorem Ages.refl (s : Session) : Ages s s :=
  { Evolves.refl s with attempts := UInt32.le_refl s.attempts }

/-- A session that aged may age further. -/
theorem Ages.trans (s s' s'' : Session) (h : Ages s s') (h' : Ages s' s'') : Ages s s'' :=
  { h.toEvolves.trans s s' s'' h'.toEvolves with
    attempts := UInt32.le_trans h.attempts h'.attempts }

/-- Poisoning a session is no attempt. -/
theorem ages_poison (s : Session) : Ages s s.poison :=
  { s.evolves_poison with attempts := UInt32.le_refl s.attempts }

/-- Below the limit one more attempt is counted as one more. -/
theorem BelowLimit.toNat_succ {s : Session} (h : s.BelowLimit) :
    (s.attempts + 1).toNat = s.attempts.toNat + 1 := by
  have hlt : s.attempts.toNat < 4294967295 := UInt32.lt_iff_toNat_lt.mp h
  rw [UInt32.toNat_add]
  exact Nat.mod_eq_of_lt (by simp; omega)

/-- Below the limit an attempt lets a session age. -/
theorem AttemptedOnce.ages {s s' : Session} (h : AttemptedOnce s s') (hs : s.BelowLimit) :
    Ages s s' where
  id := h.id
  oneTimeKey := h.oneTimeKey
  poisoned hp := h.poisoned.trans hp
  attempts := by
    rcases h.attempts with heq | hsucc
    · exact UInt32.le_of_eq heq.symm
    · rw [hsucc, UInt32.le_iff_toNat_le, hs.toNat_succ]
      exact Nat.le_succ _

end Ratchet.Session

open Ratchet.Session (AttemptedOnce Ages)

namespace Receiver

/-! ## The lists of sessions -/

/-- A trial attempts each session once at most. -/
theorem attemptedOnce_tryStored (r : Receiver) (env : Envelope) (key : IdentityKey) :
    List.Forall₂ AttemptedOnce (r.sessions key) ((r.tryStored env).receiver.sessions key) := by
  rw [sessions_tryStored]
  split
  · rename_i h
    rw [h.1]
    exact Trial.forall₂_ofMessage AttemptedOnce.refl Session.attemptedOnce_advance ..
  · exact List.forall₂_same.mpr fun s _ => .refl s

/-- What is stored of the sessions that a course hands to the store is nothing, or the session that
was created for its message. -/
theorem Course.kept_cases {r : Receiver} {sender : UserId} {env : Envelope}
    {answer : Except DecryptError Text} {calls : List Call} (h : Course r sender env answer calls) :
    r.kept ((calls.filterMap Call.added?).map Prod.snd) = [] ∨
      ∃ m otk, r.Bootstraps env m otk ∧
        r.kept ((calls.filterMap Call.added?).map Prod.snd) =
          [⟨m.sessionId, some otk, r.account.poisonNewSessions, 1⟩] := by
  have hkept (session : Session) : r.kept [session] = [] ∨ r.kept [session] = [session] := by
    unfold kept
    split
    · exact .inl rfl
    · exact .inr rfl
  cases h with
  | @created m otk _ hnew _ _ =>
    refine (hkept _).imp id fun heq => ⟨m, otk, hnew, heq.trans ?_⟩
    rw [Ratchet.Account.advance_sessionFor]
  | @unusable m otk _ hnew _ _ =>
    refine (hkept _).imp id fun heq => ⟨m, otk, hnew, heq.trans ?_⟩
    rw [Ratchet.Account.advance_sessionFor]
  | _ => exact .inl r.kept_nil

/-- A decryption leaves the sessions of a sender key in their places, each attempted once at most,
and stores behind them nothing but the session that it created for the message under this key. -/
theorem sessions_decrypt (r : Receiver) (e : Event) (key : IdentityKey) :
    ∃ tried added, (r.decrypt e).receiver.sessions key = tried ++ added ∧
      List.Forall₂ AttemptedOnce (r.sessions key) tried ∧
      (added = [] ∨ ∃ env m otk, Envelope.ofContent r.ownKey e.content = .ok env ∧
        env.senderKey = key ∧ r.Bootstraps env m otk ∧
        added = [⟨m.sessionId, some otk, r.account.poisonNewSessions, 1⟩]) := by
  have hsame : List.Forall₂ AttemptedOnce (r.sessions key) (r.sessions key) :=
    List.forall₂_same.mpr fun s _ => .refl s
  rcases r.decrypt_course e with
    ⟨err, -, -, hcalls⟩ | ⟨env, answer, calls, hopen, hcourse, -, hcalls⟩
  · refine ⟨r.sessions key, [], ?_, hsame, .inl rfl⟩
    rw [decrypt_receiver, hcalls, performAll_nil, List.append_nil]
  · by_cases hkey : env.senderKey = key
    · subst hkey
      refine ⟨(r.tryStored env).receiver.sessions env.senderKey,
        r.kept ((calls.filterMap Call.added?).map Prod.snd), ?_,
        r.attemptedOnce_tryStored env env.senderKey, ?_⟩
      · rw [decrypt_receiver, hcalls, performAll_append, performAll_acceptCalls, hcourse.sessions]
      · refine hcourse.kept_cases.imp id ?_
        rintro ⟨m, otk, hnew, hadded⟩
        exact ⟨env, m, otk, hopen, rfl, hnew, hadded⟩
    · refine ⟨r.sessions key, [], ?_, hsame, .inl rfl⟩
      rw [List.append_nil]
      apply sessions_decrypt_of_ne
      rw [Envelope.senderKey?_of_ofContent hopen]
      exact fun heq => hkey (Option.some.inj heq)

/-! ## The sessions of other sender keys -/

/-- Two receivers differ in nothing but stored sessions, and not in those of a sender key. -/
structure AlikeFor (sender : Option IdentityKey) (r r' : Receiver) : Prop where
  rest : ∃ inner, r' = { r with store := { r.store with inner } }
  sessions : ∀ key, sender = some key → r'.sessions key = r.sessions key

end Receiver

/-- Two outcomes answer and report the same, and leave receivers that differ in nothing but the
stored sessions of other sender keys. -/
structure Outcome.AlikeFor {α : Type} (sender : Option IdentityKey) (o o' : Outcome α) : Prop where
  answer : o'.answer = o.answer
  notices : o'.notices = o.notices
  receiver : o.receiver.AlikeFor sender o'.receiver

namespace Receiver

/-- The trial reaches nothing but the stored sessions. -/
theorem receiver_tryStored_eq (r : Receiver) (env : Envelope) :
    (r.tryStored env).receiver =
      { r with store := { r.store with inner := (r.tryStored env).receiver.store.inner } } := by
  cases hreads : r.store.faults.failReads with
  | true => rw [tryStored_of_failReads hreads]
  | false => simp [Receiver.tryStored, FaultyStore.withSessions_of_reads hreads]

section Alike

variable {r r' : Receiver} {env : Envelope} (h : r.AlikeFor (some env.senderKey) r')

include h

/-- Receivers that are alike have the same account. -/
theorem AlikeFor.account : r'.account = r.account := by
  obtain ⟨inner, rfl⟩ := h.rest
  rfl

/-- Receivers that are alike have the same switches and counts. -/
theorem AlikeFor.faults : r'.store.faults = r.store.faults := by
  obtain ⟨inner, rfl⟩ := h.rest
  rfl

/-- The sink does not look at the stored sessions. -/
theorem AlikeFor.mark (sender : UserId) :
    (r.mark sender env.senderKey).AlikeFor (some env.senderKey) (r'.mark sender env.senderKey) := by
  obtain ⟨inner, hr'⟩ := h.rest
  exact ⟨⟨inner, by rw [hr']; rfl⟩, h.sessions⟩

/-- The account does not look at the stored sessions. -/
theorem AlikeFor.withAccount (account : Ratchet.Account) :
    AlikeFor (some env.senderKey) { r with account } { r' with account } := by
  obtain ⟨inner, hr'⟩ := h.rest
  exact ⟨⟨inner, by rw [hr']⟩, h.sessions⟩

/-- A trial looks at the sessions of its sender key alone. -/
theorem AlikeFor.tryStored : (r.tryStored env).AlikeFor (some env.senderKey) (r'.tryStored env) := by
  have hsessions := h.sessions env.senderKey rfl
  have hfaults := h.faults
  obtain ⟨inner, hr'⟩ := h.rest
  cases hreads : r.store.faults.failReads with
  | true =>
    have hreads' : r'.store.faults.failReads = true := by rw [hfaults, hreads]
    rw [tryStored_of_failReads hreads, tryStored_of_failReads hreads']
    exact ⟨rfl, rfl, h⟩
  | false =>
    have hreads' : r'.store.faults.failReads = false := by rw [hfaults, hreads]
    refine ⟨?_, ?_, ⟨(r'.tryStored env).receiver.store.inner, ?_⟩, fun key hkey => ?_⟩
    · rw [answer_tryStored hreads, answer_tryStored hreads', hsessions]
    · rw [notices_tryStored hreads, notices_tryStored hreads', hsessions]
    · rw [receiver_tryStored_eq r', receiver_tryStored_eq r, hr']
    · cases hkey
      simp only [sessions_tryStored, hreads, hreads', hsessions]

/-- A session is stored without a look at those of other sender keys. -/
theorem AlikeFor.keepSession (session : Session) :
    ((Script.keepSession env.senderKey session).run r).AlikeFor (some env.senderKey)
      ((Script.keepSession env.senderKey session).run r') := by
  have hsessions := h.sessions env.senderKey rfl
  obtain ⟨inner, hr'⟩ := h.rest
  refine ⟨?_, ?_, ⟨?_, ?_⟩, fun key hkey => ?_⟩
  · rw [Script.run_keepSession, Script.run_keepSession]
  · subst hr'
    rw [Script.run_keepSession, Script.run_keepSession]
    unfold FaultyStore.add
    cases r.store.faults.failWrites <;> rfl
  · exact (r'.perform (.add env.senderKey session)).store.inner
  · subst hr'
    rw [receiver_keepSession, receiver_keepSession, perform_add, perform_add]
    unfold FaultyStore.add
    cases r.store.faults.failWrites <;> rfl
  · cases hkey
    rw [receiver_keepSession, receiver_keepSession, sessions_perform_add, sessions_perform_add,
      hsessions]
    simp only [kept, h.faults]

/-- A session is created without a look at the stored ones. -/
theorem AlikeFor.decryptWithNew (sender : UserId) :
    (r.decryptWithNew sender env).AlikeFor (some env.senderKey) (r'.decryptWithNew sender env) := by
  rw [decryptWithNew_eq, decryptWithNew_eq, h.account]
  rcases Bootstrap.ofBody r.account env.body with ⟨_ | session, account⟩
  · exact ⟨rfl, rfl, (h.withAccount account).mark sender⟩
  · obtain ⟨-, hnotices, hkeep⟩ := (h.withAccount account).keepSession session.advance
    simp only [hnotices]
    cases session.attempt env.body with
    | ok t => exact ⟨rfl, rfl, hkeep⟩
    | error err => exact ⟨rfl, rfl, hkeep.mark sender⟩

/-- What follows from a verdict does not depend on the sessions of other sender keys. -/
theorem AlikeFor.afterTrial (sender : UserId) (verdict : Verdict) :
    (r.afterTrial sender env verdict).AlikeFor (some env.senderKey)
      (r'.afterTrial sender env verdict) := by
  cases verdict with
  | decrypted t => exact ⟨rfl, rfl, h⟩
  | refused id => exact ⟨rfl, rfl, h.mark sender⟩
  | unclaimed =>
    rw [afterTrial_eq, afterTrial_eq]
    dsimp only
    cases env.type with
    | preKey => exact h.decryptWithNew sender
    | normal => exact ⟨rfl, rfl, h.mark sender⟩

/-- A message is decrypted without a look at the sessions of other sender keys. -/
theorem AlikeFor.plaintext (sender : UserId) :
    (r.plaintext sender env).AlikeFor (some env.senderKey) (r'.plaintext sender env) := by
  have htry := h.tryStored
  rw [plaintext_eq, plaintext_eq]
  revert htry
  obtain ⟨answer, r₁, notices⟩ := r.tryStored env
  obtain ⟨answer', r₁', notices'⟩ := r'.tryStored env
  rintro ⟨rfl, rfl, halike⟩
  cases answer' with
  | error err => exact ⟨rfl, rfl, halike⟩
  | ok verdict =>
    obtain ⟨hanswer, hnotices, hreceiver⟩ := halike.afterTrial sender verdict
    exact ⟨hanswer, congrArg (notices' ++ ·) hnotices, hreceiver⟩

end Alike

/-- Receivers that are alike for the sender key of an event decrypt it alike. -/
theorem AlikeFor.decrypt {r r' : Receiver} {e : Event} (h : r.AlikeFor e.senderKey? r') :
    (r.decrypt e).AlikeFor e.senderKey? (r'.decrypt e) := by
  obtain ⟨inner, hr'⟩ := h.rest
  have hown : r'.ownKey = r.ownKey := by rw [hr']; rfl
  have hdevice : r'.device = r.device := by rw [hr']
  rw [decrypt_eq, decrypt_eq, hown, hdevice]
  cases hopen : Envelope.ofContent r.ownKey e.content with
  | error err => exact ⟨rfl, rfl, h⟩
  | ok env =>
    rw [Envelope.senderKey?_of_ofContent hopen] at h ⊢
    have hplain := h.plaintext e.sender
    have haccept : (r'.plaintext e.sender env).receiver.accept =
        (r.plaintext e.sender env).receiver.accept := by
      rw [plaintext_receiver, plaintext_receiver, accept_performAll, accept_performAll, hr']
      rfl
    simp only
    revert hplain haccept
    obtain ⟨answer, r₁, notices⟩ := r.plaintext e.sender env
    obtain ⟨answer', r₁', notices'⟩ := r'.plaintext e.sender env
    rintro ⟨rfl, rfl, halike⟩ haccept
    cases answer' with
    | error err => exact ⟨rfl, rfl, halike⟩
    | ok t => exact ⟨by simp only [haccept], by simp only [haccept], halike⟩

/-! ## Runs below the limit -/

/-- No count of attempts has reached its limit. -/
def BelowLimit (r : Receiver) : Prop :=
  ∀ key, ∀ s ∈ r.sessions key, s.BelowLimit

/-- Before each step of a run, no count of attempts has reached its limit. -/
def BelowLimitAlong (r : Receiver) : List Step → Prop
  | [] => True
  | s :: steps => r.BelowLimit ∧ (r.step s).2.1.BelowLimitAlong steps

/-- All counts are below the limit if those of all entries of the store are. -/
theorem belowLimit_of_entries {r : Receiver}
    (h : ∀ entry ∈ r.store.inner.entries, ∀ s ∈ entry.2, s.BelowLimit) : r.BelowLimit := by
  intro key s hs
  obtain ⟨entry, hentry, hmem⟩ := SessionStore.mem_entries_of_mem_sessions hs
  exact h entry hentry s hmem

/-- A run that stays below the limit is below it before the first step behind any part of it. -/
theorem BelowLimitAlong.after {r : Receiver} {before : List Step} {s : Step} {behind : List Step}
    (h : r.BelowLimitAlong (before ++ s :: behind)) : (r.after before).BelowLimit := by
  induction before generalizing r with
  | nil => exact h.1
  | cons s' before ih => exact ih h.2

/-- Below the limit no step shortens a list of sessions, and each session in it ages. -/
theorem ages_step {r : Receiver} (h : r.BelowLimit) (s : Step) (key : IdentityKey) :
    Grows Ages (r.sessions key) ((r.step s).2.1.sessions key) := by
  apply grows_step Ages.refl Session.ages_poison
  rintro e -
  obtain ⟨tried, added, hafter, htried, -⟩ := r.sessions_decrypt e key
  have hages : List.Forall₂ Ages (r.sessions key) tried := by
    have hboth := (List.forall₂_and_left _ _).mpr ⟨h key, htried⟩
    exact hboth.imp fun s s' hss' => hss'.2.ages hss'.1
  rw [hafter]
  exact (Grows.of_forall₂ hages).append added

/-- Along a run that stays below the limit the sessions of a sender key keep their places and age. -/
theorem ages_after {r : Receiver} {steps : List Step} (h : r.BelowLimitAlong steps)
    (key : IdentityKey) : Grows Ages (r.sessions key) ((r.after steps).sessions key) := by
  induction steps generalizing r with
  | nil => exact .refl Ages.refl _
  | cons s steps ih => exact (ages_step h.1 s key).trans Ages.trans (ih h.2)

/-- What a decryption may do to the stored sessions, and which of them it depends on. -/
structure Confined (r : Receiver) (e : Event) : Prop where
  /-- Each session keeps its place and is attempted once at most. A new one comes behind them only
  under the sender key of the message that it was created for, with one attempt. -/
  sessions : ∀ key, ∃ tried added, (r.decrypt e).receiver.sessions key = tried ++ added ∧
    List.Forall₂ AttemptedOnce (r.sessions key) tried ∧
    (added = [] ∨ ∃ env m otk, Envelope.ofContent r.ownKey e.content = .ok env ∧
      env.senderKey = key ∧ r.Bootstraps env m otk ∧
      added = [⟨m.sessionId, some otk, r.account.poisonNewSessions, 1⟩])
  /-- The sessions of other sender keys stay as they are. -/
  others : ∀ key, e.senderKey? ≠ some key →
    (r.decrypt e).receiver.sessions key = r.sessions key
  /-- Whatever sessions other sender keys have, the event is decrypted alike. -/
  blind : ∀ r', r.AlikeFor e.senderKey? r' →
    (r.decrypt e).AlikeFor e.senderKey? (r'.decrypt e)

/-- Every decryption is confined, whatever the receiver. -/
theorem confined (r : Receiver) (e : Event) : r.Confined e where
  sessions := r.sessions_decrypt e
  others _ hkey := sessions_decrypt_of_ne hkey
  blind _ h := h.decrypt

/-- Along a run that stays below the limit of attempts, and with each of its steps, the sessions of
every sender key keep their places, stay what they were created as, are never cured of poison, and
never lose an attempt; and each decryption of the run is confined to the sender key of its event. -/
theorem sessions_append_only {r : Receiver} {steps : List Step} (h : r.BelowLimitAlong steps) :
    (∀ key, Grows Ages (r.sessions key) ((r.after steps).sessions key)) ∧
      ∀ before s behind, steps = before ++ s :: behind →
        (∀ key, Grows Ages ((r.after before).sessions key)
          (((r.after before).step s).2.1.sessions key)) ∧
        ∀ e, s = .decrypt e → (r.after before).Confined e := by
  refine ⟨ages_after h, ?_⟩
  rintro before s behind rfl
  exact ⟨ages_step h.after s, fun e _ => (r.after before).confined e⟩

/-- A session that another sender key has for the same one-time key is left alone by a message that is
sent again, which is attempted on the session that it created before. -/
theorem sessions_append_only_sent_again :
    withTwoKeys.BelowLimitAlong [.decrypt (preKeyEvent "OTK7"),
        .addSession ⟨"CAROLKEY"⟩ ⟨"S7", some "OTK7", true, 9⟩ true,
        .decrypt (preKeyEvent "OTK7")] ∧
      (withTwoKeys.after [.decrypt (preKeyEvent "OTK7"),
        .addSession ⟨"CAROLKEY"⟩ ⟨"S7", some "OTK7", true, 9⟩ true,
        .decrypt (preKeyEvent "OTK7")]).sessions ⟨"ALICEKEY"⟩ =
          [⟨"S7", some "OTK7", false, 2⟩] ∧
      (withTwoKeys.after [.decrypt (preKeyEvent "OTK7"),
        .addSession ⟨"CAROLKEY"⟩ ⟨"S7", some "OTK7", true, 9⟩ true,
        .decrypt (preKeyEvent "OTK7")]).sessions ⟨"CAROLKEY"⟩ =
          [⟨"S7", some "OTK7", true, 9⟩] := by
  have hlimit : withTwoKeys.BelowLimitAlong [.decrypt (preKeyEvent "OTK7"),
      .addSession ⟨"CAROLKEY"⟩ ⟨"S7", some "OTK7", true, 9⟩ true,
      .decrypt (preKeyEvent "OTK7")] := by
    refine ⟨?_, ?_, ?_, trivial⟩
    · exact belowLimit_of_entries (by decide +kernel)
    · exact belowLimit_of_entries (by decide +kernel)
    · exact belowLimit_of_entries (by decide +kernel)
  have hconfined := ((sessions_append_only hlimit).2
    [.decrypt (preKeyEvent "OTK7"), .addSession ⟨"CAROLKEY"⟩ ⟨"S7", some "OTK7", true, 9⟩ true]
    (.decrypt (preKeyEvent "OTK7")) [] rfl).2 (preKeyEvent "OTK7") rfl
  exact ⟨hlimit, by decide +kernel,
    (hconfined.others ⟨"CAROLKEY"⟩ (by decide +kernel)).trans (by decide +kernel)⟩

end Receiver

end OlmReceiver
