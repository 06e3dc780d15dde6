import Mathlib.Control.Monad.Basic
import OlmReceiver.Proofs.Ending

/-!
# The complete outcome of a normal message

A normal message carries nothing that names its session, so the stored sessions are attempted one
after the other. The first that reads the message ends the search, and its predecessors have failed
an attempt each. Only the set of sessions decides whether there is one: another order of them may
change which sessions are attempted, yet never the answer.

Neither the account nor the store of new sessions is called on, whatever the outcome.

The sessions that are attempted come with their counts, which start anew behind the limit of their
32 bits.
-/

namespace OlmReceiver

open Ratchet (Session Message)

namespace Receiver

section Normal

variable {r : Receiver} {e : Event} {env : Envelope}
  (hopen : Envelope.ofContent r.ownKey e.content = .ok env)
  (hreads : r.store.faults.failReads = false) (htype : env.type = .normal)

include hopen hreads htype

/-- The sessions up to the first that reads the message are attempted, and it is decrypted. -/
theorem endsAs_of_first {m : Message} (hbody : Message.decode env.body = .ok m)
    {before after : List Session} {s : Session}
    (hsessions : r.sessions env.senderKey = before ++ s :: after)
    (hbefore : ∀ s' ∈ before, ¬ s'.Reads m) (hs : s.Reads m) :
    r.EndsAs e env
      { answer := r.accept e env.senderKey (Text.ofString m.plaintext)
        sessions := before.map Session.advance ++ s.advance :: after
        account := r.account
        attempted := (before ++ [s]).map Session.id } := by
  have hopens : r.Opens env m := by
    rw [Opens, htype, hsessions]
    exact ⟨s, List.mem_append_right before List.mem_cons_self, hs⟩
  obtain ⟨-, htried, hattempted⟩ := Trial.ofNormal_of_first hbody after hbefore hs
  have hends := endsAs_of_tried hopen hreads [] (.opened hreads hbody hopens)
  rwa [htype, Trial.ofMessage, hsessions, htried, hattempted] at hends

/-- A message that no stored session reads is attempted on all of them, and marks the device. -/
theorem endsAs_of_exhausted (hunread : Trial.Unread env.body (r.sessions env.senderKey)) :
    r.EndsAs e env
      { answer := .error .decryptionFailedForNormalMessage
        sessions := (r.sessions env.senderKey).map Session.advance
        account := r.account
        attempted := (r.sessions env.senderKey).map Session.id
        marked := true } := by
  have hnone : ∀ m, Message.decode env.body = .ok m → ¬ r.Opens env m := by
    intro m hbody hopens
    rw [Opens, htype] at hopens
    obtain ⟨s, hs, hreadsIt⟩ := hopens
    exact hunread m hbody s hs hreadsIt
  obtain ⟨-, htried, hattempted⟩ := Trial.ofNormal_of_unread hunread
  have hends := endsAs_of_tried hopen hreads [⟨e.sender, env.senderKey⟩]
    (.exhausted hreads htype hnone)
  rwa [htype, Trial.ofMessage, htried, hattempted] at hends

/-- A message that a stored session reads is decrypted by the first that does. -/
theorem exists_endsAs_of_read {m : Message} (hbody : Message.decode env.body = .ok m)
    (hread : ∃ s ∈ r.sessions env.senderKey, s.Reads m) :
    ∃ before s after, r.sessions env.senderKey = before ++ s :: after ∧
      (∀ s' ∈ before, ¬ s'.Reads m) ∧ s.Reads m ∧
      r.EndsAs e env
        { answer := r.accept e env.senderKey (Text.ofString m.plaintext)
          sessions := before.map Session.advance ++ s.advance :: after
          account := r.account
          attempted := (before ++ [s]).map Session.id } := by
  obtain ⟨before, s, after, hsessions, hbefore, hs⟩ := exists_first hread
  exact ⟨before, s, after, hsessions, hbefore, hs,
    endsAs_of_first hopen hreads htype hbody hsessions hbefore hs⟩

/-- Behind the trial, either the plaintext is read or the sender's device is marked. -/
theorem calls_of_normal :
    (∃ t, r.calls e = [.tryStored env, .accept env.senderKey t]) ∨
      r.calls e = [.tryStored env, .mark ⟨e.sender, env.senderKey⟩] := by
  obtain ⟨-, hcalls⟩ := decrypt_of_opened hopen
  by_cases hread : ∃ m, Message.decode env.body = .ok m ∧ r.Opens env m
  · obtain ⟨m, hbody, hopens⟩ := hread
    have hcourse : Course r e.sender env _ _ := .opened hreads hbody hopens
    obtain ⟨hplain, hplainCalls⟩ := hcourse.unique
    rw [hplain, hplainCalls] at hcalls
    exact .inl ⟨_, hcalls⟩
  · have hcourse : Course r e.sender env _ _ :=
      .exhausted hreads htype fun m hbody hopens => hread ⟨m, hbody, hopens⟩
    obtain ⟨hplain, hplainCalls⟩ := hcourse.unique
    rw [hplain, hplainCalls] at hcalls
    exact .inr hcalls

/-- A normal message leaves the account and the count of attempts to write as they are, and fails
with an error of its own or with that of the payload. -/
theorem unchanged_of_normal :
    (r.decrypt e).receiver.account = r.account ∧
      (r.decrypt e).receiver.writeAttempts = r.writeAttempts ∧
      ∀ err, (r.decrypt e).answer = .error err →
        err = .decryptionFailedForNormalMessage ∨ err.kind ≠ .sessionDesync := by
  rcases Trial.read_or_unread env.body (r.sessions env.senderKey) with ⟨m, hbody, hread⟩ | hunread
  · obtain ⟨before, s, after, -, -, -, hends⟩ :=
      exists_endsAs_of_read hopen hreads htype hbody hread
    refine ⟨hends.account, congrArg Faults.writeAttempts hends.faults, fun err herr => .inr ?_⟩
    exact kind_ne_sessionDesync_of_accept (hends.answer.symm.trans herr)
  · have hends := endsAs_of_exhausted hopen hreads htype hunread
    refine ⟨hends.account, congrArg Faults.writeAttempts hends.faults, fun err herr => .inl ?_⟩
    exact (Except.error.inj (hends.answer.symm.trans herr)).symm

/-- The order in which the sessions of the sender key are stored does not change the answer. -/
theorem answer_of_perm {store : FaultyStore} (hfaults : store.faults = r.store.faults)
    (hperm : (store.inner.sessions env.senderKey).Perm (r.sessions env.senderKey)) :
    (decrypt { r with store } e).answer = (r.decrypt e).answer := by
  let r' : Receiver := { r with store }
  have hreads' : r'.store.faults.failReads = false := by rw [← hreads, ← hfaults]
  rcases Trial.read_or_unread env.body (r.sessions env.senderKey) with ⟨m, hbody, hread⟩ | hunread
  · have hread' : ∃ s ∈ r'.sessions env.senderKey, s.Reads m := by
      obtain ⟨s, hs, hreadsIt⟩ := hread
      exact ⟨s, hperm.mem_iff.mpr hs, hreadsIt⟩
    obtain ⟨before, s, after, -, -, -, hends⟩ :=
      exists_endsAs_of_read hopen hreads htype hbody hread
    obtain ⟨before', s', after', -, -, -, hends'⟩ :=
      exists_endsAs_of_read (r := r') hopen hreads' htype hbody hread'
    exact hends'.answer.trans hends.answer.symm
  · have hunread' : Trial.Unread env.body (r'.sessions env.senderKey) :=
      fun m hbody s hs => hunread m hbody s (hperm.mem_iff.mp hs)
    have hends := endsAs_of_exhausted hopen hreads htype hunread
    have hends' := endsAs_of_exhausted (r := r') hopen hreads' htype hunread'
    exact hends'.answer.trans hends.answer.symm

end Normal

/-- All ways in which the decryption of an event ends that opens to a normal message. A session that is
attempted has its count raised by one, modulo the size of the count. -/
structure NormalOutcome (r : Receiver) (e : Event) (env : Envelope) : Prop where
  /-- The sessions up to the first that reads the message are attempted, in their order. -/
  read : ∀ m, Message.decode env.body = .ok m →
    (∃ s ∈ r.sessions env.senderKey, s.Reads m) →
    ∃ before s after, r.sessions env.senderKey = before ++ s :: after ∧
      (∀ s' ∈ before, ¬ s'.Reads m) ∧ s.Reads m ∧
      r.EndsAs e env
        { answer := r.accept e env.senderKey (Text.ofString m.plaintext)
          sessions := before.map Session.advance ++ s.advance :: after
          account := r.account
          attempted := (before ++ [s]).map Session.id }
  /-- A body that no session reads, or that is no message, is attempted on all of them. -/
  exhausted : (∀ m, Message.decode env.body = .ok m →
      ∀ s ∈ r.sessions env.senderKey, ¬ s.Reads m) →
    r.EndsAs e env
      { answer := .error .decryptionFailedForNormalMessage
        sessions := (r.sessions env.senderKey).map Session.advance
        account := r.account
        attempted := (r.sessions env.senderKey).map Session.id
        marked := true }
  /-- The account is asked neither for a session nor to persist itself, and nothing is added. -/
  calls : (∃ t, r.calls e = [.tryStored env, .accept env.senderKey t]) ∨
    r.calls e = [.tryStored env, .mark ⟨e.sender, env.senderKey⟩]
  account : (r.decrypt e).receiver.account = r.account
  writeAttempts : (r.decrypt e).receiver.writeAttempts = r.writeAttempts
  /-- No error speaks of a session that belongs to the message, or of a new one. -/
  errors : ∀ err, (r.decrypt e).answer = .error err → err ≠ .decryptionFailedWithMatchingSession ∧
    ∀ cause, err ≠ .createInboundSession cause ∧ err ≠ .persistAccount cause ∧
      err ≠ .decryptWithNewSession cause
  /-- The order of the stored sessions does not matter to the answer. -/
  reordered : ∀ store : FaultyStore, store.faults = r.store.faults →
    (store.inner.sessions env.senderKey).Perm (r.sessions env.senderKey) →
    (decrypt { r with store } e).answer = (r.decrypt e).answer

/-- While the stored sessions can be read, an event that opens to a normal message ends with the
first session that reads it, or with a failed attempt on each. -/
theorem normal_outcome {r : Receiver} {e : Event} {env : Envelope}
    (hopen : Envelope.ofContent r.ownKey e.content = .ok env)
    (hreads : r.store.faults.failReads = false) (htype : env.type = .normal) :
    r.NormalOutcome e env := by
  obtain ⟨haccount, hattempts, herrors⟩ := unchanged_of_normal hopen hreads htype
  exact
    { read := fun m hbody hread => exists_endsAs_of_read hopen hreads htype hbody hread
      exhausted := fun hunread => endsAs_of_exhausted hopen hreads htype hunread
      calls := calls_of_normal hopen hreads htype
      account := haccount
      writeAttempts := hattempts
      errors := fun err herr => by
        rcases herrors err herr with rfl | hkind
        · simp
        · have hne {err' : DecryptError} (h : err'.kind = .sessionDesync) : err ≠ err' :=
            fun heq => hkind (heq ▸ h)
          exact ⟨hne rfl, fun cause => ⟨hne rfl, hne rfl, hne rfl⟩⟩
      reordered := fun store hfaults hperm => answer_of_perm hopen hreads htype hfaults hperm }

/-- A receiver with four sessions of one sender, of which the last two read messages for `S7`. -/
def withFourSessions : Receiver :=
  { withTwoKeys with
    store :=
      { inner := ⟨[(⟨"ALICEKEY"⟩, [⟨"S6", none, false, 0⟩, ⟨"S7", some "OTK1", true, 4⟩,
          ⟨"S7", none, false, 2⟩, ⟨"S7", none, false, 0⟩])]⟩
        faults := .none } }

/-- A normal message for a session. -/
def normalEvent (id : String) : Event :=
  .toRecipient ⟨"@alice:localhost"⟩ ⟨"ALICEKEY"⟩ ⟨"BOBKEY"⟩
    (.ofMessage .normal (Message.encode ⟨id, none, "hi"⟩))

/-- A foreign and a poisoned session are attempted before the one that reads the message, and the
session behind it is not. -/
theorem normal_outcome_of_third :
    Envelope.ofContent withFourSessions.ownKey (normalEvent "S7").content =
        .ok ⟨⟨"ALICEKEY"⟩, .normal, Message.encode ⟨"S7", none, "hi"⟩⟩ ∧
      withFourSessions.store.faults.failReads = false ∧
      (∃ before s after, withFourSessions.sessions ⟨"ALICEKEY"⟩ = before ++ s :: after ∧
        (withFourSessions.decrypt (normalEvent "S7")).notices.filterMap Notice.attempted? =
          (before ++ [s]).map Session.id) ∧
      (withFourSessions.decrypt (normalEvent "S7")).receiver.sessions ⟨"ALICEKEY"⟩ =
        [⟨"S6", none, false, 1⟩, ⟨"S7", some "OTK1", true, 5⟩, ⟨"S7", none, false, 3⟩,
          ⟨"S7", none, false, 0⟩] := by
  have hopen : Envelope.ofContent withFourSessions.ownKey (normalEvent "S7").content =
      .ok ⟨⟨"ALICEKEY"⟩, .normal, Message.encode ⟨"S7", none, "hi"⟩⟩ := by
    decide +kernel
  have houtcome := normal_outcome hopen rfl rfl
  obtain ⟨before, s, after, hsessions, -, -, hends⟩ :=
    houtcome.read ⟨"S7", none, "hi"⟩ (by decide +kernel) ⟨⟨"S7", none, false, 0⟩, by decide, by decide⟩
  exact ⟨hopen, rfl, ⟨before, s, after, hsessions, hends.attempted⟩, by decide +kernel⟩

end Receiver

end OlmReceiver
