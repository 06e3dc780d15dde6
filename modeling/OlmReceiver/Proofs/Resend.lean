import Mathlib.Control.Monad.Basic
import OlmReceiver.Proofs.Growth
import OlmReceiver.Proofs.PreKeyMessage

/-!
# A created session claims every resend

A session is created only where no stored session was created from the same one-time key. The new
session is therefore the first one of its key when it is stored. Sessions keep their places, so it
remains the first: a session of the same key that is added later stands behind it. Every later
message that names the key is attempted on that session alone and never reaches the account, though
the key is used up.

Nothing is assumed of how the session fared on its own message, and nothing of what the run does in
between.
-/

namespace OlmReceiver

open Ratchet (Session Message)
open Ratchet.Session (Evolves)

namespace Receiver

/-- A session is the first of those stored for a sender key that was created from a one-time key;
it stands behind some sessions and in front of others. -/
structure FirstOfKey (r : Receiver) (senderKey : IdentityKey) (key : String)
    (before : List Session) (s : Session) (after : List Session) : Prop where
  sessions : r.sessions senderKey = before ++ s :: after
  others : ∀ s' ∈ before, s'.oneTimeKey ≠ some key
  oneTimeKey : s.oneTimeKey = some key

/-- The first session of a one-time key stays the first one along every run, in its place. -/
theorem FirstOfKey.after_run {r : Receiver} {senderKey : IdentityKey} {key : String}
    {before after : List Session} {s : Session} (h : r.FirstOfKey senderKey key before s after)
    (steps : List Step) :
    ∃ before' s' after', (r.after steps).FirstOfKey senderKey key before' s' after' ∧
      before'.length = before.length ∧ s.Evolves s' := by
  -- Being created from the key is a lasting property, so the run keeps the first session with it.
  have hgrow : Grows Evolves (before ++ s :: after) ((r.after steps).sessions senderKey) := by
    rw [← h.sessions]
    exact r.sessionsGrow_after steps senderKey
  have hlasting : ∀ s s' : Session, s.Evolves s' →
      (s'.oneTimeKey = some key ↔ s.oneTimeKey = some key) := by
    intro s s' hevolves
    rw [hevolves.oneTimeKey]
  obtain ⟨before', s', after', hsessions, hlength, hothers, hevolves⟩ :=
    hgrow.first hlasting h.others
  have hkey : s'.oneTimeKey = some key := hevolves.oneTimeKey.trans h.oneTimeKey
  exact ⟨before', s', after', ⟨hsessions, hothers, hkey⟩, hlength, hevolves⟩

/-- Pre-key messages of a sender key that name a one-time key are decided by one of the stored
sessions alone, as long as these can be read: it is attempted and no other, and the account and the
list of sessions stay as they are. -/
def DecidedBy (r : Receiver) (senderKey : IdentityKey) (key : String)
    (before : List Session) (s : Session) (after : List Session) : Prop :=
  ∀ e env m, Envelope.ofContent r.ownKey e.content = .ok env → env.senderKey = senderKey →
    env.type = .preKey → Message.decode env.body = .ok m → m.oneTimeKey = some key →
    r.store.faults.failReads = false →
    r.EndsAs e env
      { answer :=
          if s.Reads m then r.accept e senderKey (Text.ofString m.plaintext)
          else .error .decryptionFailedWithMatchingSession
        sessions := before ++ s.advance :: after
        account := r.account
        attempted := [s.id]
        marked := ¬ s.Reads m }

/-- The first session of a one-time key decides on the messages that name the key. -/
theorem FirstOfKey.decidedBy {r : Receiver} {senderKey : IdentityKey} {key : String}
    {before after : List Session} {s : Session} (h : r.FirstOfKey senderKey key before s after) :
    r.DecidedBy senderKey key before s after := by
  rintro e env m hopen rfl htype hbody hnamed hreads
  exact endsAs_of_claimed hopen hreads htype hbody hnamed h.sessions h.others h.oneTimeKey

/-- A decryption that hands a session to the store created it for the message of its event. -/
theorem bootstraps_of_added {r : Receiver} {e : Event} {env : Envelope} {m : Message}
    (hopen : Envelope.ofContent r.ownKey e.content = .ok env)
    (hbody : Message.decode env.body = .ok m) (hadded : r.added e ≠ []) :
    r.store.faults.failReads = false ∧ r.account.failPersist = false ∧
      ∃ key, r.Bootstraps env m key := by
  rcases r.decrypt_course e with
    ⟨err, -, -, hcalls⟩ | ⟨env', answer, calls, hopen', hcourse, -, hcalls⟩
  · simp [added, hcalls] at hadded
  · obtain rfl : env' = env := by simpa [hopen] using hopen'.symm
    have haccept : (acceptCalls env' answer).filterMap Call.added? = [] := by
      cases answer <;> rfl
    rw [added, hcalls, List.filterMap_append, haccept, List.append_nil] at hadded
    cases hcourse with
    | @created m' key hreads hnew hpersist _ =>
      obtain rfl : m' = m := by simpa [hbody] using hnew.body.symm
      exact ⟨hreads, hpersist, key, hnew⟩
    | @unusable m' key hreads hnew hpersist _ =>
      obtain rfl : m' = m := by simpa [hbody] using hnew.body.symm
      exact ⟨hreads, hpersist, key, hnew⟩
    | _ => exact absurd rfl hadded

/-- A created session that is stored is the first of its one-time key. -/
theorem firstOfKey_of_added {r : Receiver} {e : Event} {env : Envelope} {m : Message} {key : String}
    (hopen : Envelope.ofContent r.ownKey e.content = .ok env)
    (hbody : Message.decode env.body = .ok m) (hnamed : m.oneTimeKey = some key)
    (hadded : r.added e ≠ []) (hwrites : r.store.faults.failWrites = false) :
    (r.decrypt e).receiver.FirstOfKey env.senderKey key (r.sessions env.senderKey)
      ⟨m.sessionId, some key, r.account.poisonNewSessions, 1⟩ [] := by
  obtain ⟨hreads, hpersist, key', hnew⟩ := bootstraps_of_added hopen hbody hadded
  obtain rfl : key' = key := by simpa [hnamed] using hnew.named.symm
  have hends := endsAs_of_persisted hopen hreads hnew hpersist
  refine ⟨?_, ?_, rfl⟩
  · rw [hends.sessions]
    simp [kept, hwrites]
  · intro s hs hkey
    have hclaims : s.claims m = true := (Trial.claims_iff hnamed s).mpr hkey
    simp [hnew.unclaimed s hs] at hclaims

/-- Once a session was created for a message that names a one-time key and was stored, it keeps its
place, and decides alone on each later pre-key message of the same sender key that names the same
one-time key: whatever steps came in between, and however the session fared on its own message. -/
theorem created_claims_resends {r : Receiver} {e : Event} {env : Envelope} {m : Message}
    {key : String} (hopen : Envelope.ofContent r.ownKey e.content = .ok env)
    (hbody : Message.decode env.body = .ok m) (hnamed : m.oneTimeKey = some key)
    (hadded : r.added e ≠ []) (hwrites : r.store.faults.failWrites = false) (later : List Step) :
    (r.decrypt e).receiver.sessions env.senderKey =
        r.sessions env.senderKey ++ [⟨m.sessionId, some key, r.account.poisonNewSessions, 1⟩] ∧
      ∃ before s after,
        (r.after (.decrypt e :: later)).sessions env.senderKey = before ++ s :: after ∧
        before.length = (r.sessions env.senderKey).length ∧
        s.id = m.sessionId ∧ s.oneTimeKey = some key ∧
        (r.after (.decrypt e :: later)).DecidedBy env.senderKey key before s after := by
  have hfirst := firstOfKey_of_added hopen hbody hnamed hadded hwrites
  obtain ⟨before, s, after, hlater, hlength, hevolves⟩ := hfirst.after_run later
  exact ⟨hfirst.sessions, before, s, after, hlater.sessions, hlength, hevolves.id,
    hlater.oneTimeKey, hlater.decidedBy⟩

/-- A message that is sent again fails on the session that it created, as that session is poisoned;
a session of the same one-time key stands behind it and would read the message. -/
theorem created_claims_resends_poisoned :
    Envelope.ofContent withTwoKeys.ownKey (preKeyEvent "OTK7").content =
        .ok ⟨⟨"ALICEKEY"⟩, .preKey, Message.encode ⟨"S7", some "OTK7", "hi"⟩⟩ ∧
      withTwoKeys.added (preKeyEvent "OTK7") ≠ [] ∧
      withTwoKeys.store.faults.failWrites = false ∧
      (withTwoKeys.after [.decrypt (preKeyEvent "OTK7"),
        .addSession ⟨"ALICEKEY"⟩ ⟨"S7", some "OTK7", false, 0⟩ true,
        .poison ⟨"ALICEKEY"⟩ 0, .decrypt (preKeyEvent "OTK7")]).sessions ⟨"ALICEKEY"⟩ =
          [⟨"S7", some "OTK7", true, 2⟩, ⟨"S7", some "OTK7", false, 0⟩] ∧
      (((withTwoKeys.after [.decrypt (preKeyEvent "OTK7"),
        .addSession ⟨"ALICEKEY"⟩ ⟨"S7", some "OTK7", false, 0⟩ true,
        .poison ⟨"ALICEKEY"⟩ 0]).decrypt (preKeyEvent "OTK7")).notices.filterMap
          Notice.attempted?) = ["S7"] := by
  have hopen : Envelope.ofContent withTwoKeys.ownKey (preKeyEvent "OTK7").content =
      .ok ⟨⟨"ALICEKEY"⟩, .preKey, Message.encode ⟨"S7", some "OTK7", "hi"⟩⟩ := by
    decide +kernel
  have hbody : Message.decode (Message.encode ⟨"S7", some "OTK7", "hi"⟩) =
      .ok ⟨"S7", some "OTK7", "hi"⟩ := by
    decide +kernel
  have hadded : withTwoKeys.added (preKeyEvent "OTK7") ≠ [] := by decide +kernel
  obtain ⟨-, before, s, after, -, -, hid, -, hresend⟩ :=
    created_claims_resends hopen hbody rfl hadded rfl
      [.addSession ⟨"ALICEKEY"⟩ ⟨"S7", some "OTK7", false, 0⟩ true, .poison ⟨"ALICEKEY"⟩ 0]
  have hends := hresend (preKeyEvent "OTK7") _ _ (by decide +kernel) rfl rfl hbody rfl
    (by decide +kernel)
  refine ⟨hopen, hadded, rfl, by decide +kernel, ?_⟩
  rw [hends.attempted, hid]

end Receiver

end OlmReceiver
