import OlmReceiver.Receiver.Verdict

/-!
# Which session reads a message

A session reads a message when it is unpoisoned and the message names it. The verdict of a trial
depends on the stored sessions through this relation and through the one-time keys that they
claim: a normal message needs any session that reads it, a pre-key message needs its first
claiming session to be one.

Attempts are counted on the sessions, so a trial may change them even where its verdict is a
failure. Only a pre-key message that no session claims is known to leave all of them as they were.
-/

namespace OlmReceiver

open Ratchet (Session Message)

namespace Ratchet.Session

/-- The session decrypts the message: it is unpoisoned, and the message names it. -/
def Reads (s : Session) (m : Message) : Prop :=
  s.poisoned = false ∧ s.id = m.sessionId

instance (s : Session) (m : Message) : Decidable (s.Reads m) :=
  inferInstanceAs (Decidable (_ ∧ _))

/-- A body that is no message fails every attempt with the fault of its decoding. -/
theorem attempt_of_malformed {body : String} {err : Error}
    (hbody : Message.decode body = .error err) (s : Session) : s.attempt body = .error err := by
  simp [attempt, hbody, bind, Except.bind]

/-- A session that reads a message obtains exactly its plaintext. -/
theorem attempt_of_reads {body : String} {m : Message} (hbody : Message.decode body = .ok m)
    {s : Session} (hs : s.Reads m) : s.attempt body = .ok (Text.ofString m.plaintext) := by
  simp [attempt, hbody, bind, Except.bind, hs.1, hs.2]

/-- A poisoned session says so, whichever session the message names. -/
theorem attempt_of_poisoned {body : String} {m : Message} (hbody : Message.decode body = .ok m)
    {s : Session} (hp : s.poisoned = true) : s.attempt body = .error (.poisoned s.id) := by
  simp [attempt, hbody, bind, Except.bind, hp]

/-- A session that does not read a message obtains nothing from it. -/
theorem attempt_of_not_reads {body : String} {m : Message} (hbody : Message.decode body = .ok m)
    {s : Session} (hs : ¬ s.Reads m) : ∃ err, s.attempt body = .error err := by
  by_cases hp : s.poisoned = true
  · exact ⟨.poisoned s.id, attempt_of_poisoned hbody hp⟩
  · have hid : m.sessionId ≠ s.id := fun h => hs ⟨by simpa using hp, h.symm⟩
    exact ⟨.wrongSession s.id, by simp [attempt, hbody, bind, Except.bind, hp, hid]⟩

/-- Asking a session about a message is asking whether it claims it. -/
theorem matchesBody_of_decode {body : String} {m : Message} (hbody : Message.decode body = .ok m)
    (s : Session) : s.matchesBody body = .ok (s.claims m) := by
  simp [matchesBody, hbody, bind, Except.bind]

end Ratchet.Session

namespace Trial

/-- A trial makes no sessions where there are none. -/
@[simp] theorem sessions_ofMessage_nil (type : MessageType) (body : String) :
    (ofMessage type body []).sessions = [] := by
  cases type <;> rfl

/-! ## Normal messages -/

/-- No session obtains anything from a body that is no message. -/
theorem verdict_ofNormal_of_malformed {body : String} {err : Ratchet.Error}
    (hbody : Message.decode body = .error err) (sessions : List Session) :
    (ofNormal body sessions).verdict = .ok .unclaimed := by
  induction sessions with
  | nil => rfl
  | cons s rest ih =>
    simp only [ofNormal, Session.decrypt, Session.attempt_of_malformed hbody]
    exact ih

/-- A normal message is decrypted exactly when some stored session reads it. -/
theorem verdict_ofNormal {body : String} {m : Message} (hbody : Message.decode body = .ok m)
    (sessions : List Session) :
    (ofNormal body sessions).verdict =
      if ∃ s ∈ sessions, s.Reads m then .ok (.decrypted (Text.ofString m.plaintext))
      else .ok .unclaimed := by
  induction sessions with
  | nil => rfl
  | cons s rest ih =>
    by_cases hs : s.Reads m
    · simp [ofNormal, Session.decrypt, Session.attempt_of_reads hbody hs, hs]
    · obtain ⟨err, herr⟩ := Session.attempt_of_not_reads hbody hs
      simp only [ofNormal, Session.decrypt, herr, before, ih]
      simp [hs]

/-! ## Pre-key messages -/

/-- The first stored session already fails on a body that is no message, and stays as it was. -/
theorem ofPreKey_of_malformed {body : String} {err : Ratchet.Error}
    (hbody : Message.decode body = .error err) {sessions : List Session} (hne : sessions ≠ []) :
    ofPreKey body sessions = ⟨.error (.inboundSessionMatch (.ratchet err)), sessions, []⟩ := by
  cases sessions with
  | nil => exact absurd rfl hne
  | cons s rest => simp [ofPreKey, Session.matchesBody, hbody, bind, Except.bind]

/-- A message that no stored session claims passes all of them by untouched. -/
theorem ofPreKey_of_unclaimed {body : String} {sessions : List Session}
    (hnone : ∀ s ∈ sessions, s.matchesBody body = .ok false) :
    ofPreKey body sessions = ⟨.ok .unclaimed, sessions, []⟩ := by
  induction sessions with
  | nil => rfl
  | cons s rest ih =>
    have hs : s.matchesBody body = .ok false := hnone s List.mem_cons_self
    simp only [ofPreKey, hs, before, ih fun s' hs' => hnone s' (List.mem_cons_of_mem _ hs')]
    rfl

/-- The first claiming session decides alone, whatever sessions stand behind it. -/
theorem verdict_ofPreKey_of_claimed {body : String} {m : Message}
    (hbody : Message.decode body = .ok m) {sessions : List Session} {s : Session}
    (hfirst : sessions.find? (·.claims m) = some s) :
    (ofPreKey body sessions).verdict =
      if s.Reads m then .ok (.decrypted (Text.ofString m.plaintext)) else .ok (.refused s.id) := by
  induction sessions with
  | nil => simp at hfirst
  | cons s' rest ih =>
    have hm := Session.matchesBody_of_decode hbody s'
    by_cases hc : s'.claims m = true
    · rw [hc] at hm
      obtain rfl : s' = s := by simpa [List.find?_cons, hc] using hfirst
      by_cases hs : s'.Reads m
      · simp [ofPreKey, hm, Session.decrypt, Session.attempt_of_reads hbody hs, hs]
      · obtain ⟨err, herr⟩ := Session.attempt_of_not_reads hbody hs
        simp [ofPreKey, hm, Session.decrypt, herr, hs]
    · rw [Bool.not_eq_true] at hc
      rw [hc] at hm
      simp only [ofPreKey, hm, before]
      exact ih (by simpa [List.find?_cons, hc] using hfirst)

end Trial

end OlmReceiver
