import OlmReceiver.Proofs.Trial

/-!
# Which sessions a trial attempts

Every attempt is counted on its session, so the sessions behind a trial tell which of them were
attempted. A normal message is attempted on the sessions up to the first that reads it, or on all of
them; a pre-key message on the first session that claims it and on no other. A trial reports its
attempts in the order in which it makes them.

Attempts are counted in a word of 32 bits; nothing is assumed of a count that has reached its limit.
-/

namespace OlmReceiver

open Ratchet (Session Message)

/-- The stored session that a notice tells to have been attempted. -/
def Notice.attempted? : Notice → Option String
  | .decrypted id | .matchingSessionFailed id _ | .storedSessionFailed id _ => some id
  | _ => none

/-- A list with a member that has a property has a first one. -/
theorem exists_first {α : Type} {p : α → Prop} [DecidablePred p] {l : List α}
    (h : ∃ a ∈ l, p a) :
    ∃ before a after, l = before ++ a :: after ∧ (∀ b ∈ before, ¬ p b) ∧ p a := by
  have hsome : (l.find? fun a => decide (p a)).isSome := by
    rw [List.find?_isSome]
    simpa using h
  obtain ⟨a, hfirst⟩ := Option.isSome_iff_exists.mp hsome
  obtain ⟨ha, before, after, hl, hbefore⟩ := List.find?_eq_some_iff_append.mp hfirst
  exact ⟨before, a, after, hl, by simpa using hbefore, by simpa using ha⟩

namespace Trial

/-- The identifiers of the sessions that a trial attempts, in order. -/
def attempted (t : Trial) : List String :=
  t.notices.filterMap Notice.attempted?

/-! ## Normal messages -/

/-- No session reads a body: it is no message, or one for other sessions. -/
def Unread (body : String) (sessions : List Session) : Prop :=
  ∀ m, Message.decode body = .ok m → ∀ s ∈ sessions, ¬ s.Reads m

/-- Either some session reads the message that a body stands for, or none reads the body. -/
theorem read_or_unread (body : String) (sessions : List Session) :
    (∃ m, Message.decode body = .ok m ∧ ∃ s ∈ sessions, s.Reads m) ∨ Unread body sessions := by
  by_cases hread : ∃ m, Message.decode body = .ok m ∧ ∃ s ∈ sessions, s.Reads m
  · exact .inl hread
  · exact .inr fun m hbody s hs hreads => hread ⟨m, hbody, s, hs, hreads⟩

/-- A session that does not read the body of a message fails on it. -/
theorem attempt_of_unread {body : String} {sessions : List Session} (h : Unread body sessions)
    {s : Session} (hs : s ∈ sessions) : ∃ err, s.attempt body = .error err := by
  cases hbody : Message.decode body with
  | error err => exact ⟨err, Session.attempt_of_malformed hbody s⟩
  | ok m => exact Session.attempt_of_not_reads hbody (h m hbody s hs)

/-- Sessions that do not read a normal message are attempted, and those behind them are next. -/
theorem ofNormal_append_of_unread {body : String} {before : List Session}
    (h : Unread body before) (rest : List Session) :
    (ofNormal body (before ++ rest)).verdict = (ofNormal body rest).verdict ∧
      (ofNormal body (before ++ rest)).sessions =
        before.map Session.advance ++ (ofNormal body rest).sessions ∧
      (ofNormal body (before ++ rest)).attempted =
        before.map Session.id ++ (ofNormal body rest).attempted := by
  induction before with
  | nil => exact ⟨rfl, rfl, rfl⟩
  | cons s before ih =>
    obtain ⟨err, herr⟩ := attempt_of_unread h List.mem_cons_self
    obtain ⟨hverdict, hsessions, hattempted⟩ :=
      ih fun m hbody s' hs' => h m hbody s' (List.mem_cons_of_mem s hs')
    simp only [List.cons_append, ofNormal, Session.decrypt, herr, Trial.before]
    refine ⟨hverdict, congrArg (List.cons s.advance) hsessions, ?_⟩
    exact congrArg (List.cons s.id) hattempted

/-- A normal message is attempted on the sessions up to the first that reads it. -/
theorem ofNormal_of_first {body : String} {m : Message} (hbody : Message.decode body = .ok m)
    {before : List Session} {s : Session} (after : List Session)
    (hbefore : ∀ s' ∈ before, ¬ s'.Reads m) (hs : s.Reads m) :
    (ofNormal body (before ++ s :: after)).verdict = .ok (.decrypted (Text.ofString m.plaintext)) ∧
      (ofNormal body (before ++ s :: after)).sessions =
        before.map Session.advance ++ s.advance :: after ∧
      (ofNormal body (before ++ s :: after)).attempted = (before ++ [s]).map Session.id := by
  have hunread : Unread body before := by
    intro m' hbody'
    rw [hbody] at hbody'
    cases hbody'
    exact hbefore
  obtain ⟨hverdict, hsessions, hattempted⟩ := ofNormal_append_of_unread hunread (s :: after)
  have hfirst : ofNormal body (s :: after) =
      ⟨.ok (.decrypted (Text.ofString m.plaintext)), s.advance :: after, [.decrypted s.id]⟩ := by
    simp only [ofNormal, Session.decrypt, Session.attempt_of_reads hbody hs]
  rw [hverdict, hsessions, hattempted, hfirst, List.map_append]
  exact ⟨rfl, rfl, rfl⟩

/-- A normal message that no session reads is attempted on all of them. -/
theorem ofNormal_of_unread {body : String} {sessions : List Session} (h : Unread body sessions) :
    (ofNormal body sessions).verdict = .ok .unclaimed ∧
      (ofNormal body sessions).sessions = sessions.map Session.advance ∧
      (ofNormal body sessions).attempted = sessions.map Session.id := by
  have hall := ofNormal_append_of_unread h []
  simp only [List.append_nil] at hall
  simpa [ofNormal, attempted] using hall

/-! ## Pre-key messages -/

/-- A session claims a message that names a one-time key if it was created from that key. -/
theorem claims_iff {m : Message} {key : String} (hnamed : m.oneTimeKey = some key) (s : Session) :
    s.claims m = true ↔ s.oneTimeKey = some key := by
  simp only [Session.claims, hnamed, Option.isSome_some, Bool.true_and, beq_iff_eq]
  exact eq_comm

/-- A session that was not created from the one-time key of a message does not claim it. -/
theorem claims_of_ne {m : Message} {key : String} (hnamed : m.oneTimeKey = some key) {s : Session}
    (hs : s.oneTimeKey ≠ some key) : s.claims m = false := by
  rw [← Bool.not_eq_true, claims_iff hnamed]
  exact hs

/-- No session claims a message that names no one-time key. -/
theorem claims_of_unnamed {m : Message} (hnamed : m.oneTimeKey = none) (s : Session) :
    s.claims m = false := by
  simp [Session.claims, hnamed]

/-- A pre-key message is attempted on the first session that claims it, and on no other. -/
theorem ofPreKey_of_first {body : String} {m : Message} (hbody : Message.decode body = .ok m)
    {before : List Session} {s : Session} (after : List Session)
    (hbefore : ∀ s' ∈ before, s'.claims m = false) (hs : s.claims m = true) :
    (ofPreKey body (before ++ s :: after)).sessions = before ++ s.advance :: after ∧
      (ofPreKey body (before ++ s :: after)).attempted = [s.id] := by
  induction before with
  | nil =>
    simp only [List.nil_append, ofPreKey, Session.matchesBody_of_decode hbody, hs, Session.decrypt]
    cases s.attempt body with
    | ok t => exact ⟨rfl, rfl⟩
    | error err => exact ⟨rfl, rfl⟩
  | cons s' before ih =>
    have hs' : s'.claims m = false := hbefore s' List.mem_cons_self
    obtain ⟨hsessions, hattempted⟩ :=
      ih fun s'' hs'' => hbefore s'' (List.mem_cons_of_mem s' hs'')
    simp only [List.cons_append, ofPreKey, Session.matchesBody_of_decode hbody, hs', Trial.before]
    exact ⟨congrArg (List.cons s') hsessions, hattempted⟩

end Trial

end OlmReceiver
