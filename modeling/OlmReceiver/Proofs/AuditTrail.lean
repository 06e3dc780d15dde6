import OlmReceiver.Proofs.Confinement
import OlmReceiver.Proofs.FailedWrite
import OlmReceiver.Proofs.LogSecrecy
import OlmReceiver.Proofs.NormalMessage

/-!
# The log as an audit trail

Above the level of debug, a decryption logs some of its calls: a mark of the sender's device as a
warning, a session handed to the store as a piece of information, and as an error too if the store
refuses it. As the calls are those that change the receiver, the log can be held against the answer, the
journal and the store.

On the level of debug, the trial of the stored sessions names those that it attempts, and an attempt
shows in the count of its session. Counts start anew behind the limit of their 32 bits, and are raised
by one there as well: a count at its limit is followed by zero.
-/

namespace OlmReceiver

open Ratchet (Session Account JournalEntry)

/-! ## Levels of notices and of calls -/

/-- The levels of notices, without debug. -/
def loudLevels (notices : List Notice) : List Level :=
  (notices.map Notice.level).filter fun level => level ≠ .debug

@[simp] theorem loudLevels_nil : loudLevels [] = [] := rfl

@[simp] theorem loudLevels_cons (n : Notice) (notices : List Notice) :
    loudLevels (n :: notices) =
      if n.level = .debug then loudLevels notices else n.level :: loudLevels notices := by
  by_cases h : n.level = .debug
  · simp [loudLevels, h]
  · simp [loudLevels, h]

@[simp] theorem loudLevels_append (first second : List Notice) :
    loudLevels (first ++ second) = loudLevels first ++ loudLevels second := by
  simp [loudLevels]

/-- The levels above debug on which a call is told, with writes that fail or work. -/
def Call.levels (failWrites : Bool) : Call → List Level
  | .add _ _ => if failWrites then [.info, .error] else [.info]
  | .mark _ => [.warn]
  | _ => []

/-- The levels above debug on which calls are told, in order. -/
def Call.allLevels (failWrites : Bool) (calls : List Call) : List Level :=
  calls.flatMap (Call.levels failWrites)

namespace Trial

/-- A trial of a normal message tells nothing above debug. -/
theorem loudLevels_ofNormal (body : String) (sessions : List Session) :
    loudLevels (ofNormal body sessions).notices = [] := by
  induction sessions with
  | nil => rfl
  | cons s rest ih =>
    simp only [ofNormal, Session.decrypt]
    cases s.attempt body with
    | ok t => rfl
    | error err => exact ih

/-- A trial of a pre-key message tells nothing above debug. -/
theorem loudLevels_ofPreKey (body : String) (sessions : List Session) :
    loudLevels (ofPreKey body sessions).notices = [] := by
  induction sessions with
  | nil => rfl
  | cons s rest ih =>
    simp only [ofPreKey, Session.decrypt]
    cases s.matchesBody body with
    | error err => rfl
    | ok claimed =>
      cases claimed with
      | false => exact ih
      | true => cases s.attempt body <;> rfl

/-- A trial tells nothing above debug. -/
theorem loudLevels_ofMessage (type : MessageType) (body : String) (sessions : List Session) :
    loudLevels (ofMessage type body sessions).notices = [] := by
  cases type with
  | preKey => exact loudLevels_ofPreKey body sessions
  | normal => exact loudLevels_ofNormal body sessions

end Trial

namespace Receiver

theorem loudLevels_tryStored (r : Receiver) (env : Envelope) :
    loudLevels (r.tryStored env).notices = [] := by
  cases hreads : r.store.faults.failReads with
  | true => rw [tryStored_of_failReads hreads, loudLevels_nil]
  | false => rw [notices_tryStored hreads, Trial.loudLevels_ofMessage]

/-- Keeping a session tells of a failure, and of nothing else. -/
theorem loudLevels_keepSession (r : Receiver) (key : IdentityKey) (session : Session) :
    loudLevels ((Script.keepSession key session).run r).notices =
      if r.store.faults.failWrites then [.error] else [] := by
  rw [Script.run_keepSession, FaultyStore.add]
  cases r.store.faults.failWrites <;> rfl

/-- A new session is told on the levels of its calls. -/
theorem loudLevels_decryptWithNew (r : Receiver) (sender : UserId) (env : Envelope) :
    loudLevels (r.decryptWithNew sender env).notices =
      Call.allLevels r.store.faults.failWrites (r.newSessionCalls sender env) := by
  rw [decryptWithNew_eq, newSessionCalls_eq, Bootstrap.ofBody]
  rcases r.account.newInbound env.body with ⟨created, account⟩
  cases created with
  | error err => rfl
  | ok session =>
    dsimp only
    rcases account.persist with ⟨persisted, account'⟩
    cases persisted with
    | error err => rfl
    | ok _ =>
      have hkeep := loudLevels_keepSession { r with account := account' } env.senderKey
        session.advance
      dsimp only
      cases hwrites : r.store.faults.failWrites with
      | true =>
        cases session.attempt env.body <;>
          simp [hkeep, hwrites, Notice.level, Call.allLevels, Call.levels]
      | false =>
        cases session.attempt env.body <;>
          simp [hkeep, hwrites, Notice.level, Call.allLevels, Call.levels]

/-- What follows from a verdict is told on the levels of its calls. -/
theorem loudLevels_afterTrial (r : Receiver) (sender : UserId) (env : Envelope)
    (verdict : Verdict) :
    loudLevels (r.afterTrial sender env verdict).notices =
      Call.allLevels r.store.faults.failWrites (r.verdictCalls sender env verdict) := by
  cases verdict with
  | decrypted t => rfl
  | refused id => rfl
  | unclaimed =>
    rw [afterTrial_eq, verdictCalls_eq]
    dsimp only
    cases env.type with
    | preKey => exact r.loudLevels_decryptWithNew sender env
    | normal => rfl

/-- A message is told on the levels of the calls for it. -/
theorem loudLevels_plaintext (r : Receiver) (sender : UserId) (env : Envelope) :
    loudLevels (r.plaintext sender env).notices =
      Call.allLevels r.store.faults.failWrites (r.plaintextCalls sender env) := by
  have htried := r.loudLevels_tryStored env
  have hfaults := r.faults_tryStored env
  rw [plaintext_eq, plaintextCalls_eq]
  rcases htry : r.tryStored env with ⟨err | verdict, r', notices⟩
  all_goals rw [htry] at htried hfaults
  · exact htried
  · change loudLevels (notices ++ (r'.afterTrial sender env verdict).notices) =
      Call.allLevels r.store.faults.failWrites (r'.verdictCalls sender env verdict)
    rw [loudLevels_append, htried, loudLevels_afterTrial, hfaults, List.nil_append]

/-- A decryption is told on the levels of its calls. -/
theorem loudLevels_decrypt (r : Receiver) (e : Event) :
    loudLevels (r.decrypt e).notices = Call.allLevels r.store.faults.failWrites (r.calls e) := by
  have haccept (answer : Except DecryptError DecryptedEvent) :
      loudLevels (acceptNotices answer) = [] := by
    cases answer with
    | error err => rfl
    | ok d =>
      simp only [acceptNotices]
      split <;> rfl
  rw [notices_decrypt, loudLevels_append, haccept, List.append_nil]
  rw [messageNotices, calls_eq]
  cases Envelope.ofContent r.ownKey e.content with
  | error err => rfl
  | ok env =>
    have hread : Call.allLevels r.store.faults.failWrites
        (acceptCalls env (r.plaintext e.sender env).answer) = [] := by
      cases (r.plaintext e.sender env).answer <;> rfl
    change loudLevels (r.plaintext e.sender env).notices = _
    rw [loudLevels_plaintext]
    simp only [Call.allLevels, List.flatMap_append] at hread ⊢
    rw [hread, List.append_nil]

end Receiver

/-! ## What calls are told for -/

namespace Call

/-- What calls are told for on a level is counted call by call. -/
theorem count_allLevels {failWrites : Bool} {level : Level} {α : Type} {told? : Call → Option α}
    (h : ∀ call, (levels failWrites call).count level = (told? call).toList.length)
    (calls : List Call) :
    (allLevels failWrites calls).count level = (calls.filterMap told?).length := by
  induction calls with
  | nil => rfl
  | cons call calls ih =>
    rw [allLevels, List.flatMap_cons, List.count_append, ← allLevels, ih, h]
    cases htold : told? call with
    | none => simp [htold]
    | some a => simp [htold, Nat.add_comm]

/-- Marks are told as warnings. -/
theorem count_warn (failWrites : Bool) (calls : List Call) :
    (allLevels failWrites calls).count .warn = (calls.filterMap request?).length := by
  refine count_allLevels (fun call => ?_) calls
  cases call <;> cases failWrites <;> rfl

/-- Sessions that are handed to the store are told as pieces of information. -/
theorem count_info (failWrites : Bool) (calls : List Call) :
    (allLevels failWrites calls).count .info = (calls.filterMap added?).length := by
  refine count_allLevels (fun call => ?_) calls
  cases call <;> cases failWrites <;> rfl

/-- Sessions that the store refuses are told as errors. -/
theorem count_error (failWrites : Bool) (calls : List Call) :
    (allLevels failWrites calls).count .error =
      if failWrites then (calls.filterMap added?).length else 0 := by
  cases failWrites with
  | true => exact count_allLevels (fun call => by cases call <;> rfl) calls
  | false =>
    refine List.count_eq_zero.mpr fun hmem => ?_
    obtain ⟨call, -, hcall⟩ := List.mem_flatMap.mp hmem
    cases call <;> simp [levels] at hcall

end Call

/-- The entries of the log on a level are the notices on it. -/
theorem countP_entry {level : Level} (hloud : level ≠ .debug) (notices : List Notice) :
    (notices.map Notice.entry).countP (fun l => l.level = level) =
      (loudLevels notices).count level := by
  rw [loudLevels, List.count_filter (by simpa using hloud), List.countP_map, List.count,
    List.countP_map]
  rfl

/-- The log has one entry on a level if there is cause for it, and else none. -/
structure LogsOnce (log : List LogEntry) (level : Level) (cause : Prop) : Prop where
  one : cause → log.countP (fun l => l.level = level) = 1
  none : ¬ cause → log.countP (fun l => l.level = level) = 0

/-- A log with as many entries on a level as there are causes has one or none. -/
theorem LogsOnce.of_length {log : List LogEntry} {level : Level} {cause : Prop} {n : Nat}
    (hcount : log.countP (fun l => l.level = level) = n) (hle : n ≤ 1) (hcause : cause ↔ n = 1) :
    LogsOnce log level cause where
  one h := hcount.trans (hcause.mp h)
  none h := by
    have hne : n ≠ 1 := fun heq => h (hcause.mpr heq)
    omega

namespace Receiver

/-- On a level above debug, a decryption logs what its calls are told for. -/
theorem countP_logged (r : Receiver) (e : Event) (level : Level) (hloud : level ≠ .debug) :
    (r.logged e).countP (fun l => l.level = level) =
      (Call.allLevels r.store.faults.failWrites (r.calls e)).count level := by
  rw [logged, countP_entry hloud, loudLevels_decrypt]

/-- An answer is out of sync exactly if it is an error of this kind. -/
theorem desynced_iff {α : Type} {answer : Except DecryptError α} :
    desynced answer = true ↔ ∃ err, answer = .error err ∧ err.kind = .sessionDesync := by
  cases answer with
  | ok a => simp [desynced]
  | error err => simp [desynced, DecryptError.isSessionDesync]

/-- A warning is logged exactly if a session is out of sync. -/
theorem logsOnce_warn (r : Receiver) (e : Event) :
    LogsOnce (r.logged e) .warn
      (∃ err, (r.decrypt e).answer = .error err ∧ err.kind = .sessionDesync) := by
  have hcount : (r.logged e).countP (fun l => l.level = .warn) = (r.handed e).length :=
    (r.countP_logged e .warn nofun).trans (Call.count_warn _ _)
  rw [← desynced_iff]
  rcases r.handed_eq e with ⟨key, -, hdesync, hhanded⟩ | ⟨hsync, hhanded⟩
  · rw [hhanded] at hcount
    exact .of_length hcount (Nat.le_refl 1) (iff_of_true hdesync rfl)
  · rw [hhanded] at hcount
    exact .of_length hcount (Nat.zero_le 1) (iff_of_false (by simp [hsync]) (by simp))

/-- The journal gains a persisted account exactly if one session is handed to the store. -/
theorem gains_persisted_iff (r : Receiver) (e : Event) :
    (∃ gained unused, (r.decrypt e).receiver.account.journal = r.account.journal ++ gained ∧
      .persisted unused ∈ gained) ↔ (r.added e).length = 1 := by
  have hrecords := r.recordsFirst e
  rw [← hrecords.persisted_iff]
  constructor
  · rintro ⟨gained, unused, hgained, hmem⟩
    rcases hrecords.block with hnone | ⟨key, hconsumed⟩ | hpersisted
    · have hnil : gained = [] := List.self_eq_append_right.mp (hnone.symm.trans hgained)
      simp [hnil] at hmem
    · obtain rfl := List.append_cancel_left (hconsumed.symm.trans hgained)
      simp at hmem
    · exact hpersisted
  · rintro ⟨key, unused, hjournal⟩
    exact ⟨_, unused, hjournal, by simp⟩

/-- A piece of information is logged exactly if the journal gains a persisted account. -/
theorem logsOnce_info (r : Receiver) (e : Event) :
    LogsOnce (r.logged e) .info
      (∃ gained unused, (r.decrypt e).receiver.account.journal = r.account.journal ++ gained ∧
        .persisted unused ∈ gained) :=
  .of_length ((r.countP_logged e .info nofun).trans (Call.count_info _ _))
    (r.recordsFirst e).length_added (r.gains_persisted_iff e)

/-- All calls are made with the switches as they are at first. -/
theorem failWrites_of_mem_moments {r r' : Receiver} {call : Call} {calls : List Call}
    (h : (r', call) ∈ r.moments calls) : r'.store.faults.failWrites = r.store.faults.failWrites := by
  induction calls generalizing r with
  | nil => cases h
  | cons call' calls ih =>
    rcases List.mem_cons.mp h with heq | hrest
    · cases heq
      rfl
    · exact (ih hrest).trans (r.sameSetup_perform call').failWrites

/-- Decrypting an event leaves the switches alone between its calls. -/
theorem failWrites_of_mem_trail {r r' : Receiver} {e : Event} {call : Call}
    (h : (r', call) ∈ r.trail e) : r'.store.faults.failWrites = r.store.faults.failWrites :=
  failWrites_of_mem_moments (r.trail_eq_moments e ▸ h)

/-- Decrypting an event asks the store to add a session, and the store refuses it. -/
def WriteFails (r : Receiver) (e : Event) : Prop :=
  ∃ r' key session err, (r', .add key session) ∈ r.trail e ∧
    (r'.store.add key session).1 = .error err

/-- A write fails exactly if a session is handed to the store while writes fail. -/
theorem writeFails_iff (r : Receiver) (e : Event) :
    r.WriteFails e ↔ r.store.faults.failWrites = true ∧ r.added e ≠ [] := by
  constructor
  · rintro ⟨r', key, session, err, hmoment, hrefused⟩
    refine ⟨?_, List.ne_nil_of_mem (mem_added hmoment)⟩
    rw [← failWrites_of_mem_trail hmoment]
    by_contra hworks
    simp [FaultyStore.add, hworks] at hrefused
  · rintro ⟨hfails, hadded⟩
    obtain ⟨⟨key, session⟩, hmem⟩ := List.exists_mem_of_ne_nil _ hadded
    obtain ⟨call, hcall, heq⟩ := List.mem_filterMap.mp hmem
    cases call with
    | add key' session' =>
      obtain ⟨⟨r', -⟩, hmoment, rfl⟩ := List.mem_map.mp hcall
      have hfails' : r'.store.faults.failWrites = true :=
        (failWrites_of_mem_trail hmoment).trans hfails
      exact ⟨r', key', session', .backend "injected write failure", hmoment,
        by simp [FaultyStore.add, hfails', FaultyStore.writeFailure]⟩
    | _ => cases heq

/-- An error is logged exactly if a write fails. -/
theorem logsOnce_error (r : Receiver) (e : Event) :
    LogsOnce (r.logged e) .error (r.WriteFails e) := by
  have hcount := (r.countP_logged e .error nofun).trans (Call.count_error _ (r.calls e))
  have hle := (r.recordsFirst e).length_added
  rw [writeFails_iff]
  change _ = if _ then (r.added e).length else 0 at hcount
  cases hfails : r.store.faults.failWrites with
  | true =>
    rw [hfails, if_pos rfl] at hcount
    have hsome : r.added e ≠ [] ↔ (r.added e).length = 1 := by
      rw [← List.length_pos_iff]
      omega
    exact .of_length hcount hle ((and_iff_right rfl).trans hsome)
  | false =>
    rw [hfails, if_neg (by simp)] at hcount
    exact .of_length hcount (Nat.zero_le 1) (by simp)

end Receiver

/-! ## Attempts on stored sessions -/

/-- The count of attempts of the first session is raised by one to that of the second, modulo the size
of the count. -/
def Raised (p : Session × Session) : Prop :=
  p.2.attempts = p.1.attempts + 1

instance (p : Session × Session) : Decidable (Raised p) :=
  inferInstanceAs (Decidable (_ = _))

/-- A session that is left alone has no attempt counted. -/
theorem not_raised_self (s : Session) : ¬ Raised (s, s) :=
  fun h => absurd (UInt32.left_eq_add.mp h) (by decide)

/-- The identifiers of the sessions whose counts of attempts are raised, in order; the sessions after
are held against those before place by place. -/
def raisedIds (before after : List Session) : List String :=
  ((before.zip after).filter fun p => Raised p).map fun p => p.1.id

/-- Sessions that are left alone have no attempts counted. -/
theorem raisedIds_self (sessions : List Session) : raisedIds sessions sessions = [] := by
  induction sessions with
  | nil => rfl
  | cons s rest ih => simpa [raisedIds, not_raised_self] using ih

/-- A session that is attempted is named in front of those behind it. -/
theorem raisedIds_advance (s : Session) (before after : List Session) :
    raisedIds (s :: before) (s.advance :: after) = s.id :: raisedIds before after := by
  have hraised : Raised (s, s.advance) := rfl
  simp [raisedIds, hraised]

/-- A session that is left alone is passed over. -/
theorem raisedIds_cons_self (s : Session) (before after : List Session) :
    raisedIds (s :: before) (s :: after) = raisedIds before after := by
  simp [raisedIds, not_raised_self]

/-- Sessions behind those that were there before do not matter. -/
theorem raisedIds_append {before after : List Session} (h : before.length = after.length)
    (added : List Session) : raisedIds before (after ++ added) = raisedIds before after := by
  have hzip : before.zip (after ++ added) = before.zip after := by
    rw [← List.append_nil before, List.zip_append h, List.append_nil]
    simp
  rw [raisedIds, raisedIds, hzip]

namespace Trial

/-- A normal message raises the counts of the sessions that the trial names. -/
theorem raisedIds_ofNormal (body : String) (sessions : List Session) :
    raisedIds sessions (ofNormal body sessions).sessions = (ofNormal body sessions).attempted := by
  induction sessions with
  | nil => rfl
  | cons s rest ih =>
    simp only [ofNormal, Session.decrypt]
    cases s.attempt body with
    | ok t =>
      rw [raisedIds_advance, raisedIds_self]
      rfl
    | error err =>
      simp only [before, raisedIds_advance, ih]
      rfl

/-- A pre-key message raises the counts of the sessions that the trial names. -/
theorem raisedIds_ofPreKey (body : String) (sessions : List Session) :
    raisedIds sessions (ofPreKey body sessions).sessions = (ofPreKey body sessions).attempted := by
  induction sessions with
  | nil => rfl
  | cons s rest ih =>
    simp only [ofPreKey, Session.decrypt]
    cases s.matchesBody body with
    | error err =>
      rw [raisedIds_self]
      rfl
    | ok claimed =>
      cases claimed with
      | false =>
        simp only [before, raisedIds_cons_self, ih]
        rfl
      | true =>
        cases s.attempt body with
        | ok t =>
          rw [raisedIds_advance, raisedIds_self]
          rfl
        | error err =>
          rw [raisedIds_advance, raisedIds_self]
          rfl

/-- A trial raises the counts of the sessions that it names, in order. -/
theorem raisedIds_ofMessage (type : MessageType) (body : String) (sessions : List Session) :
    raisedIds sessions (ofMessage type body sessions).sessions =
      (ofMessage type body sessions).attempted := by
  cases type with
  | preKey => exact raisedIds_ofPreKey body sessions
  | normal => exact raisedIds_ofNormal body sessions

end Trial

namespace LogEntry

/-- The entry is an event of a trial: one on the level of debug that does not tell of raw content. -/
def isOfTrial (l : LogEntry) : Bool :=
  !l.isSpan && l.level = .debug && l.message ≠ rawMessage

/-- The session that an entry names. -/
def sessionId? (l : LogEntry) : Option String :=
  Dictionary.get? "session_id" l.fields

end LogEntry

/-- The events of a trial in a log are the notices on attempts, and each names the session that was
attempted. -/
theorem trialIds_entry (notices : List Notice) :
    ((notices.map Notice.entry).filter LogEntry.isOfTrial).map LogEntry.sessionId? =
      (notices.filterMap Notice.attempted?).map some := by
  induction notices with
  | nil => rfl
  | cons n notices ih =>
    have hone : (n.attempted? = none ∧ n.entry.isOfTrial = false) ∨
        ∃ id, n.attempted? = some id ∧ n.entry.isOfTrial = true ∧ n.entry.sessionId? = some id := by
      cases n with
      | decrypted id => exact .inr ⟨id, rfl, rfl, rfl⟩
      | matchingSessionFailed id err => exact .inr ⟨id, rfl, rfl, rfl⟩
      | storedSessionFailed id err => exact .inr ⟨id, rfl, rfl, rfl⟩
      | _ => exact .inl ⟨rfl, rfl⟩
    rcases hone with ⟨hnone, hother⟩ | ⟨id, hsome, htrial, hid⟩
    · simp [hnone, hother, ih]
    · simp [hsome, htrial, hid, ih]

namespace Receiver

/-- The identifiers of the stored sessions of a sender key whose counts of attempts the decryption of an
event raises, in the order of the store. -/
def raised (r : Receiver) (e : Event) (key : IdentityKey) : List String :=
  raisedIds (r.sessions key) ((r.decrypt e).receiver.sessions key)

/-- Content that does not open leads to no trial, and raises nothing. -/
theorem untried_of_unopened {r : Receiver} {e : Event} {err : DecryptError}
    (hopen : Envelope.ofContent r.ownKey e.content = .error err) (key : IdentityKey) :
    r.raised e key = [] ∧ (r.decrypt e).notices.filterMap Notice.attempted? = [] := by
  constructor
  · rw [raised, decrypt_receiver, (decrypt_of_unopened hopen).2, performAll_nil, raisedIds_self]
  · simp [decrypt_eq, hopen, Notice.attempted?]

/-- The counts that are raised are those of the sessions that the trial leaves raised. -/
theorem raised_eq_of_opened {r : Receiver} {e : Event} {env : Envelope}
    (hopen : Envelope.ofContent r.ownKey e.content = .ok env) :
    r.raised e env.senderKey =
      raisedIds (r.sessions env.senderKey) ((r.tryStored env).receiver.sessions env.senderKey) := by
  have hcourse := r.plaintext_course e.sender env
  have hlength := (r.attemptedOnce_tryStored env env.senderKey).length_eq
  rw [raised, decrypt_receiver, (decrypt_of_opened hopen).2, performAll_append,
    performAll_acceptCalls, hcourse.sessions, raisedIds_append hlength]

/-- The notices on a message name, in order, the sessions whose counts of attempts are raised. -/
theorem raised_of_opened {r : Receiver} {e : Event} {env : Envelope}
    (hopen : Envelope.ofContent r.ownKey e.content = .ok env) :
    r.raised e env.senderKey = (r.decrypt e).notices.filterMap Notice.attempted? := by
  rw [raised_eq_of_opened hopen]
  cases hreads : r.store.faults.failReads with
  | true =>
    rw [tryStored_of_failReads hreads, raisedIds_self]
    simp [decrypt_eq, plaintext_eq, hopen, tryStored_of_failReads hreads, Notice.attempted?]
  | false =>
    rw [attempted_decrypt hopen hreads, sessions_tryStored, if_pos ⟨rfl, hreads⟩,
      Trial.raisedIds_ofMessage]

/-- The events of the trial in the log of a decryption name the sessions that the notices name. -/
theorem trialIds_logged (r : Receiver) (e : Event) :
    ((r.logged e).filter LogEntry.isOfTrial).map LogEntry.sessionId? =
      ((r.decrypt e).notices.filterMap Notice.attempted?).map some :=
  trialIds_entry (r.decrypt e).notices

/-! ## The log of a decryption -/

/-- What the log of a decryption tells of the answer, of the journal and of the store. -/
structure AuditTrail (r : Receiver) (e : Event) : Prop where
  /-- One span is opened, and all that is behind it are events. -/
  span : ∃ events, r.logged e = .span e.sender r.device.deviceId :: events ∧
    ∀ l ∈ events, l.isSpan = false
  /-- A warning stands for an answer that the session is out of sync. -/
  warn : LogsOnce (r.logged e) .warn
    (∃ err, (r.decrypt e).answer = .error err ∧ err.kind = .sessionDesync)
  /-- A piece of information stands for an account that the journal tells to be persisted. -/
  info : LogsOnce (r.logged e) .info
    (∃ gained unused, (r.decrypt e).receiver.account.journal = r.account.journal ++ gained ∧
      .persisted unused ∈ gained)
  /-- An error stands for a write that failed. -/
  error : LogsOnce (r.logged e) .error (r.WriteFails e)
  /-- The events of the trial name the stored sessions of the sender key whose counts of attempts are
  raised, one event for each, in the order of the store. -/
  trial {key : IdentityKey} (hkey : e.senderKey? = some key) :
    ((r.logged e).filter LogEntry.isOfTrial).map LogEntry.sessionId? = (r.raised e key).map some
  /-- Without a sender key there is no event of a trial. -/
  untried (hnone : e.senderKey? = none) : (r.logged e).filter LogEntry.isOfTrial = []
  /-- Under no other sender key is a count of attempts raised. -/
  others {key : IdentityKey} (hne : e.senderKey? ≠ some key) : r.raised e key = []

/-- The log of every decryption is a faithful trail of what the decryption did. -/
theorem auditTrail (r : Receiver) (e : Event) : r.AuditTrail e where
  span := by
    refine ⟨(r.messageNotices e ++ acceptNotices (r.decrypt e).answer).map Notice.entry, ?_, ?_⟩
    · rw [logged, notices_decrypt]
      rfl
    · refine List.forall_mem_map.mpr (List.forall_mem_append.mpr ⟨fun n hn => ?_, fun n hn => ?_⟩)
      · exact Notice.isSpan_of_isOfMessage (r.isOfMessage_messageNotices e n hn)
      · cases hanswer : (r.decrypt e).answer with
        | error err => simp [hanswer, acceptNotices] at hn
        | ok d =>
          simp only [hanswer, acceptNotices] at hn
          split at hn
          · obtain rfl := List.mem_singleton.mp hn
            rfl
          · cases hn
  warn := r.logsOnce_warn e
  info := r.logsOnce_info e
  error := r.logsOnce_error e
  trial {key} hkey := by
    rw [trialIds_logged]
    cases hopen : Envelope.ofContent r.ownKey e.content with
    | error err =>
      obtain ⟨hraised, hnotices⟩ := untried_of_unopened hopen key
      rw [hraised, hnotices]
    | ok env =>
      obtain rfl := Option.some.inj ((Envelope.senderKey?_of_ofContent hopen).symm.trans hkey)
      rw [raised_of_opened hopen]
  untried hnone := by
    cases hopen : Envelope.ofContent r.ownKey e.content with
    | error err =>
      refine List.map_eq_nil_iff.mp ((r.trialIds_logged e).trans ?_)
      rw [(untried_of_unopened hopen ⟨""⟩).2]
      rfl
    | ok env => simp [Envelope.senderKey?_of_ofContent hopen] at hnone
  others {key} hne := by rw [raised, sessions_decrypt_of_ne hne, raisedIds_self]

/-- A message that no stored session reads is logged with each of them and a warning. A session that is
created and not stored is logged with a piece of information and an error. -/
theorem auditTrail_of_failures :
    (withFourSessions.logged (normalEvent "S5")).countP (fun l => l.level = .warn) = 1 ∧
      ((withFourSessions.logged (normalEvent "S5")).filter LogEntry.isOfTrial).map
          LogEntry.sessionId? = [some "S6", some "S7", some "S7", some "S7"] ∧
      ((withTwoKeys.setFailWrites true).logged (preKeyEvent "OTK7")).countP
          (fun l => l.level = .info) = 1 ∧
      ((withTwoKeys.setFailWrites true).logged (preKeyEvent "OTK7")).countP
          (fun l => l.level = .error) = 1 := by
  have hunread := withFourSessions.auditTrail (normalEvent "S5")
  have hunstored := (withTwoKeys.setFailWrites true).auditTrail (preKeyEvent "OTK7")
  have hdesynced : desynced (withFourSessions.decrypt (normalEvent "S5")).answer = true := by
    decide +kernel
  have hraised : withFourSessions.raised (normalEvent "S5") ⟨"ALICEKEY"⟩ =
      ["S6", "S7", "S7", "S7"] := by
    decide +kernel
  have hadded : ((withTwoKeys.setFailWrites true).added (preKeyEvent "OTK7")).length = 1 := by
    decide +kernel
  refine ⟨hunread.warn.one (desynced_iff.mp hdesynced), ?_, hunstored.info.one ?_,
    hunstored.error.one ?_⟩
  · rw [hunread.trial (by decide +kernel : _ = some ⟨"ALICEKEY"⟩), hraised]
    rfl
  · exact (gains_persisted_iff _ _).mpr hadded
  · exact (writeFails_iff _ _).mpr ⟨rfl, List.ne_nil_of_length_eq_add_one hadded⟩

end Receiver

end OlmReceiver
