import OlmReceiver.Proofs.Attempts
import OlmReceiver.Proofs.Desync
import OlmReceiver.Proofs.Recording

/-!
# How a decryption ends

The outcome of a decryption is complete once it names the answer, the sessions of the sender key, the
account, the sessions that were attempted or handed to the store, and whether the sender's device
was marked. All other parts of the receiver stay as they were: the sessions of other sender keys,
the switches, the device and the registry.

What the store keeps of a session handed to it depends on its switch for writes alone.
-/

namespace OlmReceiver

open Ratchet (Session Account Message)

/-- The calls that an envelope gives rise to: on its sender key, its body and its message. -/
def Call.Serves (env : Envelope) : Call → Prop
  | .tryStored env' => env' = env
  | .create senderKey body => senderKey = env.senderKey ∧ body = env.body
  | .persist => True
  | .add senderKey _ => senderKey = env.senderKey
  | .mark request => request.senderKey = env.senderKey
  | .accept senderKey _ => senderKey = env.senderKey

/-- How the decryption of an event ends whose content opens to an envelope. -/
structure Ending where
  answer : Except DecryptError DecryptedEvent
  /-- The sessions stored for the sender key. -/
  sessions : List Session
  account : Account
  /-- The identifiers of the stored sessions that were attempted, in order. -/
  attempted : List String := []
  /-- The sessions that were handed to the store. -/
  added : List Session := []
  /-- Whether the sender's device was marked. -/
  marked : Bool := false

namespace Receiver

/-- The sessions that the store keeps of those handed to it. -/
def kept (r : Receiver) (added : List Session) : List Session :=
  if r.store.faults.failWrites then [] else added

/-- Decrypting an event that opens to an envelope ends like this, and changes nothing else. -/
structure EndsAs (r : Receiver) (e : Event) (env : Envelope) (ending : Ending) : Prop where
  answer : (r.decrypt e).answer = ending.answer
  sessions : (r.decrypt e).receiver.sessions env.senderKey = ending.sessions
  otherSessions : ∀ key, key ≠ env.senderKey →
    (r.decrypt e).receiver.sessions key = r.sessions key
  account : (r.decrypt e).receiver.account = ending.account
  attempted : (r.decrypt e).notices.filterMap Notice.attempted? = ending.attempted
  added : r.added e = ending.added.map fun session => (env.senderKey, session)
  faults : (r.decrypt e).receiver.store.faults =
    { r.store.faults with writeAttempts := r.writeAttempts + ending.added.length }
  handed : r.handed e = if ending.marked then [⟨e.sender, env.senderKey⟩] else []
  sink : (r.decrypt e).receiver.sink = (r.handed e).foldl UnwedgeSink.mark r.sink
  device : (r.decrypt e).receiver.device = r.device
  registry : (r.decrypt e).receiver.registry = r.registry

/-- The sink has the sender's device among its requests if it was marked, and loses none. -/
theorem EndsAs.mem_requests {r : Receiver} {e : Event} {env : Envelope} {ending : Ending}
    (h : r.EndsAs e env ending) (request : UnwedgeRequest) :
    request ∈ (r.decrypt e).receiver.sink.requests ↔
      ending.marked = true ∧ request = ⟨e.sender, env.senderKey⟩ ∨ request ∈ r.sink.requests := by
  rw [h.sink, UnwedgeSink.mem_requests_foldl_mark, h.handed]
  cases ending.marked <;> simp

/-- The store keeps nothing where nothing is handed to it. -/
@[simp] theorem kept_nil (r : Receiver) : r.kept [] = [] := by
  simp [kept]

/-! ## The parts that a course reaches -/

/-- Every call of a course is on behalf of its envelope. -/
theorem Course.serves {r : Receiver} {sender : UserId} {env : Envelope}
    {answer : Except DecryptError Text} {calls : List Call} (h : Course r sender env answer calls) :
    ∀ call ∈ calls, call.Serves env := by
  cases h <;> simp [Call.Serves]

/-- A call reaches no sessions but those of the sender key that it is on behalf of. -/
theorem sessions_perform_of_ne {env : Envelope} {call : Call} (h : call.Serves env) (r : Receiver)
    {key : IdentityKey} (hkey : key ≠ env.senderKey) :
    (r.perform call).sessions key = r.sessions key := by
  cases call with
  | tryStored env' =>
    obtain rfl : env' = env := h
    exact (r.sessions_tryStored env' key).trans (if_neg fun hcond => hkey hcond.1)
  | add senderKey session =>
    obtain rfl : senderKey = env.senderKey := h
    exact (FaultyStore.sessions_add ..).trans (if_neg fun hcond => hkey hcond.1)
  | _ => rfl

/-- Calls reach no sessions but those of the sender key that they are on behalf of. -/
theorem sessions_performAll_of_ne {env : Envelope} {calls : List Call}
    (h : ∀ call ∈ calls, call.Serves env) (r : Receiver) {key : IdentityKey}
    (hkey : key ≠ env.senderKey) : (r.performAll calls).sessions key = r.sessions key := by
  induction calls generalizing r with
  | nil => rfl
  | cons call calls ih =>
    rw [performAll_cons, ih fun call' hcall' => h call' (List.mem_cons_of_mem call hcall'),
      sessions_perform_of_ne (h call List.mem_cons_self) r hkey]

/-- A session that is handed to the store is kept behind those of its sender key. -/
theorem sessions_perform_add (r : Receiver) (key : IdentityKey) (session : Session) :
    (r.perform (.add key session)).sessions key = r.sessions key ++ r.kept [session] := by
  refine (FaultyStore.sessions_add ..).trans ?_
  cases hwrites : r.store.faults.failWrites with
  | true => simp [kept, sessions, hwrites]
  | false => simp [kept, sessions, hwrites]

/-- A created session is kept behind the sessions that the trial left. -/
theorem sessions_bootstrap_add (r : Receiver) (env : Envelope) (session : Session) :
    (r.performAll (bootstrapCalls env ++ [.add env.senderKey session])).sessions env.senderKey =
      (r.tryStored env).receiver.sessions env.senderKey ++ r.kept [session] := by
  have hwrites : (r.performAll (bootstrapCalls env)).kept = r.kept := by
    funext added
    simp only [kept, (r.sameSetup_performAll (bootstrapCalls env)).failWrites]
  rw [performAll_append, performAll_cons, performAll_nil, sessions_perform_add, hwrites]
  rfl

/-- The sessions of the sender key are those that the trial left, and those that were kept. -/
theorem Course.sessions {r : Receiver} {sender : UserId} {env : Envelope}
    {answer : Except DecryptError Text} {calls : List Call} (h : Course r sender env answer calls) :
    (r.performAll calls).sessions env.senderKey =
      (r.tryStored env).receiver.sessions env.senderKey ++
        r.kept ((calls.filterMap Call.added?).map Prod.snd) := by
  have hnone (sessions : List Session) : sessions = sessions ++ r.kept [] := by simp
  cases h with
  | created _ _ _ _ => exact r.sessions_bootstrap_add env _
  | unusable _ _ _ _ => exact r.sessions_bootstrap_add env _
  | _ => exact hnone _

/-- The switches stay as they are, and each session handed to the store is one attempt to write. -/
theorem faults_performAll (r : Receiver) (calls : List Call) :
    (r.performAll calls).store.faults =
      { r.store.faults with
        writeAttempts := r.writeAttempts + (calls.filterMap Call.added?).length } := by
  have hsetup := r.sameSetup_performAll calls
  have hattempts := r.writeAttempts_performAll calls
  exact Faults.ext hsetup.failReads hsetup.failWrites hattempts

/-! ## What is reported of the trial -/

/-- Keeping a session, or failing to, tells of no stored session that was attempted. -/
theorem attempted_keepSession (r : Receiver) (key : IdentityKey) (session : Session) :
    ((Script.keepSession key session).run r).notices.filterMap Notice.attempted? = [] := by
  rw [Script.run_keepSession]
  dsimp only
  split <;> rfl

/-- Decrypting with a new session tells of no stored session that was attempted. -/
theorem attempted_decryptWithNew (r : Receiver) (sender : UserId) (env : Envelope) :
    (r.decryptWithNew sender env).notices.filterMap Notice.attempted? = [] := by
  rw [decryptWithNew_eq]
  rcases Bootstrap.ofBody r.account env.body with ⟨_ | session, account⟩
  · rfl
  · have hkeep := attempted_keepSession { r with account } env.senderKey session.advance
    dsimp only
    cases session.attempt env.body with
    | ok t => exact hkeep
    | error err =>
      refine (List.filterMap_append (l := _ :: _)).trans ?_
      exact congrArg (· ++ []) hkeep

/-- What follows from a verdict tells of no further attempt on a stored session. -/
theorem attempted_afterTrial (r : Receiver) (sender : UserId) (env : Envelope)
    (verdict : Verdict) :
    (r.afterTrial sender env verdict).notices.filterMap Notice.attempted? = [] := by
  cases verdict with
  | decrypted t => rfl
  | refused id => rfl
  | unclaimed =>
    rw [afterTrial_eq]
    dsimp only
    cases env.type with
    | preKey => exact r.attempted_decryptWithNew sender env
    | normal => rfl

/-- The notices on a message tell of the attempts that the trial makes. -/
theorem attempted_plaintext {r : Receiver} (hreads : r.store.faults.failReads = false)
    (sender : UserId) (env : Envelope) :
    (r.plaintext sender env).notices.filterMap Notice.attempted? =
      (Trial.ofMessage env.type env.body (r.sessions env.senderKey)).attempted := by
  rw [plaintext_eq, Trial.attempted, ← notices_tryStored hreads]
  rcases r.tryStored env with ⟨answer, r', notices⟩
  cases answer with
  | error err => rfl
  | ok verdict => simp [attempted_afterTrial]

/-- What is reported of a payload tells of no attempt. -/
theorem attempted_acceptNotices (answer : Except DecryptError DecryptedEvent) :
    (acceptNotices answer).filterMap Notice.attempted? = [] := by
  cases answer with
  | error err => rfl
  | ok d =>
    simp only [acceptNotices]
    split <;> rfl

/-- The notices on an event tell of the attempts that the trial of its message makes. -/
theorem attempted_decrypt {r : Receiver} {e : Event} {env : Envelope}
    (hopen : Envelope.ofContent r.ownKey e.content = .ok env)
    (hreads : r.store.faults.failReads = false) :
    (r.decrypt e).notices.filterMap Notice.attempted? =
      (Trial.ofMessage env.type env.body (r.sessions env.senderKey)).attempted := by
  rw [← attempted_plaintext hreads e.sender env]
  rcases hplain : r.plaintext e.sender env with ⟨answer, r', notices⟩
  cases answer with
  | error err =>
    simp only [decrypt_eq, hopen, hplain]
    rfl
  | ok t =>
    simp only [decrypt_eq, hopen, hplain, List.filterMap_append, attempted_acceptNotices,
      List.append_nil]
    rfl

/-! ## Endings -/

/-- The sessions that a course hands to the store are for its sender key. -/
theorem Course.added_eq {r : Receiver} {sender : UserId} {env : Envelope}
    {answer : Except DecryptError Text} {calls : List Call} (h : Course r sender env answer calls) :
    calls.filterMap Call.added? =
      ((calls.filterMap Call.added?).map Prod.snd).map fun session => (env.senderKey, session) := by
  cases h <;> rfl

/-- Reading a plaintext hands nothing to the store. -/
theorem added_of_calls {r : Receiver} {e : Event} {env : Envelope}
    {answer : Except DecryptError Text} {calls : List Call}
    (hcalls : r.calls e = calls ++ acceptCalls env answer) :
    r.added e = calls.filterMap Call.added? := by
  rw [added, hcalls, List.filterMap_append]
  cases answer <;> exact List.append_nil _

/-- A course decides how the decryption of an event ends, up to what becomes of the account. -/
theorem endsAs_of_course {r : Receiver} {e : Event} {env : Envelope}
    {answer : Except DecryptError Text} {calls : List Call} {tried : List Session}
    {attempted : List String} {account : Account} {added : List Session}
    (hopen : Envelope.ofContent r.ownKey e.content = .ok env)
    (hreads : r.store.faults.failReads = false) (hcourse : Course r e.sender env answer calls)
    (htried : (Trial.ofMessage env.type env.body (r.sessions env.senderKey)).sessions = tried)
    (hattempted :
      (Trial.ofMessage env.type env.body (r.sessions env.senderKey)).attempted = attempted)
    (haccount : (r.performAll calls).account = account)
    (hadded : (calls.filterMap Call.added?).map Prod.snd = added) :
    r.EndsAs e env
      { answer := answer.bind (r.accept e env.senderKey)
        sessions := tried ++ r.kept added
        account, attempted, added
        marked := desynced answer } := by
  obtain ⟨hans, hcalls⟩ := decrypt_of_opened hopen
  obtain ⟨hplain, hplainCalls⟩ := hcourse.unique
  rw [hplain] at hans
  rw [hplain, hplainCalls] at hcalls
  have hafter : (r.decrypt e).receiver = r.performAll calls := by
    rw [decrypt_receiver, hcalls, performAll_append, performAll_acceptCalls]
  have hsetup := r.sameSetup_performAll calls
  have htry : (r.tryStored env).receiver.sessions env.senderKey = tried := by
    rw [sessions_tryStored, if_pos ⟨rfl, hreads⟩, htried]
  exact
    { answer := hans
      sessions := by rw [hafter, hcourse.sessions, htry, hadded]
      otherSessions := fun key hkey => by
        rw [hafter, sessions_performAll_of_ne hcourse.serves r hkey]
      account := by rw [hafter, haccount]
      attempted := (attempted_decrypt hopen hreads).trans hattempted
      added := by rw [added_of_calls hcalls, hcourse.added_eq, hadded]
      faults := by
        rw [hafter, faults_performAll, hcourse.added_eq, hadded, List.length_map]
      handed := by
        rw [handed, hcalls, List.filterMap_append, requests_acceptCalls, List.append_nil,
          hcourse.requests]
      sink := r.sink_decrypt e
      device := by rw [hafter, hsetup.device]
      registry := by rw [hafter, hsetup.registry] }

/-- A course that only tries the stored sessions, and marks, ends with what the trial left. -/
theorem endsAs_of_tried {r : Receiver} {e : Event} {env : Envelope}
    (hopen : Envelope.ofContent r.ownKey e.content = .ok env)
    (hreads : r.store.faults.failReads = false) {answer : Except DecryptError Text}
    (requests : List UnwedgeRequest)
    (hcourse : Course r e.sender env answer (.tryStored env :: requests.map .mark)) :
    r.EndsAs e env
      { answer := answer.bind (r.accept e env.senderKey)
        sessions := (Trial.ofMessage env.type env.body (r.sessions env.senderKey)).sessions
        account := r.account
        attempted := (Trial.ofMessage env.type env.body (r.sessions env.senderKey)).attempted
        marked := desynced answer } := by
  have haccount : (r.performAll (.tryStored env :: requests.map .mark)).account = r.account := by
    rw [performAll_cons, account_performAll_marks]
    exact account_tryStored r env
  have hadded : ((Call.tryStored env :: requests.map .mark).filterMap Call.added?).map Prod.snd =
      [] := congrArg (List.map Prod.snd) (added_marks requests)
  have hends := endsAs_of_course hopen hreads hcourse rfl rfl haccount hadded
  rwa [kept_nil, List.append_nil] at hends

end Receiver

end OlmReceiver
