import OlmReceiver.Proofs.Ending

/-!
# What a decryption looks at and what it reaches

The decryption of an event looks at the setup, at the sessions of the sender key of its content, and
at whether the one-time key that its body names is unused. Receivers that agree on these take the
same course with it. In turn it reaches the sessions of that sender key, the one-time key that it
names, the journal, the count of attempts to write, and the sink; of these last three it looks at
none.

Neither the sessions of other sender keys nor other one-time keys matter or change. The store is
seen through its lists of sessions: how it arranges its entries is left open.
-/

namespace OlmReceiver

open Ratchet (Session Account Message)

/-- The one-time key that the body of an envelope names. -/
def Envelope.oneTimeKey? (env : Envelope) : Option String :=
  match Message.decode env.body with
  | .ok m => m.oneTimeKey
  | .error _ => none

/-- The one-time key that the body for us names, if the content of an event opens. -/
def Event.oneTimeKey? (e : Event) (ownKey : IdentityKey) : Option String :=
  match Envelope.ofContent ownKey e.content with
  | .ok env => env.oneTimeKey?
  | .error _ => none

/-- An event names the one-time key of its envelope. -/
theorem Event.oneTimeKey?_of_ofContent {e : Event} {ownKey : IdentityKey} {env : Envelope}
    (hopen : Envelope.ofContent ownKey e.content = .ok env) :
    e.oneTimeKey? ownKey = env.oneTimeKey? := by
  simp [oneTimeKey?, hopen]

namespace KeySet

/-- The set without some strings. -/
def without (s : KeySet) (keys : List String) : KeySet :=
  s.filter fun key => decide (key ∉ keys)

@[simp] theorem without_nil (s : KeySet) : s.without [] = s :=
  List.filter_eq_self.mpr (by simp)

/-- Strings may be taken out one list after the other. -/
theorem without_append (s : KeySet) (first second : List String) :
    s.without (first ++ second) = (s.without first).without second := by
  rw [without, without, without, List.filter_filter]
  apply List.filter_congr
  intro key _
  simp only [List.mem_append, not_or, Bool.decide_and]
  exact Bool.and_comm _ _

/-- The order in which strings are taken out does not matter. -/
theorem without_of_perm (s : KeySet) {keys keys' : List String} (h : keys.Perm keys') :
    s.without keys = s.without keys' := by
  apply List.filter_congr
  intro key _
  simp only [h.mem_iff]

theorem remove_eq_without (key : String) (s : KeySet) : s.remove key = s.without [key] := by
  simp [remove, without]

end KeySet

namespace Ratchet.Account

/-- Whether a session is created depends on the named key alone, and the session on a switch. -/
theorem newInbound_congr {a a' : Account} {body : String}
    (hpoison : a'.poisonNewSessions = a.poisonNewSessions)
    (hunused : ∀ m key, Message.decode body = .ok m → m.oneTimeKey = some key →
      a'.has key = a.has key) :
    (a'.newInbound body).1 = (a.newInbound body).1 := by
  cases hbody : Message.decode body with
  | error err => rw [newInbound_of_malformed hbody, newInbound_of_malformed hbody]
  | ok m =>
    cases hkey : m.oneTimeKey with
    | none => simp [newInbound, hbody, hkey]
    | some key =>
      have hhas := hunused m key hbody hkey
      cases hunused : a.has key with
      | false =>
        rw [newInbound_of_used hbody hkey hunused,
          newInbound_of_used hbody hkey (hhas.trans hunused)]
      | true =>
        rw [newInbound_of_unused hbody hkey hunused,
          newInbound_of_unused hbody hkey (hhas.trans hunused)]
        simp [sessionFor, hpoison]

/-- Where no session is created the account stays as it is. -/
theorem newInbound_of_error {a : Account} {body : String} {err : Error}
    (h : (a.newInbound body).1 = .error err) : a.newInbound body = (.error err, a) := by
  rcases newInbound_cases a body with ⟨m, key, -, -, -, hnew⟩ | ⟨err', hnew⟩
  · simp [hnew] at h
  · rw [hnew] at h ⊢
    cases h
    rfl

end Ratchet.Account

namespace Receiver

/-! ## What is looked at -/

/-- Two receivers agree on what is looked at for the messages of a sender key that name some of
these one-time keys: the setup, the sessions, and which of the keys are unused. -/
structure AgreeOn (sender : Option IdentityKey) (named : String → Prop) (r r' : Receiver) : Prop
    extends SameSetup r r' where
  sessions : ∀ key, sender = some key → r'.sessions key = r.sessions key
  unused : ∀ key, named key → r'.account.has key = r.account.has key

/-- A receiver agrees with itself. -/
theorem AgreeOn.refl (sender : Option IdentityKey) (named : String → Prop) (r : Receiver) :
    AgreeOn sender named r r :=
  { SameSetup.refl r with
    sessions := fun _ _ => rfl
    unused := fun _ _ => rfl }

/-- Agreement is symmetric. -/
theorem AgreeOn.symm {sender : Option IdentityKey} {named : String → Prop} {r r' : Receiver}
    (h : AgreeOn sender named r r') : AgreeOn sender named r' r :=
  { h.toSameSetup.symm with
    sessions := fun key hkey => (h.sessions key hkey).symm
    unused := fun key hkey => (h.unused key hkey).symm }

/-- Agreement is transitive. -/
theorem AgreeOn.trans {sender : Option IdentityKey} {named : String → Prop} {r r' r'' : Receiver}
    (h : AgreeOn sender named r r') (h' : AgreeOn sender named r' r'') :
    AgreeOn sender named r r'' :=
  { h.toSameSetup.trans h'.toSameSetup with
    sessions := fun key hkey => (h'.sessions key hkey).trans (h.sessions key hkey)
    unused := fun key hkey => (h'.unused key hkey).trans (h.unused key hkey) }

section Course

variable {r r' : Receiver} {env : Envelope} {named : String → Prop}
  (hagree : AgreeOn (some env.senderKey) named r r')
  (hnamed : ∀ key, env.oneTimeKey? = some key → named key)

include hagree hnamed

/-- Receivers that agree on a message create the same session for it, or fail alike. -/
theorem AgreeOn.newInbound :
    (r'.account.newInbound env.body).1 = (r.account.newInbound env.body).1 := by
  apply Account.newInbound_congr hagree.poisonNewSessions
  intro m key hbody hkey
  apply hagree.unused
  apply hnamed
  simp [Envelope.oneTimeKey?, hbody, hkey]

/-- Receivers that agree on a message create a session for it both or neither. -/
theorem AgreeOn.bootstraps {m : Message} {key : String} (h : r.Bootstraps env m key) :
    r'.Bootstraps env m key where
  type := h.type
  body := h.body
  unclaimed := by
    rw [hagree.sessions env.senderKey rfl]
    exact h.unclaimed
  named := h.named
  unused := by
    have hkey : env.oneTimeKey? = some key := by simp [Envelope.oneTimeKey?, h.body, h.named]
    rw [hagree.unused key (hnamed key hkey)]
    exact h.unused

/-- Receivers that agree on a message take the same course with it. -/
theorem Course.of_agreeOn {sender : UserId} {answer : Except DecryptError Text} {calls : List Call}
    (h : Course r sender env answer calls) : Course r' sender env answer calls := by
  have hsessions := hagree.sessions env.senderKey rfl
  have hopens (m : Message) : r'.Opens env m ↔ r.Opens env m := by
    unfold Opens
    rw [hsessions]
  have hcreated : r'.account.sessionFor = r.account.sessionFor := by
    funext id key
    simp only [Account.sessionFor, hagree.poisonNewSessions]
  cases h with
  | unread hreads => exact .unread (hagree.failReads.trans hreads)
  | unmatched hreads htype hbody hsome =>
    exact .unmatched (hagree.failReads.trans hreads) htype hbody (hsessions ▸ hsome)
  | opened hreads hbody hopened =>
    exact .opened (hagree.failReads.trans hreads) hbody ((hopens _).mpr hopened)
  | refused hreads htype hbody hfirst hs =>
    exact .refused (hagree.failReads.trans hreads) htype hbody (hsessions ▸ hfirst) hs
  | exhausted hreads htype hnone =>
    apply Course.exhausted (hagree.failReads.trans hreads) htype
    intro m hbody
    rw [hopens]
    exact hnone m hbody
  | uncreated hreads htype hunclaimed hcreate =>
    apply Course.uncreated (hagree.failReads.trans hreads) htype (hsessions ▸ hunclaimed)
    apply Account.newInbound_of_error
    rw [hagree.newInbound hnamed, hcreate]
  | unpersisted hreads hnew hpersist =>
    exact .unpersisted (hagree.failReads.trans hreads) (hagree.bootstraps hnamed hnew)
      (hagree.failPersist.trans hpersist)
  | created hreads hnew hpersist hpoison =>
    rw [← hcreated]
    exact .created (hagree.failReads.trans hreads) (hagree.bootstraps hnamed hnew)
      (hagree.failPersist.trans hpersist) (hagree.poisonNewSessions.trans hpoison)
  | unusable hreads hnew hpersist hpoison =>
    rw [← hcreated]
    exact .unusable (hagree.failReads.trans hreads) (hagree.bootstraps hnamed hnew)
      (hagree.failPersist.trans hpersist) (hagree.poisonNewSessions.trans hpoison)

/-- Receivers that agree on a message create the same sessions on the course that they take. -/
theorem AgreeOn.createdDuring {sender : UserId} {answer : Except DecryptError Text}
    {calls : List Call} (h : Course r sender env answer calls) :
    r'.createdDuring calls = r.createdDuring calls := by
  -- Only the call that asks the account for a session creates one, and it is made at most once.
  have hcreate := hagree.newInbound hnamed
  cases h <;> simp [Receiver.createdDuring, moments, createdBy, hcreate]

end Course

/-! ## What is reached -/

/-- The one-time keys of the sessions that a call creates. -/
def usedBy (r : Receiver) (call : Call) : List String :=
  (r.createdBy call).filterMap (·.2.oneTimeKey)

/-- The one-time keys of the sessions that some calls create, in order. -/
def usedDuring (r : Receiver) (calls : List Call) : List String :=
  (r.createdDuring calls).filterMap (·.2.oneTimeKey)

/-- The keys that a call uses up come before those that the later ones use up. -/
theorem usedDuring_cons (r : Receiver) (call : Call) (calls : List Call) :
    r.usedDuring (call :: calls) = r.usedBy call ++ (r.perform call).usedDuring calls := by
  rw [usedDuring, createdDuring, moments, List.flatMap_cons, List.filterMap_append]
  rfl

/-- A call takes the keys that it uses up out of the unused ones. -/
theorem oneTimeKeys_perform (r : Receiver) (call : Call) :
    (r.perform call).account.oneTimeKeys = r.account.oneTimeKeys.without (r.usedBy call) := by
  cases call with
  | create senderKey body =>
    rcases Account.newInbound_cases r.account body with ⟨m, key, -, -, -, hnew⟩ | ⟨err, hnew⟩
    · simp [usedBy, createdBy, hnew, Account.consume, KeySet.remove_eq_without]
    · simp [usedBy, createdBy, hnew]
  | _ => simp [usedBy, createdBy]

/-- Calls take the keys that they use up out of the unused ones. -/
theorem oneTimeKeys_performAll (r : Receiver) (calls : List Call) :
    (r.performAll calls).account.oneTimeKeys =
      r.account.oneTimeKeys.without (r.usedDuring calls) := by
  induction calls generalizing r with
  | nil => exact (KeySet.without_nil _).symm
  | cons call calls ih =>
    rw [performAll_cons, ih, oneTimeKeys_perform, usedDuring_cons, KeySet.without_append]

/-- Calls record the keys that they use up, in order. -/
theorem consumedKeys_performAll (r : Receiver) (calls : List Call) :
    (r.performAll calls).account.consumedKeys =
      r.account.consumedKeys ++ r.usedDuring calls := by
  have hconsumed := congrArg (List.filterMap id) (r.consumed_performAll calls)
  simpa [List.filterMap_map, usedDuring, Function.comp_def] using hconsumed

/-- Calls on behalf of a message use up no key but the one that it names. -/
theorem named_of_usedDuring {env : Envelope} {calls : List Call}
    (h : ∀ call ∈ calls, call.Serves env) {r : Receiver} {key : String}
    (hkey : key ∈ r.usedDuring calls) : env.oneTimeKey? = some key := by
  obtain ⟨⟨senderKey, session⟩, hcreated, hsession⟩ := List.mem_filterMap.mp hkey
  obtain ⟨⟨r', call⟩, hmoment, hby⟩ := List.mem_flatMap.mp hcreated
  have hserves := h call (mem_of_mem_moments hmoment)
  cases call with
  | create senderKey' body =>
    obtain ⟨-, rfl⟩ := hserves
    rcases Account.newInbound_cases r'.account env.body with
      ⟨m, key', hbody, hkey', -, hnew⟩ | ⟨err, hnew⟩
    · simp only [createdBy, hnew, List.mem_singleton] at hby
      cases hby
      simp only [Account.oneTimeKey_sessionFor] at hsession
      simp [Envelope.oneTimeKey?, hbody, hkey', ← hsession]
    · simp [createdBy, hnew] at hby
  | _ => simp [createdBy] at hby

/-- A key stays unused unless the calls use it up. -/
theorem has_performAll (r : Receiver) (calls : List Call) (key : String) :
    (r.performAll calls).account.has key =
      (r.account.has key && decide (key ∉ r.usedDuring calls)) := by
  rw [Bool.eq_iff_iff, Account.has, oneTimeKeys_performAll]
  simp [Account.has, KeySet.without]

/-! ## Events -/

/-- What the decryption of an event answers, and what it does to the parts that all senders share. -/
structure Effect where
  answer : Except DecryptError DecryptedEvent
  /-- The one-time keys that are used up, in order. -/
  used : List String
  /-- The sessions that are handed to the store, in order. -/
  added : List (IdentityKey × Session)
  /-- The requests that are handed to the sink, in order. -/
  handed : List UnwedgeRequest

/-- The effect of decrypting an event. -/
def effect (r : Receiver) (e : Event) : Effect :=
  ⟨(r.decrypt e).answer, r.usedDuring (r.calls e), r.added e, r.handed e⟩

/-- Content that does not open has no effect but its error. -/
theorem effect_of_unopened {r : Receiver} {e : Event} {err : DecryptError}
    (hopen : Envelope.ofContent r.ownKey e.content = .error err) :
    r.effect e = ⟨.error err, [], [], []⟩ ∧ (r.decrypt e).receiver = r := by
  obtain ⟨hanswer, hcalls⟩ := decrypt_of_unopened hopen
  rw [effect, decrypt_receiver, added, handed, hanswer, hcalls]
  exact ⟨rfl, rfl⟩

/-- Reading a plaintext uses up no key. -/
theorem usedDuring_append_acceptCalls (r : Receiver) (calls : List Call) (env : Envelope)
    (answer : Except DecryptError Text) :
    r.usedDuring (calls ++ acceptCalls env answer) = r.usedDuring calls := by
  rw [usedDuring, createdDuring, moments_append, List.flatMap_append, List.filterMap_append]
  cases answer <;> exact List.append_nil _

/-- An event uses up no one-time key but the one that it names. -/
theorem named_of_used {r : Receiver} {e : Event} {key : String}
    (hkey : key ∈ r.usedDuring (r.calls e)) : e.oneTimeKey? r.ownKey = some key := by
  rcases r.decrypt_course e with ⟨err, -, -, hcalls⟩ | ⟨env, answer, calls, hopen, hcourse, -, hcalls⟩
  · rw [hcalls] at hkey
    cases hkey
  · rw [hcalls, usedDuring_append_acceptCalls] at hkey
    rw [Event.oneTimeKey?_of_ofContent hopen]
    exact named_of_usedDuring hcourse.serves hkey

/-- An event reaches no sessions but those of the sender key of its content. -/
theorem sessions_decrypt_of_ne {r : Receiver} {e : Event} {key : IdentityKey}
    (hkey : e.senderKey? ≠ some key) : (r.decrypt e).receiver.sessions key = r.sessions key := by
  rw [decrypt_receiver]
  rcases r.decrypt_course e with ⟨err, -, -, hcalls⟩ | ⟨env, answer, calls, hopen, hcourse, -, hcalls⟩
  · rw [hcalls, performAll_nil]
  · have hsender := Envelope.senderKey?_of_ofContent hopen
    have hne : key ≠ env.senderKey := fun heq => hkey (hsender.trans (congrArg some heq.symm))
    rw [hcalls, performAll_append, performAll_acceptCalls,
      sessions_performAll_of_ne hcourse.serves r hne]

/-- Decrypting an event changes the setup by nothing, whatever its content. -/
theorem sameSetup_decrypt (r : Receiver) (e : Event) : SameSetup r (r.decrypt e).receiver := by
  rw [decrypt_receiver]
  exact r.sameSetup_performAll (r.calls e)

/-- An event of another sender key changes nothing that is looked at for some sender key, if it
names none of the one-time keys that are. -/
theorem agreeOn_decrypt {r : Receiver} {e : Event} {sender : Option IdentityKey}
    {named : String → Prop} (hsender : e.senderKey? ≠ sender)
    (hnamed : ∀ key, e.oneTimeKey? r.ownKey = some key → ¬ named key) :
    AgreeOn sender named r (r.decrypt e).receiver :=
  { r.sameSetup_decrypt e with
    sessions := fun key hkey => sessions_decrypt_of_ne (hkey ▸ hsender)
    unused := by
      intro key hkey
      have hunused : key ∉ r.usedDuring (r.calls e) := fun hused =>
        hnamed key (named_of_used hused) hkey
      simp [decrypt_receiver, has_performAll, hunused] }

/-- The sessions that a course leaves for its sender key depend on those that it finds. -/
theorem AgreeOn.sessions_performAll {r r' : Receiver} {sender : UserId} {env : Envelope}
    {named : String → Prop} {answer : Except DecryptError Text} {calls : List Call}
    (hagree : AgreeOn (some env.senderKey) named r r') (h : Course r sender env answer calls)
    (h' : Course r' sender env answer calls) :
    (r'.performAll calls).sessions env.senderKey = (r.performAll calls).sessions env.senderKey := by
  have hsessions := hagree.sessions env.senderKey rfl
  have hkept : r'.kept = r.kept := by
    funext added
    simp only [kept, hagree.failWrites]
  rw [h.sessions, h'.sessions, sessions_tryStored, sessions_tryStored, hsessions, hkept,
    hagree.failReads]

section Event

variable {r r' : Receiver} {e : Event} {named : String → Prop}
  (hagree : AgreeOn e.senderKey? named r r')
  (hnamed : ∀ key, e.oneTimeKey? r.ownKey = some key → named key)

include hagree hnamed

/-- Receivers that agree on an event take the same course with it, and go on to agree. -/
theorem AgreeOn.calls :
    (r'.decrypt e).answer = (r.decrypt e).answer ∧ r'.calls e = r.calls e ∧
      r'.usedDuring (r.calls e) = r.usedDuring (r.calls e) ∧
      ∀ key, e.senderKey? = some key →
        (r'.performAll (r.calls e)).sessions key = (r.performAll (r.calls e)).sessions key := by
  rcases r.decrypt_course e with
    ⟨err, hopen, hanswer, hcalls⟩ | ⟨env, answer, calls, hopen, hcourse, hanswer, hcalls⟩
  · obtain ⟨hanswer', hcalls'⟩ := decrypt_of_unopened (hagree.ownKey ▸ hopen)
    rw [hanswer, hanswer', hcalls, hcalls']
    exact ⟨rfl, rfl, rfl, hagree.sessions⟩
  · have hsender := Envelope.senderKey?_of_ofContent hopen
    rw [hsender] at hagree
    rw [Event.oneTimeKey?_of_ofContent hopen] at hnamed
    have hcourse' := hcourse.of_agreeOn hagree hnamed
    obtain ⟨hanswer', hcalls'⟩ := decrypt_of_opened (hagree.ownKey ▸ hopen)
    obtain ⟨hplain, hplainCalls⟩ := hcourse'.unique
    rw [hplain] at hanswer' hcalls'
    rw [hplainCalls] at hcalls'
    rw [hanswer, hanswer', hcalls, hcalls', hagree.accept]
    refine ⟨rfl, rfl, ?_, ?_⟩
    · rw [usedDuring_append_acceptCalls, usedDuring_append_acceptCalls, usedDuring, usedDuring,
        hagree.createdDuring hnamed hcourse]
    · intro key hkey
      obtain rfl : env.senderKey = key := Option.some.inj (hsender.symm.trans hkey)
      rw [performAll_append, performAll_acceptCalls, performAll_append, performAll_acceptCalls]
      exact hagree.sessions_performAll hcourse hcourse'

/-- Receivers that agree on an event let it have the same effect. -/
theorem AgreeOn.effect : r'.effect e = r.effect e := by
  obtain ⟨hanswer, hcalls, hused, -⟩ := hagree.calls hnamed
  simp only [Receiver.effect, added, handed, hanswer, hcalls, hused]

/-- Receivers that agree on an event agree behind it. -/
theorem AgreeOn.decrypt :
    AgreeOn e.senderKey? named (r.decrypt e).receiver (r'.decrypt e).receiver := by
  obtain ⟨-, hcalls, hused, hsessions⟩ := hagree.calls hnamed
  have hsetup := (r.sameSetup_decrypt e).symm.trans
    (hagree.toSameSetup.trans (r'.sameSetup_decrypt e))
  refine { hsetup with sessions := ?_, unused := ?_ }
  · intro key hkey
    rw [decrypt_receiver, decrypt_receiver, hcalls]
    exact hsessions key hkey
  · intro key hkey
    rw [decrypt_receiver, decrypt_receiver, hcalls, has_performAll, has_performAll, hused,
      hagree.unused key hkey]

end Event

end Receiver

end OlmReceiver
