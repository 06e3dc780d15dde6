import OlmReceiver.Proofs.Footprint
import OlmReceiver.Receiver.Run

/-!
# The order of different senders does not matter

Events of different sender keys look at different sessions, and do not interfere as long as they
name different one-time keys. The part of a run that concerns one sender key is therefore the run of
its own events alone. What all senders share is the sum of what the events do to it: keys are taken
out of the unused ones, entries are appended to the journal, attempts are counted and devices are
marked. In which order that happens shows at most in the order of the journal and of the marks.

Events whose content does not open have no sender key, and may stand anywhere.
-/

namespace OlmReceiver

open Ratchet (Message)

/-- Lists have the same members if they have the same members of each kind. -/
theorem perm_of_perm_filter {α κ : Type} [DecidableEq κ] (kind : α → κ) {l l' : List α}
    (h : ∀ k, (l.filter fun a => decide (kind a = k)).Perm
      (l'.filter fun a => decide (kind a = k))) : l.Perm l' := by
  classical
  apply List.perm_iff_count.mpr
  intro a
  have hcount (l : List α) : (l.filter fun b => decide (kind b = kind a)).count a = l.count a :=
    List.count_filter (by simp)
  rw [← hcount l, ← hcount l']
  exact (h (kind a)).count_eq a

/-! ## Marks in any order -/

/-- A queue holds what it held before, and each other request that it was handed once. -/
theorem UnwedgeQueue.count_foldl_mark (q : UnwedgeQueue) (requests : List UnwedgeRequest)
    (request : UnwedgeRequest) :
    (requests.foldl UnwedgeQueue.mark q).count request =
      if request ∈ q then q.count request else if request ∈ requests then 1 else 0 := by
  induction requests generalizing q with
  | nil =>
    split
    · rfl
    · rename_i hnew
      simpa using List.count_eq_zero.mpr hnew
  | cons first requests ih =>
    rw [List.foldl_cons, ih]
    by_cases hpending : first ∈ q
    · rw [mark, if_pos hpending]
      grind
    · rw [mark, if_neg hpending]
      by_cases heq : request = first
      · subst heq
        simp [hpending, List.count_eq_zero.mpr hpending]
      · simp [heq, Ne.symm heq]

/-- A sink holds the same requests in whichever order it is handed them. -/
theorem UnwedgeSink.perm_foldl_mark {requests requests' : List UnwedgeRequest}
    (h : requests.Perm requests') (sink : UnwedgeSink) :
    (requests.foldl mark sink).requests.Perm (requests'.foldl mark sink).requests := by
  cases sink with
  | queue q =>
    have hqueue (requests : List UnwedgeRequest) :
        requests.foldl mark (.queue q) = .queue (requests.foldl UnwedgeQueue.mark q) := by
      induction requests generalizing q with
      | nil => rfl
      | cons request requests ih => exact ih (q.mark request)
    rw [hqueue, hqueue]
    apply List.perm_iff_count.mpr
    intro request
    rw [UnwedgeSink.requests, UnwedgeSink.requests, UnwedgeQueue.count_foldl_mark,
      UnwedgeQueue.count_foldl_mark]
    simp only [h.mem_iff]
  | record marks =>
    rw [Receiver.foldl_mark_record, Receiver.foldl_mark_record]
    exact h.append_left marks

/-! ## Lists of events -/

/-- No one-time key is named by events of different sender keys. -/
def KeysApart (ownKey : IdentityKey) (events : List Event) : Prop :=
  ∀ e ∈ events, ∀ e' ∈ events, ∀ key, e.oneTimeKey? ownKey = some key →
    e'.oneTimeKey? ownKey = some key → e.senderKey? = e'.senderKey?

/-- The events of a list in an order that is the same for each sender key. -/
structure Reordered (events events' : List Event) : Prop where
  perm : events.Perm events'
  sameOrder : ∀ key : IdentityKey,
    events.filter (fun e => decide (e.senderKey? = some key)) =
      events'.filter (fun e => decide (e.senderKey? = some key))

/-- Two events of different sender keys may change places. -/
theorem Reordered.swap {e e' : Event} (h : e.senderKey? ≠ e'.senderKey?) (events : List Event) :
    Reordered (e :: e' :: events) (e' :: e :: events) where
  perm := .swap e' e events
  sameOrder key := by
    by_cases hkey : e.senderKey? = some key
    · have hkey' : e'.senderKey? ≠ some key := fun heq => h (hkey.trans heq.symm)
      simp [hkey, hkey']
    · simp [List.filter_cons, hkey]

/-- Keys stay apart in whichever order the events come. -/
theorem KeysApart.perm {ownKey : IdentityKey} {events events' : List Event}
    (h : KeysApart ownKey events) (hperm : events.Perm events') : KeysApart ownKey events' :=
  fun e he e' he' => h e (hperm.mem_iff.mpr he) e' (hperm.mem_iff.mpr he')

namespace Receiver

/-- The receiver after the decryption of some events in order. -/
def decryptAll (r : Receiver) (events : List Event) : Receiver :=
  r.after (events.map .decrypt)

/-- Events in order, each with the effect that its decryption has. -/
def effects (r : Receiver) : List Event → List (Event × Effect)
  | [] => []
  | e :: events => (e, r.effect e) :: (r.decrypt e).receiver.effects events

@[simp] theorem decryptAll_cons (r : Receiver) (e : Event) (events : List Event) :
    r.decryptAll (e :: events) = (r.decrypt e).receiver.decryptAll events := rfl

/-! ## What the effects add up to -/

/-- The keys that the events use up are taken out of the unused ones. -/
theorem oneTimeKeys_decryptAll (r : Receiver) (events : List Event) :
    (r.decryptAll events).account.oneTimeKeys =
      r.account.oneTimeKeys.without ((r.effects events).flatMap (·.2.used)) := by
  induction events generalizing r with
  | nil => exact (KeySet.without_nil _).symm
  | cons e events ih =>
    rw [decryptAll_cons, ih, effects, List.flatMap_cons, KeySet.without_append]
    rw [decrypt_receiver, oneTimeKeys_performAll]
    rfl

/-- The keys that the events use up are recorded in order. -/
theorem consumedKeys_decryptAll (r : Receiver) (events : List Event) :
    (r.decryptAll events).account.consumedKeys =
      r.account.consumedKeys ++ (r.effects events).flatMap (·.2.used) := by
  induction events generalizing r with
  | nil => exact (List.append_nil _).symm
  | cons e events ih =>
    rw [decryptAll_cons, ih, effects, List.flatMap_cons, ← List.append_assoc]
    rw [decrypt_receiver, consumedKeys_performAll]
    rfl

/-- The attempts to write are those for the sessions that the events hand to the store. -/
theorem writeAttempts_decryptAll (r : Receiver) (events : List Event) :
    (r.decryptAll events).writeAttempts =
      r.writeAttempts + ((r.effects events).flatMap (·.2.added)).length := by
  induction events generalizing r with
  | nil => rfl
  | cons e events ih =>
    rw [decryptAll_cons, ih, effects, List.flatMap_cons, List.length_append, ← Nat.add_assoc]
    rw [decrypt_receiver, writeAttempts_performAll]
    rfl

/-- The sink is changed by the requests that the events hand to it. -/
theorem sink_decryptAll (r : Receiver) (events : List Event) :
    (r.decryptAll events).sink =
      ((r.effects events).flatMap (·.2.handed)).foldl UnwedgeSink.mark r.sink := by
  induction events generalizing r with
  | nil => rfl
  | cons e events ih =>
    rw [decryptAll_cons, ih, effects, List.flatMap_cons, List.foldl_append, sink_decrypt]
    rfl

/-! ## The part of one sender key -/

/-- Among others, the events of one sender key have the effects that they have by themselves, and
leave behind what they leave behind by themselves. -/
theorem effects_filter {sender : Option IdentityKey} {named : String → Prop} {ownKey : IdentityKey}
    {events : List Event}
    (hnamed : ∀ e ∈ events, ∀ key, e.oneTimeKey? ownKey = some key →
      (named key ↔ e.senderKey? = sender))
    {r r' : Receiver} (hown : r.ownKey = ownKey) (hagree : AgreeOn sender named r r') :
    (r.effects events).filter (fun p => decide (p.1.senderKey? = sender)) =
        r'.effects (events.filter fun e => decide (e.senderKey? = sender)) ∧
      AgreeOn sender named (r.decryptAll events)
        (r'.decryptAll (events.filter fun e => decide (e.senderKey? = sender))) := by
  -- An event of the sender key is decrypted by both receivers, any other one by the first alone.
  induction events generalizing r r' with
  | nil => exact ⟨rfl, hagree⟩
  | cons e events ih =>
    obtain ⟨he, hevents⟩ := List.forall_mem_cons.mp hnamed
    have hown' : (r.decrypt e).receiver.ownKey = ownKey := (r.sameSetup_decrypt e).ownKey.trans hown
    by_cases hsender : e.senderKey? = sender
    · subst hsender
      have hkeys : ∀ key, e.oneTimeKey? r.ownKey = some key → named key := by
        intro key hkey
        exact (he key (hown ▸ hkey)).mpr rfl
      obtain ⟨heffects, hafter⟩ := ih hevents hown' (hagree.decrypt hkeys)
      rw [effects, List.filter_cons_of_pos (by simp), List.filter_cons_of_pos (by simp), effects,
        heffects, hagree.effect hkeys]
      exact ⟨rfl, hafter⟩
    · have hkeys : ∀ key, e.oneTimeKey? r.ownKey = some key → ¬ named key := by
        intro key hkey hnamed
        exact hsender ((he key (hown ▸ hkey)).mp hnamed)
      have hagree' := (agreeOn_decrypt hsender hkeys).symm.trans hagree
      rw [effects, List.filter_cons_of_neg (by simpa using hsender),
        List.filter_cons_of_neg (by simpa using hsender)]
      exact ih hevents hown' hagree'

/-- Where no one-time key is named by different senders, the part of a run that concerns one sender
key is the run of its own events. -/
theorem effects_of_sender {r : Receiver} {events : List Event} (h : KeysApart r.ownKey events)
    (sender : Option IdentityKey) :
    (r.effects events).filter (fun p => decide (p.1.senderKey? = sender)) =
        r.effects (events.filter fun e => decide (e.senderKey? = sender)) ∧
      ∀ key, sender = some key → (r.decryptAll events).sessions key =
        (r.decryptAll (events.filter fun e => decide (e.senderKey? = sender))).sessions key := by
  -- The one-time keys to agree on are those that the events of the sender key name.
  let named (key : String) : Prop :=
    ∃ e ∈ events, e.oneTimeKey? r.ownKey = some key ∧ e.senderKey? = sender
  have hnamed : ∀ e ∈ events, ∀ key, e.oneTimeKey? r.ownKey = some key →
      (named key ↔ e.senderKey? = sender) := by
    intro e he key hkey
    constructor
    · rintro ⟨e', he', hkey', hsender⟩
      exact (h e he e' he' key hkey hkey').trans hsender
    · exact fun hsender => ⟨e, he, hkey, hsender⟩
  obtain ⟨heffects, hafter⟩ := effects_filter hnamed rfl (.refl sender named r)
  exact ⟨heffects, fun key hkey => (hafter.sessions key hkey).symm⟩

/-- Events whose content does not open have the same effects in whichever order they come. -/
theorem effects_of_unopened {r : Receiver} {events : List Event}
    (h : ∀ e ∈ events, e.senderKey? = none) :
    r.effects events = events.map fun e => (e, r.effect e) := by
  induction events with
  | nil => rfl
  | cons e events ih =>
    obtain ⟨he, hevents⟩ := List.forall_mem_cons.mp h
    rw [effects, List.map_cons]
    cases hopen : Envelope.ofContent r.ownKey e.content with
    | ok env => simp [Envelope.senderKey?_of_ofContent hopen] at he
    | error err => rw [(effect_of_unopened hopen).2, ih hevents]

/-- Each event has the same effect in both orders. -/
theorem perm_effects {r : Receiver} {events events' : List Event} (h : Reordered events events')
    (hapart : KeysApart r.ownKey events) : (r.effects events).Perm (r.effects events') := by
  apply perm_of_perm_filter fun p => p.1.senderKey?
  intro sender
  rw [(effects_of_sender hapart sender).1, (effects_of_sender (hapart.perm h.perm) sender).1]
  cases sender with
  | some key => rw [h.sameOrder key]
  | none =>
    -- These events need not keep their order, yet each has an effect that is always the same.
    have hunopened (events : List Event) :
        ∀ e ∈ events.filter fun e => decide (e.senderKey? = none), e.senderKey? = none := by
      intro e he
      simpa using (List.mem_filter.mp he).2
    rw [effects_of_unopened (hunopened events), effects_of_unopened (hunopened events')]
    exact (h.perm.filter _).map _

/-- Events may come in any order that keeps the order of each sender key: as long as no one-time key
is named by different senders, each event has the same effect, for each sender key in the same
order, and the same sessions, unused keys, used up keys, attempts to write and pending requests are
left behind. -/
theorem decryptAll_of_reordered {r : Receiver} {events events' : List Event}
    (h : Reordered events events') (hapart : KeysApart r.ownKey events) :
    (r.effects events).Perm (r.effects events') ∧
      (∀ key : IdentityKey,
        (r.effects events).filter (fun p => decide (p.1.senderKey? = some key)) =
          (r.effects events').filter (fun p => decide (p.1.senderKey? = some key))) ∧
      (∀ key, (r.decryptAll events).sessions key = (r.decryptAll events').sessions key) ∧
      (r.decryptAll events).account.oneTimeKeys = (r.decryptAll events').account.oneTimeKeys ∧
      (r.decryptAll events).account.consumedKeys.Perm
        (r.decryptAll events').account.consumedKeys ∧
      (r.decryptAll events).writeAttempts = (r.decryptAll events').writeAttempts ∧
      (r.decryptAll events).sink.requests.Perm (r.decryptAll events').sink.requests := by
  have hapart' := hapart.perm h.perm
  have heffects := perm_effects h hapart
  have hused := heffects.flatMap_right fun p => p.2.used
  have hadded := heffects.flatMap_right fun p => p.2.added
  have hhanded := heffects.flatMap_right fun p => p.2.handed
  refine ⟨heffects, fun key => ?_, fun key => ?_, ?_, ?_, ?_, ?_⟩
  · rw [(effects_of_sender hapart _).1, (effects_of_sender hapart' _).1, h.sameOrder key]
  · rw [(effects_of_sender hapart (some key)).2 key rfl,
      (effects_of_sender hapart' (some key)).2 key rfl, h.sameOrder key]
  · rw [oneTimeKeys_decryptAll, oneTimeKeys_decryptAll]
    exact KeySet.without_of_perm _ hused
  · rw [consumedKeys_decryptAll, consumedKeys_decryptAll]
    exact hused.append_left _
  · rw [writeAttempts_decryptAll, writeAttempts_decryptAll, hadded.length_eq]
  · rw [sink_decryptAll, sink_decryptAll]
    exact UnwedgeSink.perm_foldl_mark hhanded r.sink

/-- A pre-key message of another sender for a one-time key. -/
def otherPreKeyEvent (key : String) : Event :=
  .toRecipient ⟨"@carol:localhost"⟩ ⟨"CAROLKEY"⟩ ⟨"BOBKEY"⟩
    (.ofMessage .preKey (Message.encode ⟨"S8", some key, "hi"⟩))

/-- Two senders may change places; only the order of the journal tells. -/
theorem decryptAll_of_reordered_two_senders :
    Reordered [preKeyEvent "OTK7", otherPreKeyEvent "OTK8", preKeyEvent "OTK7"]
        [otherPreKeyEvent "OTK8", preKeyEvent "OTK7", preKeyEvent "OTK7"] ∧
      KeysApart withTwoKeys.ownKey
        [preKeyEvent "OTK7", otherPreKeyEvent "OTK8", preKeyEvent "OTK7"] ∧
      (withTwoKeys.decryptAll [preKeyEvent "OTK7", otherPreKeyEvent "OTK8",
        preKeyEvent "OTK7"]).account.consumedKeys = ["OTK7", "OTK8"] ∧
      (withTwoKeys.decryptAll [otherPreKeyEvent "OTK8", preKeyEvent "OTK7",
        preKeyEvent "OTK7"]).account.consumedKeys = ["OTK8", "OTK7"] ∧
      (withTwoKeys.decryptAll [preKeyEvent "OTK7", otherPreKeyEvent "OTK8",
        preKeyEvent "OTK7"]).sessions ⟨"ALICEKEY"⟩ = [⟨"S7", some "OTK7", false, 2⟩] ∧
      (withTwoKeys.decryptAll [otherPreKeyEvent "OTK8", preKeyEvent "OTK7",
        preKeyEvent "OTK7"]).sessions ⟨"ALICEKEY"⟩ = [⟨"S7", some "OTK7", false, 2⟩] := by
  have hsender : (preKeyEvent "OTK7").senderKey? ≠ (otherPreKeyEvent "OTK8").senderKey? := by
    decide +kernel
  have hkey : (preKeyEvent "OTK7").oneTimeKey? withTwoKeys.ownKey = some "OTK7" := by
    decide +kernel
  have hkey' : (otherPreKeyEvent "OTK8").oneTimeKey? withTwoKeys.ownKey = some "OTK8" := by
    decide +kernel
  have hreordered := Reordered.swap hsender [preKeyEvent "OTK7"]
  have hapart : KeysApart withTwoKeys.ownKey
      [preKeyEvent "OTK7", otherPreKeyEvent "OTK8", preKeyEvent "OTK7"] := by
    intro e he e' he' key hnamed hnamed'
    simp only [List.mem_cons, List.not_mem_nil, or_false] at he he'
    rcases he with rfl | rfl | rfl <;> rcases he' with rfl | rfl | rfl <;> simp_all
  obtain ⟨-, -, hsessions, -⟩ := decryptAll_of_reordered hreordered hapart
  have halice : (withTwoKeys.decryptAll [preKeyEvent "OTK7", otherPreKeyEvent "OTK8",
      preKeyEvent "OTK7"]).sessions ⟨"ALICEKEY"⟩ = [⟨"S7", some "OTK7", false, 2⟩] := by
    decide +kernel
  exact ⟨hreordered, hapart, by decide +kernel, by decide +kernel, halice,
    (hsessions ⟨"ALICEKEY"⟩).symm.trans halice⟩

end Receiver

end OlmReceiver
