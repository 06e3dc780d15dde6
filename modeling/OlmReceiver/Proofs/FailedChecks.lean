import OlmReceiver.Proofs.SameState

/-!
# Failed checks leave no trace

A decryption fails a check if it ends before the ratchet is asked for a plaintext: its content does
not open, the stored sessions cannot be read, or one of them cannot tell whose the message is. Such a
decryption leaves the receiver in the same state. It can be put into a run anywhere, or taken out of
it: the other steps answer and report the same, and leave the same states.

Nothing is assumed of the receiver that a run starts from. If its store keeps the entries in the order
of their keys, the states are not only the same but equal.
-/

namespace OlmReceiver

open Ratchet (Session Message)

/-- An error of a check that comes before any attempt to decrypt. -/
def DecryptError.isFailedCheck : DecryptError → Bool
  | .sessionLookup .. | .inboundSessionMatch _ => true
  | err => err.kind = .input

/-- No check is about whom a payload is from or for. -/
theorem DecryptError.isFailedCheck_of_authentication {err : DecryptError}
    (h : err.kind = .authentication) : err.isFailedCheck = false := by
  cases err <;> first | rfl | cases h

/-- The answer is the error of a check. -/
def failedCheck {α : Type} : Except DecryptError α → Bool
  | .error err => err.isFailedCheck
  | .ok _ => false

/-- An item of a run: a step of its own, or a decryption that was put in between. -/
inductive Item where
  | own (s : Step)
  | extra (e : Event)

namespace Item

/-- The step that is taken for an item. -/
def step : Item → Step
  | own s => s
  | extra e => .decrypt e

/-- Whether an item is one of the run's own steps. -/
def isOwn : Item → Bool
  | own _ => true
  | extra _ => false

end Item

namespace Receiver

/-- Decrypting an event ends in the error of a check. -/
def FailsCheck (r : Receiver) (e : Event) : Prop :=
  failedCheck (r.decrypt e).answer = true

instance (r : Receiver) (e : Event) : Decidable (r.FailsCheck e) :=
  inferInstanceAs (Decidable (_ = true))

/-- Each decryption that was put into a run fails a check when its turn comes. -/
def FailsAlong (r : Receiver) : List Item → Prop
  | [] => True
  | .own s :: items => (r.step s).2.1.FailsAlong items
  | .extra e :: items => r.FailsCheck e ∧ (r.decrypt e).receiver.FailsAlong items

/-- What the run's own steps did: their answers, what they left and what they reported. -/
def ownTurns (r : Receiver) : List Item → List (Answer × Receiver × List Notice)
  | [] => []
  | .own s :: items => r.step s :: (r.step s).2.1.ownTurns items
  | .extra e :: items => (r.decrypt e).receiver.ownTurns items

/-! ## One decryption -/

/-- A refused payload is no failed check. -/
theorem failedCheck_bind_accept (r : Receiver) (e : Event) (senderKey : IdentityKey)
    (answer : Except DecryptError Text) :
    failedCheck (answer.bind (r.accept e senderKey)) = failedCheck answer := by
  cases answer with
  | error err => rfl
  | ok t =>
    simp only [Except.bind]
    cases haccept : r.accept e senderKey t with
    | ok d => rfl
    | error err =>
      rcases accept_eq_error haccept with ⟨fault, rfl⟩ | hkind | ⟨type, fault, rfl⟩
      · rfl
      · exact DecryptError.isFailedCheck_of_authentication hkind
      · rfl

/-- Sessions that cannot tell whose a message is stay as they are. -/
theorem sessions_ofMessage_of_malformed {body : String} {err : Ratchet.Error}
    (hbody : Message.decode body = .error err) (sessions : List Session) :
    (Trial.ofMessage .preKey body sessions).sessions = sessions := by
  cases sessions with
  | nil => rfl
  | cons s rest => rw [Trial.ofMessage, Trial.ofPreKey_of_malformed hbody (List.cons_ne_nil s rest)]

/-- A decryption that fails a check leaves the receiver in the same state. -/
theorem sameState_of_failsCheck {r : Receiver} {e : Event} (h : r.FailsCheck e) :
    SameState r (r.decrypt e).receiver := by
  rw [decrypt_receiver]
  rcases r.decrypt_course e with
    ⟨err, -, -, hcalls⟩ | ⟨env, answer, calls, -, hcourse, hanswer, hcalls⟩
  · rw [hcalls]
    exact .refl r
  · rw [FailsCheck, hanswer, failedCheck_bind_accept] at h
    rw [hcalls, performAll_append, performAll_acceptCalls]
    cases hcourse with
    | unread hreads =>
      rw [performAll_cons, performAll_nil, perform_tryStored, tryStored_of_failReads hreads]
      exact .refl r
    | unmatched hreads htype hbody _ =>
      -- The sessions are written back under their key, unchanged.
      rw [performAll_cons, performAll_nil, perform_tryStored, receiver_tryStored_of_reads hreads, htype]
      refine ⟨⟨_, rfl⟩, fun key => ?_⟩
      simp only [SessionStore.get?_update, sessions_ofMessage_of_malformed hbody, Option.map_id']
      split
      · rename_i heq
        rw [heq]
      · rfl
    | _ => cases h

/-- In a store in order, a decryption that fails a check leaves everything as it was. -/
theorem decrypt_of_failsCheck {r : Receiver} (ho : r.InOrder) {e : Event} (h : r.FailsCheck e) :
    (r.decrypt e).receiver = r :=
  (sameState_of_failsCheck h).eq ho (ho.step (.decrypt e))

/-! ## Runs -/

/-- From receivers in the same state, a run does the same with and without what was put into it. -/
theorem sameTurns_of_failsAlong {r r' : Receiver} (hsame : SameState r r') {items : List Item}
    (h : r.FailsAlong items) :
    List.Forall₂ SameTurn (r.ownTurns items) (r'.ownTurns (items.filter Item.isOwn)) ∧
      SameState (r.after (items.map Item.step))
        (r'.after ((items.filter Item.isOwn).map Item.step)) := by
  induction items generalizing r r' with
  | nil => exact ⟨.nil, hsame⟩
  | cons item items ih =>
    cases item with
    | own s =>
      obtain ⟨hturns, hafter⟩ := ih (hsame.step s).receiver h
      exact ⟨.cons (hsame.step s) hturns, hafter⟩
    | extra e => exact ih ((sameState_of_failsCheck h.1).symm.trans hsame) h.2

/-- In a store in order, a run does exactly the same with and without what was put into it. -/
theorem ownTurns_of_failsAlong {r : Receiver} (ho : r.InOrder) {items : List Item}
    (h : r.FailsAlong items) :
    r.ownTurns (items.filter Item.isOwn) = r.ownTurns items ∧
      r.after ((items.filter Item.isOwn).map Item.step) = r.after (items.map Item.step) := by
  induction items generalizing r with
  | nil => exact ⟨rfl, rfl⟩
  | cons item items ih =>
    cases item with
    | own s =>
      obtain ⟨hturns, hafter⟩ := ih (ho.step s) h
      exact ⟨congrArg (List.cons _) hturns, hafter⟩
    | extra e =>
      -- The decryption leaves the receiver itself, from which the rest of the run goes on.
      have hleft := decrypt_of_failsCheck ho h.1
      obtain ⟨hfails, hrest⟩ := h
      rw [hleft] at hrest
      obtain ⟨hturns, hafter⟩ := ih ho hrest
      refine ⟨?_, ?_⟩
      · rw [ownTurns, hleft]
        exact hturns
      · rw [List.map_cons, after_cons, Item.step, step_decrypt, hleft]
        exact hafter

/-- Decryptions that fail a check leave no trace: each leaves the receiver in the same state, and with
them or without them the steps of a run answer and report the same, and leave the same states. If the
store is in order, the states are equal. -/
theorem failed_checks_leave_no_trace {r : Receiver} {items : List Item} (h : r.FailsAlong items) :
    (∀ (r' : Receiver) (e : Event), r'.FailsCheck e →
        SameState r' (r'.decrypt e).receiver ∧ (r'.InOrder → (r'.decrypt e).receiver = r')) ∧
      List.Forall₂ SameTurn (r.ownTurns items) (r.ownTurns (items.filter Item.isOwn)) ∧
      SameState (r.after (items.map Item.step))
        (r.after ((items.filter Item.isOwn).map Item.step)) ∧
      (r.InOrder →
        r.ownTurns (items.filter Item.isOwn) = r.ownTurns items ∧
          r.after ((items.filter Item.isOwn).map Item.step) = r.after (items.map Item.step)) := by
  obtain ⟨hturns, hafter⟩ := sameTurns_of_failsAlong (.refl r) h
  refine ⟨fun r' e hfails => ?_, hturns, hafter, fun ho => ownTurns_of_failsAlong ho h⟩
  exact ⟨sameState_of_failsCheck hfails, fun ho => decrypt_of_failsCheck ho hfails⟩

/-- A run into which an event for another device, a garbled message and a message at a time when
nothing can be read were put. -/
def interrupted : List Item :=
  [.extra (.toRecipient ⟨"@alice:localhost"⟩ ⟨"ALICEKEY"⟩ ⟨"CAROLKEY"⟩ (.ofMessage .preKey "")),
    .own (.decrypt (preKeyEvent "OTK7")),
    .extra (.toRecipient ⟨"@alice:localhost"⟩ ⟨"ALICEKEY"⟩ ⟨"BOBKEY"⟩ (.ofMessage .preKey "")),
    .own (.failReads true),
    .extra (preKeyEvent "OTK8"),
    .own (.failReads false),
    .own (.decrypt (preKeyEvent "OTK8"))]

/-- The one-time key that was named while nothing could be read is used up by its message later. -/
theorem failed_checks_leave_no_trace_interrupted :
    withTwoKeys.FailsAlong interrupted ∧ withTwoKeys.InOrder ∧
      withTwoKeys.after ((interrupted.filter Item.isOwn).map Item.step) =
        withTwoKeys.after (interrupted.map Item.step) ∧
      (withTwoKeys.after (interrupted.map Item.step)).account.consumedKeys = ["OTK7", "OTK8"] := by
  have hfails : withTwoKeys.FailsAlong interrupted :=
    ⟨by decide +kernel, by decide +kernel, by decide +kernel, trivial⟩
  have ho : withTwoKeys.InOrder := List.Pairwise.nil
  obtain ⟨-, -, -, hequal⟩ := failed_checks_leave_no_trace hfails
  exact ⟨hfails, ho, (hequal ho).2, by decide +kernel⟩

end Receiver

end OlmReceiver
