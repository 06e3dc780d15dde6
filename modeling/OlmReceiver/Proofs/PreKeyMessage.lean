import Mathlib.Control.Monad.Basic
import OlmReceiver.Proofs.Ending

/-!
# The complete outcome of a pre-key message

A pre-key message is decided in an order that does not depend on how its decryption goes. A body that
is no message fails on the first stored session, or on the account where there is none. Else the
first stored session that was created from the one-time key of the message decides alone, whatever
stands behind it. Only a message that no stored session claims reaches the account, and leaves all
stored sessions as they are.

Sessions that can be read are assumed, as a failing read ends the decryption before any of this. The
count of the session that is attempted starts anew behind the limit of its 32 bits.
-/

namespace OlmReceiver

open Ratchet (Session Account Message)

namespace Ratchet

/-- A body that is no message is malformed. -/
theorem Message.malformed_of_decode {body : String} {err : Error}
    (h : Message.decode body = .error err) : ∃ why, err = .malformed why := by
  unfold Message.decode at h
  split at h
  · cases h
    exact ⟨_, rfl⟩
  · split at h
    · cases h
      exact ⟨_, rfl⟩
    · cases h

/-- A created session is of the message, of its one-time key, and as sound as the account says. -/
theorem Account.advance_sessionFor (a : Account) (id key : String) :
    (a.sessionFor id key).advance = ⟨id, some key, a.poisonNewSessions, 1⟩ := by
  unfold sessionFor
  cases a.poisonNewSessions <;> rfl

end Ratchet

namespace Receiver

section PreKey

variable {r : Receiver} {e : Event} {env : Envelope}
  (hopen : Envelope.ofContent r.ownKey e.content = .ok env)
  (hreads : r.store.faults.failReads = false)

include hopen hreads

variable (htype : env.type = .preKey)

include htype

/-- A stored session cannot tell whether a body that is no message belongs to it. -/
theorem endsAs_of_unmatched {err : Ratchet.Error} (hbody : Message.decode env.body = .error err)
    (hsome : r.sessions env.senderKey ≠ []) :
    r.EndsAs e env
      { answer := .error (.inboundSessionMatch (.ratchet err))
        sessions := r.sessions env.senderKey
        account := r.account } := by
  have htrial := Trial.ofPreKey_of_malformed hbody hsome
  have hends := endsAs_of_tried hopen hreads []
    (.unmatched hreads htype hbody hsome)
  rwa [htype, Trial.ofMessage, htrial] at hends

/-- The first session that was created from the one-time key of the message decides alone. -/
theorem endsAs_of_claimed {m : Message} {key : String} (hbody : Message.decode env.body = .ok m)
    (hnamed : m.oneTimeKey = some key) {before after : List Session} {s : Session}
    (hsessions : r.sessions env.senderKey = before ++ s :: after)
    (hbefore : ∀ s' ∈ before, s'.oneTimeKey ≠ some key) (hs : s.oneTimeKey = some key) :
    r.EndsAs e env
      { answer :=
          if s.Reads m then r.accept e env.senderKey (Text.ofString m.plaintext)
          else .error .decryptionFailedWithMatchingSession
        sessions := before ++ s.advance :: after
        account := r.account
        attempted := [s.id]
        marked := ¬ s.Reads m } := by
  have hclaims : s.claims m = true := (Trial.claims_iff hnamed s).mpr hs
  have hunclaimed : ∀ s' ∈ before, s'.claims m = false := by
    intro s' hs'
    exact Trial.claims_of_ne hnamed (hbefore s' hs')
  have hfirst : (r.sessions env.senderKey).find? (·.claims m) = some s := by
    rw [hsessions, List.find?_eq_some_iff_append]
    exact ⟨hclaims, before, after, rfl, fun s' hs' => by simp [hunclaimed s' hs']⟩
  obtain ⟨htried, hattempted⟩ := Trial.ofPreKey_of_first hbody after hunclaimed hclaims
  by_cases hr : s.Reads m
  · have hopens : r.Opens env m := by simpa [Opens, htype, hfirst] using hr
    have hends := endsAs_of_tried hopen hreads [] (.opened hreads hbody hopens)
    rw [htype, Trial.ofMessage, hsessions, htried, hattempted] at hends
    simpa [hr, desynced, Except.bind] using hends
  · have hends := endsAs_of_tried hopen hreads [⟨e.sender, env.senderKey⟩]
      (.refused hreads htype hbody hfirst hr)
    rw [htype, Trial.ofMessage, hsessions, htried, hattempted] at hends
    simp only [hr, not_false_eq_true, decide_true]
    exact hends

/-! ## Messages that no stored session claims -/

/-- What the account makes of a message that no stored session claims is all that can change. -/
theorem endsAs_of_unclaimed
    (hnone : ∀ s ∈ r.sessions env.senderKey, s.matchesBody env.body = .ok false)
    {answer : Except DecryptError Text} {calls : List Call} {account : Account}
    (added : List Session) (hcourse : Course r e.sender env answer calls)
    (haccount : (r.performAll calls).account = account)
    (hadded : (calls.filterMap Call.added?).map Prod.snd = added) :
    r.EndsAs e env
      { answer := answer.bind (r.accept e env.senderKey)
        sessions := r.sessions env.senderKey ++ r.kept added
        account, added
        marked := desynced answer } := by
  have htrial := trial_of_unclaimed htype hnone
  exact endsAs_of_course hopen hreads hcourse (by rw [htrial]) (by rw [htrial]; rfl) haccount hadded

/-- Where the account creates no session, nothing changes but that the device is marked. -/
theorem endsAs_of_uncreated
    (hnone : ∀ s ∈ r.sessions env.senderKey, s.matchesBody env.body = .ok false)
    {err : Ratchet.Error} (hcreate : r.account.newInbound env.body = (.error err, r.account)) :
    r.EndsAs e env
      { answer := .error (.createInboundSession (.ratchet err))
        sessions := r.sessions env.senderKey
        account := r.account
        marked := true } := by
  have haccount : ((r.tryStored env).receiver.account.newInbound env.body).2 = r.account := by
    rw [account_tryStored, hcreate]
  have hends := endsAs_of_unclaimed hopen hreads htype hnone []
    (.uncreated hreads htype hnone hcreate) haccount rfl
  rwa [kept_nil, List.append_nil] at hends

omit htype

variable {m : Message} {key : String} (hnew : r.Bootstraps env m key)

include hnew

/-- An account that cannot be persisted has used up the key, and the session is dropped. -/
theorem endsAs_of_unpersisted (hpersist : r.account.failPersist = true) :
    r.EndsAs e env
      { answer := .error (.persistAccount (.ratchet .persistFailed))
        sessions := r.sessions env.senderKey
        account := r.account.consume key
        marked := true } := by
  have haccount : (r.performAll (bootstrapCalls env)).account = r.account.consume key := by
    have hfail : (r.account.consume key).failPersist = true := hpersist
    rw [hnew.account_persist, Account.persist_of_fail hfail]
  have hends := endsAs_of_unclaimed hopen hreads hnew.type hnew.matchesBody []
    (.unpersisted hreads hnew hpersist) haccount rfl
  rwa [kept_nil, List.append_nil] at hends

/-- Once the account is persisted the session is handed to the store, whether or not it decrypts. -/
theorem endsAs_of_persisted (hpersist : r.account.failPersist = false) :
    r.EndsAs e env
      { answer :=
          if r.account.poisonNewSessions then
            .error (.decryptWithNewSession (.ratchet (.poisoned m.sessionId)))
          else r.accept e env.senderKey (Text.ofString m.plaintext)
        sessions := r.sessions env.senderKey ++
          r.kept [⟨m.sessionId, some key, r.account.poisonNewSessions, 1⟩]
        account :=
          { r.account with
            oneTimeKeys := r.account.oneTimeKeys.remove key
            journal := r.account.journal ++
              [.consumed key, .persisted (r.account.oneTimeKeys.remove key).length] }
        added := [⟨m.sessionId, some key, r.account.poisonNewSessions, 1⟩]
        marked := r.account.poisonNewSessions } := by
  have haccount : (r.performAll (bootstrapCalls env)).account =
      { r.account with
        oneTimeKeys := r.account.oneTimeKeys.remove key
        journal := r.account.journal ++
          [.consumed key, .persisted (r.account.oneTimeKeys.remove key).length] } := by
    have hok : (r.account.consume key).failPersist = false := hpersist
    rw [hnew.account_persist, Account.persist_of_ok hok]
    simp [Account.consume]
  rw [← Account.advance_sessionFor]
  cases hpoison : r.account.poisonNewSessions with
  | true =>
    exact endsAs_of_unclaimed hopen hreads hnew.type hnew.matchesBody _
      (.unusable hreads hnew hpersist hpoison) haccount rfl
  | false =>
    exact endsAs_of_unclaimed hopen hreads hnew.type hnew.matchesBody _
      (.created hreads hnew hpersist hpoison) haccount rfl

end PreKey

/-! ## All outcomes -/

/-- A message that names no one-time key is claimed by no stored session. -/
theorem matchesBody_of_unnamed {m : Message} {body : String}
    (hbody : Message.decode body = .ok m) (hnamed : m.oneTimeKey = none) (s : Session) :
    s.matchesBody body = .ok false := by
  rw [Session.matchesBody_of_decode hbody, Trial.claims_of_unnamed hnamed]

/-- All ways in which the decryption of an event ends that opens to a pre-key message: one for each
case of its body, of the stored sessions, and of the account. A session that is attempted has its
count raised by one, modulo the size of the count. -/
structure PreKeyOutcome (r : Receiver) (e : Event) (env : Envelope) : Prop where
  /-- The first stored session cannot tell whether a body belongs to it that is no message. -/
  unmatched : ∀ err, Message.decode env.body = .error err → r.sessions env.senderKey ≠ [] →
    (∃ why, err = .malformed why) ∧
      r.EndsAs e env
        { answer := .error (.inboundSessionMatch (.ratchet err))
          sessions := r.sessions env.senderKey
          account := r.account }
  /-- Without a stored session the account refuses a body that is no message. -/
  malformed : ∀ err, Message.decode env.body = .error err → r.sessions env.senderKey = [] →
    (∃ why, err = .malformed why) ∧
      r.EndsAs e env
        { answer := .error (.createInboundSession (.ratchet err))
          sessions := []
          account := r.account
          marked := true }
  /-- The first session created from the one-time key decides, whatever stands behind it. -/
  claimed : ∀ m key, Message.decode env.body = .ok m → m.oneTimeKey = some key →
    (∃ s ∈ r.sessions env.senderKey, s.oneTimeKey = some key) →
    ∃ before s after, r.sessions env.senderKey = before ++ s :: after ∧
      (∀ s' ∈ before, s'.oneTimeKey ≠ some key) ∧ s.oneTimeKey = some key ∧
      r.EndsAs e env
        { answer :=
            if s.Reads m then r.accept e env.senderKey (Text.ofString m.plaintext)
            else .error .decryptionFailedWithMatchingSession
          sessions := before ++ s.advance :: after
          account := r.account
          attempted := [s.id]
          marked := ¬ s.Reads m }
  /-- A message that names no one-time key creates no session. -/
  unnamed : ∀ m, Message.decode env.body = .ok m → m.oneTimeKey = none →
    r.EndsAs e env
      { answer := .error (.createInboundSession (.ratchet .notPreKey))
        sessions := r.sessions env.senderKey
        account := r.account
        marked := true }
  /-- A one-time key that is not unused creates no session. -/
  used : ∀ m key, Message.decode env.body = .ok m → m.oneTimeKey = some key →
    (∀ s ∈ r.sessions env.senderKey, s.oneTimeKey ≠ some key) → r.account.has key = false →
    r.EndsAs e env
      { answer := .error (.createInboundSession (.ratchet (.unknownOneTimeKey key)))
        sessions := r.sessions env.senderKey
        account := r.account
        marked := true }
  /-- An unused one-time key is used up even if the account cannot be persisted. -/
  unpersisted : ∀ m key, Message.decode env.body = .ok m → m.oneTimeKey = some key →
    (∀ s ∈ r.sessions env.senderKey, s.oneTimeKey ≠ some key) → r.account.has key = true →
    r.account.failPersist = true →
    r.EndsAs e env
      { answer := .error (.persistAccount (.ratchet .persistFailed))
        sessions := r.sessions env.senderKey
        account :=
          { r.account with
            oneTimeKeys := r.account.oneTimeKeys.remove key
            journal := r.account.journal ++ [.consumed key] }
        marked := true }
  /-- The new session is handed to the store behind the persisted account, and decrypts the message
  unless it is poisoned. -/
  persisted : ∀ m key, Message.decode env.body = .ok m → m.oneTimeKey = some key →
    (∀ s ∈ r.sessions env.senderKey, s.oneTimeKey ≠ some key) → r.account.has key = true →
    r.account.failPersist = false →
    r.EndsAs e env
      { answer :=
          if r.account.poisonNewSessions then
            .error (.decryptWithNewSession (.ratchet (.poisoned m.sessionId)))
          else r.accept e env.senderKey (Text.ofString m.plaintext)
        sessions := r.sessions env.senderKey ++
          if r.store.faults.failWrites then []
          else [⟨m.sessionId, some key, r.account.poisonNewSessions, 1⟩]
        account :=
          { r.account with
            oneTimeKeys := r.account.oneTimeKeys.remove key
            journal := r.account.journal ++
              [.consumed key, .persisted (r.account.oneTimeKeys.remove key).length] }
        added := [⟨m.sessionId, some key, r.account.poisonNewSessions, 1⟩]
        marked := r.account.poisonNewSessions }

/-- While the stored sessions can be read, an event that opens to a pre-key message ends in the one
way that its body, the stored sessions, the account and the switches lay down. -/
theorem preKey_outcome {r : Receiver} {e : Event} {env : Envelope}
    (hopen : Envelope.ofContent r.ownKey e.content = .ok env)
    (hreads : r.store.faults.failReads = false) (htype : env.type = .preKey) :
    r.PreKeyOutcome e env := by
  have hnew {m : Message} {key : String} (hbody : Message.decode env.body = .ok m)
      (hnamed : m.oneTimeKey = some key)
      (hnone : ∀ s ∈ r.sessions env.senderKey, s.oneTimeKey ≠ some key)
      (hunused : r.account.has key = true) : r.Bootstraps env m key :=
    ⟨htype, hbody, fun s hs => Trial.claims_of_ne hnamed (hnone s hs), hnamed, hunused⟩
  exact
    { unmatched := fun err hbody hsome =>
        ⟨Message.malformed_of_decode hbody, endsAs_of_unmatched hopen hreads htype hbody hsome⟩
      malformed := fun err hbody hnone => by
        have hcreate := Account.newInbound_of_malformed (a := r.account) hbody
        have hends := endsAs_of_uncreated hopen hreads htype (by simp [hnone]) hcreate
        rw [hnone] at hends
        exact ⟨Message.malformed_of_decode hbody, hends⟩
      claimed := fun m key hbody hnamed hsome => by
        obtain ⟨before, s, after, hsessions, hbefore, hs⟩ := exists_first hsome
        exact ⟨before, s, after, hsessions, hbefore, hs,
          endsAs_of_claimed hopen hreads htype hbody hnamed hsessions hbefore hs⟩
      unnamed := fun m hbody hnamed => by
        have hcreate : r.account.newInbound env.body = (.error .notPreKey, r.account) := by
          simp [Account.newInbound, hbody, hnamed]
        exact endsAs_of_uncreated hopen hreads htype
          (fun s _ => matchesBody_of_unnamed hbody hnamed s) hcreate
      used := fun m key hbody hnamed hnone hused => by
        have hcreate := Account.newInbound_of_used hbody hnamed hused
        refine endsAs_of_uncreated hopen hreads htype (fun s hs => ?_) hcreate
        rw [Session.matchesBody_of_decode hbody, Trial.claims_of_ne hnamed (hnone s hs)]
      unpersisted := fun m key hbody hnamed hnone hunused hpersist =>
        endsAs_of_unpersisted hopen hreads (hnew hbody hnamed hnone hunused) hpersist
      persisted := fun m key hbody hnamed hnone hunused hpersist =>
        endsAs_of_persisted hopen hreads (hnew hbody hnamed hnone hunused) hpersist }

/-- A receiver with two sessions from one key, the first of which is poisoned. -/
def claimedTwice : Receiver :=
  { withTwoKeys with
    store :=
      { inner := ⟨[(⟨"ALICEKEY"⟩, [⟨"S7", some "OTK7", true, 0⟩, ⟨"S7", some "OTK7", false, 0⟩])]⟩
        faults := .none } }

/-- The poisoned session decides, though the one behind it reads the message. -/
theorem preKey_outcome_of_poisoned :
    Envelope.ofContent claimedTwice.ownKey (preKeyEvent "OTK7").content =
        .ok ⟨⟨"ALICEKEY"⟩, .preKey, Message.encode ⟨"S7", some "OTK7", "hi"⟩⟩ ∧
      claimedTwice.store.faults.failReads = false ∧
      (∃ before s after, claimedTwice.sessions ⟨"ALICEKEY"⟩ = before ++ s :: after ∧
        (claimedTwice.decrypt (preKeyEvent "OTK7")).receiver.sessions ⟨"ALICEKEY"⟩ =
          before ++ s.advance :: after) ∧
      (claimedTwice.decrypt (preKeyEvent "OTK7")).receiver.sessions ⟨"ALICEKEY"⟩ =
        [⟨"S7", some "OTK7", true, 1⟩, ⟨"S7", some "OTK7", false, 0⟩] := by
  have hopen : Envelope.ofContent claimedTwice.ownKey (preKeyEvent "OTK7").content =
      .ok ⟨⟨"ALICEKEY"⟩, .preKey, Message.encode ⟨"S7", some "OTK7", "hi"⟩⟩ := by
    decide +kernel
  have houtcome := preKey_outcome hopen rfl rfl
  obtain ⟨before, s, after, hsessions, -, -, hends⟩ :=
    houtcome.claimed ⟨"S7", some "OTK7", "hi"⟩ "OTK7" (by decide +kernel) rfl
      ⟨⟨"S7", some "OTK7", true, 0⟩, by decide, rfl⟩
  exact ⟨hopen, rfl, ⟨before, s, after, hsessions, hends.sessions⟩, by decide +kernel⟩

/-! ## What becomes of the one-time keys -/

/-- The message of an envelope asks for a session from a one-time key: it names the key, and no
stored session was created from it. -/
def AsksFor (r : Receiver) (env : Envelope) (key : String) : Prop :=
  ∃ m, Message.decode env.body = .ok m ∧ m.oneTimeKey = some key ∧
    ∀ s ∈ r.sessions env.senderKey, s.oneTimeKey ≠ some key

namespace PreKeyOutcome

variable {r : Receiver} {e : Event} {env : Envelope} (h : r.PreKeyOutcome e env)

include h

/-- A message that asks for a session leaves the account with all keys but the one that it names. -/
theorem has_iff_of_asksFor {key : String} (hasked : r.AsksFor env key) (key' : String) :
    (r.decrypt e).receiver.account.has key' = true ↔ r.account.has key' = true ∧ key' ≠ key := by
  obtain ⟨m, hbody, hnamed, hnone⟩ := hasked
  cases hunused : r.account.has key with
  | false =>
    rw [(h.used m key hbody hnamed hnone hunused).account]
    refine ⟨fun hkey' => ⟨hkey', ?_⟩, And.left⟩
    rintro rfl
    simp [hunused] at hkey'
  | true =>
    have hkeys : (r.decrypt e).receiver.account.oneTimeKeys =
        (r.account.consume key).oneTimeKeys := by
      cases hpersist : r.account.failPersist with
      | true => rw [(h.unpersisted m key hbody hnamed hnone hunused hpersist).account]; rfl
      | false => rw [(h.persisted m key hbody hnamed hnone hunused hpersist).account]; rfl
    rw [← Account.has_consume, Account.has, hkeys, Account.has]

/-- A message that asks for no session leaves the account as it is. -/
theorem account_of_not_asksFor (hasks : ∀ key, ¬ r.AsksFor env key) :
    (r.decrypt e).receiver.account = r.account := by
  cases hbody : Message.decode env.body with
  | error err =>
    by_cases hsome : r.sessions env.senderKey = []
    · exact (h.malformed err hbody hsome).2.account
    · exact (h.unmatched err hbody hsome).2.account
  | ok m =>
    cases hnamed : m.oneTimeKey with
    | none => exact (h.unnamed m hbody hnamed).account
    | some key =>
      have hclaimed : ∃ s ∈ r.sessions env.senderKey, s.oneTimeKey = some key := by
        by_contra hnone
        exact hasks key ⟨m, hbody, hnamed, fun s hs hkey => hnone ⟨s, hs, hkey⟩⟩
      obtain ⟨before, s, after, -, -, -, hends⟩ := h.claimed m key hbody hnamed hclaimed
      exact hends.account

/-- The key that a message asks for is gone afterwards, and every other one is as it was. -/
theorem has_iff (key : String) :
    (r.decrypt e).receiver.account.has key = true ↔
      r.account.has key = true ∧ ¬ r.AsksFor env key := by
  by_cases hasked : ∃ key', r.AsksFor env key'
  · obtain ⟨key', hasked⟩ := hasked
    rw [h.has_iff_of_asksFor hasked key, and_congr_right_iff]
    refine fun _ => not_congr ⟨fun hkey => hkey ▸ hasked, fun hasked' => ?_⟩
    obtain ⟨m, hbody, hnamed, -⟩ := hasked
    obtain ⟨m', hbody', hnamed', -⟩ := hasked'
    rw [hbody, Except.ok.injEq] at hbody'
    rw [← hbody', hnamed, Option.some.injEq] at hnamed'
    exact hnamed'.symm
  · have hnone : ∀ key', ¬ r.AsksFor env key' := not_exists.mp hasked
    rw [h.account_of_not_asksFor hnone]
    exact (and_iff_left (hnone key)).symm

end PreKeyOutcome

end Receiver

end OlmReceiver
