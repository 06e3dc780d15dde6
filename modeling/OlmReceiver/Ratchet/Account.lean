import OlmReceiver.Ordered.KeySet
import OlmReceiver.Ratchet.Session

/-!
# Accounts

An account holds the public keys of the local device and its unused one-time keys. Creating a
session from a pre-key message uses up the one-time key that the message names; the account is to
be persisted before the session is trusted. Both are recorded in a journal, in order.
-/

namespace OlmReceiver.Ratchet

/-- What the journal of an account records. -/
inductive JournalEntry where
  /-- A new session used up a one-time key. -/
  | consumed (key : String)
  /-- The account was persisted with this many unused one-time keys. -/
  | persisted (unused : Nat)
deriving DecidableEq

/-- The account of the local device, with two switches for faults. -/
structure Account where
  keys : IdentityKeys
  oneTimeKeys : KeySet
  journal : List JournalEntry
  failPersist : Bool
  poisonNewSessions : Bool

namespace Account

/-- A fresh account with these one-time keys. -/
def new (keys : IdentityKeys) (oneTimeKeys : List String) : Account :=
  ⟨keys, KeySet.ofList oneTimeKeys, [], false, false⟩

/-- Whether a one-time key is unused. -/
def has (a : Account) (key : String) : Bool :=
  a.oneTimeKeys.contains key

/-- The account after a one-time key was used up. -/
def consume (a : Account) (key : String) : Account :=
  { a with
    oneTimeKeys := a.oneTimeKeys.remove key
    journal := a.journal ++ [.consumed key] }

/-- The session that a message naming a one-time key creates. -/
def sessionFor (a : Account) (id key : String) : Session :=
  let s := Session.inbound id key
  if a.poisonNewSessions then s.poison else s

/-- Creates a session from the body of a pre-key message. -/
def newInbound (a : Account) (body : String) : Except Error Session × Account :=
  match Message.decode body with
  | .error e => (.error e, a)
  | .ok m =>
    match m.oneTimeKey with
    | none => (.error .notPreKey, a)
    | some key =>
      if a.has key then (.ok (a.sessionFor m.sessionId key), a.consume key)
      else (.error (.unknownOneTimeKey key), a)

/-- Persists the account, unless it is told to fail. -/
def persist (a : Account) : Except Error Unit × Account :=
  if a.failPersist then (.error .persistFailed, a)
  else (.ok (), { a with journal := a.journal ++ [.persisted a.oneTimeKeys.length] })

/-- An unused one-time key is used up by the session created from it. -/
theorem newInbound_of_unused {a : Account} {body key : String} {m : Message}
    (hbody : Message.decode body = .ok m) (hkey : m.oneTimeKey = some key)
    (hunused : a.has key = true) :
    a.newInbound body = (.ok (a.sessionFor m.sessionId key), a.consume key) := by
  simp [newInbound, hbody, hkey, hunused]

/-- A one-time key that is not unused creates no session. -/
theorem newInbound_of_used {a : Account} {body key : String} {m : Message}
    (hbody : Message.decode body = .ok m) (hkey : m.oneTimeKey = some key)
    (hused : a.has key = false) :
    a.newInbound body = (.error (.unknownOneTimeKey key), a) := by
  simp [newInbound, hbody, hkey, hused]

/-- A body that is no message creates no session. -/
theorem newInbound_of_malformed {a : Account} {body : String} {err : Error}
    (hbody : Message.decode body = .error err) : a.newInbound body = (.error err, a) := by
  simp [newInbound, hbody]

/-- Either a one-time key is used up, or there is no session and nothing changes. -/
theorem newInbound_cases (a : Account) (body : String) :
    (∃ m key, Message.decode body = .ok m ∧ m.oneTimeKey = some key ∧ a.has key = true ∧
      a.newInbound body = (.ok (a.sessionFor m.sessionId key), a.consume key)) ∨
    ∃ err, a.newInbound body = (.error err, a) := by
  cases hbody : Message.decode body with
  | error err => exact .inr ⟨err, newInbound_of_malformed hbody⟩
  | ok m =>
    cases hkey : m.oneTimeKey with
    | none => exact .inr ⟨.notPreKey, by simp [newInbound, hbody, hkey]⟩
    | some key =>
      cases hunused : a.has key with
      | false => exact .inr ⟨.unknownOneTimeKey key, newInbound_of_used hbody hkey hunused⟩
      | true => exact .inl ⟨m, key, rfl, hkey, hunused, newInbound_of_unused hbody hkey hunused⟩

theorem persist_of_fail {a : Account} (h : a.failPersist = true) :
    a.persist = (.error .persistFailed, a) := by
  simp [persist, h]

theorem persist_of_ok {a : Account} (h : a.failPersist = false) :
    a.persist = (.ok (), { a with journal := a.journal ++ [.persisted a.oneTimeKeys.length] }) := by
  simp [persist, h]

/-- A key that was used up is gone, and every other one stays. -/
theorem has_consume (a : Account) (key key' : String) :
    (a.consume key).has key' = true ↔ a.has key' = true ∧ key' ≠ key := by
  simp only [has, consume, List.contains_iff_mem, KeySet.mem_remove]

@[simp] theorem keys_consume (a : Account) (key : String) : (a.consume key).keys = a.keys := rfl

@[simp] theorem failPersist_consume (a : Account) (key : String) :
    (a.consume key).failPersist = a.failPersist := rfl

@[simp] theorem id_sessionFor (a : Account) (id key : String) : (a.sessionFor id key).id = id := by
  unfold sessionFor
  split <;> rfl

@[simp] theorem oneTimeKey_sessionFor (a : Account) (id key : String) :
    (a.sessionFor id key).oneTimeKey = some key := by
  unfold sessionFor
  split <;> rfl

@[simp] theorem poisoned_sessionFor (a : Account) (id key : String) :
    (a.sessionFor id key).poisoned = a.poisonNewSessions := by
  unfold sessionFor
  split <;> simp_all [Session.inbound, Session.poison]

end Account

end OlmReceiver.Ratchet
