import OlmReceiver.Store.Basic

/-!
# Stores that fail on demand

A faulty store is a session store behind two switches. While reads fail, nothing runs over the
sessions; while writes fail, nothing is added. Attempts to write are counted, failed or not.
-/

namespace OlmReceiver

open Ratchet (Session)

/-- The switches of a faulty store and its count of attempts to write. -/
@[ext]
structure Faults where
  failReads : Bool := false
  failWrites : Bool := false
  writeAttempts : Nat := 0
deriving DecidableEq

/-- Nothing fails and nothing was written. -/
def Faults.none : Faults := {}

/-- A session store behind switches. -/
structure FaultyStore where
  inner : SessionStore
  faults : Faults

namespace FaultyStore

/-- A store without sessions that does not fail. -/
def empty : FaultyStore := ⟨.empty, .none⟩

/-- What a read says while reads fail. -/
def readFailure : StoreError := .backend "injected read failure"

/-- What a write says while writes fail. -/
def writeFailure : StoreError := .backend "injected write failure"

/-- Runs over the sessions of a sender key, unless reads fail. -/
def withSessions {α : Type} (st : FaultyStore) (key : IdentityKey)
    (run : List Session → α × List Session) : Except StoreError α × FaultyStore :=
  if st.faults.failReads then (.error readFailure, st)
  else
    let (a, inner) := st.inner.withSessions key run
    (.ok a, { st with inner })

/-- Adds a session, unless writes fail. -/
def add (st : FaultyStore) (key : IdentityKey) (session : Session) :
    Except StoreError Unit × FaultyStore :=
  let faults := { st.faults with writeAttempts := st.faults.writeAttempts + 1 }
  if st.faults.failWrites then (.error writeFailure, { st with faults })
  else (.ok (), ⟨st.inner.add key session, faults⟩)

/-- Makes reads fail or succeed. -/
def setFailReads (st : FaultyStore) (fail : Bool) : FaultyStore :=
  { st with faults := { st.faults with failReads := fail } }

/-- Makes writes fail or succeed. -/
def setFailWrites (st : FaultyStore) (fail : Bool) : FaultyStore :=
  { st with faults := { st.faults with failWrites := fail } }

/-- A failing read runs nothing. -/
theorem withSessions_of_failReads {α : Type} {st : FaultyStore} (h : st.faults.failReads = true)
    (key : IdentityKey) (run : List Session → α × List Session) :
    st.withSessions key run = (.error readFailure, st) := by
  simp [withSessions, h]

/-- A read that does not fail is one of the store behind the switches. -/
theorem withSessions_of_reads {α : Type} {st : FaultyStore} (h : st.faults.failReads = false)
    (key : IdentityKey) (run : List Session → α × List Session) :
    st.withSessions key run =
      (.ok (run (st.inner.sessions key)).1,
        { st with inner := (st.inner.withSessions key run).2 }) := by
  simp [withSessions, h, SessionStore.withSessions_fst]

/-- Adding changes no switch, and is counted whether or not it fails. -/
theorem faults_add (st : FaultyStore) (key : IdentityKey) (session : Session) :
    (st.add key session).2.faults =
      { st.faults with writeAttempts := st.faults.writeAttempts + 1 } := by
  unfold add
  split <;> rfl

/-- Every attempt to write is counted, failed or not. -/
@[simp] theorem writeAttempts_add (st : FaultyStore) (key : IdentityKey) (session : Session) :
    (st.add key session).2.faults.writeAttempts = st.faults.writeAttempts + 1 := by
  rw [faults_add]

/-- A session is added behind those of its sender key, unless writes fail. -/
theorem sessions_add (st : FaultyStore) (key key' : IdentityKey) (session : Session) :
    (st.add key session).2.inner.sessions key' =
      if key' = key ∧ st.faults.failWrites = false then st.inner.sessions key ++ [session]
      else st.inner.sessions key' := by
  unfold add
  cases st.faults.failWrites with
  | true => simp
  | false => simpa using SessionStore.sessions_add st.inner key key' session

end FaultyStore

end OlmReceiver
