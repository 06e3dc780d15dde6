import OlmReceiver.Ordered.Dictionary
import OlmReceiver.Ratchet.Session

/-!
# Session stores

A store keeps the sessions of every sender key in the order in which they were added. Sessions are
only ever added; what runs over the sessions of a sender may change their state. A sender without
sessions has no entry, and looking for sessions makes none.
-/

namespace OlmReceiver

open Ratchet (Session)

/-- Why a store does not answer. -/
inductive StoreError where
  | backend (reason : String)
  | corrupted (senderKey : IdentityKey) (reason : String)
deriving DecidableEq

/-- What a store error says. -/
def StoreError.message : StoreError → String
  | .backend reason => "session store backend failure: " ++ reason
  | .corrupted key reason => "stored session for " ++ key.value ++ " is corrupted: " ++ reason

/-- The sessions of each sender key that has any, oldest first. -/
structure SessionStore where
  entries : Dictionary IdentityKey (List Session)

namespace SessionStore

/-- The store without sessions. -/
def empty : SessionStore := ⟨[]⟩

/-- The sessions of a sender key, oldest first. -/
def sessions (st : SessionStore) (key : IdentityKey) : List Session :=
  (Dictionary.get? key st.entries).getD []

/-- The number of sender keys with at least one session. -/
def senderCount (st : SessionStore) : Nat :=
  st.entries.length

/-- Runs over the sessions of a sender key and keeps what becomes of them. -/
def withSessions {α : Type} (st : SessionStore) (key : IdentityKey)
    (run : List Session → α × List Session) : α × SessionStore :=
  match Dictionary.get? key st.entries with
  | none => ((run []).1, st)
  | some sessions => ((run sessions).1, ⟨Dictionary.insert key (run sessions).2 st.entries⟩)

/-- Adds a session behind those of its sender key. -/
def add (st : SessionStore) (key : IdentityKey) (session : Session) : SessionStore :=
  ⟨Dictionary.insert key (st.sessions key ++ [session]) st.entries⟩

/-- Poisons the session of a sender key at an index, and says whether there is one. -/
def poison (st : SessionStore) (key : IdentityKey) (index : Nat) :
    Bool × SessionStore :=
  st.withSessions key fun sessions =>
    (decide (index < sessions.length), sessions.modify index Session.poison)

/-- A session of a sender key stands in one of the entries. -/
theorem mem_entries_of_mem_sessions {st : SessionStore} {key : IdentityKey} {session : Session}
    (h : session ∈ st.sessions key) : ∃ entry ∈ st.entries, session ∈ entry.2 := by
  unfold sessions at h
  cases hget : Dictionary.get? key st.entries with
  | none => simp [hget] at h
  | some sessions =>
    rw [hget] at h
    exact ⟨(key, sessions), Dictionary.mem_of_get? hget, h⟩

theorem sessions_add (st : SessionStore) (key key' : IdentityKey) (session : Session) :
    (st.add key session).sessions key' =
      if key' = key then st.sessions key ++ [session] else st.sessions key' := by
  unfold add sessions
  rw [Dictionary.get?_insert]
  split <;> rfl

/-- What runs is shown the sessions of the sender key, none where it has no entry. -/
theorem withSessions_fst {α : Type} (st : SessionStore) (key : IdentityKey)
    (run : List Session → α × List Session) :
    (st.withSessions key run).1 = (run (st.sessions key)).1 := by
  unfold withSessions sessions
  split
  · rename_i hn
    simp [hn]
  · rename_i sessions hs
    simp [hs]

/-- The store with the sessions of a sender key changed, if it has an entry. -/
def update (st : SessionStore) (key : IdentityKey) (change : List Session → List Session) :
    SessionStore :=
  match Dictionary.get? key st.entries with
  | none => st
  | some sessions => ⟨Dictionary.insert key (change sessions) st.entries⟩

/-- What is kept does not depend on what the run yields. -/
theorem withSessions_snd {α : Type} (st : SessionStore) (key : IdentityKey)
    (run : List Session → α × List Session) :
    (st.withSessions key run).2 = st.update key fun sessions => (run sessions).2 := by
  unfold withSessions update
  cases Dictionary.get? key st.entries <;> rfl

/-- Only the sessions of the sender key change, unless there are none. -/
theorem sessions_withSessions {α : Type} (st : SessionStore) (key key' : IdentityKey)
    (run : List Session → α × List Session) (h : (run []).2 = []) :
    (st.withSessions key run).2.sessions key' =
      if key' = key then (run (st.sessions key)).2 else st.sessions key' := by
  unfold withSessions sessions
  split
  · rename_i hn
    split
    · subst_vars
      simp [hn, h]
    · rfl
  · rename_i sessions hs
    simp only [Dictionary.get?_insert]
    split
    · simp [hs]
    · rfl

/-- Poisoning a session leaves the sessions of all other sender keys as they are. -/
theorem sessions_poison (st : SessionStore) (key key' : IdentityKey) (index : Nat) :
    (st.poison key index).2.sessions key' =
      if key' = key then (st.sessions key).modify index Session.poison else st.sessions key' :=
  st.sessions_withSessions key key' _ (List.modify_nil ..)

end SessionStore

end OlmReceiver
