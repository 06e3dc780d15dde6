import Mathlib.Logic.Function.Basic
import Mathlib.Logic.Relation
import OlmReceiver.Store.Handles

/-!
# Histories of handles

Handles grow into trees: a handle is that of a new store, a copy of an earlier one, or wraps the
sessions of an earlier one anew. What should be seen through a handle is told by its tree and by the
operations alone, without a word on places. Its sessions are what the operations made of them that were
issued through handles of the same tree and let through when they were issued; its switches and its
count are what the operations made of them that were issued through handles joined to it by copies.

Places are given to handles in the order in which they are added. Two handles get the same place
exactly if a chain of links joins them.
-/

namespace OlmReceiver

open Ratchet (Session)

/-! ## Operations -/

/-- What a reader makes of sessions; it neither adds nor removes any. -/
structure SessionsChange where
  apply : List Session → List Session
  length_apply (sessions : List Session) : (apply sessions).length = sessions.length

/-- An operation on a store. -/
inductive StoreOp where
  | add (key : IdentityKey) (session : Session)
  | change (key : IdentityKey) (how : SessionsChange)
  | failReads (fail : Bool)
  | failWrites (fail : Bool)

namespace StoreOp

/-- The store behind an operation. -/
def run (st : FaultyStore) : StoreOp → FaultyStore
  | .add key session => (st.add key session).2
  | .change key how => (st.withSessions key fun sessions => ((), how.apply sessions)).2
  | .failReads fail => st.setFailReads fail
  | .failWrites fail => st.setFailWrites fail

/-- What an operation makes of the switches and of the count. -/
def onFaults (f : Faults) : StoreOp → Faults
  | .add .. => { f with writeAttempts := f.writeAttempts + 1 }
  | .change .. => f
  | .failReads fail => { f with failReads := fail }
  | .failWrites fail => { f with failWrites := fail }

/-- Whether the switches let an operation through to the sessions. -/
def isLetThrough (f : Faults) : StoreOp → Bool
  | .add .. => !f.failWrites
  | .change .. => !f.failReads
  | _ => false

/-- What an operation makes of the sessions of each sender key once it is let through. -/
def onSessions (sessions : IdentityKey → List Session) : StoreOp → IdentityKey → List Session
  | .add key session => Function.update sessions key (sessions key ++ [session])
  | .change key how => Function.update sessions key (how.apply (sessions key))
  | _ => sessions

/-- An operation does to the switches and to the count of a store what it is said to do. -/
theorem faults_run (op : StoreOp) (st : FaultyStore) : (op.run st).faults = op.onFaults st.faults := by
  cases op with
  | add key session => exact st.faults_add key session
  | change key how =>
    simp only [run, FaultyStore.withSessions, onFaults]
    split <;> rfl
  | failReads fail => rfl
  | failWrites fail => rfl

/-- An operation does to the sessions of a store what it is said to do, if it is let through, and else
nothing. -/
theorem sessions_run (op : StoreOp) (st : FaultyStore) :
    (op.run st).inner.sessions =
      if op.isLetThrough st.faults then op.onSessions st.inner.sessions else st.inner.sessions := by
  funext key'
  cases op with
  | add key session =>
    cases hwrites : st.faults.failWrites with
    | true => simp [run, st.sessions_add, isLetThrough, hwrites]
    | false =>
      simp [run, st.sessions_add, isLetThrough, hwrites, onSessions, Function.update_apply]
  | change key how =>
    cases hreads : st.faults.failReads with
    | true => simp [run, FaultyStore.withSessions_of_failReads hreads, isLetThrough, hreads]
    | false =>
      have hnil : how.apply [] = [] := List.length_eq_zero_iff.mp (how.length_apply [])
      have hkept := st.inner.sessions_withSessions key key' (fun l => ((), how.apply l)) hnil
      simpa [run, FaultyStore.withSessions_of_reads hreads, isLetThrough, hreads, onSessions,
        Function.update_apply] using hkept
  | _ => rfl

end StoreOp

/-! ## Histories -/

/-- What was done with a growing list of handles; handles are known by their numbers in it. -/
inductive StoreHistory : Nat → Type
  /-- There is no handle yet. -/
  | start : StoreHistory 0
  /-- A handle of a new store is added. -/
  | fresh {n : Nat} (t : StoreHistory n) : StoreHistory (n + 1)
  /-- A copy of a handle is added. -/
  | copy {n : Nat} (t : StoreHistory n) (i : Fin n) : StoreHistory (n + 1)
  /-- A handle is added that wraps the sessions of another anew. -/
  | rewrap {n : Nat} (t : StoreHistory n) (i : Fin n) : StoreHistory (n + 1)
  /-- An operation is issued through a handle. -/
  | use {n : Nat} (t : StoreHistory n) (i : Fin n) (op : StoreOp) : StoreHistory n

/-- How a handle came to be. -/
inductive Origin where
  | fresh
  | copy (i : Nat)
  | rewrap (i : Nat)

/-- The handle that a copy was made of. -/
def Origin.copied? : Origin → Option Nat
  | .copy i => some i
  | _ => none

/-- The handle that a copy or a new wrapping was made of. -/
def Origin.derived? : Origin → Option Nat
  | .copy i | .rewrap i => some i
  | .fresh => none

/-- Two handles are joined by a chain of links, each from a handle to the one it was made of. -/
def Origin.Joined (parent? : Origin → Option Nat) (origins : List Origin) : Nat → Nat → Prop :=
  Relation.EqvGen fun i j => origins[j]?.bind parent? = some i

/-- An operation and the handle that it was issued through. -/
structure StoreUse where
  handle : Nat
  op : StoreOp

namespace StoreHistory

variable {n : Nat}

/-- How the handles came to be, in order. -/
def origins {n : Nat} : StoreHistory n → List Origin
  | .start => []
  | .fresh t => t.origins ++ [.fresh]
  | .copy t i => t.origins ++ [.copy i]
  | .rewrap t i => t.origins ++ [.rewrap i]
  | .use t _ _ => t.origins

/-- Two handles derive from the same new store, by any chain of copies and new wrappings. -/
def Related (t : StoreHistory n) : Nat → Nat → Prop :=
  Origin.Joined Origin.derived? t.origins

/-- Two handles are joined by copies alone. -/
def Linked (t : StoreHistory n) : Nat → Nat → Prop :=
  Origin.Joined Origin.copied? t.origins

/-- All operations in order, each with the handle that it was issued through. -/
def uses {n : Nat} : StoreHistory n → List StoreUse
  | .start => []
  | .fresh t | .copy t _ | .rewrap t _ => t.uses
  | .use t i op => t.uses ++ [⟨i, op⟩]

open Classical in
/-- The switches and the count of a handle: what was made of them through the handles that are joined
to it by copies. -/
noncomputable def faultsSeen (t : StoreHistory n) (i : Nat) : Faults :=
  (t.uses.filter fun u => t.Linked i u.handle).foldl (fun f u => u.op.onFaults f) .none

/-- The operations that were let through to the sessions when they were issued, in order. -/
noncomputable def effective {n : Nat} : StoreHistory n → List StoreUse
  | .start => []
  | .fresh t | .copy t _ | .rewrap t _ => t.effective
  | .use t i op => t.effective ++ if op.isLetThrough (t.faultsSeen i) then [⟨i, op⟩] else []

open Classical in
/-- The sessions seen through a handle: what was made of them through the handles that derive from the
same new store. -/
noncomputable def sessionsSeen (t : StoreHistory n) (i : Nat) : IdentityKey → List Session :=
  (t.effective.filter fun u => t.Related i u.handle).foldl (fun s u => u.op.onSessions s) fun _ => []

end StoreHistory

/-! ## Joined handles name the same place -/

namespace Origin

/-- Each handle is given a place: a new one, or that of the handle that it was made of. -/
inductive Placed (parent? : Origin → Option Nat) : List Origin → List Nat → Nat → Prop
  | nil : Placed parent? [] [] 0
  | new {origins : List Origin} {places : List Nat} {count : Nat} {o : Origin}
    (h : Placed parent? origins places count) (ho : parent? o = none) :
    Placed parent? (origins ++ [o]) (places ++ [count]) (count + 1)
  | shared {origins : List Origin} {places : List Nat} {count i p : Nat} {o : Origin}
    (h : Placed parent? origins places count) (ho : parent? o = some i) (hp : places[i]? = some p) :
    Placed parent? (origins ++ [o]) (places ++ [p]) count

variable {parent? : Origin → Option Nat} {origins : List Origin} {places : List Nat} {count : Nat}

theorem Placed.length_eq (h : Placed parent? origins places count) :
    places.length = origins.length := by
  induction h with
  | nil => rfl
  | new h ho ih => simp [ih]
  | shared h ho hp ih => simp [ih]

/-- Places are numbered from zero on. -/
theorem Placed.lt_count (h : Placed parent? origins places count) :
    ∀ p ∈ places, p < count := by
  induction h with
  | nil => simp
  | new h ho ih =>
    intro p hp
    rcases List.mem_append.mp hp with hp | hp
    · exact Nat.lt_succ_of_lt (ih p hp)
    · obtain rfl := List.mem_singleton.mp hp
      exact Nat.lt_succ_self _
  | shared h ho hp ih =>
    intro p' hp'
    rcases List.mem_append.mp hp' with hp' | hp'
    · exact ih p' hp'
    · obtain rfl := List.mem_singleton.mp hp'
      exact ih _ (List.mem_of_getElem? hp)

/-- A further handle leaves the links between those before it. -/
theorem Joined.append {i j : Nat} (h : Joined parent? origins i j) (o : Origin) :
    Joined parent? (origins ++ [o]) i j := by
  refine Relation.EqvGen.mono ?_ i j h
  intro i j hlink
  obtain ⟨o', ho', -⟩ := Option.bind_eq_some_iff.mp hlink
  rwa [List.getElem?_append_left (List.getElem?_eq_some_iff.mp ho').1]

/-- The last handle is joined to the one that it was made of. -/
theorem joined_last {o : Origin} {i : Nat} (ho : parent? o = some i) :
    Joined parent? (origins ++ [o]) i origins.length := by
  refine .rel _ _ ?_
  rw [List.getElem?_concat_length]
  exact ho

/-- A link either was there before the last handle was added, or leads from that handle to the one that
it was made of. -/
theorem link_append {o : Origin} {i j : Nat} (h : (origins ++ [o])[j]?.bind parent? = some i) :
    origins[j]?.bind parent? = some i ∨ j = origins.length ∧ parent? o = some i := by
  rcases Nat.lt_or_ge j origins.length with hlt | hge
  · rw [List.getElem?_append_left hlt] at h
    exact .inl h
  · obtain ⟨o', ho', hparent⟩ := Option.bind_eq_some_iff.mp h
    grind

/-- A handle has the place of the one that it was made of. -/
theorem Placed.place_of_link (h : Placed parent? origins places count) {i j : Nat}
    (hlink : origins[j]?.bind parent? = some i) :
    ∃ p, places[i]? = some p ∧ places[j]? = some p := by
  have hkeep {places : List Nat} {i p : Nat} (hi : places[i]? = some p) (q : Nat) :
      (places ++ [q])[i]? = some p := by
    grind
  induction h with
  | nil => cases hlink
  | @new origins places count o h ho ih =>
    rcases link_append hlink with hlink | ⟨-, ho'⟩
    · obtain ⟨p, hi, hj⟩ := ih hlink
      exact ⟨p, hkeep hi count, hkeep hj count⟩
    · rw [ho] at ho'
      cases ho'
  | @shared origins places count k q o h ho hq ih =>
    rcases link_append hlink with hlink | ⟨rfl, ho'⟩
    · obtain ⟨p, hi, hj⟩ := ih hlink
      exact ⟨p, hkeep hi q, hkeep hj q⟩
    · obtain rfl := Option.some.inj (ho.symm.trans ho')
      exact ⟨q, hkeep hq q, by rw [← h.length_eq, List.getElem?_concat_length]⟩

/-- Joined handles have the same place. -/
theorem Placed.place_of_joined (h : Placed parent? origins places count) {i j : Nat}
    (hjoined : Joined parent? origins i j) : places[i]? = places[j]? := by
  induction hjoined with
  | rel i j hlink =>
    obtain ⟨p, hi, hj⟩ := h.place_of_link hlink
    exact hi.trans hj.symm
  | refl i => rfl
  | symm i j _ ih => exact ih.symm
  | trans i j k _ _ ih ih' => exact ih.trans ih'

/-- Handles with the same place are joined. -/
theorem Placed.joined_of_place (h : Placed parent? origins places count) {i j p : Nat}
    (hi : places[i]? = some p) (hj : places[j]? = some p) : Joined parent? origins i j := by
  induction h generalizing i j p with
  | nil => cases hi
  | @new origins places count o h ho ih =>
    -- The new place belongs to the last handle alone.
    have hcases {i : Nat} (hi : (places ++ [count])[i]? = some p) :
        places[i]? = some p ∧ p < count ∨ i = places.length ∧ p = count := by
      have hlt (h' : places[i]? = some p) := h.lt_count p (List.mem_of_getElem? h')
      grind
    rcases hcases hi with ⟨hi, hlt⟩ | ⟨rfl, rfl⟩
    · rcases hcases hj with ⟨hj, -⟩ | ⟨-, rfl⟩
      · exact (ih hi hj).append o
      · exact absurd hlt (Nat.lt_irrefl _)
    · rcases hcases hj with ⟨-, hlt⟩ | ⟨rfl, -⟩
      · exact absurd hlt (Nat.lt_irrefl _)
      · exact .refl _
  | @shared origins places count k q o h ho hq ih =>
    -- The last handle is joined to an earlier one with the same place.
    have hearlier {i : Nat} (hi : (places ++ [q])[i]? = some p) :
        ∃ i', places[i']? = some p ∧ Joined parent? (origins ++ [o]) i' i := by
      have hcases : places[i]? = some p ∨ i = places.length ∧ p = q := by
        grind
      rcases hcases with hi | ⟨rfl, rfl⟩
      · exact ⟨i, hi, .refl i⟩
      · exact ⟨k, hq, h.length_eq ▸ joined_last ho⟩
    obtain ⟨i', hi', hjoined⟩ := hearlier hi
    obtain ⟨j', hj', hjoined'⟩ := hearlier hj
    exact .trans _ _ _ (.symm _ _ hjoined) (.trans _ _ _ ((ih hi' hj').append o) hjoined')

/-- Handles are joined exactly if they have the same place. -/
theorem Placed.joined_iff (h : Placed parent? origins places count) {i j p q : Nat}
    (hi : places[i]? = some p) (hj : places[j]? = some q) :
    Joined parent? origins i j ↔ q = p := by
  refine ⟨fun hjoined => ?_, fun heq => h.joined_of_place hi (heq ▸ hj)⟩
  have hplaces := h.place_of_joined hjoined
  rw [hi, hj] at hplaces
  exact (Option.some.inj hplaces).symm

end Origin

end OlmReceiver
