import OlmReceiver.Proofs.SameState
import OlmReceiver.Proofs.StoreHistory

/-!
# Injected faults are atomic

An operation on a store behind switches is let through to the sessions as a whole or not at all. After
any operations and turns of the switches, the sessions are therefore those of a store without switches
that got the operations let through and no others. What was held back shows in the count of attempts to
write, and nowhere else.

A reader may change sessions and exchange them, so that the order of the sessions is that of their
insertion only as far as readers leave each in its place. What they would do to sessions that they are
never lent does not matter, and the number of sessions is not up to readers at all. Every entry of a
store has a session in it, so that the entries are the sender keys with sessions.
-/

namespace OlmReceiver

open Ratchet (Session)

/-! ## Operations on a store without switches -/

namespace StoreOp

/-- What an operation makes of a store without switches. -/
def onStore (st : SessionStore) : StoreOp → SessionStore
  | .add key session => st.add key session
  | .change key how => (st.withSessions key fun sessions => ((), how.apply sessions)).2
  | .failReads _ | .failWrites _ => st

/-- The operations that are let through to the sessions, in order; the switches are as the operations
before have left them. -/
def letThrough : Faults → List StoreOp → List StoreOp
  | _, [] => []
  | f, op :: ops =>
    if op.isLetThrough f then op :: letThrough (op.onFaults f) ops
    else letThrough (op.onFaults f) ops

/-- The operation attempts to write. -/
def isAdd : StoreOp → Bool
  | .add .. => true
  | _ => false

/-- The session that an operation adds under a sender key. -/
def added? (key : IdentityKey) : StoreOp → Option Session
  | .add key' session => if key' = key then some session else none
  | _ => none

/-- If the operation reads the sessions that a store lends for a sender key, it leaves each of them in
its place, as far as is seen of a session. -/
def Keeps {β : Type} (seen : Session → β) (key : IdentityKey) (st : SessionStore) : StoreOp → Prop
  | .change key' how =>
    key' = key → (how.apply (st.sessions key)).map seen = (st.sessions key).map seen
  | _ => True

/-- An operation that is let through does to the sessions what it does to a store without switches; one
that is held back does nothing to them. -/
theorem inner_run (op : StoreOp) (st : FaultyStore) :
    (op.run st).inner = if op.isLetThrough st.faults then op.onStore st.inner else st.inner := by
  cases op with
  | add key session =>
    cases hwrites : st.faults.failWrites with
    | true => simp [run, FaultyStore.add, isLetThrough, hwrites]
    | false => simp [run, FaultyStore.add, isLetThrough, hwrites, onStore]
  | change key how =>
    cases hreads : st.faults.failReads with
    | true => simp [run, FaultyStore.withSessions_of_failReads hreads, isLetThrough, hreads]
    | false => simp [run, FaultyStore.withSessions_of_reads hreads, isLetThrough, hreads, onStore]
  | failReads fail => rfl
  | failWrites fail => rfl

/-- What an operation makes of the sessions of each sender key. -/
theorem sessions_onStore (op : StoreOp) (st : SessionStore) :
    (op.onStore st).sessions = op.onSessions st.sessions := by
  funext key'
  cases op with
  | add key session =>
    simp only [onStore, onSessions, SessionStore.sessions_add, Function.update_apply]
  | change key how =>
    have hnil : how.apply [] = [] := List.length_eq_zero_iff.mp (how.length_apply [])
    simp only [onStore, onSessions, Function.update_apply]
    exact st.sessions_withSessions key key' (fun l => ((), how.apply l)) hnil
  | failReads fail => rfl
  | failWrites fail => rfl

/-- As far as an operation leaves sessions in their places, it puts what it adds behind them. -/
theorem map_sessions_onStore {β : Type} {seen : Session → β} {key : IdentityKey} {op : StoreOp}
    {st : SessionStore} (h : op.Keeps seen key st) :
    ((op.onStore st).sessions key).map seen =
      (st.sessions key).map seen ++ ((op.added? key).toList).map seen := by
  rw [sessions_onStore]
  cases op with
  | add key' session =>
    by_cases heq : key' = key
    · subst heq
      simp [onSessions, added?]
    · simp [onSessions, added?, heq, Function.update_of_ne (Ne.symm heq)]
  | change key' how =>
    by_cases heq : key' = key
    · subst heq
      simp [onSessions, added?, h rfl]
    · simp [onSessions, added?, Function.update_of_ne (Ne.symm heq)]
  | failReads fail => simp [onSessions, added?]
  | failWrites fail => simp [onSessions, added?]

end StoreOp

namespace SessionStore

/-- The store behind some operations. -/
def after (st : SessionStore) (ops : List StoreOp) : SessionStore :=
  ops.foldl (fun st op => op.onStore st) st

/-- As far as operations leave the sessions that they are lent in their places, these are in the order
of their insertion. -/
theorem map_sessions_after {β : Type} {seen : Session → β} {key : IdentityKey} {ops : List StoreOp}
    {st : SessionStore}
    (h : ∀ before op behind, ops = before ++ op :: behind → op.Keeps seen key (st.after before)) :
    ((st.after ops).sessions key).map seen =
      (st.sessions key).map seen ++ (ops.filterMap (StoreOp.added? key)).map seen := by
  induction ops generalizing st with
  | nil => simp [after]
  | cons op ops ih =>
    have hop : op.Keeps seen key st := h [] op ops rfl
    have hops : ∀ before op' behind, ops = before ++ op' :: behind →
        op'.Keeps seen key ((op.onStore st).after before) :=
      fun before op' behind heq => h (op :: before) op' behind (congrArg (op :: ·) heq)
    change ((after (op.onStore st) ops).sessions key).map seen = _
    rw [ih hops, StoreOp.map_sessions_onStore hop, List.append_assoc]
    cases hadded : op.added? key with
    | none => simp [hadded]
    | some session => simp [hadded]

/-- Whatever readers do, no session is lost and none but the added are there. -/
theorem length_sessions_after (st : SessionStore) (key : IdentityKey) (ops : List StoreOp) :
    ((st.after ops).sessions key).length =
      (st.sessions key).length + (ops.filterMap (StoreOp.added? key)).length := by
  -- Of a session nothing is seen but that it is there.
  have hkeeps (st' : SessionStore) (op : StoreOp) : op.Keeps (fun _ => ()) key st' := by
    cases op with
    | change key' how =>
      intro _
      simp [how.length_apply]
    | _ => trivial
  have hmap : ((st.after ops).sessions key).map (fun _ => ()) = _ :=
    map_sessions_after fun before op _ _ => hkeeps (st.after before) op
  simpa using congrArg List.length hmap

/-! ## Entries -/

/-- The entries of a store are in order, and each has a session. -/
structure Kept (st : SessionStore) : Prop where
  ordered : Dictionary.Ordered st.entries
  occupied : ∀ entry ∈ st.entries, entry.2 ≠ []

theorem kept_empty : empty.Kept :=
  ⟨List.Pairwise.nil, nofun⟩

/-- A store is kept by an entry with a session in it. -/
theorem Kept.insert {st : SessionStore} (h : st.Kept) (key : IdentityKey) {sessions : List Session}
    (hsome : sessions ≠ []) : Kept ⟨Dictionary.insert key sessions st.entries⟩ where
  ordered := h.ordered.insert key sessions
  occupied entry hmem := by
    rcases Dictionary.mem_of_mem_insert hmem with rfl | hmem
    · exact hsome
    · exact h.occupied entry hmem

/-- Every operation keeps a store. -/
theorem Kept.onStore {st : SessionStore} (h : st.Kept) (op : StoreOp) : (op.onStore st).Kept := by
  cases op with
  | add key session => exact h.insert key (by simp)
  | change key how =>
    simp only [StoreOp.onStore, withSessions]
    cases hget : Dictionary.get? key st.entries with
    | none => exact h
    | some sessions =>
      refine h.insert key fun hnil => h.occupied _ (Dictionary.mem_of_get? hget) ?_
      rw [← List.length_eq_zero_iff, ← how.length_apply]
      exact List.length_eq_zero_iff.mpr hnil
  | failReads fail => exact h
  | failWrites fail => exact h

theorem Kept.after {st : SessionStore} (h : st.Kept) (ops : List StoreOp) : (st.after ops).Kept := by
  induction ops generalizing st with
  | nil => exact h
  | cons op ops ih => exact ih (h.onStore op)

/-- The sender keys with an entry are those with a session. -/
theorem Kept.mem_keys_iff {st : SessionStore} (h : st.Kept) {key : IdentityKey} :
    key ∈ st.entries.map Prod.fst ↔ st.sessions key ≠ [] := by
  constructor
  · intro hmem
    obtain ⟨⟨_, sessions⟩, hentry, rfl⟩ := List.mem_map.mp hmem
    have hget := h.ordered.get?_eq_some_iff.mpr hentry
    simpa [SessionStore.sessions, hget] using h.occupied _ hentry
  · intro hsome
    cases hget : Dictionary.get? key st.entries with
    | none => simp [SessionStore.sessions, hget] at hsome
    | some sessions => exact List.mem_map.mpr ⟨_, Dictionary.mem_of_get? hget, rfl⟩

/-- Reading the sessions of a sender key that has none makes no entry. -/
theorem Kept.withSessions_unknown {st : SessionStore} (h : st.Kept) {key : IdentityKey}
    (hnone : st.sessions key = []) {α : Type} (run : List Session → α × List Session) :
    (st.withSessions key run).2 = st := by
  cases hget : Dictionary.get? key st.entries with
  | none => simp [withSessions, hget]
  | some sessions =>
    have hmem : key ∈ st.entries.map Prod.fst :=
      List.mem_map.mpr ⟨_, Dictionary.mem_of_get? hget, rfl⟩
    exact absurd hnone (h.mem_keys_iff.mp hmem)

end SessionStore

namespace FaultyStore

/-- The store behind some operations. -/
def after (st : FaultyStore) (ops : List StoreOp) : FaultyStore :=
  ops.foldl (fun st op => op.run st) st

/-- The sessions are what the operations make of them that are let through. -/
theorem inner_after (st : FaultyStore) (ops : List StoreOp) :
    (st.after ops).inner = st.inner.after (StoreOp.letThrough st.faults ops) := by
  induction ops generalizing st with
  | nil => rfl
  | cons op ops ih =>
    change (after (op.run st) ops).inner = _
    rw [ih, StoreOp.faults_run, StoreOp.inner_run, StoreOp.letThrough]
    split <;> rfl

/-- Every operation that attempts to write is counted. -/
theorem writeAttempts_after (st : FaultyStore) (ops : List StoreOp) :
    (st.after ops).faults.writeAttempts =
      st.faults.writeAttempts + ops.countP StoreOp.isAdd := by
  induction ops generalizing st with
  | nil => rfl
  | cons op ops ih =>
    change (after (op.run st) ops).faults.writeAttempts = _
    rw [ih, StoreOp.faults_run, List.countP_cons]
    cases op <;> simp [StoreOp.onFaults, StoreOp.isAdd]
    omega

/-! ## What a store shows -/

/-- The sessions that operations on a new store add under a sender key, in order; those that are held
back add none. -/
def inserted (ops : List StoreOp) (key : IdentityKey) : List Session :=
  (StoreOp.letThrough .none ops).filterMap (StoreOp.added? key)

/-- A store is as operations on a new one leave it. -/
structure LeftBy (ops : List StoreOp) (st : FaultyStore) : Prop where
  /-- The sessions are those of a store without switches that got what was let through. -/
  inner : st.inner = SessionStore.empty.after (StoreOp.letThrough .none ops)
  /-- A read that fails runs nothing, whatever it was to run. -/
  failedRead (hfail : st.faults.failReads = true) {α : Type} (key : IdentityKey)
    (run : List Session → α × List Session) : st.withSessions key run = (.error readFailure, st)
  /-- A read that does not fail is one of the sessions. -/
  read (hreads : st.faults.failReads = false) {α : Type} (key : IdentityKey)
    (run : List Session → α × List Session) :
    st.withSessions key run =
      (.ok (st.inner.withSessions key run).1, { st with inner := (st.inner.withSessions key run).2 })
  /-- A write that fails adds nothing. -/
  failedWrite (hfail : st.faults.failWrites = true) (key : IdentityKey) (session : Session) :
    (st.add key session).1 = .error writeFailure ∧ (st.add key session).2.inner = st.inner
  /-- A write that does not fail is one to the sessions. -/
  write (hwrites : st.faults.failWrites = false) (key : IdentityKey) (session : Session) :
    (st.add key session).1 = .ok () ∧ (st.add key session).2.inner = st.inner.add key session
  /-- Attempts to write are counted, failed or not. -/
  writeAttempts : st.faults.writeAttempts = ops.countP StoreOp.isAdd
  /-- There are as many sessions under a sender key as were inserted. -/
  count (key : IdentityKey) : (st.inner.sessions key).length = (inserted ops key).length
  /-- As far as readers leave the sessions that they are lent in their places, these are in the order
  of insertion. -/
  order {β : Type} (seen : Session → β) (key : IdentityKey)
    (hkeeps : ∀ before op behind, StoreOp.letThrough .none ops = before ++ op :: behind →
      op.Keeps seen key (SessionStore.empty.after before)) :
    (st.inner.sessions key).map seen = (inserted ops key).map seen
  /-- The senders that are counted are those with a session. -/
  senders : ∃ keys : List IdentityKey, keys.Nodup ∧
    (∀ key, key ∈ keys ↔ st.inner.sessions key ≠ []) ∧ st.inner.senderCount = keys.length
  /-- Reading the sessions of an unknown sender changes nothing, whether or not it fails. -/
  unknown {key : IdentityKey} (hnone : st.inner.sessions key = []) {α : Type}
    (run : List Session → α × List Session) : (st.withSessions key run).2 = st

/-- After any operations and turns of the switches, a store that was new holds what was let through,
with exact counts. -/
theorem leftBy_after (ops : List StoreOp) : LeftBy ops (empty.after ops) := by
  have hinner : (empty.after ops).inner =
    SessionStore.empty.after (StoreOp.letThrough .none ops) := empty.inner_after ops
  have hkept : (empty.after ops).inner.Kept := hinner ▸ SessionStore.kept_empty.after _
  exact
    { inner := hinner
      failedRead := fun hfail _ key run => withSessions_of_failReads hfail key run
      read := fun hreads _ key run => by
        rw [withSessions_of_reads hreads, SessionStore.withSessions_fst]
      failedWrite := fun hfail key session => by simp [add, hfail]
      write := fun hwrites key session => by simp [add, hwrites]
      writeAttempts := by rw [writeAttempts_after]; exact Nat.zero_add _
      count := fun key => by
        rw [hinner, SessionStore.length_sessions_after]
        exact Nat.zero_add _
      order := fun seen key hkeeps => by
        rw [hinner, SessionStore.map_sessions_after hkeeps]
        rfl
      senders := by
        refine ⟨(empty.after ops).inner.entries.map Prod.fst, hkept.ordered.nodup_keys, ?_, ?_⟩
        · exact fun key => hkept.mem_keys_iff
        · exact (List.length_map _).symm
      unknown := fun {key} hnone _ run => by
        cases hreads : (empty.after ops).faults.failReads with
        | true => rw [withSessions_of_failReads hreads]
        | false =>
          rw [withSessions_of_reads hreads]
          simp only [hkept.withSessions_unknown hnone run] }

/-- Two sessions are added under a sender key, and a reader exchanges them. -/
def exchange : List StoreOp :=
  [.add ⟨"ALICEKEY"⟩ (.established "S1"), .add ⟨"ALICEKEY"⟩ (.established "S2"),
    .change ⟨"ALICEKEY"⟩ ⟨List.reverse, fun _ => List.length_reverse⟩]

/-- Sessions are not always in the order of their insertion. -/
theorem not_always_in_order :
    ¬ ∀ (ops : List StoreOp) (key : IdentityKey),
      ((empty.after ops).inner.sessions key).map Session.id =
        (inserted ops key).map Session.id := by
  intro h
  have hordered := h exchange ⟨"ALICEKEY"⟩
  revert hordered
  decide +kernel

end FaultyStore

end OlmReceiver
