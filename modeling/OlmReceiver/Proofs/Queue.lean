import Mathlib.Data.Finset.Card
import Mathlib.Data.Nat.Find
import Mathlib.Order.Bounds.Basic
import OlmReceiver.Unwedging

/-!
# A queue is an ordered set of requests

What is pending in a queue is told by what was done with it before. A request is pending if some mark
of it lasts: the queue was not taken since, and the request was not cleared since. The pending
requests stand in the order of their first lasting marks. A request that is marked again while it is
pending keeps its place, as its first lasting mark stays the first; one that was cleared in between
comes in behind the others.

No request is lost on the way: each mark that found its request not pending is matched by the one time
that the request was then taken or cleared, unless it is still pending.
-/

namespace OlmReceiver

namespace UnwedgeQueue

/-- What can be done with a queue. -/
inductive Op where
  | mark (request : UnwedgeRequest)
  | take
  | clear (request : UnwedgeRequest)
  | isMarked (request : UnwedgeRequest)
deriving DecidableEq

/-- What a queue answers. -/
inductive Reply where
  | marked
  | taken (requests : List UnwedgeRequest)
  | cleared (wasPending : Bool)
  | pending (isPending : Bool)
deriving DecidableEq

/-- Does something with a queue: its answer, and the queue afterwards. -/
def step (q : UnwedgeQueue) : Op → Reply × UnwedgeQueue
  | .mark request => (.marked, q.mark request)
  | .take => (.taken q.take.1, q.take.2)
  | .clear request => (.cleared (q.clear request).1, (q.clear request).2)
  | .isMarked request => (.pending (q.isMarked request), q)

/-- The queue after some things were done with it. -/
def after (q : UnwedgeQueue) (ops : List Op) : UnwedgeQueue :=
  ops.foldl (fun q op => (q.step op).2) q

/-- Something that was done: with which queue, and what that answered. -/
structure Moment where
  queue : UnwedgeQueue
  op : Op
  reply : Reply

/-- Doing something with a queue, and what it answers. -/
def moment (q : UnwedgeQueue) (op : Op) : Moment :=
  ⟨q, op, (q.step op).1⟩

/-- What was done with a queue, in order. -/
def history (q : UnwedgeQueue) : List Op → List Moment
  | [] => []
  | op :: ops => q.moment op :: (q.step op).2.history ops

@[simp] theorem after_append_singleton (q : UnwedgeQueue) (ops : List Op) (op : Op) :
    q.after (ops ++ [op]) = ((q.after ops).step op).2 :=
  List.foldl_append

@[simp] theorem history_append_singleton (q : UnwedgeQueue) (ops : List Op) (op : Op) :
    q.history (ops ++ [op]) = q.history ops ++ [(q.after ops).moment op] := by
  induction ops generalizing q with
  | nil => rfl
  | cons op' ops ih => exact congrArg (List.cons _) (ih (q.step op').2)

/-! ## Marks that last -/

/-- Whether a request is not pending any more behind an operation, if it was before. -/
def Op.removes (request : UnwedgeRequest) : Op → Bool
  | .take => true
  | .clear request' => request' = request
  | _ => false

/-- The operation at a place marks a request, and none behind it removes the request. -/
def LastingMark (ops : List Op) (request : UnwedgeRequest) (i : Nat) : Prop :=
  ops[i]? = some (.mark request) ∧ ∀ op ∈ ops.drop (i + 1), op.removes request = false

/-- A request has its first lasting mark at a place. -/
def FirstMark (ops : List Op) (request : UnwedgeRequest) (i : Nat) : Prop :=
  IsLeast {j | LastingMark ops request j} i

/-- The first lasting mark of one request stands before that of another. -/
def MarkedBefore (ops : List Op) (request request' : UnwedgeRequest) : Prop :=
  ∃ i j, FirstMark ops request i ∧ FirstMark ops request' j ∧ i < j

variable {ops : List Op} {op : Op} {request request' : UnwedgeRequest} {i : Nat}

/-- Marks stand at places of the list. -/
theorem LastingMark.lt_length (h : LastingMark ops request i) : i < ops.length :=
  (List.getElem?_eq_some_iff.mp h.1).1

/-- A mark lasts behind one more operation if it is that one, or lasted before and is not removed. -/
theorem lastingMark_append_singleton :
    LastingMark (ops ++ [op]) request i ↔
      (i = ops.length ∧ op = .mark request) ∨
        (LastingMark ops request i ∧ op.removes request = false) := by
  rcases lt_trichotomy i ops.length with hlt | rfl | hgt
  · simp only [LastingMark, List.getElem?_append_left hlt, List.drop_append_of_le_length hlt,
      List.forall_mem_append, List.forall_mem_singleton, hlt.ne, false_and, false_or, and_assoc]
  · simp [LastingMark]
  · have hnone (ops' : List Op) (hle : ops'.length ≤ i) : ¬ LastingMark ops' request i :=
      fun h => absurd h.lt_length hle.not_gt
    have hle : (ops ++ [op]).length ≤ i := by simpa using Nat.succ_le_of_lt hgt
    simp [hnone _ hle, hnone _ hgt.le, hgt.ne']

/-- A first mark stays the first as long as its request is not removed. -/
theorem FirstMark.append_singleton (h : FirstMark ops request i) (hop : op.removes request = false) :
    FirstMark (ops ++ [op]) request i := by
  refine ⟨lastingMark_append_singleton.mpr (.inr ⟨h.1, hop⟩), fun j hj => ?_⟩
  rcases lastingMark_append_singleton.mp hj with ⟨rfl, -⟩ | ⟨hj, -⟩
  · exact h.1.lt_length.le
  · exact h.2 hj

/-- A request without a lasting mark has its first one where it is marked. -/
theorem firstMark_of_new (hnew : ∀ j, ¬ LastingMark ops request j) :
    FirstMark (ops ++ [.mark request]) request ops.length := by
  refine ⟨lastingMark_append_singleton.mpr (.inl ⟨rfl, rfl⟩), fun j hj => ?_⟩
  rcases lastingMark_append_singleton.mp hj with ⟨rfl, -⟩ | ⟨hj, -⟩
  · exact le_rfl
  · exact absurd hj (hnew j)

/-- Two requests keep their order as long as neither is removed. -/
theorem MarkedBefore.append_singleton (h : MarkedBefore ops request request')
    (hop : op.removes request = false) (hop' : op.removes request' = false) :
    MarkedBefore (ops ++ [op]) request request' := by
  obtain ⟨i, j, hi, hj, hlt⟩ := h
  exact ⟨i, j, hi.append_singleton hop, hj.append_singleton hop', hlt⟩

/-- No request is marked before itself. -/
theorem MarkedBefore.ne (h : MarkedBefore ops request request') : request ≠ request' := by
  rintro rfl
  obtain ⟨i, j, hi, hj, hlt⟩ := h
  exact hlt.ne (hi.unique hj)

/-! ## One operation -/

/-- The request that an operation adds to a queue, if any. -/
def Op.added (q : UnwedgeQueue) : Op → List UnwedgeRequest
  | .mark request => if request ∈ q then [] else [request]
  | _ => []

/-- An operation leaves the requests that it does not remove in their order, and adds its own behind
them. -/
theorem step_snd (q : UnwedgeQueue) (op : Op) :
    (q.step op).2 = q.filter (fun request => !op.removes request) ++ op.added q := by
  cases op with
  | mark request =>
    simp only [step, mark, Op.added, Op.removes]
    split <;> simp
  | take => simp [step, take, Op.added, Op.removes]
  | clear request => simp [step, clear, Op.added, Op.removes, eq_comm]
  | isMarked request => simp [step, Op.added, Op.removes]

/-- A request is pending behind an operation that marks it, or that does not remove it. -/
theorem mem_step {q : UnwedgeQueue} :
    request ∈ (q.step op).2 ↔ op = .mark request ∨ (request ∈ q ∧ op.removes request = false) := by
  rw [step_snd, List.mem_append, List.mem_filter]
  cases op with
  | mark request' =>
    by_cases hpending : request' ∈ q
    · simp only [Op.added, Op.removes, if_pos hpending]
      grind
    · simp only [Op.added, Op.removes, if_neg hpending]
      grind
  | _ => simp [Op.added]

/-- A request was pending exactly if clearing it says so. -/
theorem clear_fst (q : UnwedgeQueue) (request : UnwedgeRequest) :
    (q.clear request).1 = decide (request ∈ q) := by
  simp [clear]

/-- Clearing takes one request out of a queue that holds none twice. -/
theorem clear_snd {q : UnwedgeQueue} (h : q.Nodup) (request : UnwedgeRequest) :
    (q.clear request).2 = q.erase request := by
  rw [h.erase_eq_filter]
  refine List.filter_congr fun r _ => ?_
  by_cases hr : r = request <;> simp [hr]

/-! ## What is pending -/

/-- The pending requests are those with a lasting mark. -/
theorem mem_after_iff (ops : List Op) (request : UnwedgeRequest) :
    request ∈ after [] ops ↔ ∃ i, LastingMark ops request i := by
  induction ops using List.reverseRecOn with
  | nil => simp [after, LastingMark]
  | append_singleton ops op ih =>
    simp only [after_append_singleton, mem_step, ih, lastingMark_append_singleton, exists_or,
      exists_eq_left, exists_and_right]

/-- A request with a lasting mark has a first one. -/
theorem exists_firstMark (h : ∃ i, LastingMark ops request i) : ∃ i, FirstMark ops request i := by
  classical
  exact ⟨Nat.find h, Nat.find_spec h, fun j hj => Nat.find_min' h hj⟩

/-- The pending requests stand in the order of their first lasting marks. -/
theorem pairwise_markedBefore (ops : List Op) : (after [] ops).Pairwise (MarkedBefore ops) := by
  induction ops using List.reverseRecOn with
  | nil => exact .nil
  | append_singleton ops op ih =>
    rw [after_append_singleton, step_snd, List.pairwise_append]
    have hkept : ∀ a ∈ (after [] ops).filter (fun request => !op.removes request),
        a ∈ after [] ops ∧ op.removes a = false := by
      simp
    refine ⟨(ih.filter _).imp_of_mem fun ha hb hab => ?_, ?_, fun a ha b hb => ?_⟩
    · exact hab.append_singleton (hkept _ ha).2 (hkept _ hb).2
    · cases op with
      | mark request =>
        simp only [Op.added]
        split <;> simp
      | _ => exact .nil
    -- A request that is added has its first lasting mark behind all others.
    · cases op with
      | mark request =>
        simp only [Op.added] at hb
        split at hb
        · cases hb
        · rename_i hnew
          obtain rfl := List.mem_singleton.mp hb
          obtain ⟨hpending, hop⟩ := hkept a ha
          obtain ⟨i, hi⟩ := exists_firstMark ((mem_after_iff ops a).mp hpending)
          have hfirst : FirstMark (ops ++ [.mark b]) b ops.length :=
            firstMark_of_new fun j hj => hnew ((mem_after_iff ops b).mpr ⟨j, hj⟩)
          exact ⟨i, ops.length, hi.append_singleton hop, hfirst, hi.1.lt_length⟩
      | _ => cases hb

/-- No request is pending twice. -/
theorem nodup_after (ops : List Op) : (after [] ops).Nodup :=
  (pairwise_markedBefore ops).imp MarkedBefore.ne

/-! ## Nothing is lost -/

/-- Whether a request was marked while it was not pending. -/
def Moment.enters (request : UnwedgeRequest) (m : Moment) : Bool :=
  m.op = .mark request ∧ request ∉ m.queue

/-- The requests that were taken. -/
def Moment.taken (m : Moment) : List UnwedgeRequest :=
  match m.reply with
  | .taken requests => requests
  | _ => []

/-- Whether a request was cleared that was pending. -/
def Moment.clears (request : UnwedgeRequest) (m : Moment) : Bool :=
  m.op = .clear request ∧ m.reply = .cleared true

/-- An operation on a queue that holds no request twice adds a request where a mark of it finds it not
pending, and removes it where it is taken or cleared. -/
theorem balance_step {q : UnwedgeQueue} (h : q.Nodup) (op : Op) (request : UnwedgeRequest) :
    q.count request + [q.moment op].countP (·.enters request) =
      (q.moment op).taken.count request + [q.moment op].countP (·.clears request) +
        (q.step op).2.count request := by
  simp only [List.countP_singleton]
  cases op with
  | mark request' =>
    simp only [moment, step, mark, Moment.enters, Moment.taken, Moment.clears, Op.mark.injEq,
      reduceCtorEq]
    by_cases hpending : request' ∈ q
    · rw [if_pos hpending]
      have hnot : ¬ (request' = request ∧ request ∉ q) := fun ⟨heq, hnew⟩ => hnew (heq ▸ hpending)
      simp [hnot]
    · rw [if_neg hpending, List.count_append, List.count_singleton]
      by_cases heq : request' = request
      · simp [heq, heq ▸ hpending]
      · simp [heq]
  | take => simp [moment, step, take, Moment.enters, Moment.taken, Moment.clears]
  | clear request' =>
    simp only [moment, step, clear_fst, clear_snd h, Moment.enters, Moment.taken, Moment.clears,
      Op.clear.injEq, Reply.cleared.injEq, reduceCtorEq]
    by_cases heq : request' = request
    · subst heq
      by_cases hpending : request' ∈ q
      · simp [hpending, List.count_eq_one_of_mem h hpending]
      · simp [hpending, List.count_eq_zero.mpr hpending]
    · simp [heq, List.count_erase_of_ne (Ne.symm heq)]
  | isMarked request' => simp [moment, step, Moment.enters, Moment.taken, Moment.clears]

/-- Each mark that found its request not pending is matched by the one time that the request was then
taken or cleared, unless it is still pending. -/
theorem balance (ops : List Op) (request : UnwedgeRequest) :
    (history [] ops).countP (·.enters request) =
      ((history [] ops).flatMap Moment.taken).count request +
        (history [] ops).countP (·.clears request) + (after [] ops).count request := by
  induction ops using List.reverseRecOn with
  | nil => rfl
  | append_singleton ops op ih =>
    have hstep := balance_step (nodup_after ops) op request
    simp only [history_append_singleton, after_append_singleton, List.countP_append,
      List.flatMap_append, List.flatMap_singleton, List.count_append]
    omega

/-! ## The queue as an ordered set -/

/-- What there is to know of a queue behind the operations on it. -/
structure OrderedSet (ops : List Op) (q : UnwedgeQueue) : Prop where
  /-- No request is pending twice. -/
  nodup : q.Nodup
  /-- The pending requests are those that were marked after the last removal. -/
  mem_iff (request : UnwedgeRequest) : request ∈ q ↔ ∃ i, LastingMark ops request i
  /-- They stand in the order of their first marks of that kind. -/
  ordered : q.Pairwise (MarkedBefore ops)
  /-- They are taken in that order, and none stays behind. -/
  take : q.step .take = (.taken q, [])
  /-- A request is cleared if it was pending, and the others stay as they are. -/
  clear (request : UnwedgeRequest) :
    q.step (.clear request) = (.cleared (decide (request ∈ q)), q.erase request)
  /-- To ask for a request tells whether it is pending, and changes nothing. -/
  isMarked (request : UnwedgeRequest) :
    q.step (.isMarked request) = (.pending (decide (request ∈ q)), q)
  /-- The length counts the pending requests. -/
  length : q.length = q.toFinset.card
  /-- The queue is empty exactly if nothing is pending. -/
  isEmpty : q.isEmpty = true ↔ ∀ request, q.isMarked request = false
  /-- Each mark that found its request not pending is matched by the one time that the request was
  then taken or cleared, unless it is still pending. -/
  balance (request : UnwedgeRequest) :
    (history [] ops).countP (·.enters request) =
      ((history [] ops).flatMap Moment.taken).count request +
        (history [] ops).countP (·.clears request) + if request ∈ q then 1 else 0

/-- Behind any operations, a queue that was empty at first is an ordered set, and no request that was
marked is lost. -/
theorem orderedSet_after (ops : List Op) : OrderedSet ops (after [] ops) where
  nodup := nodup_after ops
  mem_iff := mem_after_iff ops
  ordered := pairwise_markedBefore ops
  take := rfl
  clear request := by rw [step, clear_fst, clear_snd (nodup_after ops)]
  isMarked request := rfl
  length := (List.toFinset_card_of_nodup (nodup_after ops)).symm
  isEmpty := by
    simp [UnwedgeQueue.isMarked, List.isEmpty_iff, List.eq_nil_iff_forall_not_mem]
  balance request := by rw [balance, (nodup_after ops).count]

-- Only a removal lets a request lose its place.
example :
    let alice : UnwedgeRequest := ⟨⟨"@alice:example.com"⟩, ⟨"SENDER1"⟩⟩
    let bob : UnwedgeRequest := ⟨⟨"@bob:example.com"⟩, ⟨"SENDER2"⟩⟩
    after [] [.mark alice, .mark bob, .mark alice] = [alice, bob] ∧
      after [] [.mark alice, .mark bob, .clear alice, .mark alice] = [bob, alice] := by
  decide

end UnwedgeQueue

end OlmReceiver
