import Mathlib.Data.List.GetD
import OlmReceiver.Proofs.StoreHistory

/-!
# What handles of stores share

Each handle observes what was done through the handles that it shares its store with, and nothing
else. The sessions are shared by all handles that derive from one new store, by any chain of copies and
new wrappings; the switches and the count of attempts to write are shared by handles that are joined by
copies alone.

The proof looks at the places that the handles name. Each place holds what the operations issued for it
made of it, and handles name the same place exactly if they are joined.
-/

namespace OlmReceiver

open Ratchet (Session)

namespace StoreHistory

variable {n : Nat}

/-! ## The places behind the handles -/

/-- A handle of a list of known length. -/
def nth (w : { w : StoreHandles // w.handles.length = n }) (i : Fin n) : StoreHandle :=
  w.1.handles.get (i.cast w.2.symm)

/-- The handles, and the places that they name, behind a history. -/
def world {n : Nat} : StoreHistory n → { w : StoreHandles // w.handles.length = n }
  | .start => ⟨{}, rfl⟩
  | .fresh t => ⟨t.world.1.fresh, by simp [StoreHandles.fresh, t.world.2]⟩
  | .copy t i => ⟨t.world.1.copy (nth t.world i), by simp [StoreHandles.copy, t.world.2]⟩
  | .rewrap t i => ⟨t.world.1.rewrap (nth t.world i), by simp [StoreHandles.rewrap, t.world.2]⟩
  | .use t i op => ⟨(t.world.1.run (nth t.world i) fun st => ((), op.run st)).2, t.world.2⟩

/-- The handle of a number. -/
def handle (t : StoreHistory n) (i : Fin n) : StoreHandle :=
  nth t.world i

/-- The store as seen through the handle of a number. -/
def view (t : StoreHistory n) (i : Fin n) : FaultyStore :=
  t.world.1.view (t.handle i)

@[simp] theorem world_fresh (t : StoreHistory n) : t.fresh.world.1 = t.world.1.fresh := rfl

@[simp] theorem world_copy (t : StoreHistory n) (i : Fin n) :
    (t.copy i).world.1 = t.world.1.copy (t.handle i) := rfl

@[simp] theorem world_rewrap (t : StoreHistory n) (i : Fin n) :
    (t.rewrap i).world.1 = t.world.1.rewrap (t.handle i) := rfl

@[simp] theorem world_use (t : StoreHistory n) (i : Fin n) (op : StoreOp) :
    (t.use i op).world.1 = t.world.1.put (t.handle i) (op.run (t.view i)) := rfl

end StoreHistory

/-! ## What the places hold -/

section Holds

variable {α β : Type} {start : α} {step : α → β → α} {cells : List α} {log : List (Nat × β)}

/-- Each of some places holds what the entries of a log that name the place made of what it held at
first. -/
def Holds (start : α) (step : α → β → α) (cells : List α) (log : List (Nat × β)) : Prop :=
  ∀ p, cells.getD p start = ((log.filter fun e => e.1 = p).map Prod.snd).foldl step start

/-- A place that is not there yet reads as one that was just added. -/
theorem getD_concat_default (cells : List α) (start : α) (p : Nat) :
    (cells ++ [start]).getD p start = cells.getD p start := by
  rcases Nat.lt_or_ge p cells.length with hlt | hge
  · exact List.getD_append _ _ _ _ hlt
  · rw [List.getD_append_right _ _ _ _ hge, List.getD_eq_default _ _ hge]
    cases p - cells.length with
    | zero => rfl
    | succ q => rfl

/-- A new place holds what no entry has changed yet. -/
theorem Holds.grow (h : Holds start step cells log) : Holds start step (cells ++ [start]) log :=
  fun p => (getD_concat_default cells start p).trans (h p)

/-- Writing back what a place holds changes nothing. -/
theorem Holds.keep (h : Holds start step cells log) (p : Nat) :
    Holds start step (cells.set p (cells.getD p start)) log := by
  intro q
  rw [← h q]
  by_cases heq : p = q
  · subst heq
    by_cases hp : p < cells.length
    · simp [List.getD_eq_getElem?_getD, hp]
    · rw [List.set_eq_of_length_le (Nat.le_of_not_lt hp)]
  · simp [List.getD_eq_getElem?_getD, heq]

/-- An entry changes what its place holds, and nothing else. -/
theorem Holds.write (h : Holds start step cells log) {p : Nat} (hp : p < cells.length) (b : β) :
    Holds start step (cells.set p (step (cells.getD p start) b)) (log ++ [(p, b)]) := by
  intro q
  by_cases heq : p = q
  · subst heq
    simp [List.filter_append, List.getD_eq_getElem?_getD, hp, ← h p]
  · simp [List.filter_append, List.getD_eq_getElem?_getD, heq, ← h q]

end Holds

namespace StoreHistory

variable {n : Nat}

/-- The place that the handle of a number names in one layer, sessions or switches. -/
def place (t : StoreHistory n) (layer : StoreHandle → Nat) (i : Nat) : Nat :=
  (t.world.1.handles.map layer).getD i 0

/-- Operations in order, each with the place that it was issued for. -/
def log (t : StoreHistory n) (layer : StoreHandle → Nat) (us : List StoreUse) :
    List (Nat × StoreOp) :=
  us.map fun u => (t.place layer u.handle, u.op)

theorem getElem?_handles (t : StoreHistory n) (i : Fin n) :
    t.world.1.handles[i.val]? = some (t.handle i) := by
  simp [handle, nth]

/-- The place of a handle is the one that it names. -/
theorem place_handle (t : StoreHistory n) (layer : StoreHandle → Nat) (i : Fin n) :
    t.place layer i = layer (t.handle i) := by
  simp [place, List.getD_eq_getElem?_getD, getElem?_handles]

/-- Operations are issued through handles that are there. -/
theorem handle_lt (t : StoreHistory n) : ∀ u ∈ t.uses, u.handle < n := by
  induction t with
  | start => simp [uses]
  | use t i op ih =>
    intro u hu
    rcases List.mem_append.mp hu with hu | hu
    · exact ih u hu
    · rw [List.mem_singleton.mp hu]
      exact i.isLt
  | _ => exact fun u hu => Nat.lt_succ_of_lt (by rename_i ih; exact ih u hu)

/-- What is let through was issued before. -/
theorem effective_subset (t : StoreHistory n) : t.effective ⊆ t.uses := by
  induction t with
  | start => exact List.Subset.refl _
  | use t i op ih =>
    simp only [effective, uses]
    split
    · exact List.append_subset.mpr
        ⟨List.subset_append_of_subset_left _ ih, List.subset_append_right _ _⟩
    · rw [List.append_nil]
      exact List.subset_append_of_subset_left _ ih
  | _ => assumption

/-- What is let through was issued through handles that are there. -/
theorem handle_lt_of_effective (t : StoreHistory n) : ∀ u ∈ t.effective, u.handle < n :=
  fun u hu => t.handle_lt u (t.effective_subset hu)

/-- Further handles do not change the places that operations were issued for. -/
theorem log_congr {m : Nat} (t : StoreHistory n) (t' : StoreHistory m) {added : List StoreHandle}
    (hworld : t'.world.1.handles = t.world.1.handles ++ added) (layer : StoreHandle → Nat)
    {us : List StoreUse} (hus : ∀ u ∈ us, u.handle < n) : t'.log layer us = t.log layer us := by
  refine List.map_congr_left fun u hu => ?_
  have hlt : u.handle < (t.world.1.handles.map layer).length := by
    rw [List.length_map, t.world.2]
    exact hus u hu
  rw [place, place, hworld, List.map_append, List.getD_append _ _ _ _ hlt]

/-- Sessions are shared by copies and by new wrappings. -/
theorem placed_sessions (t : StoreHistory n) :
    Origin.Placed Origin.derived? t.origins (t.world.1.handles.map StoreHandle.sessions)
      t.world.1.sessions.length := by
  induction t with
  | start => exact .nil
  | fresh t ih =>
    have hnew := ih.new (o := .fresh) rfl
    simpa [StoreHandles.fresh, origins] using hnew
  | copy t i ih =>
    have hshared := ih.shared (o := .copy i) rfl (by rw [List.getElem?_map, getElem?_handles]; rfl)
    simpa [StoreHandles.copy, origins] using hshared
  | rewrap t i ih =>
    have hshared := ih.shared (o := .rewrap i) rfl (by rw [List.getElem?_map, getElem?_handles]; rfl)
    simpa [StoreHandles.rewrap, origins] using hshared
  | use t i op ih => simpa [StoreHandles.put, origins] using ih

/-- Switches and counts are shared by copies alone. -/
theorem placed_faults (t : StoreHistory n) :
    Origin.Placed Origin.copied? t.origins (t.world.1.handles.map StoreHandle.faults)
      t.world.1.faults.length := by
  induction t with
  | start => exact .nil
  | fresh t ih =>
    have hnew := ih.new (o := .fresh) rfl
    simpa [StoreHandles.fresh, origins] using hnew
  | copy t i ih =>
    have hshared := ih.shared (o := .copy i) rfl (by rw [List.getElem?_map, getElem?_handles]; rfl)
    simpa [StoreHandles.copy, origins] using hshared
  | rewrap t i ih =>
    have hnew := ih.new (o := .rewrap i) rfl
    simpa [StoreHandles.rewrap, origins] using hnew
  | use t i op ih => simpa [StoreHandles.put, origins] using ih

/-- What the place of a handle holds is told by the operations issued through the handles that are
joined to it. -/
theorem getD_of_holds {α : Type} {start : α} {step : α → StoreOp → α} {cells : List α}
    {t : StoreHistory n} {layer : StoreHandle → Nat} {us : List StoreUse}
    (h : Holds start step cells (t.log layer us)) (hus : ∀ u ∈ us, u.handle < n)
    {parent? : Origin → Option Nat} {count : Nat}
    (hplaced : Origin.Placed parent? t.origins (t.world.1.handles.map layer) count) (i : Fin n)
    [DecidablePred fun u : StoreUse => Origin.Joined parent? t.origins i u.handle] :
    cells.getD (layer (t.handle i)) start =
      (us.filter fun u => Origin.Joined parent? t.origins i u.handle).foldl
        (fun a u => step a u.op) start := by
  have hsame : ∀ u ∈ us,
      decide (Origin.Joined parent? t.origins i u.handle) =
        decide (t.place layer u.handle = layer (t.handle i)) := by
    intro u hu
    have hplace (j : Fin n) : (t.world.1.handles.map layer)[j.val]? = some (t.place layer j) := by
      rw [List.getElem?_map, getElem?_handles, place_handle]
      rfl
    have hjoined := hplaced.joined_iff (hplace i) (hplace ⟨u.handle, hus u hu⟩)
    rw [place_handle t layer i] at hjoined
    exact decide_eq_decide.mpr hjoined
  rw [h, log, List.filter_map, List.map_map, List.foldl_map, List.filter_congr hsame]
  rfl

/-- Each place of switches holds what the operations issued for it made of them. -/
theorem holds_faults (t : StoreHistory n) :
    Holds .none StoreOp.onFaults t.world.1.faults (t.log StoreHandle.faults t.uses) := by
  induction t with
  | start => exact fun _ => rfl
  | fresh t ih =>
    rw [uses, log_congr t t.fresh rfl _ t.handle_lt]
    exact ih.grow
  | copy t i ih =>
    rw [uses, log_congr t (t.copy i) rfl _ t.handle_lt]
    exact ih
  | rewrap t i ih =>
    rw [uses, log_congr t (t.rewrap i) rfl _ t.handle_lt]
    exact ih.grow
  | use t i op ih =>
    have hp : (t.handle i).faults < t.world.1.faults.length := t.placed_faults.lt_count _
      (List.mem_map_of_mem (List.mem_of_getElem? (t.getElem?_handles i)))
    have hlog : (t.use i op).log StoreHandle.faults (t.use i op).uses =
        t.log StoreHandle.faults t.uses ++ [((t.handle i).faults, op)] := by
      rw [← t.place_handle StoreHandle.faults i]
      exact List.map_append
    rw [hlog, world_use, StoreHandles.put, op.faults_run]
    exact ih.write hp op

/-- The switches and the count of a handle are told by the operations issued through the handles joined
to it by copies. -/
theorem faults_view (t : StoreHistory n) (i : Fin n) : (t.view i).faults = t.faultsSeen i := by
  classical
  exact getD_of_holds t.holds_faults t.handle_lt t.placed_faults i

/-- The sessions seen through a handle are those that its place holds. -/
theorem getD_sessions (t : StoreHistory n) (i : Fin n) :
    (t.world.1.sessions.map SessionStore.sessions).getD (t.handle i).sessions (fun _ => []) =
      (t.view i).inner.sessions :=
  List.getD_map _ SessionStore.empty SessionStore.sessions

/-- Each place of sessions holds what the operations issued for it and let through made of them. -/
theorem holds_sessions (t : StoreHistory n) :
    Holds (fun _ => []) StoreOp.onSessions (t.world.1.sessions.map SessionStore.sessions)
      (t.log StoreHandle.sessions t.effective) := by
  induction t with
  | start => exact fun _ => rfl
  | fresh t ih =>
    rw [effective, log_congr t t.fresh rfl _ t.handle_lt_of_effective, world_fresh,
      StoreHandles.fresh, List.map_append]
    exact ih.grow
  | copy t i ih =>
    rw [effective, log_congr t (t.copy i) rfl _ t.handle_lt_of_effective]
    exact ih
  | rewrap t i ih =>
    rw [effective, log_congr t (t.rewrap i) rfl _ t.handle_lt_of_effective]
    exact ih
  | use t i op ih =>
    have hp : (t.handle i).sessions < t.world.1.sessions.length := t.placed_sessions.lt_count _
      (List.mem_map_of_mem (List.mem_of_getElem? (t.getElem?_handles i)))
    rw [effective, ← t.faults_view i, world_use, StoreHandles.put, List.map_set, op.sessions_run]
    cases op.isLetThrough (t.view i).faults with
    | true =>
      have hlog : (t.use i op).log StoreHandle.sessions (t.effective ++ [⟨i, op⟩]) =
          t.log StoreHandle.sessions t.effective ++ [((t.handle i).sessions, op)] := by
        rw [← t.place_handle StoreHandle.sessions i]
        exact List.map_append
      rw [if_pos rfl, if_pos rfl, hlog, ← getD_sessions]
      exact ih.write (by simpa using hp) op
    | false =>
      rw [if_neg Bool.false_ne_true, if_neg Bool.false_ne_true, List.append_nil, ← getD_sessions]
      exact ih.keep _

/-- The sessions seen through a handle are told by the operations issued through the handles of the same
tree and let through. -/
theorem sessions_view (t : StoreHistory n) (i : Fin n) :
    (t.view i).inner.sessions = t.sessionsSeen i := by
  classical
  rw [← getD_sessions]
  exact getD_of_holds t.holds_sessions t.handle_lt_of_effective t.placed_sessions i

/-! ## What is shared and what is not -/

/-- What is done through handles of another tree does not enter the sessions of a handle. -/
theorem sessionsSeen_use {t : StoreHistory n} {i : Nat} {j : Fin n} (h : ¬ t.Related i j)
    (op : StoreOp) : (t.use j op).sessionsSeen i = t.sessionsSeen i := by
  have hsame : (t.use j op).Related = t.Related := rfl
  unfold sessionsSeen
  rw [hsame, effective, List.filter_append]
  split
  · simp [h]
  · simp

/-- What is done through handles not joined by copies does not enter the switches of a handle. -/
theorem faultsSeen_use {t : StoreHistory n} {i : Nat} {j : Fin n} (h : ¬ t.Linked i j) (op : StoreOp) :
    (t.use j op).faultsSeen i = t.faultsSeen i := by
  have hsame : (t.use j op).Linked = t.Linked := rfl
  unfold faultsSeen
  rw [hsame, uses, List.filter_append]
  simp [h]

/-- A handle is the same one after further handles were added. -/
theorem handle_castSucc {t : StoreHistory n} {t' : StoreHistory (n + 1)} {added : List StoreHandle}
    (hworld : t'.world.1.handles = t.world.1.handles ++ added) (i : Fin n) :
    t'.handle i.castSucc = t.handle i := by
  have hlast := t'.getElem?_handles i.castSucc
  have hlt := (List.getElem?_eq_some_iff.mp (t.getElem?_handles i)).1
  rw [Fin.val_castSucc, hworld, List.getElem?_append_left hlt, t.getElem?_handles i] at hlast
  exact (Option.some.inj hlast).symm

theorem view_fresh (t : StoreHistory n) (i : Fin n) : t.fresh.view i.castSucc = t.view i := by
  rw [view, handle_castSucc (t := t) rfl, world_fresh]
  simp only [view, StoreHandles.view, StoreHandles.fresh, getD_concat_default]

theorem view_copy (t : StoreHistory n) (i j : Fin n) : (t.copy j).view i.castSucc = t.view i := by
  rw [view, handle_castSucc (t := t) rfl]
  rfl

theorem view_rewrap (t : StoreHistory n) (i j : Fin n) :
    (t.rewrap j).view i.castSucc = t.view i := by
  rw [view, handle_castSucc (t := t) rfl, world_rewrap]
  simp only [view, StoreHandles.view, StoreHandles.rewrap, getD_concat_default]

/-- What is observed through a handle, and which operations change it. -/
structure Observed (t : StoreHistory n) (i : Fin n) : Prop where
  /-- The sessions of each sender key are what the operations made of them that were issued through the
  handles derived from the same new store, and let through. -/
  sessions (key : IdentityKey) : (t.view i).inner.sessions key = t.sessionsSeen i key
  /-- The switches and the count are what the operations made of them that were issued through the
  handles joined to this one by copies. -/
  faults : (t.view i).faults = t.faultsSeen i
  /-- Operations through handles that derive from another new store change no sessions. -/
  sessions_use (j : Fin n) (op : StoreOp) (h : ¬ t.Related i j) (key : IdentityKey) :
    ((t.use j op).view i).inner.sessions key = (t.view i).inner.sessions key
  /-- Operations through handles that are not joined to this one by copies change no switch and are not
  counted. -/
  faults_use (j : Fin n) (op : StoreOp) (h : ¬ t.Linked i j) :
    ((t.use j op).view i).faults = (t.view i).faults
  /-- Adding a handle changes nothing for those before it. -/
  added (j : Fin n) : t.fresh.view i.castSucc = t.view i ∧ (t.copy j).view i.castSucc = t.view i ∧
    (t.rewrap j).view i.castSucc = t.view i

/-- Whatever was done with handles of stores, each observes what was done through the handles that it
shares its store with, and nothing else. -/
theorem observed (t : StoreHistory n) (i : Fin n) : t.Observed i where
  sessions key := congrFun (t.sessions_view i) key
  faults := t.faults_view i
  sessions_use j op h key := by rw [sessions_view, sessions_view, sessionsSeen_use h]
  faults_use j op h := by rw [faults_view, faults_view, faultsSeen_use h]
  added j := ⟨t.view_fresh i, t.view_copy i j, t.view_rewrap i j⟩

end StoreHistory

end OlmReceiver
