import OlmReceiver.Store.Faulty

/-!
# Handles of stores

Several handles may refer to one store. A copy of a handle shares both the sessions and the
switches with it; a handle that wraps the sessions of another anew shares the sessions alone and
has switches and a count of its own. Sessions and switches are kept in numbered places, and a
handle names one place of each.
-/

namespace OlmReceiver

/-- Where the sessions and the switches of a store are kept. -/
structure StoreHandle where
  sessions : Nat
  faults : Nat
deriving DecidableEq

/-- Places of sessions and switches, and the handles that refer to them in order of creation. -/
structure StoreHandles where
  sessions : List SessionStore := []
  faults : List Faults := []
  handles : List StoreHandle := []

namespace StoreHandles

/-- Adds a handle of a new store. -/
def fresh (w : StoreHandles) : StoreHandles :=
  ⟨w.sessions ++ [.empty], w.faults ++ [.none],
    w.handles ++ [⟨w.sessions.length, w.faults.length⟩]⟩

/-- Adds a copy of a handle, which shares everything with it. -/
def copy (w : StoreHandles) (h : StoreHandle) : StoreHandles :=
  { w with handles := w.handles ++ [h] }

/-- Adds a handle that shares only the sessions. -/
def rewrap (w : StoreHandles) (h : StoreHandle) : StoreHandles :=
  { w with
    faults := w.faults ++ [.none]
    handles := w.handles ++ [{ h with faults := w.faults.length }] }

/-- The store as seen through a handle. -/
def view (w : StoreHandles) (h : StoreHandle) : FaultyStore :=
  ⟨w.sessions.getD h.sessions .empty, w.faults.getD h.faults .none⟩

/-- Keeps what an operation through a handle makes of the store. -/
def put (w : StoreHandles) (h : StoreHandle) (st : FaultyStore) : StoreHandles :=
  { w with
    sessions := w.sessions.set h.sessions st.inner
    faults := w.faults.set h.faults st.faults }

/-- Runs an operation of the store through a handle. -/
def run {α : Type} (w : StoreHandles) (h : StoreHandle) (op : FaultyStore → α × FaultyStore) :
    α × StoreHandles :=
  let (a, st) := op (w.view h)
  (a, w.put h st)

end StoreHandles

end OlmReceiver
