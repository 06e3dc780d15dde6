import Mathlib.Data.List.Forall2
import OlmReceiver.Proofs.Decryption
import OlmReceiver.Receiver.Run

/-!
# Session lists only grow

What a session was created from never changes: neither its identifier nor its one-time key. The
sessions of a sender key keep their places, and new ones come behind them, whatever steps a run
takes. The first session with some identifier or some one-time key is therefore the first for good.

Attempts are counted on the sessions, and a session may be poisoned at any time. A poisoned session
is never cured.
-/

namespace OlmReceiver

open Ratchet (Session)

/-- A list becomes another: its members change by a relation, in their places, and any others come
behind them. -/
inductive Grows {α : Type} (R : α → α → Prop) : List α → List α → Prop
  | nil (added : List α) : Grows R [] added
  | cons {a a' : α} {l l' : List α} (h : R a a') (hrest : Grows R l l') :
    Grows R (a :: l) (a' :: l')

namespace Grows

variable {α : Type} {R : α → α → Prop}

/-- A list whose members change in their places grows, though by no new ones. -/
theorem of_forall₂ {l l' : List α} (h : List.Forall₂ R l l') : Grows R l l' := by
  induction h with
  | nil => exact .nil []
  | cons haa' _ ih => exact .cons haa' ih

/-- A list whose members all stay as they are grows. -/
theorem refl (hrefl : ∀ a, R a a) (l : List α) : Grows R l l := by
  induction l with
  | nil => exact .nil []
  | cons a l ih => exact .cons (hrefl a) ih

/-- A list that grows twice has grown. -/
theorem trans (htrans : ∀ a b c, R a b → R b c → R a c) {l l' l'' : List α} (h : Grows R l l')
    (h' : Grows R l' l'') : Grows R l l'' := by
  induction h generalizing l'' with
  | nil added => exact .nil l''
  | cons hab _ ih =>
    cases h' with
    | cons hbc hrest => exact .cons (htrans _ _ _ hab hbc) (ih hrest)

/-- More members may come behind a list that grew. -/
theorem append {l l' : List α} (h : Grows R l l') (added : List α) : Grows R l (l' ++ added) := by
  induction h with
  | nil added' => exact .nil (added' ++ added)
  | cons hab _ ih => exact .cons hab ih

/-- A list grows if one of its members changes by the relation. -/
theorem modify (hrefl : ∀ a, R a a) {f : α → α} (hf : ∀ a, R a (f a)) (l : List α) (index : Nat) :
    Grows R l (l.modify index f) := by
  induction l generalizing index with
  | nil =>
    rw [List.modify_nil]
    exact .nil []
  | cons a l ih =>
    cases index with
    | zero => exact .cons (hf a) (refl hrefl l)
    | succ index => exact .cons (hrefl a) (ih index)

/-- The first member with a lasting property stays the first one, and keeps its place. -/
theorem first {p : α → Prop} (hp : ∀ a a', R a a' → (p a' ↔ p a)) {before after : List α} {a : α}
    {l : List α} (h : Grows R (before ++ a :: after) l) (hbefore : ∀ b ∈ before, ¬ p b) :
    ∃ before' a' after', l = before' ++ a' :: after' ∧ before'.length = before.length ∧
      (∀ b ∈ before', ¬ p b) ∧ R a a' := by
  induction before generalizing l with
  | nil =>
    cases h with
    | @cons _ a' _ after' haa' hrest => exact ⟨[], a', after', rfl, rfl, by simp, haa'⟩
  | cons b before ih =>
    cases h with
    | @cons _ b' _ _ hbb' hrest =>
      obtain ⟨hb, hbefore⟩ := List.forall_mem_cons.mp hbefore
      obtain ⟨before', a', after', rfl, hlength, hbefore', haa'⟩ := ih hrest hbefore
      refine ⟨b' :: before', a', after', rfl, by simp [hlength], ?_, haa'⟩
      exact List.forall_mem_cons.mpr ⟨fun hb' => hb ((hp b b' hbb').mp hb'), hbefore'⟩

end Grows

/-! ## How a session changes -/

namespace Ratchet.Session

/-- A session may be attempted or poisoned, but stays the session that was created. -/
structure Evolves (s s' : Session) : Prop where
  id : s'.id = s.id
  oneTimeKey : s'.oneTimeKey = s.oneTimeKey
  poisoned : s.poisoned = true → s'.poisoned = true

/-- A session may stay as it is. -/
theorem Evolves.refl (s : Session) : Evolves s s :=
  ⟨rfl, rfl, fun h => h⟩

/-- A session that changed may change again. -/
theorem Evolves.trans (s s' s'' : Session) (h : Evolves s s') (h' : Evolves s' s'') :
    Evolves s s'' :=
  ⟨h'.id.trans h.id, h'.oneTimeKey.trans h.oneTimeKey, fun hs => h'.poisoned (h.poisoned hs)⟩

/-- An attempt changes the count of attempts alone. -/
theorem evolves_advance (s : Session) : Evolves s s.advance :=
  ⟨rfl, rfl, fun h => h⟩

/-- A session that is poisoned is otherwise what it was. -/
theorem evolves_poison (s : Session) : Evolves s s.poison :=
  ⟨rfl, rfl, fun _ => rfl⟩

end Ratchet.Session

open Ratchet.Session (Evolves)

section Trial

variable {R : Session → Session → Prop} (hrefl : ∀ s, R s s) (hadvance : ∀ s, R s s.advance)

include hrefl hadvance

/-- The trial of a normal message attempts some of the sessions. -/
theorem Trial.forall₂_ofNormal (body : String) (sessions : List Session) :
    List.Forall₂ R sessions (ofNormal body sessions).sessions := by
  induction sessions with
  | nil => exact .nil
  | cons s rest ih =>
    simp only [ofNormal, Session.decrypt]
    cases s.attempt body with
    | ok t => exact .cons (hadvance s) (List.forall₂_same.mpr fun s' _ => hrefl s')
    | error err => exact .cons (hadvance s) ih

/-- The trial of a pre-key message attempts one of the sessions at most. -/
theorem Trial.forall₂_ofPreKey (body : String) (sessions : List Session) :
    List.Forall₂ R sessions (ofPreKey body sessions).sessions := by
  induction sessions with
  | nil => exact .nil
  | cons s rest ih =>
    have hrest : List.Forall₂ R rest rest := List.forall₂_same.mpr fun s' _ => hrefl s'
    simp only [ofPreKey, Session.decrypt]
    cases s.matchesBody body with
    | error err => exact .cons (hrefl s) hrest
    | ok claimed =>
      cases claimed with
      | false => exact .cons (hrefl s) ih
      | true =>
        cases s.attempt body with
        | ok t => exact .cons (hadvance s) hrest
        | error err => exact .cons (hadvance s) hrest

/-- A trial attempts some of the sessions, and leaves the others as they are. -/
theorem Trial.forall₂_ofMessage (type : MessageType) (body : String) (sessions : List Session) :
    List.Forall₂ R sessions (ofMessage type body sessions).sessions := by
  cases type with
  | preKey => exact forall₂_ofPreKey hrefl hadvance body sessions
  | normal => exact forall₂_ofNormal hrefl hadvance body sessions

end Trial

/-! ## Runs -/

namespace Receiver

/-- The sessions of a sender key have become those that another receiver stores for it. -/
def SessionsGrow (key : IdentityKey) (r r' : Receiver) : Prop :=
  Grows Evolves (r.sessions key) (r'.sessions key)

/-- Sessions may stay as they are. -/
theorem SessionsGrow.of_eq {key : IdentityKey} {r r' : Receiver}
    (h : r'.sessions key = r.sessions key) : SessionsGrow key r r' := by
  rw [SessionsGrow, h]
  exact .refl Evolves.refl (r.sessions key)

/-- Sessions that grew may grow again. -/
theorem SessionsGrow.trans {key : IdentityKey} {r r' r'' : Receiver} (h : SessionsGrow key r r')
    (h' : SessionsGrow key r' r'') : SessionsGrow key r r'' :=
  Grows.trans Evolves.trans h h'

/-- Sessions to which one is added grow. -/
theorem SessionsGrow.of_add {key : IdentityKey} {r r' : Receiver} {session : Session}
    (h : r'.sessions key = r.sessions key ++ [session]) : SessionsGrow key r r' := by
  rw [SessionsGrow, h]
  exact (Grows.refl Evolves.refl (r.sessions key)).append [session]

/-- No call shortens a list of sessions or makes one of them another. -/
theorem sessionsGrow_perform (r : Receiver) (call : Call) (key : IdentityKey) :
    SessionsGrow key r (r.perform call) := by
  cases call with
  | tryStored env =>
    have htry := r.sessions_tryStored env key
    split at htry
    · rename_i hread
      rw [SessionsGrow, perform_tryStored, htry, hread.1]
      apply Grows.of_forall₂
      exact Trial.forall₂_ofMessage Evolves.refl Session.evolves_advance env.type env.body _
    · exact .of_eq htry
  | add key' session =>
    have hadd := FaultyStore.sessions_add r.store key' key session
    split at hadd
    · rename_i hkey
      obtain ⟨rfl, -⟩ := hkey
      exact .of_add hadd
    · exact .of_eq hadd
  | _ => exact .of_eq rfl

/-- No calls shorten a list of sessions or make one of them another. -/
theorem sessionsGrow_performAll (r : Receiver) (calls : List Call) (key : IdentityKey) :
    SessionsGrow key r (r.performAll calls) := by
  induction calls generalizing r with
  | nil => exact .of_eq rfl
  | cons call calls ih => exact (r.sessionsGrow_perform call key).trans (ih (r.perform call))

/-- Sessions grow with every step that lets them grow where it decrypts: all other steps add sessions
or poison one of them, or leave them as they are. -/
theorem grows_step {R : Session → Session → Prop} (hrefl : ∀ s, R s s) (hpoison : ∀ s, R s s.poison)
    {r : Receiver} {s : Step} {key : IdentityKey}
    (hdecrypt : ∀ e, s = .decrypt e →
      Grows R (r.sessions key) ((r.decrypt e).receiver.sessions key)) :
    Grows R (r.sessions key) ((r.step s).2.1.sessions key) := by
  have hsame : Grows R (r.sessions key) (r.sessions key) := .refl hrefl _
  cases s with
  | addSession key' session throughSwitches =>
    cases throughSwitches with
    | true =>
      refine (congrArg (Grows R _) (FaultyStore.sessions_add r.store key' key session)).mpr ?_
      split
      · rename_i hkey
        obtain ⟨rfl, -⟩ := hkey
        exact hsame.append [session]
      · exact hsame
    | false =>
      refine (congrArg (Grows R _)
        (SessionStore.sessions_add r.store.inner key' key session)).mpr ?_
      split
      · subst_vars
        exact hsame.append [session]
      · exact hsame
  | poison key' index =>
    refine (congrArg (Grows R _) (r.store.inner.sessions_poison key' key index)).mpr ?_
    split
    · subst_vars
      exact .modify hrefl hpoison _ index
    · exact hsame
  | decrypt e => exact hdecrypt e rfl
  | _ => exact hsame

/-- No step shortens a list of sessions or makes one of them another. -/
theorem sessionsGrow_step (r : Receiver) (s : Step) (key : IdentityKey) :
    SessionsGrow key r (r.step s).2.1 := by
  apply grows_step Evolves.refl Session.evolves_poison
  rintro e -
  rw [decrypt_receiver]
  exact r.sessionsGrow_performAll (r.calls e) key

/-- Along every run the sessions of a sender key keep their places, and what they were created
from. -/
theorem sessionsGrow_after (r : Receiver) (steps : List Step) (key : IdentityKey) :
    SessionsGrow key r (r.after steps) :=
  after_of_step (P := SessionsGrow key r) (fun r' s h => h.trans (r'.sessionsGrow_step s key))
    (.of_eq rfl) steps

end Receiver

end OlmReceiver
