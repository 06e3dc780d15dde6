import OlmReceiver.DecryptError

/-!
# Objections and their order

A stage that checks its input in several ways may find several things wrong at once, and answers with
one error. What it may find is written down as a list of objections in the order of the checks. Each
objection is told by the errors that it raises, and says by itself when it applies; that no earlier one
does is part of being first.

A stage behind another has its objections below those of the other.
-/

namespace OlmReceiver

/-- An objection, told by the errors that it raises; it raises none where it does not apply. -/
abbrev Objection := DecryptError → Prop

namespace Objection

/-- The objection does not apply. -/
def Silent (o : Objection) : Prop :=
  ∀ err, ¬ o err

/-- One error under a condition. -/
def raise (condition : Prop) (error : DecryptError) : Objection :=
  fun err => condition ∧ err = error

/-- What is held against that as which the input is read. -/
def against {α : Type} (read : α → Prop) (o : α → Objection) : Objection :=
  fun err => ∃ a, read a ∧ o a err

/-- An error is not raised exactly if its condition fails. -/
theorem raise_silent_iff {condition : Prop} {error : DecryptError} :
    (raise condition error).Silent ↔ ¬ condition :=
  ⟨fun h hcondition => h error ⟨hcondition, rfl⟩, fun h _ hraise => h hraise.1⟩

/-- Where the input reads as one thing, that is what the objection is about. -/
theorem against_eq {α : Type} {read : α → Prop} {a : α} (h : ∀ a', read a' ↔ a' = a)
    (o : α → Objection) : against read o = o a := by
  funext err
  simp [against, h]

/-- Where a reader finds what the input reads as, the objection is about what it finds. -/
theorem against_of_found {α : Type} {read : α → Prop} {found? : Option α} {a : α}
    (hread : ∀ a', found? = some a' ↔ read a') (hfound : found? = some a) (o : α → Objection) :
    against read o = o a := by
  refine against_eq (fun a' => ?_) o
  rw [← hread, hfound, Option.some.injEq]
  exact eq_comm

/-- Nothing is held against what the input is not read as. -/
theorem against_silent {α : Type} {read : α → Prop} (h : ∀ a, ¬ read a) (o : α → Objection) :
    (against read o).Silent :=
  fun _ ⟨a, hread, _⟩ => h a hread

end Objection

/-- Objections in the order in which they are looked at. -/
abbrev Ladder := List Objection

namespace Ladder

/-- The error is raised by the first objection that applies. -/
inductive First : Ladder → DecryptError → Prop
  | here {o : Objection} {below : Ladder} {err : DecryptError} (h : o err) : First (o :: below) err
  | later {o : Objection} {below : Ladder} {err : DecryptError} (hsilent : o.Silent)
    (h : First below err) : First (o :: below) err

variable {o : Objection} {above below ladder : Ladder} {err : DecryptError}

/-- A first objection is one of the ladder. -/
theorem First.exists_mem (h : ladder.First err) : ∃ o ∈ ladder, o err := by
  induction h with
  | here h => exact ⟨_, List.mem_cons_self, h⟩
  | later _ _ ih =>
    obtain ⟨o, hmem, ho⟩ := ih
    exact ⟨o, List.mem_cons_of_mem _ hmem, ho⟩

theorem not_first_nil : ¬ First [] err :=
  nofun

/-- An objection that does not apply is passed over. -/
theorem first_cons_of_silent (hsilent : o.Silent) :
    First (o :: below) err ↔ below.First err := by
  refine ⟨fun h => ?_, .later hsilent⟩
  cases h with
  | here h => exact absurd h (hsilent err)
  | later _ h => exact h

/-- An objection that applies leaves nothing to those below it. -/
theorem first_cons_of_raised {err' : DecryptError} (h : o err') :
    First (o :: below) err ↔ o err := by
  refine ⟨fun hfirst => ?_, .here⟩
  cases hfirst with
  | here h => exact h
  | later hsilent _ => exact absurd h (hsilent err')

/-- What is first on the upper part of a ladder is first on the whole. -/
theorem First.append (h : above.First err) (below : Ladder) : (above ++ below).First err := by
  induction h with
  | here h => exact .here h
  | later hsilent _ ih => exact .later hsilent ih

/-- What is first on a ladder is first on its upper part, or on its lower part while nothing on the
upper part applies. -/
theorem first_append_iff :
    (above ++ below).First err ↔
      above.First err ∨ (∀ o ∈ above, o.Silent) ∧ below.First err := by
  constructor
  · intro h
    induction above with
    | nil => exact .inr ⟨nofun, h⟩
    | cons o above ih =>
      cases h with
      | here h => exact .inl (.here h)
      | later hsilent h =>
        rcases ih h with habove | ⟨hall, hbelow⟩
        · exact .inl (.later hsilent habove)
        · exact .inr ⟨List.forall_mem_cons.mpr ⟨hsilent, hall⟩, hbelow⟩
  · rintro (h | ⟨hall, h⟩)
    · exact h.append below
    · induction above with
      | nil => exact h
      | cons o above ih =>
        obtain ⟨hsilent, hall⟩ := List.forall_mem_cons.mp hall
        exact .later hsilent (ih hall)

/-- Nothing on a ladder is first exactly if nothing on it applies. -/
theorem forall_silent_iff : (∀ o ∈ ladder, o.Silent) ↔ ∀ err, ¬ ladder.First err := by
  induction ladder with
  | nil => exact ⟨fun _ _ => not_first_nil, fun _ => nofun⟩
  | cons o below ih =>
    rw [List.forall_mem_cons, ih]
    constructor
    · rintro ⟨hsilent, hbelow⟩ err h
      exact hbelow err ((first_cons_of_silent hsilent).mp h)
    · intro h
      have hsilent : o.Silent := fun err ho => h err (.here ho)
      exact ⟨hsilent, fun err hbelow => h err (.later hsilent hbelow)⟩

/-! ## Answers that a ladder decides -/

variable {α β : Type}

/-- An answer is the error of the first objection that applies, and no error if none applies. -/
def Decides (ladder : Ladder) (answer : Except DecryptError α) : Prop :=
  ∀ err, answer = .error err ↔ ladder.First err

/-- With no objection there is no error. -/
theorem decides_nil (a : α) : Decides [] (.ok a) :=
  fun _ => ⟨nofun, nofun⟩

/-- An objection that does not apply may be put in front. -/
theorem Decides.cons_of_silent {answer : Except DecryptError α} (h : below.Decides answer)
    (hsilent : o.Silent) : Decides (o :: below) answer :=
  fun err => (h err).trans (first_cons_of_silent hsilent).symm

/-- The one error of an objection that applies is the answer, whatever stands below. -/
theorem decides_cons_of_raised {err : DecryptError} (h : ∀ err', o err' ↔ err' = err)
    (below : Ladder) : Decides (o :: below) (.error err : Except DecryptError α) := by
  intro err'
  rw [first_cons_of_raised ((h err).mpr rfl), h err', Except.error.injEq]
  exact eq_comm

/-- An error whose condition holds is the answer, whatever stands below. -/
theorem decides_raise {condition : Prop} (h : condition) (err : DecryptError) (below : Ladder) :
    Decides (.raise condition err :: below) (.error err : Except DecryptError α) :=
  decides_cons_of_raised (fun _ => and_iff_right h) below

/-- A check in front of others is an objection in front of theirs. -/
theorem Decides.guard {condition : Prop} [Decidable condition] {answer : Except DecryptError α}
    (h : ¬ condition → below.Decides answer) (err : DecryptError) :
    Decides (.raise condition err :: below) (if condition then .error err else answer) := by
  by_cases hcondition : condition
  · rw [if_pos hcondition]
    exact decides_raise hcondition err below
  · rw [if_neg hcondition]
    exact (h hcondition).cons_of_silent (Objection.raise_silent_iff.mpr hcondition)

/-- An answer other than an error is one that nothing is held against. -/
theorem Decides.forall_silent {answer : Except DecryptError α} (h : ladder.Decides answer) {a : α}
    (hok : answer = .ok a) : ∀ o ∈ ladder, o.Silent := by
  refine forall_silent_iff.mpr fun err hfirst => ?_
  rw [hok] at h
  cases (h err).mpr hfirst

/-- A stage behind another has its objections below those of the other. -/
theorem Decides.bind {answer : Except DecryptError α} {next : α → Except DecryptError β}
    (h : above.Decides answer) (hnext : ∀ a, answer = .ok a → below.Decides (next a)) :
    (above ++ below).Decides (answer.bind next) := by
  intro err
  rw [bind_eq_error_iff, first_append_iff, ← h err]
  refine or_congr_right ⟨?_, ?_⟩
  · rintro ⟨a, hok, herr⟩
    exact ⟨h.forall_silent hok, (hnext a hok err).mp herr⟩
  · rintro ⟨hsilent, hbelow⟩
    cases hanswer : answer with
    | error err' =>
      exact absurd ((h err').mp hanswer) (forall_silent_iff.mp hsilent err')
    | ok a => exact ⟨a, rfl, (hnext a hanswer err).mpr hbelow⟩

/-- What is made of an answer that is no error raises no objection of its own. -/
theorem Decides.bind_ok {answer : Except DecryptError α} (h : ladder.Decides answer) (f : α → β) :
    ladder.Decides (answer.bind fun a => .ok (f a)) := by
  have hbind := h.bind fun a _ => decides_nil (f a)
  rwa [List.append_nil] at hbind

end Ladder

end OlmReceiver
