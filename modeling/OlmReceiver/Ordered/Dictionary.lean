/-!
# Dictionaries in key order

A dictionary is a list of entries. `insert` keeps the keys strictly increasing and replaces the
value of a key that is already there, so `ofList` sorts its entries and keeps the last one of each
key. Looking a key up needs no order: `get?_insert` holds for every list of entries.
-/

namespace OlmReceiver

/-- Entries of a finite map, in increasing order of their keys where `insert` built them. -/
abbrev Dictionary (κ α : Type) := List (κ × α)

namespace Dictionary

variable {κ α : Type}

/-- The keys increase strictly, so that no key occurs twice. -/
def Ordered [LT κ] (d : Dictionary κ α) : Prop :=
  d.Pairwise fun e f => e.1 < f.1

/-- The value of the first entry under a key. -/
def get? [DecidableEq κ] (k : κ) : Dictionary κ α → Option α
  | [] => none
  | (k', a) :: d => if k = k' then some a else get? k d

/-- Adds an entry at its place in the key order, or replaces the value of its key. -/
def insert [LT κ] [DecidableLT κ] [DecidableEq κ] (k : κ) (a : α) :
    Dictionary κ α → Dictionary κ α
  | [] => [(k, a)]
  | (k', a') :: d =>
    if k = k' then (k, a) :: d
    else if k < k' then (k, a) :: (k', a') :: d
    else (k', a') :: insert k a d

/-- The entries in key order; of several under one key the last one stays. -/
def ofList [LT κ] [DecidableLT κ] [DecidableEq κ] (entries : List (κ × α)) : Dictionary κ α :=
  entries.foldl (fun d e => insert e.1 e.2 d) []

theorem get?_insert [LT κ] [DecidableLT κ] [DecidableEq κ] (j k : κ) (a : α)
    (d : Dictionary κ α) :
    get? j (insert k a d) = if j = k then some a else get? j d := by
  induction d with
  | nil => rfl
  | cons e d ih =>
    obtain ⟨k', a'⟩ := e
    unfold insert
    split
    · subst_vars
      simp only [get?]
      split <;> rfl
    · split
      · rfl
      · simp only [get?, ih]
        split <;> split <;> simp_all

/-- What is found under a key is one of the entries. -/
theorem mem_of_get? [DecidableEq κ] {k : κ} {a : α} {d : Dictionary κ α} (h : get? k d = some a) :
    (k, a) ∈ d := by
  induction d with
  | nil => simp [get?] at h
  | cons e d ih =>
    obtain ⟨k', a'⟩ := e
    unfold get? at h
    split at h
    · subst_vars
      cases h
      exact List.mem_cons_self
    · exact List.mem_cons_of_mem _ (ih h)

end Dictionary

end OlmReceiver
