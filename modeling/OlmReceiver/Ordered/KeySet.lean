/-!
# Sets of strings in order

A key set is a strictly increasing list of strings. Inserting what is already there changes
nothing, and the order is that of the code points.
-/

namespace OlmReceiver

/-- The members of a finite set of strings, in increasing order where `insert` built them. -/
abbrev KeySet := List String

namespace KeySet

/-- The members increase strictly, so that none occurs twice. -/
def Ordered (s : KeySet) : Prop :=
  s.Pairwise (· < ·)

/-- Adds a string at its place in the order unless it is a member. -/
def insert (k : String) : KeySet → KeySet
  | [] => [k]
  | k' :: s =>
    if k = k' then k' :: s
    else if k < k' then k :: k' :: s
    else k' :: insert k s

/-- The distinct strings of a list, in order. -/
def ofList (keys : List String) : KeySet :=
  keys.foldl (fun s k => insert k s) []

/-- The set without one string. -/
def remove (k : String) (s : KeySet) : KeySet :=
  s.filter fun k' => decide (k' ≠ k)

theorem mem_insert {j k : String} {s : KeySet} : j ∈ insert k s ↔ j = k ∨ j ∈ s := by
  induction s with
  | nil => simp [insert]
  | cons k' s ih =>
    unfold insert
    split
    · subst_vars
      simp
    · split
      · simp
      · simp only [List.mem_cons, ih]
        grind

theorem mem_remove {j k : String} {s : KeySet} : j ∈ remove k s ↔ j ∈ s ∧ j ≠ k := by
  simp [remove]

/-- A string is added at its place. -/
theorem ordered_insert {s : KeySet} (h : s.Ordered) (k : String) : Ordered (insert k s) := by
  induction s with
  | nil => exact List.pairwise_singleton _ _
  | cons k' s ih =>
    obtain ⟨hk', hs⟩ := List.pairwise_cons.mp h
    unfold insert
    split
    · exact h
    · rename_i hne
      split
      · rename_i hlt
        refine List.pairwise_cons.mpr ⟨fun j hj => ?_, h⟩
        rcases List.mem_cons.mp hj with rfl | hj
        · exact hlt
        · exact String.lt_trans hlt (hk' j hj)
      · rename_i hnlt
        have hlt : k' < k := String.not_le.mp fun hle => hne (String.le_antisymm hle hnlt)
        refine List.pairwise_cons.mpr ⟨fun j hj => ?_, ih hs⟩
        rcases mem_insert.mp hj with rfl | hj
        · exact hlt
        · exact hk' j hj

/-- An ordered set has no member twice. -/
theorem Ordered.nodup {s : KeySet} (h : s.Ordered) : s.Nodup := by
  refine List.Pairwise.imp (fun {a b} hlt => ?_) h
  rintro rfl
  exact String.lt_irrefl a hlt

/-- Adding strings one after the other keeps the order, and forgets none of them. -/
theorem foldl_insert {s : KeySet} (h : s.Ordered) (keys : List String) :
    Ordered (keys.foldl (fun s k => insert k s) s) ∧
      ∀ j, j ∈ keys.foldl (fun s k => insert k s) s ↔ j ∈ keys ∨ j ∈ s := by
  induction keys generalizing s with
  | nil => simp [h]
  | cons k keys ih =>
    obtain ⟨hordered, hmem⟩ := ih (ordered_insert h k)
    refine ⟨hordered, fun j => ?_⟩
    rw [List.foldl_cons, hmem, mem_insert, List.mem_cons, or_left_comm, or_assoc]

/-- The strings of a list are the members of its set. -/
theorem mem_ofList {j : String} {keys : List String} : j ∈ ofList keys ↔ j ∈ keys := by
  have hmem := (foldl_insert (s := []) List.Pairwise.nil keys).2 j
  simpa [ofList] using hmem

/-- The set of a list has no member twice. -/
theorem nodup_ofList (keys : List String) : (ofList keys).Nodup :=
  (foldl_insert (s := []) List.Pairwise.nil keys).1.nodup

/-- Removing a member takes exactly that one out. -/
theorem perm_remove {k : String} {s : KeySet} (h : s.Nodup) (hk : k ∈ s) :
    List.Perm s (k :: remove k s) := by
  have heq : remove k s = s.erase k := by
    rw [h.erase_eq_filter]
    refine List.filter_congr fun j _ => ?_
    by_cases hj : j = k <;> simp [hj]
  rw [heq]
  exact List.perm_cons_erase hk

end KeySet

end OlmReceiver
