import Mathlib.Data.List.Sort
import Mathlib.Order.Defs.Unbundled
import OlmReceiver.Ordered.Dictionary

/-!
# Dictionaries as maps

Insertions keep the entries of a dictionary in order, so that a dictionary built by them is told by
what it has under each key. Entries under different keys all stay, each as it is.
-/

namespace OlmReceiver

/-- Strings are ordered by their code points. -/
instance strictTotalOrderString : IsStrictTotalOrder String (· < ·) where
  trichotomous _ _ hab hba := String.le_antisymm (String.not_lt.mp hba) (String.not_lt.mp hab)
  irrefl := String.lt_irrefl
  trans _ _ _ := String.lt_trans

namespace Dictionary

variable {κ α : Type} [LT κ]

/-- Dictionaries in order that have the same entries are equal. -/
theorem Ordered.eq_of_perm [IsStrictOrder κ (· < ·)] {d d' : Dictionary κ α} (h : Ordered d)
    (h' : Ordered d') (hperm : d.Perm d') : d = d' :=
  hperm.eq_of_pairwise (fun _ _ _ _ hab hba => absurd hba (asymm_of (· < ·) hab)) h h'

/-- In order, no key occurs twice. -/
theorem Ordered.nodup_keys [Std.Irrefl (α := κ) (· < ·)] {d : Dictionary κ α} (h : Ordered d) :
    (d.map Prod.fst).Nodup := by
  refine List.pairwise_map.mpr (h.imp fun {e f} hlt heq => ?_)
  rw [heq] at hlt
  exact irrefl_of (· < ·) f.1 hlt

variable [DecidableEq κ]

section Insert

variable [DecidableLT κ]

/-- What stands in a dictionary behind an insertion is the new entry, or stood there before. -/
theorem mem_of_mem_insert {e : κ × α} {k : κ} {a : α} {d : Dictionary κ α}
    (h : e ∈ insert k a d) : e = (k, a) ∨ e ∈ d := by
  induction d with
  | nil => exact .inl (List.mem_singleton.mp h)
  | cons e' d ih =>
    unfold insert at h
    grind

/-- An entry is inserted at its place. -/
theorem Ordered.insert [IsStrictTotalOrder κ (· < ·)] {d : Dictionary κ α} (h : Ordered d) (k : κ)
    (a : α) : Ordered (insert k a d) := by
  induction d with
  | nil => exact List.pairwise_singleton _ _
  | cons e d ih =>
    obtain ⟨k', a'⟩ := e
    obtain ⟨hk', hd⟩ := List.pairwise_cons.mp h
    unfold Dictionary.insert
    split
    · subst_vars
      exact List.pairwise_cons.mpr ⟨hk', hd⟩
    · rename_i hne
      split
      · rename_i hlt
        refine List.pairwise_cons.mpr ⟨fun e he => ?_, h⟩
        rcases List.mem_cons.mp he with rfl | he
        · exact hlt
        · exact trans_of (· < ·) hlt (hk' e he)
      · rename_i hnlt
        have hlt : k' < k := by
          rcases trichotomous_of (· < ·) k k' with hlt | heq | hlt
          · exact absurd hlt hnlt
          · exact absurd heq hne
          · exact hlt
        refine List.pairwise_cons.mpr ⟨fun e he => ?_, ih hd⟩
        rcases mem_of_mem_insert he with rfl | he
        · exact hlt
        · exact hk' e he

/-- A dictionary made of entries has them in order. -/
theorem ordered_ofList [IsStrictTotalOrder κ (· < ·)] (entries : List (κ × α)) :
    Ordered (ofList entries) := by
  refine List.foldlRecOn entries _ List.Pairwise.nil fun d hd e _ => ?_
  exact hd.insert e.1 e.2

/-- An entry under a new key is added to those that are there. -/
theorem perm_insert {k : κ} {d : Dictionary κ α} (h : k ∉ d.map Prod.fst) (a : α) :
    (insert k a d).Perm ((k, a) :: d) := by
  induction d with
  | nil => exact .refl _
  | cons e d ih =>
    obtain ⟨k', a'⟩ := e
    rw [List.map_cons, List.mem_cons, not_or] at h
    rw [insert, if_neg h.1]
    split
    · exact .refl _
    · exact ((ih h.2).cons (k', a')).trans (.swap _ _ _)

/-- Entries under different keys all stand in the dictionary that is made of them. -/
theorem perm_ofList {entries : List (κ × α)} (h : (entries.map Prod.fst).Nodup) :
    (ofList entries).Perm entries := by
  suffices hall : ∀ d : Dictionary κ α, (d.map Prod.fst ++ entries.map Prod.fst).Nodup →
      (entries.foldl (fun d e => insert e.1 e.2 d) d).Perm (d ++ entries) from hall [] h
  clear h
  intro d hd
  induction entries generalizing d with
  | nil => simp
  | cons e entries ih =>
    have hnew : e.1 ∉ d.map Prod.fst := fun hmem =>
      (List.nodup_append.mp hd).2.2 e.1 hmem e.1 List.mem_cons_self rfl
    have hinsert : (insert e.1 e.2 d).Perm (e :: d) := perm_insert hnew e.2
    have hnodup : ((insert e.1 e.2 d).map Prod.fst ++ entries.map Prod.fst).Nodup := by
      refine (((hinsert.map Prod.fst).append_right _).nodup_iff).mpr ?_
      exact List.perm_middle.nodup_iff.mp hd
    exact ((ih _ hnodup).trans (hinsert.append_right entries)).trans List.perm_middle.symm

end Insert

/-- In order, what is found under a key is the entry of that key. -/
theorem Ordered.get?_eq_some_iff [Std.Irrefl (α := κ) (· < ·)] {d : Dictionary κ α} (h : Ordered d)
    {k : κ} {a : α} : get? k d = some a ↔ (k, a) ∈ d := by
  refine ⟨mem_of_get?, fun hmem => ?_⟩
  induction d with
  | nil => cases hmem
  | cons e d ih =>
    obtain ⟨k', a'⟩ := e
    obtain ⟨hk', hd⟩ := List.pairwise_cons.mp h
    rcases List.mem_cons.mp hmem with heq | hrest
    · cases heq
      simp [get?]
    · have hne : k ≠ k' := by
        rintro rfl
        exact irrefl_of (· < ·) k (hk' (k, a) hrest)
      rw [get?, if_neg hne, ih hd hrest]

/-- In order, a key has one value or none. -/
theorem Ordered.filter_key [Std.Irrefl (α := κ) (· < ·)] {d : Dictionary κ α} (h : Ordered d)
    (k : κ) : (d.filter fun e => e.1 = k).map Prod.snd = (get? k d).toList := by
  induction d with
  | nil => rfl
  | cons e d ih =>
    obtain ⟨k', a'⟩ := e
    obtain ⟨hk', hd⟩ := List.pairwise_cons.mp h
    by_cases heq : k = k'
    · subst heq
      have hrest : d.filter (fun e => e.1 = k) = [] := by
        refine List.filter_eq_nil_iff.mpr fun e he hkey => ?_
        have hlt := hk' e he
        rw [of_decide_eq_true hkey] at hlt
        exact irrefl_of (· < ·) k hlt
      simp [get?, hrest]
    · simp [get?, heq, Ne.symm heq, ih hd]

/-- Dictionaries in order that have the same under each key are equal. -/
theorem Ordered.ext [IsStrictOrder κ (· < ·)] {d d' : Dictionary κ α} (h : Ordered d)
    (h' : Ordered d') (hget : ∀ k, get? k d = get? k d') : d = d' := by
  have hnodup {d : Dictionary κ α} (hd : Ordered d) : d.Nodup := hd.nodup_keys.of_map Prod.fst
  refine h.eq_of_perm h' ((List.perm_ext_iff_of_nodup (hnodup h) (hnodup h')).mpr fun e => ?_)
  rw [← h.get?_eq_some_iff, ← h'.get?_eq_some_iff, hget]

end Dictionary

end OlmReceiver
