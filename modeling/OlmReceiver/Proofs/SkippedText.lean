import OlmReceiver.Proofs.ReaderCases
import OlmReceiver.Proofs.SkippedTokens

/-!
# Skipped values go as far as kept ones

Whatever is kept as a value of limited depth can be skipped, with the same text left behind it: a
skipped value may nest as deep as its text is long, and each level takes a bracket of the text.

First it is said that no reader of values puts text back, so that what stands inside a bracket is
shorter than the text with the bracket.
-/

namespace OlmReceiver.Json

open Token

variable {α β σ τ : Type}

/-! ## No text is put back -/

theorem length_dropBlanks (s : Text) : (Text.dropBlanks s).length ≤ s.length :=
  (List.dropWhile_suffix Byte.isBlank).length_le

theorem advances_another (close : UInt8) (first : Bool) : Advances (another close first) := by
  intro s more r h
  have hs := length_dropBlanks s
  unfold another at h
  split at h
  · cases h
  · rename_i b t hblanks
    rw [hblanks, List.length_cons] at hs
    split at h
    · cases h
      exact hs
    · split at h
      · cases h
        exact hs
      · split at h
        · have ht := length_dropBlanks t
          split at h
          · cases h
          · rename_i c t' hblanks'
            rw [hblanks'] at ht
            split at h
            · cases h
            · cases h
              omega
        · cases h

theorem advances_elements {item : Reader α} (hitem : Advances item) (fuel : Nat) (first : Bool) :
    Advances (elements item fuel first) := by
  intro s as r h
  induction fuel generalizing first s as with
  | zero => cases h
  | succ fuel ih =>
    obtain ⟨⟨more, s'⟩, hanother, -⟩ := bind_eq_ok_iff.mp h
    have hs' := advances_another _ _ hanother
    cases more with
    | false =>
      rw [elements_of_done hanother] at h
      cases h
      have := List.length_tail (l := s')
      omega
    | true =>
      rw [elements_of_more hanother] at h
      obtain ⟨⟨a, s''⟩, ha, h⟩ := bind_eq_ok_iff.mp h
      obtain ⟨⟨as', r'⟩, has, h⟩ := bind_eq_ok_iff.mp h
      cases h
      have hitems := ih false has
      have := hitem ha
      dsimp only at hitems ⊢
      omega

theorem advances_members {m : Mode} {step : σ → String → Reader σ}
    (hstep : ∀ acc name, Advances (step acc name)) (fuel : Nat) (first : Bool) (acc : σ) :
    Advances (members m step fuel first acc) := by
  intro s acc' r h
  induction fuel generalizing first acc s with
  | zero => cases h
  | succ fuel ih =>
    obtain ⟨⟨more, s'⟩, hanother, -⟩ := bind_eq_ok_iff.mp h
    have hs' := advances_another _ _ hanother
    cases more with
    | false =>
      rw [members_of_done hanother] at h
      cases h
      have := List.length_tail (l := s')
      omega
    | true =>
      rw [members_of_more hanother] at h
      obtain ⟨⟨name, s₁⟩, hname, h⟩ := bind_eq_ok_iff.mp h
      obtain ⟨⟨acc₁, s₂⟩, hacc, h⟩ := bind_eq_ok_iff.mp h
      have h₁ := advances_key m hname
      have h₂ := hstep _ _ hacc
      have h₃ := ih false _ h
      dsimp only at h₁ h₂ h₃
      omega

theorem length_colon {s r : Text} (h : colon s = .ok r) : r.length ≤ s.length := by
  have hs := length_dropBlanks s
  unfold colon at h
  split at h
  · cases h
  · rename_i b t hblanks
    rw [hblanks, List.length_cons] at hs
    split at h
    · cases h
      omega
    · cases h

theorem advances_addMember {item : Reader Json} (hitem : Advances item) (ms : Members)
    (name : String) : Advances (addMember item ms name) := by
  intro s ms' r h
  obtain ⟨s', v, hcolon, hv, -⟩ := addMember_eq_ok_iff.mp h
  exact Nat.le_trans (hitem hv) (length_colon hcolon)

/-- No text is put back behind a value. -/
theorem advances_value (m : Mode) (depth : Nat) : Advances (value m depth) := by
  induction depth with
  | zero =>
    intro s v r h
    have hs := length_dropBlanks s
    rcases value_cases h with ⟨b, t, hblanks, -, -, hscalar⟩ | ⟨t, _, _, -, hdepth, -⟩ |
      ⟨t, _, _, -, hdepth, -⟩
    · exact Nat.le_trans (advances_scalar m hscalar) (hblanks ▸ hs)
    · cases hdepth
    · cases hdepth
  | succ depth ih =>
    intro s v r h
    have hs := length_dropBlanks s
    rcases value_cases h with ⟨b, t, hblanks, -, -, hscalar⟩ | ⟨t, _, items, hblanks, hdepth, h, -⟩ |
      ⟨t, _, ms, hblanks, hdepth, h, -⟩
    · exact Nat.le_trans (advances_scalar m hscalar) (hblanks ▸ hs)
    · cases hdepth
      have ht := advances_elements ih _ _ h
      rw [hblanks, List.length_cons] at hs
      omega
    · cases hdepth
      have ht := advances_members (advances_addMember ih) _ _ _ h
      rw [hblanks, List.length_cons] at hs
      omega

/-! ## From kept to skipped -/

/-- If the elements of an array that are short enough can be skipped, all of a short enough array
can. -/
theorem elements_skip {item : Reader α} {item' : Reader β} {n : Nat} (hadvances : Advances item)
    (hitem : ∀ s a r, s.length ≤ n → item s = .ok (a, r) → ∃ b, item' s = .ok (b, r))
    {fuel : Nat} {first : Bool} {s r : Text} {as : List α} (hs : s.length ≤ n)
    (h : elements item fuel first s = .ok (as, r)) :
    ∃ bs, elements item' fuel first s = .ok (bs, r) := by
  induction fuel generalizing first s as with
  | zero => cases h
  | succ fuel ih =>
    obtain ⟨⟨more, s'⟩, hanother, -⟩ := bind_eq_ok_iff.mp h
    have hs' := advances_another _ _ hanother
    cases more with
    | false =>
      rw [elements_of_done hanother] at h ⊢
      cases h
      exact ⟨[], rfl⟩
    | true =>
      rw [elements_of_more hanother] at h ⊢
      obtain ⟨⟨a, s''⟩, ha, h⟩ := bind_eq_ok_iff.mp h
      obtain ⟨⟨as', r'⟩, has, h⟩ := bind_eq_ok_iff.mp h
      cases h
      have hs'' := hadvances ha
      obtain ⟨b, hb⟩ := hitem s' _ _ (by omega) ha
      obtain ⟨bs, hbs⟩ := ih (s := s'') (by omega) has
      exact ⟨b :: bs, bind_eq_ok_iff.mpr ⟨_, hb, bind_eq_ok_iff.mpr ⟨_, hbs, rfl⟩⟩⟩

/-- If the members of an object that are short enough can be skipped, all of a short enough object
can. -/
theorem members_skip {step : σ → String → Reader σ} {step' : τ → String → Reader τ} {n : Nat}
    (hadvances : ∀ acc name, Advances (step acc name))
    (hstep : ∀ acc name s acc₁ r, s.length ≤ n → step acc name s = .ok (acc₁, r) →
      ∀ acc', ∃ acc₁', step' acc' "" s = .ok (acc₁', r))
    {fuel : Nat} {first : Bool} {acc acc₁ : σ} {s r : Text} (hs : s.length ≤ n)
    (h : members .keep step fuel first acc s = .ok (acc₁, r)) (acc' : τ) :
    ∃ acc₁', members .skip step' fuel first acc' s = .ok (acc₁', r) := by
  induction fuel generalizing first acc s acc' with
  | zero => cases h
  | succ fuel ih =>
    obtain ⟨⟨more, s'⟩, hanother, -⟩ := bind_eq_ok_iff.mp h
    have hs' := advances_another _ _ hanother
    cases more with
    | false =>
      rw [members_of_done hanother] at h ⊢
      cases h
      exact ⟨acc', rfl⟩
    | true =>
      rw [members_of_more hanother] at h ⊢
      obtain ⟨⟨name, s''⟩, hname, h⟩ := bind_eq_ok_iff.mp h
      obtain ⟨⟨acc₂, s₃⟩, hacc, h⟩ := bind_eq_ok_iff.mp h
      have hs'' := advances_key .keep hname
      have hs₃ := hadvances _ _ hacc
      dsimp only at hacc hs₃ h
      obtain ⟨acc₂', hacc'⟩ := hstep _ _ _ _ _ (by omega) hacc acc'
      obtain ⟨acc₁', hrest⟩ := ih (by omega) h acc₂'
      exact ⟨acc₁', bind_eq_ok_iff.mpr ⟨_, key_skip hname, bind_eq_ok_iff.mpr ⟨_, hacc', hrest⟩⟩⟩

/-- If values that are short enough can be skipped, a short enough member can. -/
theorem addMember_skip {item item' : Reader Json} {n : Nat}
    (hitem : ∀ s a r, s.length ≤ n → item s = .ok (a, r) → ∃ b, item' s = .ok (b, r))
    {acc acc₁ : Members} {name : String} {s r : Text} (hs : s.length ≤ n)
    (h : addMember item acc name s = .ok (acc₁, r)) (acc' : Members) :
    ∃ acc₁', addMember item' acc' "" s = .ok (acc₁', r) := by
  obtain ⟨s', v, hcolon, hv, -⟩ := addMember_eq_ok_iff.mp h
  obtain ⟨w, hw⟩ := hitem s' _ _ (Nat.le_trans (length_colon hcolon) hs) hv
  exact ⟨_, addMember_eq_ok_iff.mpr ⟨s', w, hcolon, hw, rfl⟩⟩

/-- A value of limited depth can be skipped if the depth of what is skipped is bounded by no less than
the length of the text: every level takes a bracket. -/
theorem value_skip {depth n : Nat} {s r : Text} {v : Json} (hs : s.length ≤ n)
    (h : value .keep depth s = .ok (v, r)) : ∃ w, value .skip n s = .ok (w, r) := by
  induction depth generalizing n s v r with
  | zero =>
    rcases value_cases h with ⟨b, t, hblanks, hbracket, hbrace, hscalar⟩ | ⟨t, _, _, -, hdepth, -⟩ |
      ⟨t, _, _, -, hdepth, -⟩
    · rw [value_of_scalar hblanks hbracket hbrace]
      exact scalar_skip hscalar
    · cases hdepth
    · cases hdepth
  | succ depth ih =>
    have hlength := length_dropBlanks s
    rcases value_cases h with ⟨b, t, hblanks, hbracket, hbrace, hscalar⟩ |
      ⟨t, _, items, hblanks, hdepth, h, -⟩ | ⟨t, _, ms, hblanks, hdepth, h, -⟩
    · rw [value_of_scalar hblanks hbracket hbrace]
      exact scalar_skip hscalar
    · cases hdepth
      -- The bracket is gone, so that the text is short enough for one level less.
      have ht : t.length + 1 ≤ n := by
        rw [hblanks, List.length_cons] at hlength
        omega
      obtain ⟨n, rfl⟩ := Nat.exists_eq_add_of_le' (Nat.le_of_add_left_le ht)
      obtain ⟨bs, hbs⟩ := elements_skip (advances_value .keep depth) (fun s a r hs ha => ih hs ha)
        (Nat.le_of_succ_le_succ ht) h
      exact ⟨.array bs, (dispatch_of_array hblanks).trans (bind_eq_ok_iff.mpr ⟨_, hbs, rfl⟩)⟩
    · cases hdepth
      have ht : t.length + 1 ≤ n := by
        rw [hblanks, List.length_cons] at hlength
        omega
      obtain ⟨n, rfl⟩ := Nat.exists_eq_add_of_le' (Nat.le_of_add_left_le ht)
      obtain ⟨ms', hms'⟩ := members_skip (advances_addMember (advances_value .keep depth))
        (fun _ _ _ _ _ hs hacc => addMember_skip (fun s a r hs ha => ih hs ha) hs hacc)
        (Nat.le_of_succ_le_succ ht) h []
      exact ⟨.object ms', (dispatch_of_object hblanks).trans (bind_eq_ok_iff.mpr ⟨_, hms', rfl⟩)⟩

/-- Whatever is kept as a value can be skipped, with the same text left behind it. -/
theorem skip_of_value {depth : Nat} {s r : Text} {v : Json}
    (h : value .keep depth s = .ok (v, r)) : skip s = .ok r := by
  obtain ⟨w, hw⟩ := value_skip (Nat.le_refl s.length) h
  exact bind_eq_ok_iff.mpr ⟨_, hw, rfl⟩

end OlmReceiver.Json
