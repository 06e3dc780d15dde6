import OlmReceiver.Proofs.JsonTokens

/-!
# Skipped tokens go as far as kept ones

A value that is passed over is held to the grammar alone, so that every token that can be kept can be
skipped, and then the same text is left behind it. The two ways do not go in step inside a string: two
escapes that stand for one character are kept as a pair and skipped one by one.

No reader puts text back, whichever way it goes. This bounds how deep a skipped value can nest.
-/

namespace OlmReceiver.Json

open Token

variable {α σ τ : Type}

/-! ## Numbers -/

/-- Digits that are kept can be skipped. -/
theorem digits_skip {s : Text} {p : Text × Text} (h : digits .keep s = .ok p) :
    digits .skip s = .ok p := by
  unfold digits at h ⊢
  split at h
  · cases h
  · cases h
  · exact h

theorem wholePart_skip {s : Text} {p : Text × Text} (h : wholePart .keep s = .ok p) :
    wholePart .skip s = .ok p := by
  obtain ⟨ds, hds, h⟩ := bind_eq_ok_iff.mp h
  exact bind_eq_ok_iff.mpr ⟨ds, digits_skip hds, h⟩

theorem fractionPart_skip {s : Text} {p : Text × Text} (h : fractionPart .keep s = .ok p) :
    fractionPart .skip s = .ok p := by
  unfold fractionPart at h ⊢
  split at h
  · exact digits_skip h
  · exact h

theorem exponentPart_skip {s : Text} {p : Option Int × Text} (h : exponentPart .keep s = .ok p) :
    exponentPart .skip s = .ok p := by
  cases s with
  | nil => exact h
  | cons b s =>
    by_cases hb : b = 'e'.toUInt8 ∨ b = 'E'.toUInt8
    · rw [exponentPart, if_pos hb] at h ⊢
      obtain ⟨ds, hds, h⟩ := bind_eq_ok_iff.mp h
      exact bind_eq_ok_iff.mpr ⟨ds, digits_skip hds, h⟩
    · rw [exponentPart, if_neg hb] at h ⊢
      exact h

/-- A literal that is kept can be skipped, with the same parts. -/
theorem literal_skip {s : Text} {p : Literal × Text} (h : Token.literal .keep s = .ok p) :
    Token.literal .skip s = .ok p := by
  unfold Token.literal at h ⊢
  obtain ⟨whole, hwhole, h⟩ := bind_eq_ok_iff.mp h
  obtain ⟨fraction, hfraction, h⟩ := bind_eq_ok_iff.mp h
  obtain ⟨exponent, hexponent, h⟩ := bind_eq_ok_iff.mp h
  exact bind_eq_ok_iff.mpr ⟨whole, wholePart_skip hwhole,
    bind_eq_ok_iff.mpr ⟨fraction, fractionPart_skip hfraction,
      bind_eq_ok_iff.mpr ⟨exponent, exponentPart_skip hexponent, h⟩⟩⟩

/-- A number that is kept can be skipped. -/
theorem number_skip {s r : Text} {v : Json} (h : Token.number .keep s = .ok (v, r)) :
    Token.number .skip s = .ok (.null, r) := by
  obtain ⟨⟨l, r'⟩, hl, h⟩ := bind_eq_ok_iff.mp h
  refine bind_eq_ok_iff.mpr ⟨(l, r'), literal_skip hl, ?_⟩
  dsimp only at h
  split at h
  · cases h
    rfl
  · cases h

/-! ## Strings -/

/-- The bytes of a string end at its quote, or begin with an escape or with a byte that stands for
itself. -/
theorem stringBytes_cases {m : Mode} {s t r : Text} (h : stringBytes m s = .ok (t, r)) :
    (s = Byte.quote :: r ∧ t = []) ∨
      (∃ s' u s'' t', s = Byte.backslash :: s' ∧ escape m s' = .ok (u, s'') ∧
        stringBytes m s'' = .ok (t', r)) ∨
      ∃ b s' t', s = b :: s' ∧ b ≠ Byte.quote ∧ b ≠ Byte.backslash ∧ ¬ b < Byte.space ∧
        stringBytes m s' = .ok (t', r) := by
  cases s with
  | nil => simp [stringBytes] at h
  | cons b s =>
    rw [stringBytes] at h
    split at h
    · rename_i hquote
      cases h
      exact .inl ⟨by rw [hquote], rfl⟩
    · rename_i hquote
      split at h
      · rename_i hbackslash
        split at h
        · cases h
        · rename_i u s' hescape
          obtain ⟨⟨t', r'⟩, ht', h⟩ := bind_eq_ok_iff.mp h
          cases h
          exact .inr (.inl ⟨s, u, s', t', by rw [hbackslash], hescape, ht'⟩)
      · rename_i hbackslash
        split at h
        · cases h
        · rename_i hspace
          obtain ⟨⟨t', r'⟩, ht', h⟩ := bind_eq_ok_iff.mp h
          cases h
          exact .inr (.inr ⟨b, s, t', rfl, hquote, hbackslash, hspace, ht'⟩)

/-- What is expected stands at the front of the text. -/
theorem eq_append_of_expect {w s r : Text} (h : expect w s = .ok r) : s = w ++ r := by
  induction w generalizing s with
  | nil =>
    cases h
    rfl
  | cons b w ih =>
    cases s with
    | nil => cases h
    | cons b' s =>
      unfold expect at h
      split at h
      · rename_i heq
        rw [heq, ih h, List.cons_append]
      · cases h

/-- The second escape of a pair can be skipped on its own. -/
theorem unicodeEscape_of_pairedEscape {n : Nat} {s t r : Text} (h : pairedEscape n s = .ok (t, r)) :
    ∃ s', s = Byte.backslash :: 'u'.toUInt8 :: s' ∧ unicodeEscape .skip s' = .ok ([], r) := by
  obtain ⟨s', hexpect, h⟩ := bind_eq_ok_iff.mp h
  obtain ⟨⟨n', r'⟩, hunit, h⟩ := bind_eq_ok_iff.mp h
  refine ⟨s', eq_append_of_expect hexpect, bind_eq_ok_iff.mpr ⟨_, hunit, ?_⟩⟩
  dsimp only at h
  split at h
  · simp only [Except.ok.injEq, Prod.mk.injEq] at h
    rw [h.2]
    rfl
  · cases h

/-- An escape that is kept is skipped as a whole, or as two escapes one behind the other. -/
theorem escape_skip {s t r : Text} (h : escape .keep s = .ok (t, r)) :
    (∃ u, escape .skip s = .ok (u, r)) ∨
      ∃ u s' u', escape .skip s = .ok (u, Byte.backslash :: s') ∧ escape .skip s' = .ok (u', r) := by
  cases s with
  | nil => cases h
  | cons b s =>
    by_cases hb : b = 'u'.toUInt8
    · subst hb
      rw [escape, if_pos rfl] at h ⊢
      obtain ⟨⟨n, s'⟩, hunit, h⟩ := bind_eq_ok_iff.mp h
      have hskip : unicodeEscape .skip s = .ok ([], s') := bind_eq_ok_iff.mpr ⟨_, hunit, rfl⟩
      simp only [reduceCtorEq, if_false] at h
      split at h
      · cases h
      · split at h
        · obtain ⟨s'', hs', hsecond⟩ := unicodeEscape_of_pairedEscape h
          refine .inr ⟨[], 'u'.toUInt8 :: s'', [], hs' ▸ hskip, ?_⟩
          rw [escape, if_pos rfl, hsecond]
        · cases h
          exact .inl ⟨[], hskip⟩
    · rw [escape, if_neg hb] at h
      refine .inl ⟨t, ?_⟩
      rw [escape, if_neg hb]
      exact h

/-- A string that is kept can be skipped. -/
theorem stringBytes_skip {s t r : Text} (h : stringBytes .keep s = .ok (t, r)) :
    ∃ u, stringBytes .skip s = .ok (u, r) := by
  induction hn : s.length using Nat.strongRecOn generalizing s t with
  | ind n ih =>
    subst hn
    rcases stringBytes_cases h with ⟨rfl, -⟩ | ⟨s', u, s'', t', rfl, hescape, hrest⟩ |
      ⟨b, s', t', rfl, hquote, hbackslash, hspace, hrest⟩
    · exact ⟨[], by rw [stringBytes, if_pos rfl]⟩
    · have hlength := length_lt_of_escape hescape
      obtain ⟨w, hw⟩ := ih s''.length (by simp only [List.length_cons]; omega) hrest rfl
      rcases escape_skip hescape with ⟨u, hskip⟩ | ⟨u, second, u', hfirst, hsecond⟩
      · rw [stringBytes_escape hskip, hw]
        exact ⟨_, rfl⟩
      · rw [stringBytes_escape hfirst, stringBytes_escape hsecond, hw]
        exact ⟨_, rfl⟩
    · obtain ⟨w, hw⟩ := ih s'.length (by simp) hrest rfl
      rw [stringBytes_plain hquote hbackslash hspace, hw]
      exact ⟨_, rfl⟩

/-- A string that is kept can be skipped from its opening quote on. -/
theorem stringRest_skip {s r : Text} {x : String} (h : stringRest .keep s = .ok (x, r)) :
    stringRest .skip s = .ok ("", r) := by
  obtain ⟨⟨t, r'⟩, ht, h⟩ := bind_eq_ok_iff.mp h
  obtain ⟨u, hu⟩ := stringBytes_skip ht
  dsimp only at h
  split at h
  · cases h
    exact bind_eq_ok_iff.mpr ⟨_, hu, rfl⟩
  · cases h

/-- A member name that is kept can be skipped. -/
theorem key_skip {s r : Text} {x : String} (h : key .keep s = .ok (x, r)) :
    key .skip s = .ok ("", r) := by
  cases s with
  | nil => cases h
  | cons b s =>
    rw [key] at h ⊢
    split at h
    · rw [if_pos ‹_›]
      exact stringRest_skip h
    · cases h

/-! ## Scalars -/

/-- A scalar that is kept can be skipped. -/
theorem scalar_skip {s r : Text} {v : Json} (h : scalar .keep s = .ok (v, r)) :
    ∃ w, scalar .skip s = .ok (w, r) := by
  cases s with
  | nil => cases h
  | cons b s =>
    rw [scalar] at h ⊢
    split at h
    · rw [if_pos ‹_›]
      obtain ⟨⟨x, r'⟩, hx, h⟩ := bind_eq_ok_iff.mp h
      cases h
      exact ⟨_, bind_eq_ok_iff.mpr ⟨_, stringRest_skip hx, rfl⟩⟩
    · rw [if_neg ‹_›]
      -- A literal word is read in the same way in both modes.
      by_cases hn : b = 'n'.toUInt8
      · rw [if_pos hn] at h ⊢
        exact ⟨v, h⟩
      · rw [if_neg hn] at h ⊢
        by_cases ht : b = 't'.toUInt8
        · rw [if_pos ht] at h ⊢
          exact ⟨v, h⟩
        · rw [if_neg ht] at h ⊢
          by_cases hf : b = 'f'.toUInt8
          · rw [if_pos hf] at h ⊢
            exact ⟨v, h⟩
          · rw [if_neg hf] at h ⊢
            split at h
            · rw [if_pos ‹_›]
              exact ⟨_, number_skip h⟩
            · cases h

/-! ## No text is put back -/

/-- The reader leaves no more text behind than it was given. -/
def Advances (item : Reader α) : Prop :=
  ∀ ⦃s a r⦄, item s = .ok (a, r) → r.length ≤ s.length

theorem advances_digits (m : Mode) : Advances (digits m) := by
  intro s ds r h
  have hdrop := (List.dropWhile_suffix Byte.isDigit (l := s)).length_le
  unfold digits at h
  split at h
  · cases h
  · cases h
  · cases h
    exact hdrop

theorem advances_wholePart (m : Mode) : Advances (wholePart m) := by
  intro s ds r h
  obtain ⟨⟨ds', r'⟩, hds, h⟩ := bind_eq_ok_iff.mp h
  dsimp only at h
  split at h
  · cases h
  · cases h
    exact advances_digits m hds

theorem advances_fractionPart (m : Mode) : Advances (fractionPart m) := by
  intro s ds r h
  unfold fractionPart at h
  split at h
  · have := advances_digits m h
    simp only [List.length_cons]
    omega
  · cases h
    exact Nat.le_refl _

theorem length_exponentSign (s : Text) : (exponentSign s).2.length ≤ s.length := by
  unfold exponentSign
  split <;> simp

theorem advances_exponentPart (m : Mode) : Advances (exponentPart m) := by
  intro s e r h
  cases s with
  | nil =>
    cases h
    exact Nat.le_refl _
  | cons b s =>
    rw [exponentPart] at h
    split at h
    · obtain ⟨⟨ds, r'⟩, hds, h⟩ := bind_eq_ok_iff.mp h
      cases h
      have hsign := length_exponentSign s
      have hdigits : r.length ≤ (exponentSign s).2.length := advances_digits m hds
      simp only [List.length_cons]
      omega
    · cases h
      exact Nat.le_refl _

theorem length_numberSign (s : Text) : (numberSign s).2.length ≤ s.length := by
  unfold numberSign
  split <;> simp

theorem advances_number (m : Mode) : Advances (Token.number m) := by
  intro s v r h
  obtain ⟨⟨l, r'⟩, hl, h⟩ := bind_eq_ok_iff.mp h
  obtain ⟨⟨whole, s₁⟩, hwhole, hl⟩ := bind_eq_ok_iff.mp hl
  obtain ⟨⟨fraction, s₂⟩, hfraction, hl⟩ := bind_eq_ok_iff.mp hl
  obtain ⟨⟨exponent, s₃⟩, hexponent, hl⟩ := bind_eq_ok_iff.mp hl
  have hsign := length_numberSign s
  have h₁ : s₁.length ≤ (numberSign s).2.length := advances_wholePart m hwhole
  have h₂ := advances_fractionPart m hfraction
  have h₃ := advances_exponentPart m hexponent
  have hr : r = r' := by
    dsimp only at h
    split at h
    · cases h
      rfl
    · split at h
      · cases h
        rfl
      · cases h
  cases hl
  rw [hr]
  omega

theorem advances_stringBytes (m : Mode) : Advances (stringBytes m) := by
  intro s t r h
  induction hn : s.length using Nat.strongRecOn generalizing s t with
  | ind n ih =>
    subst hn
    rcases stringBytes_cases h with ⟨rfl, -⟩ | ⟨s', u, s'', t', rfl, hescape, hrest⟩ |
      ⟨b, s', t', rfl, -, -, -, hrest⟩
    · simp
    · have hlength := length_lt_of_escape hescape
      have := ih s''.length (by simp only [List.length_cons]; omega) hrest rfl
      simp only [List.length_cons]
      omega
    · have := ih s'.length (by simp) hrest rfl
      simp only [List.length_cons]
      omega

theorem advances_stringRest (m : Mode) : Advances (stringRest m) := by
  intro s x r h
  obtain ⟨⟨t, r'⟩, ht, h⟩ := bind_eq_ok_iff.mp h
  have hr : r = r' := by
    dsimp only at h
    split at h
    · cases h
      rfl
    · split at h
      · cases h
        rfl
      · cases h
  exact hr ▸ advances_stringBytes m ht

theorem advances_key (m : Mode) : Advances (key m) := by
  intro s x r h
  cases s with
  | nil => cases h
  | cons b s =>
    rw [key] at h
    split at h
    · have := advances_stringRest m h
      simp only [List.length_cons]
      omega
    · cases h

/-- A scalar is a string, a literal word or a number. -/
theorem scalar_cases {m : Mode} {s r : Text} {v : Json} (h : scalar m s = .ok (v, r)) :
    (∃ s' x, s = Byte.quote :: s' ∧ stringRest m s' = .ok (x, r) ∧ v = .string x) ∨
      (∃ word, expect word s = .ok r ∧
        (word, v) ∈ [(nullWord, Json.null), (trueWord, .bool true), (falseWord, .bool false)]) ∨
      Token.number m s = .ok (v, r) := by
  cases s with
  | nil => cases h
  | cons b s =>
    rw [scalar] at h
    split at h
    · rename_i hquote
      obtain ⟨⟨x, r'⟩, hx, h⟩ := bind_eq_ok_iff.mp h
      cases h
      exact .inl ⟨s, x, by rw [hquote], hx, rfl⟩
    · refine .inr ?_
      split at h
      · obtain ⟨r', hr', h⟩ := bind_eq_ok_iff.mp h
        cases h
        exact .inl ⟨nullWord, hr', by simp⟩
      · split at h
        · obtain ⟨r', hr', h⟩ := bind_eq_ok_iff.mp h
          cases h
          exact .inl ⟨trueWord, hr', by simp⟩
        · split at h
          · obtain ⟨r', hr', h⟩ := bind_eq_ok_iff.mp h
            cases h
            exact .inl ⟨falseWord, hr', by simp⟩
          · split at h
            · exact .inr h
            · cases h

/-- A number that is kept is not null. -/
theorem number_ne_null {s r : Text} {v : Json} (h : Token.number .keep s = .ok (v, r)) :
    v ≠ .null := by
  obtain ⟨⟨l, r'⟩, -, h⟩ := bind_eq_ok_iff.mp h
  dsimp only at h
  split at h
  · cases h
    exact Json.noConfusion
  · cases h

theorem advances_scalar (m : Mode) : Advances (scalar m) := by
  intro s v r h
  rcases scalar_cases h with ⟨s', x, rfl, hx, -⟩ | ⟨word, hword, -⟩ | hnumber
  · have := advances_stringRest m hx
    simp only [List.length_cons]
    omega
  · exact length_le_of_expect hword
  · exact advances_number m hnumber

end OlmReceiver.Json
