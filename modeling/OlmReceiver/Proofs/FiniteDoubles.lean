import OlmReceiver.Proofs.Numerals

/-!
# Decimals that have a double

A decimal is read by way of the double of its significand and the double of a power of ten, and
fails where one of the operations on them has no finite result. Here it is said that it does not
fail as long as the significand fits 64 bits and the exponent is small, however far below zero it
goes.

Magnitudes are bounded by powers of two, which are doubles themselves, so that rounding does not leave
them.
-/

namespace OlmReceiver

/-- Rounding does not go beyond a whole number that the quotient does not exceed. -/
theorem roundedQuotient_le {b num den : Nat} (hden : 0 < den) (h : num ≤ den * b) :
    roundedQuotient num den ≤ b := by
  have hdiv := Nat.div_add_mod num den
  have hmod := Nat.mod_lt num hden
  have hq : num / den ≤ b := Nat.div_le_of_le_mul h
  rcases Nat.lt_or_eq_of_le hq with hlt | heq
  · unfold roundedQuotient
    dsimp only
    split
    · exact hq
    · split
      · exact hlt
      · split
        · exact hq
        · exact hlt
  · have hzero : num % den = 0 := by
      rw [heq] at hdiv
      omega
    unfold roundedQuotient
    dsimp only
    rw [hzero, if_pos (by omega)]
    exact hq

namespace Double

/-- The binade of a magnitude that a power of two bounds lies 52 below that power. -/
theorem binade_le {q c : Nat} (h : q ≤ twoPow c) (hlow : 52 ≤ c) : binade q + 52 ≤ c := by
  have hlog : q.log2 ≤ c := by
    by_cases hq : q = 0
    · simp [hq]
    · have hpow : twoPow q.log2 ≤ twoPow c := Nat.le_trans (Nat.log2_self_le hq) h
      exact (Nat.pow_le_pow_iff_right (by decide)).mp hpow
  unfold binade
  omega

/-- A magnitude that a power of two bounds, in units of `2 ^ -1074`, has a double that the power
bounds. -/
theorem exists_nearest? (negative : Bool) {num den c : Nat} (hden : 0 < den)
    (h : num * twoPow 1074 ≤ den * twoPow c) (hlow : 52 ≤ c) (hhigh : c ≤ 2097) :
    ∃ x, nearest? negative num den = some x ∧ x.units ≤ twoPow c := by
  have hbinade := binade_le (Nat.div_le_of_le_mul h) hlow
  obtain ⟨e, he⟩ : ∃ e, e = binade (num * twoPow 1074 / den) := ⟨_, rfl⟩
  rw [← he] at hbinade
  have hm : roundedQuotient (num * twoPow 1074) (den * twoPow e) ≤ twoPow (c - e) := by
    refine roundedQuotient_le (Nat.mul_pos hden (twoPow_pos e)) ?_
    rw [Nat.mul_assoc, ← twoPow_add, Nat.add_sub_cancel' (by omega)]
    exact h
  have hunits : roundedQuotient (num * twoPow 1074) (den * twoPow e) * twoPow e ≤ twoPow c := by
    calc
      _ ≤ twoPow (c - e) * twoPow e := Nat.mul_le_mul_right _ hm
      _ = twoPow c := by rw [← twoPow_add, Nat.sub_add_cancel (by omega)]
  subst he
  unfold nearest?
  dsimp only
  rw [dif_pos (by omega)]
  split
  · exact ⟨_, rfl, hunits⟩
  · rename_i hfull
    -- A full mantissa is a power of two itself, and so no larger than the bound.
    have hfull := Nat.not_lt.mp hfull
    have hroom := (Nat.pow_le_pow_iff_right (by decide)).mp (Nat.le_trans hfull hm)
    rw [dif_pos (by omega)]
    refine ⟨_, rfl, ?_⟩
    have hcarry (e : Nat) : twoPow 52 * twoPow (e + 1) = twoPow 53 * twoPow e := by
      rw [← twoPow_add, ← twoPow_add]
      exact congrArg twoPow (by omega)
    calc
      _ = twoPow 53 * twoPow (binade (num * twoPow 1074 / den)) := hcarry _
      _ ≤ _ := Nat.mul_le_mul_right _ hfull
      _ ≤ twoPow c := hunits

/-- The double of a magnitude is no less than a power of two that the magnitude is no less than. -/
theorem le_units_of_nearest? {negative : Bool} {num den c : Nat} {x : Double} (hden : 0 < den)
    (h : den * twoPow c ≤ num * twoPow 1074) (hlow : 53 ≤ c)
    (hx : nearest? negative num den = some x) : twoPow c ≤ x.units := by
  obtain ⟨e, m, he, hm, hcases⟩ := nearest?_cases hx
  have hquotient : twoPow c ≤ num * twoPow 1074 / den := by
    rw [Nat.le_div_iff_mul_le hden, Nat.mul_comm]
    exact h
  have hlog : c ≤ (num * twoPow 1074 / den).log2 := by
    rw [Nat.le_log2 (Nat.ne_of_gt (Nat.lt_of_lt_of_le (twoPow_pos c) hquotient))]
    exact hquotient
  have hbinade : c ≤ 52 + e ∧ e ≠ 0 := by
    unfold binade at he
    omega
  have hfull : twoPow 52 ≤ m := by
    rw [hm]
    refine le_roundedQuotient ?_
    rw [← Nat.div_div_eq_div_mul, he]
    exact twoPow_le_of_binade_pos (he ▸ hbinade.2)
  have hpow : twoPow c ≤ twoPow 52 * twoPow e := by
    rw [← twoPow_add]
    exact Nat.pow_le_pow_right (by decide) hbinade.1
  rcases hcases with ⟨hmantissa, hexponent⟩ | ⟨-, hmantissa, hexponent⟩
  · rw [units, hmantissa, hexponent]
    exact Nat.le_trans hpow (Nat.mul_le_mul_right _ hfull)
  · rw [units, hmantissa, hexponent]
    exact Nat.le_trans hpow (Nat.mul_le_mul_left _ (Nat.pow_le_pow_right (by decide) (Nat.le_succ e)))

theorem tenPow_le {j k : Nat} (h : j ≤ k) : tenPow j ≤ tenPow k :=
  Nat.pow_le_pow_right (by decide) h

theorem tenPow_307_le : tenPow 307 ≤ twoPow 1020 := by
  decide +kernel

theorem tenPow_30_le : tenPow 30 ≤ twoPow 100 := by
  decide +kernel

/-- The largest power of ten that has a double. -/
theorem isSome_powTen?_308 : (powTen? 308).isSome = true := by
  decide +kernel

/-- Up to `10 ^ 308`, the powers of ten have doubles, and none is less than one. -/
theorem exists_powTen? {k : Nat} (hk : k ≤ 308) :
    ∃ y, powTen? k = some y ∧ twoPow 1074 ≤ y.units := by
  have hone : 1 * twoPow 1074 ≤ tenPow k * twoPow 1074 :=
    Nat.mul_le_mul_right _ (tenPow_pos k)
  have hsome : (powTen? k).isSome = true := by
    rcases Nat.lt_or_eq_of_le hk with hlt | rfl
    · have hbound := Nat.le_trans (tenPow_le (Nat.le_of_lt_succ hlt)) tenPow_307_le
      have hten : tenPow k * twoPow 1074 ≤ 1 * twoPow (1020 + 1074) := by
        rw [Nat.one_mul, twoPow_add]
        exact Nat.mul_le_mul_right _ hbound
      obtain ⟨y, hy, -⟩ := exists_nearest? false Nat.one_pos hten (by decide) (by decide)
      rw [powTen?, hy]
      rfl
    · exact isSome_powTen?_308
  obtain ⟨y, hy⟩ := Option.isSome_iff_exists.mp hsome
  exact ⟨y, hy, le_units_of_nearest? Nat.one_pos hone (by decide) hy⟩

/-- A quotient by a power of ten is a double that is no larger. -/
theorem exists_div? {x y : Double} {c : Nat} (hx : x.units ≤ twoPow c) (hy : twoPow 1074 ≤ y.units)
    (hlow : 52 ≤ c) (hhigh : c ≤ 2097) : ∃ z, x.div? y = some z ∧ z.units ≤ twoPow c := by
  have hpos : 0 < y.units := Nat.lt_of_lt_of_le (twoPow_pos 1074) hy
  have hle : x.units * twoPow 1074 ≤ y.units * twoPow c := by
    rw [Nat.mul_comm]
    exact Nat.mul_le_mul hy hx
  exact exists_nearest? _ hpos hle hlow hhigh

/-- Scaling down does not fail. -/
theorem isSome_scaleDown? {x : Double} {c : Nat} (hx : x.units ≤ twoPow c) (hlow : 52 ≤ c)
    (hhigh : c ≤ 2097) (k : Nat) : (x.scaleDown? k).isSome = true := by
  induction k using Nat.strongRecOn generalizing x with
  | ind k ih =>
    by_cases hk : k ≤ 308
    · obtain ⟨y, hpow, hy⟩ := exists_powTen? hk
      obtain ⟨z, hz, -⟩ := exists_div? hx hy hlow hhigh
      have hscaled : x.scaleDown? k = some z := by
        rw [scaleDown?, if_pos hk, hpow, Option.bind_eq_bind, Option.bind_some, hz]
      rw [hscaled]
      rfl
    · cases hzero : x.isZero with
      | true =>
        rw [scaleDown?, if_neg hk, if_pos hzero]
        rfl
      | false =>
        have hless : k - 308 < k := by omega
        obtain ⟨y, hpow, hy⟩ := exists_powTen? (Nat.le_refl 308)
        obtain ⟨z, hz, hunits⟩ := exists_div? hx hy hlow hhigh
        have hscaled : x.scaleDown? k = z.scaleDown? (k - 308) := by
          rw [scaleDown?, if_neg hk, if_neg (Bool.eq_false_iff.mp hzero), hpow, Option.bind_eq_bind,
            Option.bind_some, hz, Option.bind_some]
        rw [hscaled]
        exact ih (k - 308) hless hunits

/-- Scaling up by little does not fail. -/
theorem isSome_scaleUp? {x : Double} (hx : x.units ≤ twoPow (64 + 1074)) {k : Nat} (hk : k ≤ 30) :
    (x.scaleUp? k).isSome = true := by
  have hten : tenPow k * twoPow 1074 ≤ 1 * twoPow (100 + 1074) := by
    rw [Nat.one_mul, twoPow_add]
    exact Nat.mul_le_mul_right _ (Nat.le_trans (tenPow_le hk) tenPow_30_le)
  obtain ⟨y, hpow, hy⟩ := exists_nearest? false Nat.one_pos hten (by decide) (by decide)
  have hproduct : x.units * y.units * twoPow 1074 ≤ twoPow 1074 * twoPow 1074 * twoPow 1238 := by
    calc
      _ ≤ twoPow (64 + 1074) * twoPow (100 + 1074) * twoPow 1074 :=
        Nat.mul_le_mul_right _ (Nat.mul_le_mul hx hy)
      _ = twoPow 1074 * twoPow 1074 * twoPow 1238 := by
        simp only [← twoPow_add]
  obtain ⟨z, hz, -⟩ := exists_nearest? (x.negative != y.negative)
    (Nat.mul_pos (twoPow_pos 1074) (twoPow_pos 1074)) hproduct (by decide) (by decide)
  rw [scaleUp?, if_pos (Nat.le_trans hk (by decide)), powTen?, hpow, Option.bind_eq_bind,
    Option.bind_some, mul?, hz]
  rfl

/-- Zero is scaled up by any power. -/
theorem isSome_scaleUp?_of_isZero {x : Double} (hx : x.isZero = true) (k : Nat) :
    (x.scaleUp? k).isSome = true := by
  by_cases hk : k ≤ 308
  · obtain ⟨y, hpow, -⟩ := exists_powTen? hk
    have hzero : x.units * y.units * twoPow 1074 ≤ twoPow 1074 * twoPow 1074 * twoPow 52 := by
      rw [units, eq_of_beq hx, Nat.zero_mul, Nat.zero_mul, Nat.zero_mul]
      exact Nat.zero_le _
    obtain ⟨z, hz, -⟩ := exists_nearest? (x.negative != y.negative)
      (Nat.mul_pos (twoPow_pos 1074) (twoPow_pos 1074)) hzero (by decide) (by decide)
    rw [scaleUp?, if_pos hk, hpow, Option.bind_eq_bind, Option.bind_some, mul?, hz]
    rfl
  · rw [scaleUp?, if_neg hk, if_pos hx]
    rfl

/-- A significand of 64 bits has a double. -/
theorem exists_significand (negative : Bool) {n : Nat} (hn : n < 18446744073709551616) :
    ∃ x, nearest? negative n 1 = some x ∧ x.units ≤ twoPow (64 + 1074) := by
  have hbound : n * twoPow 1074 ≤ 1 * twoPow (64 + 1074) := by
    rw [Nat.one_mul, twoPow_add]
    exact Nat.mul_le_mul_right _ (Nat.le_of_lt hn)
  exact exists_nearest? negative Nat.one_pos hbound (by decide) (by decide)

/-- A significand of 64 bits with a small exponent has a double. -/
theorem isSome_ofDecimal? (negative : Bool) {n : Nat} (hn : n < 18446744073709551616) {e : Int}
    (he : e ≤ 30) : (ofDecimal? negative n e).isSome = true := by
  obtain ⟨x, hx, hunits⟩ := exists_significand negative hn
  rw [ofDecimal?, hx]
  cases e with
  | ofNat k => exact isSome_scaleUp? hunits (Int.ofNat_le.mp he)
  | negSucc k => exact isSome_scaleDown? hunits (by decide) (by decide) (k + 1)

/-- A significand that has a double with one exponent has one with another, if that is small
wherever the first is none beyond the powers of ten. -/
theorem isSome_ofDecimal?_of_isSome {negative : Bool} {n : Nat} {e e' : Int}
    (h : (ofDecimal? negative n e).isSome = true) (hn : n < 18446744073709551616)
    (hsmall : e ≤ 308 → e' ≤ 30) : (ofDecimal? negative n e').isSome = true := by
  by_cases he : e ≤ 308
  · exact isSome_ofDecimal? negative hn (hsmall he)
  · obtain ⟨x, hx, hunits⟩ := exists_significand negative hn
    rw [ofDecimal?, hx] at h ⊢
    -- Beyond the largest power of ten that has a double, only zero is scaled up.
    have hzero : x.isZero = true := by
      cases e with
      | negSucc k => omega
      | ofNat k =>
        have hk : ¬ k ≤ 308 := fun hk => he (Int.ofNat_le.mpr hk)
        change (x.scaleUp? k).isSome = true at h
        rw [scaleUp?, if_neg hk] at h
        by_contra hzero
        rw [if_neg hzero] at h
        cases h
    cases e' with
    | ofNat k => exact isSome_scaleUp?_of_isZero hzero k
    | negSucc k => exact isSome_scaleDown? hunits (by decide) (by decide) (k + 1)

end Double

end OlmReceiver
