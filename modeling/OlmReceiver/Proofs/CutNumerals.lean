import OlmReceiver.Proofs.FiniteDoubles

/-!
# Numerals that are cut off

A numeral that is cut off is either no number yet, as behind a sign or a point, and the reader
reports that the text ends; or the beginning of it is a numeral itself, and the reader takes it for
a smaller number. That number is in range if the whole one is: without its last digits a significand
fits, and an exponent is less than a tenth of what it was.
-/

namespace OlmReceiver

namespace Text

/-- The text begins like the other one and ends before it. -/
def Cut (t w : Text) : Prop :=
  t <+: w ∧ t ≠ w

theorem not_cut_nil (t : Text) : ¬ Cut t [] := fun h =>
  h.2 (List.prefix_nil.mp h.1)

/-- A text is cut in front of its first byte or behind it. -/
theorem Cut.cons {t w : Text} {b : UInt8} (h : Cut t (b :: w)) :
    t = [] ∨ ∃ t', t = b :: t' ∧ Cut t' w := by
  cases t with
  | nil => exact .inl rfl
  | cons c t =>
    obtain ⟨rfl, hbegins⟩ := List.cons_prefix_cons.mp h.1
    exact .inr ⟨t, rfl, hbegins, fun heq => h.2 (heq ▸ rfl)⟩

/-- A text of two parts is cut within the first one or behind it. -/
theorem Cut.append {t v w : Text} (h : Cut t (v ++ w)) :
    Cut t v ∨ ∃ t', t = v ++ t' ∧ Cut t' w := by
  induction v generalizing t with
  | nil => exact .inr ⟨t, rfl, h⟩
  | cons b v ih =>
    rcases h.cons with rfl | ⟨t, rfl, htail⟩
    · exact .inl ⟨List.prefix_append [] _, (List.cons_ne_nil b v).symm⟩
    · rcases ih htail with hv | ⟨t, rfl, hw⟩
      · exact .inl ⟨List.cons_prefix_cons.mpr ⟨rfl, hv.1⟩, fun heq => hv.2 (List.cons.inj heq).2⟩
      · exact .inr ⟨t, rfl, hw⟩

theorem Cut.length_lt {t w : Text} (h : Cut t w) : t.length < w.length :=
  Nat.lt_of_le_of_ne h.1.length_le fun heq => h.2 (h.1.eq_of_length heq)

/-- Of a single byte nothing is left. -/
theorem Cut.eq_nil {t : Text} {b : UInt8} (h : Cut t [b]) : t = [] :=
  List.length_eq_zero_iff.mp (Nat.lt_one_iff.mp h.length_lt)

end Text

/-! ## Digits that are cut off -/

namespace Digits

/-- Digits that follow make a number larger. -/
theorem toNat_le_append (ds es : Text) : toNat ds ≤ toNat (ds ++ es) := by
  induction es using List.reverseRecOn with
  | nil => simp
  | append_singleton es e ih =>
    rw [← List.append_assoc, toNat_append]
    omega

/-- A number is at least ten times what it is without its last digits. -/
theorem ten_mul_toNat_le_of_cut {t ds : Text} (h : Text.Cut t ds) : 10 * toNat t ≤ toNat ds := by
  obtain ⟨⟨es, rfl⟩, hne⟩ := h
  cases es with
  | nil => exact absurd (List.append_nil t).symm hne
  | cons e es =>
    have hmore := toNat_le_append (t ++ [e]) es
    rw [toNat_append, List.append_assoc] at hmore
    exact Nat.le_trans (Nat.le_add_right _ _) hmore

end Digits

namespace Literal

/-- Digits do not make a significand smaller. -/
theorem le_foldl (ds : Text) (n : Nat) :
    n ≤ ds.foldl (fun n d => 10 * n + Byte.digitValue d) n := by
  induction ds generalizing n with
  | nil => exact Nat.le_refl n
  | cons d ds ih =>
    have hd : n ≤ 10 * n + Byte.digitValue d := by omega
    exact Nat.le_trans hd (ih _)

/-- A significand takes all digits of a number that fits 64 bits. -/
theorem append_of_lt {ds : Text} {n : Nat}
    (h : ds.foldl (fun n d => 10 * n + Byte.digitValue d) n < 18446744073709551616) :
    (append n ds).2 = 0 := by
  induction ds generalizing n with
  | nil => rfl
  | cons d ds ih =>
    have hd := Nat.lt_of_le_of_lt (le_foldl ds _) h
    unfold append
    dsimp only
    rw [if_pos hd]
    exact ih h

/-- A significand fits 64 bits. -/
theorem append_lt {n : Nat} (hn : n < 18446744073709551616) (ds : Text) :
    (append n ds).1 < 18446744073709551616 := by
  induction ds generalizing n with
  | nil => exact hn
  | cons d ds ih =>
    unfold append
    dsimp only
    split
    · rename_i hmore
      exact ih hmore
    · exact hn

end Literal

namespace Numeral

/-- A numeral that another one begins with: it has some of the digits in front of the point, or all
parts of the other but for digits of the exponent. -/
structure CutFrom (w' w : Numeral) : Prop where
  whole : w'.whole <+: w.whole
  exponent : ∀ e' ∈ w'.exponent, w'.negative = w.negative ∧ w'.whole = w.whole ∧
    w'.fraction = w.fraction ∧ ∃ ds, w.exponent = some (e'.1, ds) ∧ Text.Cut e'.2 ds

open Json Json.Token

/-- Behind digits in front of the point, the reader goes on with the fraction. -/
theorem literal_append (w : Numeral) {rest : Text} (hrest : NoDigit rest) :
    Token.literal .keep (signText w.negative ++ (w.whole ++ rest)) =
      (fractionPart .keep rest).bind fun p => (exponentPart .keep p.2).bind fun q =>
        .ok (⟨w.negative, w.whole, p.1, q.1⟩, q.2) := by
  simp only [Token.literal, numberSign_append _ w.whole_ne_nil w.whole_digits,
    wholePart_append w.whole_ne_nil w.whole_digits w.whole_leads hrest, bind, Except.bind]

/-- A numeral is cut off behind the digits in front of the point, or right behind the point, or within
the digits behind it. -/
theorem literal_cut_fraction (w : Numeral) {t : Text} (h : Text.Cut t (fractionText w.fraction)) :
    Token.literal .keep (signText w.negative ++ (w.whole ++ t)) = .error .truncated ∨
      ∃ w' : Numeral, signText w.negative ++ (w.whole ++ t) = w'.toText ∧ w'.CutFrom w := by
  cases hfraction : w.fraction with
  | nil =>
    rw [hfraction] at h
    exact absurd h (Text.not_cut_nil t)
  | cons d ds =>
    rw [hfraction] at h
    rcases h.cons with rfl | ⟨t, rfl, hds⟩
    · refine .inr ⟨w.ofFraction List.nil_prefix, ?_, List.prefix_rfl, by simp [ofFraction]⟩
      simp [toText, ofFraction, fractionText, exponentText]
    · cases t with
      | nil =>
        left
        rw [w.literal_append (noDigit_cons (by decide) [])]
        rfl
      | cons b t =>
        refine .inr ⟨w.ofFraction (hfraction ▸ hds.1), ?_, List.prefix_rfl, by simp [ofFraction]⟩
        simp [toText, ofFraction, fractionText, exponentText]

/-- A numeral is cut off in front of the exponent, or in front of its digits, or within these. -/
theorem literal_cut_exponent (w : Numeral) {t : Text} (h : Text.Cut t (exponentText w.exponent)) :
    Token.literal .keep (signText w.negative ++ (w.whole ++ (fractionText w.fraction ++ t))) =
        .error .truncated ∨
      ∃ w' : Numeral, signText w.negative ++ (w.whole ++ (fractionText w.fraction ++ t)) = w'.toText ∧
        w'.CutFrom w := by
  cases hexponent : w.exponent with
  | none =>
    rw [hexponent] at h
    exact absurd h (Text.not_cut_nil t)
  | some e =>
    obtain ⟨negative, ds⟩ := e
    rw [hexponent] at h
    have hread (s : Text) : Token.literal .keep (signText w.negative ++
        (w.whole ++ (fractionText w.fraction ++ Byte.lowerE :: s))) =
          (exponentPart .keep (Byte.lowerE :: s)).bind fun q =>
            .ok (⟨w.negative, w.whole, w.fraction, q.1⟩, q.2) := by
      have hletter : NoDigit (Byte.lowerE :: s) := noDigit_cons (by decide) s
      rw [w.literal_append (noDigit_fractionText w.fraction hletter),
        fractionPart_append w.fraction_digits hletter (by rintro - _ ⟨⟩; decide)]
      rfl
    rcases h.cons with rfl | ⟨t, rfl, hsign⟩
    · refine .inr ⟨w.ofFraction List.prefix_rfl, ?_, List.prefix_rfl, by simp [ofFraction]⟩
      simp [toText, ofFraction, exponentText]
    rcases hsign.cons with rfl | ⟨t, rfl, hds⟩
    · left
      rw [hread]
      rfl
    · by_cases ht : t = []
      · subst ht
        left
        rw [hread]
        cases negative <;> rfl
      · refine .inr ⟨w.ofExponent hexponent hds.1 ht, ?_, List.prefix_rfl, ?_⟩
        · simp [toText, ofExponent, exponentText]
        · rintro _ ⟨⟩
          exact ⟨rfl, rfl, rfl, ds, hexponent, hds⟩

/-- A numeral that is cut off ends too early, or is a numeral itself. -/
theorem literal_cut (w : Numeral) {t : Text} (h : Text.Cut t w.toText) :
    Token.literal .keep t = .error .truncated ∨ ∃ w' : Numeral, t = w'.toText ∧ w'.CutFrom w := by
  rcases h.append with hsign | ⟨t, rfl, hdigits⟩
  · -- Nothing is in front of the minus.
    cases hnegative : w.negative with
    | false =>
      rw [hnegative] at hsign
      exact absurd hsign (Text.not_cut_nil t)
    | true =>
      rw [hnegative] at hsign
      obtain rfl := Text.Cut.eq_nil hsign
      exact .inl rfl
  rcases hdigits.append with hwhole | ⟨t, rfl, hrest⟩
  · by_cases ht : t = []
    · subst ht
      cases w.negative <;> exact .inl rfl
    · refine .inr ⟨w.ofWhole hwhole.1 ht, ?_, hwhole.1, by simp [ofWhole]⟩
      simp [toText, ofWhole, fractionText, exponentText]
  rcases hrest.append with hfraction | ⟨t, rfl, hexponent⟩
  · exact w.literal_cut_fraction hfraction
  · exact w.literal_cut_exponent hexponent

/-- The exponent that the double of a numeral is computed with: digits of the fraction count against
it. -/
theorem double?_literal (w : Numeral) (hsmall : Digits.toNat w.whole < 18446744073709551616) :
    ∃ n : Nat, ∃ used : Nat, n < 18446744073709551616 ∧
      ∀ (negative : Bool) (exponent : Option Int),
        Literal.double? ⟨negative, w.whole, w.fraction, exponent⟩ =
          Double.ofDecimal? negative n (exponent.getD 0 - used) := by
  refine ⟨(Literal.append (Literal.append 0 w.whole).1 w.fraction).1,
    w.fraction.length - (Literal.append (Literal.append 0 w.whole).1 w.fraction).2,
    Literal.append_lt (Literal.append_lt (by decide) _) _, fun negative exponent => ?_⟩
  have hsurplus : (Literal.append 0 w.whole).2 = 0 := Literal.append_of_lt hsmall
  unfold Literal.double?
  dsimp only
  rw [hsurplus]
  congr 1
  omega

/-- A numeral without an exponent, or with a negative one, is no greater than its digits, and
accepted. -/
theorem isSome_double?_of_nonpos {w : Numeral} (hsmall : Digits.toNat w.whole < 18446744073709551616)
    (he : (w.exponent.map exponentValue).getD 0 ≤ 0) : w.literal.double?.isSome = true := by
  obtain ⟨n, used, hn, hdouble⟩ := w.double?_literal hsmall
  have hliteral : w.literal.double? = _ := hdouble w.negative (w.exponent.map exponentValue)
  rw [hliteral]
  refine Double.isSome_ofDecimal? _ hn ?_
  omega

/-- A numeral that has lost digits of a positive exponent is accepted if the whole one is. -/
theorem isSome_double?_of_cut_exponent {w' w : Numeral} {ds' ds : Text}
    (hsame : w'.negative = w.negative ∧ w'.whole = w.whole ∧ w'.fraction = w.fraction)
    (he' : w'.exponent = some (false, ds')) (he : w.exponent = some (false, ds))
    (hcut : Text.Cut ds' ds) (hsmall : Digits.toNat w.whole < 18446744073709551616)
    (hvalue : w.literal.value?.isSome = true) : w'.literal.double?.isSome = true := by
  obtain ⟨hnegative, hwhole, hfraction⟩ := hsame
  have hten : 10 * Digits.toNat ds' ≤ Digits.toNat ds := Digits.ten_mul_toNat_le_of_cut hcut
  have hall : w.literal.double?.isSome = true := by
    have hinteger : w.literal.integer? = none := by simp [Literal.integer?, literal, he]
    rw [Literal.value?, hinteger, Option.isSome_map] at hvalue
    exact hvalue
  -- The significand of both is the same.
  obtain ⟨n, used, hn, hdouble⟩ := w'.double?_literal (hwhole ▸ hsmall)
  have hliteral' : w'.literal.double? = _ := hdouble w'.negative (w'.exponent.map exponentValue)
  rw [hwhole, hfraction] at hdouble
  have hliteral : w.literal.double? = _ := hdouble w.negative (w.exponent.map exponentValue)
  rw [hliteral, he] at hall
  rw [hliteral', he', hnegative]
  refine Double.isSome_ofDecimal?_of_isSome hall hn ?_
  simp only [Option.map_some, Option.getD_some, exponentValue, Bool.false_eq_true, if_false]
  omega

/-- The numerals that an accepted one begins with are accepted. -/
theorem isSome_value?_of_cutFrom {w' w : Numeral} (h : w'.CutFrom w)
    (hsmall : Digits.toNat w.whole < 18446744073709551616)
    (hvalue : w.literal.value?.isSome = true) : w'.literal.value?.isSome = true := by
  have hsmall' : Digits.toNat w'.whole < 18446744073709551616 := by
    obtain ⟨ds, hds⟩ := h.whole
    have hle := Digits.toNat_le_append w'.whole ds
    rw [hds] at hle
    omega
  suffices hsome : w'.literal.double?.isSome = true by
    unfold Literal.value?
    split
    · rfl
    · rw [Option.isSome_map, hsome]
  cases he' : w'.exponent with
  | none => exact isSome_double?_of_nonpos hsmall' (by simp [he'])
  | some e =>
    obtain ⟨negative, ds'⟩ := e
    cases negative with
    | true => exact isSome_double?_of_nonpos hsmall' (by simp [he', exponentValue])
    | false =>
      obtain ⟨hnegative, hwhole, hfraction, ds, he, hcut⟩ := h.exponent _ he'
      exact isSome_double?_of_cut_exponent ⟨hnegative, hwhole, hfraction⟩ he' he hcut hsmall hvalue

end Numeral

end OlmReceiver
