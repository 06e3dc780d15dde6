import Mathlib.Algebra.Group.Nat.Defs
import Mathlib.Data.List.Induction
import OlmReceiver.Json.Token

/-!
# Numerals

Every number is written as a numeral: a sign, digits without a leading zero, digits behind a point and
an exponent, of which all but the digits in front can be missing. A reader takes a numeral apart into
these parts again, whether it keeps the number or passes over it, if no more digits follow.

For doubles this rests on the digits of their shortest decimals, of which only zero has none but
zeros.
-/

namespace OlmReceiver

/-- The parts that a number is written in. No fraction is written without digits, and an exponent is
its sign and its digits. -/
structure Numeral where
  negative : Bool
  whole : Text
  fraction : Text
  exponent : Option (Bool × Text)
  whole_ne_nil : whole ≠ []
  whole_digits : ∀ b ∈ whole, Byte.isDigit b = true
  whole_leads : whole.head? = some Byte.zero → whole.length = 1
  fraction_digits : ∀ b ∈ fraction, Byte.isDigit b = true
  exponent_ne_nil : ∀ e ∈ exponent, e.2 ≠ []
  exponent_digits : ∀ e ∈ exponent, ∀ b ∈ e.2, Byte.isDigit b = true

namespace Numeral

/-- The sign of a number that is negative. -/
def signText (negative : Bool) : Text :=
  if negative then [Byte.minus] else []

/-- The digits of a fraction behind their point. -/
def fractionText : Text → Text
  | [] => []
  | d :: ds => Byte.dot :: d :: ds

/-- The sign of an exponent, which is always written. -/
def exponentSign (negative : Bool) : UInt8 :=
  if negative then Byte.minus else Byte.plus

/-- The sign and the digits of an exponent. -/
def exponentText : Option (Bool × Text) → Text
  | none => []
  | some (negative, ds) => Byte.lowerE :: exponentSign negative :: ds

/-- The number that the sign and the digits of an exponent denote. -/
def exponentValue (e : Bool × Text) : Int :=
  if e.1 then -(Digits.toNat e.2) else Digits.toNat e.2

/-- The text of a numeral. -/
def toText (w : Numeral) : Text :=
  signText w.negative ++ (w.whole ++ (fractionText w.fraction ++ exponentText w.exponent))

/-- The literal that a numeral is read as. -/
def literal (w : Numeral) : Literal :=
  ⟨w.negative, w.whole, w.fraction, w.exponent.map exponentValue⟩

end Numeral

/-! ## Reading a numeral -/

namespace Json

open Token Numeral

variable {m : Mode}

/-- The text does not go on with a digit. -/
def NoDigit (rest : Text) : Prop :=
  ∀ b ∈ rest.head?, Byte.isDigit b = false

/-- The text does not go on with anything that could belong to a number. -/
def NoNumber (rest : Text) : Prop :=
  ∀ b ∈ rest.head?, Byte.isDigit b = false ∧ b ≠ Byte.dot ∧ b ≠ 'e'.toUInt8 ∧ b ≠ 'E'.toUInt8

theorem NoNumber.noDigit {rest : Text} (h : NoNumber rest) : NoDigit rest :=
  fun b hb => (h b hb).1

theorem noDigit_cons {b : UInt8} (hb : Byte.isDigit b = false) (rest : Text) :
    NoDigit (b :: rest) := by
  intro b' hb'
  cases hb'
  exact hb

/-- Digits are read up to what is no digit. -/
theorem digits_append {ds rest : Text} (hne : ds ≠ []) (hds : ∀ b ∈ ds, Byte.isDigit b = true)
    (hrest : NoDigit rest) : digits m (ds ++ rest) = .ok (ds, rest) := by
  have htake : (ds ++ rest).takeWhile Byte.isDigit = ds := by
    rw [List.takeWhile_append_of_pos hds]
    cases rest with
    | nil => simp
    | cons b r => simp [hrest b rfl]
  have hdrop : (ds ++ rest).dropWhile Byte.isDigit = rest := by
    rw [List.dropWhile_append_of_pos hds]
    cases rest with
    | nil => rfl
    | cons b r => simp [hrest b rfl]
  rw [digits, htake, hdrop]
  cases ds with
  | nil => exact absurd rfl hne
  | cons d ds => cases rest <;> rfl

/-- The digits in front are read, as no leading zero stands in front of others. -/
theorem wholePart_append {ds rest : Text} (hne : ds ≠ []) (hds : ∀ b ∈ ds, Byte.isDigit b = true)
    (hleads : ds.head? = some Byte.zero → ds.length = 1) (hrest : NoDigit rest) :
    wholePart m (ds ++ rest) = .ok (ds, rest) := by
  simp only [wholePart, digits_append hne hds hrest, bind, Except.bind]
  rw [if_neg]
  rintro ⟨hzero, hlength⟩
  exact hlength (hleads hzero)

/-- A fraction is read up to what is no digit; without one there is no point. -/
theorem fractionPart_append {ds rest : Text} (hds : ∀ b ∈ ds, Byte.isDigit b = true)
    (hrest : NoDigit rest) (hdot : ds = [] → ∀ b ∈ rest.head?, b ≠ Byte.dot) :
    fractionPart m (fractionText ds ++ rest) = .ok (ds, rest) := by
  cases ds with
  | cons d ds => exact digits_append (List.cons_ne_nil d ds) hds hrest
  | nil =>
    unfold fractionText fractionPart
    split
    · rename_i r hr
      rw [List.nil_append] at hr
      exact absurd rfl (hdot rfl Byte.dot (by rw [hr]; rfl))
    · rfl

/-- The sign of an exponent is read behind its letter. -/
theorem exponentSign_cons (negative : Bool) (s : Text) :
    Token.exponentSign (Numeral.exponentSign negative :: s) = (negative, s) := by
  cases negative <;> rfl

/-- An exponent is read up to what does not belong to a number. -/
theorem exponentPart_append {e : Option (Bool × Text)} {rest : Text} (hne : ∀ p ∈ e, p.2 ≠ [])
    (hds : ∀ p ∈ e, ∀ b ∈ p.2, Byte.isDigit b = true) (hrest : NoNumber rest) :
    exponentPart m (exponentText e ++ rest) = .ok (e.map exponentValue, rest) := by
  cases e with
  | some e =>
    have hdigits := digits_append (m := m) (hne e rfl) (hds e rfl) hrest.noDigit
    change exponentPart m (Byte.lowerE :: Numeral.exponentSign e.1 :: (e.2 ++ rest)) = _
    simp only [exponentPart, exponentSign_cons, hdigits, bind, Except.bind]
    exact if_pos (.inl rfl)
  | none =>
    cases rest with
    | nil => rfl
    | cons b r =>
      obtain ⟨-, -, he, hE⟩ := hrest b rfl
      simp [exponentText, exponentPart, he, hE]

/-- A minus is read as the sign, and no digit is. -/
theorem numberSign_append (negative : Bool) {ds : Text} (hne : ds ≠ [])
    (hds : ∀ b ∈ ds, Byte.isDigit b = true) (rest : Text) :
    numberSign (signText negative ++ (ds ++ rest)) = (negative, ds ++ rest) := by
  cases negative with
  | true => rfl
  | false =>
    cases ds with
    | nil => exact absurd rfl hne
    | cons d ds =>
      have hminus : d ≠ Byte.minus := by
        rintro rfl
        exact absurd (hds Byte.minus List.mem_cons_self) (by decide)
      simp [signText, numberSign, hminus]

theorem noDigit_exponentText (e : Option (Bool × Text)) {rest : Text} (hrest : NoDigit rest) :
    NoDigit (exponentText e ++ rest) := by
  cases e with
  | none => exact hrest
  | some e => exact noDigit_cons (by decide) _

theorem noDigit_fractionText (ds : Text) {rest : Text} (hrest : NoDigit rest) :
    NoDigit (fractionText ds ++ rest) := by
  cases ds with
  | nil => exact hrest
  | cons d ds => exact noDigit_cons (by decide) _

/-- A numeral is taken apart into its parts. -/
theorem literal_numeral (w : Numeral) {rest : Text} (hrest : NoNumber rest) :
    Token.literal m (w.toText ++ rest) = .ok (w.literal, rest) := by
  have hexponent := noDigit_exponentText w.exponent hrest.noDigit
  have hdot : w.fraction = [] →
      ∀ b ∈ (exponentText w.exponent ++ rest).head?, b ≠ Byte.dot := by
    rintro - b hb
    cases hw : w.exponent with
    | none =>
      rw [hw] at hb
      exact (hrest b hb).2.1
    | some e =>
      rw [hw] at hb
      cases hb
      decide
  simp only [Numeral.toText, List.append_assoc, Token.literal,
    numberSign_append _ w.whole_ne_nil w.whole_digits,
    wholePart_append w.whole_ne_nil w.whole_digits w.whole_leads
      (noDigit_fractionText w.fraction hexponent),
    fractionPart_append w.fraction_digits hexponent hdot,
    exponentPart_append w.exponent_ne_nil w.exponent_digits hrest, bind, Except.bind]
  rfl

end Json

/-! ## The digits of doubles -/

/-- Only zero is written with a leading zero, which is its only digit. -/
theorem Digits.leads_ofNat {n : Nat} (h : (ofNat n).head? = some Byte.zero) :
    (ofNat n).length = 1 := by
  obtain rfl := eq_zero_of_head h
  rw [ofNat, if_pos (by decide)]
  rfl

namespace Double

/-- A nearest double has the rounded mantissa at its binade, or the next power of two if that is
full. -/
theorem nearest?_cases {negative : Bool} {num den : Nat} {x : Double}
    (h : nearest? negative num den = some x) :
    ∃ e m, e = binade (num * twoPow 1074 / den) ∧
      m = roundedQuotient (num * twoPow 1074) (den * twoPow e) ∧
      ((x.mantissa = m ∧ x.exponent = e) ∨
        twoPow 53 ≤ m ∧ x.mantissa = twoPow 52 ∧ x.exponent = e + 1) := by
  refine ⟨_, _, rfl, rfl, ?_⟩
  unfold nearest? at h
  dsimp only at h
  split at h
  · split at h
    · rw [← Option.some.inj h]
      exact .inl ⟨rfl, rfl⟩
    · split at h
      · rename_i hm _
        rw [← Option.some.inj h]
        exact .inr ⟨Nat.not_lt.mp hm, rfl, rfl⟩
      · cases h
  · cases h

/-- What is nearest to zero is zero. -/
theorem mantissa_of_nearest?_zero {negative : Bool} {den : Nat} (hden : 0 < den) {x : Double}
    (h : nearest? negative 0 den = some x) : x.mantissa = 0 := by
  obtain ⟨e, m, -, hm, hx⟩ := nearest?_cases h
  have hpos : 0 < den * twoPow e := Nat.mul_pos hden (twoPow_pos e)
  have hzero : m = 0 := by
    rw [hm, Nat.zero_mul, roundedQuotient]
    simp only [Nat.zero_mod, Nat.zero_div, Nat.mul_zero, hpos, if_true]
  rcases hx with ⟨hx, -⟩ | ⟨hfull, -⟩
  · rw [hx, hzero]
  · have := twoPow_pos 53
    omega

/-- A decimal that is found for a double other than zero is not zero. -/
theorem digits_ne_zero_of_decimal? {x : Double} (hx : x.isZero = false) {k : Int} {d : Decimal}
    (h : x.decimal? k = some d) : d.digits ≠ 0 := by
  have hback : Decimal.nearest? x.negative d = some x := by
    simp only [decimal?] at h
    generalize (if roundedQuotient (x.scaled k).1 (x.scaled k).2 = (x.scaled k).1 / (x.scaled k).2
      then _ else (x.scaled k).1 / (x.scaled k).2) = far at h
    split at h
    · rename_i hnear
      rw [← Option.some.inj h]
      exact of_decide_eq_true hnear
    · split at h
      · rename_i hfar
        rw [← Option.some.inj h]
        exact of_decide_eq_true hfar
      · cases h
  intro hzero
  have hmantissa : x.mantissa = 0 := by
    unfold Decimal.nearest? at hback
    split at hback
    · rw [hzero, Nat.zero_mul] at hback
      exact mantissa_of_nearest?_zero Nat.one_pos hback
    · rw [hzero] at hback
      exact mantissa_of_nearest?_zero (tenPow_pos _) hback
  simp [isZero, hmantissa] at hx

/-- Without its trailing zeros, a decimal that is not zero is not zero. -/
theorem digits_stripped_ne_zero {d : Decimal} (h : d.digits ≠ 0) (fuel : Nat) :
    (d.stripped fuel).digits ≠ 0 := by
  induction fuel generalizing d with
  | zero => exact h
  | succ fuel ih =>
    unfold Decimal.stripped
    split
    · exact ih (by dsimp only; omega)
    · exact h

/-- A double whose shortest decimal has no digit but zero is written with the exponent zero. -/
theorem exponent_shortest_of_digits {x : Double} (h : x.shortest.digits = 0) :
    x.shortest.exponent = 0 := by
  cases hx : x.isZero with
  | true => rw [shortest, if_pos hx]
  | false =>
    have hshortest : x.shortest = (((List.range 17).findSome? fun (i : Nat) =>
        x.decimal? (x.decimalExponent - i)).getD ⟨0, 0⟩).stripped 17 := by
      rw [shortest, if_neg (by simp [hx])]
    generalize hfound : ((List.range 17).findSome? fun (i : Nat) =>
      x.decimal? (x.decimalExponent - i)) = found at hshortest
    cases found with
    | none => rw [hshortest, Option.getD_none, Decimal.stripped, if_neg (by simp)]
    | some d =>
      obtain ⟨i, -, hd⟩ := List.exists_of_findSome?_eq_some hfound
      have hne := digits_stripped_ne_zero (digits_ne_zero_of_decimal? hx hd) 17
      rw [hshortest] at h
      exact absurd h hne

end Double

/-! ## Every number is a numeral -/

namespace Numeral

theorem isDigit_replicate {k : Nat} : ∀ b ∈ List.replicate k Byte.zero, Byte.isDigit b = true := by
  intro b hb
  rw [(List.mem_replicate.mp hb).2]
  decide

/-- Digits with a point among them are a numeral with few digits in front of the point, if a leading
zero stands for zero alone. -/
theorem exists_positional (negative : Bool) {n : Nat} {e : Int} (he : e ≤ 15)
    (hzero : n = 0 → e = 0) : ∃ w : Numeral,
      signText negative ++ Double.positional (Digits.ofNat n) e = w.toText ∧ w.whole.length ≤ 16 := by
  have hds : ∀ b ∈ Digits.ofNat n, Byte.isDigit b = true := Digits.isDigit_of_mem_ofNat
  have hne := Digits.ofNat_ne_nil n
  have hone : ∀ b ∈ [Byte.zero], Byte.isDigit b = true := List.forall_mem_singleton.mpr (by decide)
  cases e with
  | negSucc k =>
    have hfraction : fractionText (List.replicate k Byte.zero ++ Digits.ofNat n) =
        Byte.dot :: (List.replicate k Byte.zero ++ Digits.ofNat n) := by
      cases hcons : List.replicate k Byte.zero ++ Digits.ofNat n with
      | nil => exact absurd (List.append_eq_nil_iff.mp hcons).2 hne
      | cons d ds => rfl
    refine ⟨⟨negative, [Byte.zero], List.replicate k Byte.zero ++ Digits.ofNat n, none, by simp, hone,
      fun _ => rfl, ?_, by simp, by simp⟩, ?_, by simp⟩
    · exact List.forall_mem_append.mpr ⟨isDigit_replicate, hds⟩
    · simp [toText, Double.positional, hfraction, exponentText]
  | ofNat k =>
    by_cases hlength : (Digits.ofNat n).length ≤ k + 1
    · refine ⟨⟨negative, Digits.ofNat n ++ List.replicate (k + 1 - (Digits.ofNat n).length) Byte.zero,
        [Byte.zero], none, by simp [hne], List.forall_mem_append.mpr ⟨hds, isDigit_replicate⟩, ?_, hone,
        by simp, by simp⟩, ?_, ?_⟩
      · rw [List.head?_append, Option.or_of_isSome (by simpa using hne)]
        intro hhead
        have hk : (k : Int) = 0 := hzero (Digits.eq_zero_of_head hhead)
        have hsingle := Digits.leads_ofNat hhead
        simp only [List.length_append, List.length_replicate, hsingle]
        omega
      · simp [toText, Double.positional, hlength, fractionText, exponentText]
      · have hk : (k : Int) ≤ 15 := he
        simp only [List.length_append, List.length_replicate]
        omega
    · have hfraction : fractionText ((Digits.ofNat n).drop (k + 1)) =
          Byte.dot :: (Digits.ofNat n).drop (k + 1) := by
        cases hcons : (Digits.ofNat n).drop (k + 1) with
        | nil => exact absurd (List.drop_eq_nil_iff.mp hcons) hlength
        | cons d ds => rfl
      refine ⟨⟨negative, (Digits.ofNat n).take (k + 1), (Digits.ofNat n).drop (k + 1), none,
        by simp [hne], fun b hb => hds b (List.mem_of_mem_take hb), ?_,
        fun b hb => hds b (List.mem_of_mem_drop hb), by simp, by simp⟩, ?_, ?_⟩
      · rw [List.head?_take, if_neg (by omega)]
        intro hhead
        have hsingle := Digits.leads_ofNat hhead
        omega
      · simp [toText, Double.positional, hlength, hfraction, exponentText]
      · have hk : (k : Int) ≤ 15 := he
        exact Nat.le_trans (List.length_take_le _ _) (by omega)

/-- Digits with a signed exponent are a numeral with one digit in front of the point. -/
theorem exists_scientific (negative : Bool) (n : Nat) (e : Int) : ∃ w : Numeral,
    signText negative ++ Double.scientific (Digits.ofNat n) e = w.toText ∧ w.whole.length ≤ 16 := by
  have hds : ∀ b ∈ Digits.ofNat n, Byte.isDigit b = true := Digits.isDigit_of_mem_ofNat
  have hsign : (if e < 0 then Byte.minus else Byte.plus) = exponentSign (decide (e < 0)) := by
    simp [exponentSign]
  obtain ⟨d, ds, hcons⟩ := List.exists_cons_of_ne_nil (Digits.ofNat_ne_nil n)
  refine ⟨⟨negative, [d], ds, some (decide (e < 0), Digits.ofNat e.natAbs), by simp, ?_, fun _ => rfl,
    fun b hb => hds b (by simp [hcons, hb]), ?_, ?_⟩, ?_, by simp⟩
  · exact List.forall_mem_singleton.mpr (hds d (by simp [hcons]))
  · rintro _ ⟨⟩
    exact Digits.ofNat_ne_nil _
  · rintro _ ⟨⟩
    exact Digits.isDigit_of_mem_ofNat
  · simp only [toText, Double.scientific, hcons, hsign]
    cases ds <;> simp [fractionText, exponentText]

end Numeral

/-- Every double is written as a numeral with few digits in front of its point. -/
theorem Double.exists_numeral (x : Double) :
    ∃ w : Numeral, x.toText = w.toText ∧ w.whole.length ≤ 16 := by
  have hzero : x.shortest.digits = 0 →
      x.shortest.exponent + (Digits.ofNat x.shortest.digits).length - 1 = 0 := by
    intro h
    rw [exponent_shortest_of_digits h, h, Digits.ofNat, if_pos (by decide)]
    rfl
  unfold Double.toText
  dsimp only
  by_cases hrange : -5 ≤ x.shortest.exponent + (Digits.ofNat x.shortest.digits).length - 1 ∧
      x.shortest.exponent + (Digits.ofNat x.shortest.digits).length - 1 ≤ 15
  · rw [if_pos hrange]
    exact Numeral.exists_positional x.negative hrange.2 hzero
  · rw [if_neg hrange]
    exact Numeral.exists_scientific x.negative _ _

/-- A digit denotes less than ten. -/
theorem Byte.digitValue_lt {b : UInt8} (h : isDigit b = true) : digitValue b < 10 := by
  simp only [isDigit, Bool.and_eq_true, decide_eq_true_eq] at h
  have hle : b.toNat ≤ 57 := UInt8.le_iff_toNat_le.mp h.2
  unfold digitValue
  omega

/-- Digits denote less than the power of ten that has one digit more. -/
theorem Digits.toNat_lt {ds : Text} (h : ∀ b ∈ ds, Byte.isDigit b = true) :
    toNat ds < 10 ^ ds.length := by
  induction ds using List.reverseRecOn with
  | nil => decide
  | append_singleton ds d ih =>
    obtain ⟨hds, hd⟩ := List.forall_mem_append.mp h
    have hlast := Byte.digitValue_lt (hd d (List.mem_singleton_self d))
    have hrest := ih hds
    rw [toNat_append, List.length_append, List.length_singleton, Nat.pow_succ]
    omega

/-- An integer as a numeral. -/
def Numeral.ofInt (i : Int) : Numeral where
  negative := decide (i < 0)
  whole := Digits.ofNat i.natAbs
  fraction := []
  exponent := none
  whole_ne_nil := Digits.ofNat_ne_nil _
  whole_digits := Digits.isDigit_of_mem_ofNat
  whole_leads := Digits.leads_ofNat
  fraction_digits := by simp
  exponent_ne_nil := by simp
  exponent_digits := by simp

/-- A sign, and some digits in front of the point. -/
def Numeral.ofWhole (w : Numeral) {t : Text} (ht : t <+: w.whole) (hne : t ≠ []) : Numeral where
  negative := w.negative
  whole := t
  fraction := []
  exponent := none
  whole_ne_nil := hne
  whole_digits b hb := w.whole_digits b (ht.subset hb)
  whole_leads hhead := by
    have hwhole : w.whole.head? = some Byte.zero := by
      obtain ⟨u, hu⟩ := ht
      rw [← hu, List.head?_append, hhead]
      rfl
    have hlength := w.whole_leads hwhole
    have := ht.length_le
    have := List.length_pos_iff.mpr hne
    omega
  fraction_digits := by simp
  exponent_ne_nil := by simp
  exponent_digits := by simp

/-- A sign, all digits in front of the point, and some behind it. -/
def Numeral.ofFraction (w : Numeral) {t : Text} (ht : t <+: w.fraction) : Numeral where
  negative := w.negative
  whole := w.whole
  fraction := t
  exponent := none
  whole_ne_nil := w.whole_ne_nil
  whole_digits := w.whole_digits
  whole_leads := w.whole_leads
  fraction_digits b hb := w.fraction_digits b (ht.subset hb)
  exponent_ne_nil := by simp
  exponent_digits := by simp

/-- All of a numeral, but for digits of the exponent. -/
def Numeral.ofExponent (w : Numeral) {negative : Bool} {t ds : Text}
    (he : w.exponent = some (negative, ds)) (ht : t <+: ds) (hne : t ≠ []) : Numeral :=
  { w with
    exponent := some (negative, t)
    exponent_ne_nil := by
      rintro _ ⟨⟩
      exact hne
    exponent_digits := by
      rintro _ ⟨⟩ b hb
      exact w.exponent_digits _ he b (ht.subset hb) }

theorem Number.toText_integer (i : Int)
    (hi : -9223372036854775808 ≤ i ∧ i < 18446744073709551616) :
    (Number.integer i hi).toText = (Numeral.ofInt i).toText := by
  simp [Number.toText, Numeral.toText, Numeral.ofInt, Numeral.signText, Numeral.fractionText,
    Numeral.exponentText]

/-- Every number is written as a numeral whose digits in front of the point fit 64 bits. -/
theorem Number.exists_numeral (n : Number) :
    ∃ w : Numeral, n.toText = w.toText ∧ Digits.toNat w.whole < 18446744073709551616 := by
  cases n with
  | double x =>
    obtain ⟨w, htext, hlength⟩ := x.exists_numeral
    have hfew : 10 ^ w.whole.length ≤ 10 ^ 16 := Nat.pow_le_pow_right (by decide) hlength
    have hlt := Digits.toNat_lt w.whole_digits
    exact ⟨w, htext, by omega⟩
  | integer i hi =>
    have hlt : Digits.toNat (Digits.ofNat i.natAbs) < 18446744073709551616 := by
      rw [Digits.toNat_ofNat]
      omega
    exact ⟨.ofInt i, toText_integer i hi, hlt⟩

end OlmReceiver
