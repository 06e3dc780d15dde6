import OlmReceiver.Number.Power

/-!
# Binary floating point by exact arithmetic

A double is its sign, its integer mantissa and its power of two, so that its magnitude is the
rational number `mantissa * 2 ^ exponent / 2 ^ 1074`. Products and quotients are the exact
rational results rounded once, to the nearest double and on a tie to the even mantissa. Infinite
results are no doubles: rounding answers `none` for them. No fact about machine floating point is
assumed.
-/

namespace OlmReceiver

/-- A finite binary64 number `± mantissa * 2 ^ exponent / 2 ^ 1074`, in its only such form. -/
structure Double where
  negative : Bool
  mantissa : Nat
  exponent : Nat
  mantissa_lt : mantissa < twoPow 53
  exponent_le : exponent ≤ 2045
  normal : exponent = 0 ∨ twoPow 52 ≤ mantissa
deriving DecidableEq

/-- The quotient rounded to the nearest integer; a half goes to the even neighbour. -/
def roundedQuotient (num den : Nat) : Nat :=
  let q := num / den
  let r := num % den
  if 2 * r < den then q
  else if den < 2 * r then q + 1
  else if q % 2 = 0 then q
  else q + 1

/-- Rounding does not go below the integer part. -/
theorem le_roundedQuotient {a num den : Nat} (h : a ≤ num / den) :
    a ≤ roundedQuotient num den := by
  unfold roundedQuotient
  dsimp only
  split
  · exact h
  · split
    · omega
    · split <;> omega

namespace Double

/-- The power of two at which a magnitude, given in units of `2 ^ -1074`, fills the mantissa. -/
def binade (units : Nat) : Nat :=
  units.log2 - 52

theorem twoPow_le_of_binade_pos {units : Nat} (h : binade units ≠ 0) :
    twoPow 52 ≤ units / twoPow (binade units) := by
  have hlog : units.log2 = binade units + 52 := by
    unfold binade at h ⊢
    omega
  have hne : units ≠ 0 := by
    rintro rfl
    simp [binade] at h
  rw [Nat.le_div_iff_mul_le (twoPow_pos _), ← twoPow_add, Nat.add_comm, ← hlog]
  exact Nat.log2_self_le hne

/-- The double nearest to `± num / den`, if it is finite. -/
def nearest? (negative : Bool) (num den : Nat) : Option Double :=
  let units := num * twoPow 1074
  let e := binade (units / den)
  let m := roundedQuotient units (den * twoPow e)
  if he : e ≤ 2045 then
    if hm : m < twoPow 53 then
      some
        { negative
          mantissa := m
          exponent := e
          mantissa_lt := hm
          exponent_le := he
          normal := by
            by_cases h0 : e = 0
            · exact .inl h0
            · refine .inr (le_roundedQuotient ?_)
              rw [← Nat.div_div_eq_div_mul]
              exact twoPow_le_of_binade_pos h0 }
    else if he' : e + 1 ≤ 2045 then
      some
        { negative
          mantissa := twoPow 52
          exponent := e + 1
          mantissa_lt := by decide
          exponent_le := he'
          normal := .inr (Nat.le_refl _) }
    else none
  else none

/-- Positive or negative zero. -/
def zero (negative : Bool) : Double :=
  ⟨negative, 0, 0, by decide, by decide, .inl rfl⟩

/-- Whether this is one of the two zeros. -/
def isZero (x : Double) : Bool :=
  x.mantissa == 0

/-- The numerator of the magnitude over `2 ^ 1074`. -/
def units (x : Double) : Nat :=
  x.mantissa * twoPow x.exponent

/-- The rounded product, if it is finite. -/
def mul? (x y : Double) : Option Double :=
  nearest? (x.negative != y.negative) (x.units * y.units) (twoPow 1074 * twoPow 1074)

/-- The rounded quotient, if it is finite; `y` is not zero. -/
def div? (x y : Double) : Option Double :=
  nearest? (x.negative != y.negative) x.units y.units

/-- The double nearest to a power of ten. -/
def powTen? (k : Nat) : Option Double :=
  nearest? false (tenPow k) 1

/-- Multiplies by a power of ten; a power without a double of its own carries zero alone. -/
def scaleUp? (x : Double) (k : Nat) : Option Double :=
  if k ≤ 308 then do x.mul? (← powTen? k)
  else if x.isZero then some x
  else none

/-- Divides by a power of ten, by at most `10 ^ 308` at a time and until nothing is left. -/
def scaleDown? (x : Double) (k : Nat) : Option Double :=
  if k ≤ 308 then do x.div? (← powTen? k)
  else if x.isZero then some x
  else do scaleDown? (← x.div? (← powTen? 308)) (k - 308)
termination_by k

/--
The double written `± significand * 10 ^ exponent`, by way of the double of the significand, the
double of the power and one rounded operation on the two. Far from zero this can miss the nearest
double by a unit in the last place.
-/
def ofDecimal? (negative : Bool) (significand : Nat) (exponent : Int) : Option Double := do
  let x ← nearest? negative significand 1
  match exponent with
  | .ofNat k => x.scaleUp? k
  | .negSucc k => x.scaleDown? (k + 1)

end Double

end OlmReceiver
