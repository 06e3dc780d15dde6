import OlmReceiver.Number.Basic

/-!
# Number literals

A literal is a sign, digits, digits behind a point and an exponent. Its value is an integer when it
has neither point nor exponent and fits 64 bits, except for negative zero; otherwise it is a
double, computed from as many leading digits as fit an unsigned 64-bit significand. A literal too
large for a double has no value.
-/

namespace OlmReceiver

/-- The parts of a number literal; digits are kept as written. -/
structure Literal where
  negative : Bool
  whole : Text
  fraction : Text
  exponent : Option Int

namespace Literal

/-- Appends digits to a significand while it stays below `2 ^ 64`; also counts those left over. -/
def append : (significand : Nat) → (digits : Text) → Nat × Nat
  | n, [] => (n, 0)
  | n, d :: ds =>
    let n' := 10 * n + Byte.digitValue d
    if n' < 18446744073709551616 then append n' ds else (n, ds.length + 1)

/-- The double that a literal denotes, if it is finite. -/
def double? (l : Literal) : Option Double :=
  let (n, surplus) := append 0 l.whole
  let (n, unused) := append n l.fraction
  let scale : Int := (surplus : Int) - ((l.fraction.length - unused : Nat) : Int)
  Double.ofDecimal? l.negative n (scale + l.exponent.getD 0)

/-- The integer that a literal denotes, if it is written as one and is in range. -/
def integer? (l : Literal) : Option Number :=
  if l.fraction = [] ∧ l.exponent = none then
    let n := Digits.toNat l.whole
    if l.negative then
      if h : 0 < n ∧ n ≤ 9223372036854775808 then some (.integer (-n) (by omega)) else none
    else if h : n < 18446744073709551616 then some (.integer n (by omega))
    else none
  else none

/-- The number that a literal denotes; none if it is too large. -/
def value? (l : Literal) : Option Number :=
  match l.integer? with
  | some n => some n
  | none => l.double?.map .double

end Literal

end OlmReceiver
