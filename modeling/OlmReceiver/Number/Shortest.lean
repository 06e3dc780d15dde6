import OlmReceiver.Number.Digits
import OlmReceiver.Number.Double

/-!
# Shortest decimals of doubles

A double is written with the fewest significant digits whose nearest double it is; among decimals
of that length the nearest to it is taken, and a tie goes to the even last digit. Decimal exponents
from -5 to 15 are written positionally and always with a point, all others with a signed exponent.
-/

namespace OlmReceiver

/-- The decimal `digits * 10 ^ exponent`. -/
structure Decimal where
  digits : Nat
  exponent : Int
deriving DecidableEq

namespace Decimal

/-- The double nearest to a decimal. -/
def nearest? (negative : Bool) (x : Decimal) : Option Double :=
  match x.exponent with
  | .ofNat k => Double.nearest? negative (x.digits * tenPow k) 1
  | .negSucc k => Double.nearest? negative x.digits (tenPow (k + 1))

/-- Without trailing zeros; `fuel` bounds their number. -/
def stripped : (fuel : Nat) → Decimal → Decimal
  | 0, x => x
  | fuel + 1, x =>
    if x.digits ≠ 0 ∧ x.digits % 10 = 0 then stripped fuel ⟨x.digits / 10, x.exponent + 1⟩ else x

end Decimal

namespace Double

/-- The number of digits of a positive natural number below `10 ^ 700`, less one. -/
def decimalLog (n : Nat) : Nat :=
  let k := n.log2 * 1233 / 4096
  if tenPow (k + 1) ≤ n then k + 1 else k

/-- The exponent of the first decimal digit of a double other than zero. -/
def decimalExponent (x : Double) : Int :=
  (decimalLog (x.units * tenPow 350 / twoPow 1074) : Int) - 350

/-- The magnitude in units of `10 ^ k`, as a numerator and a denominator. -/
def scaled (x : Double) : (k : Int) → Nat × Nat
  | .ofNat k => (x.units, twoPow 1074 * tenPow k)
  | .negSucc k => (x.units * tenPow (k + 1), twoPow 1074)

/-- The nearer of the two neighbours on the grid of multiples of `10 ^ k` that reads back. -/
def decimal? (x : Double) (k : Int) : Option Decimal :=
  let (num, den) := x.scaled k
  let near := roundedQuotient num den
  let far := if near = num / den then near + 1 else num / den
  let readsBack (d : Nat) := decide (Decimal.nearest? x.negative ⟨d, k⟩ = some x)
  if readsBack near then some ⟨near, k⟩
  else if readsBack far then some ⟨far, k⟩
  else none

/-- The shortest decimal that reads back; seventeen digits always do. -/
def shortest (x : Double) : Decimal :=
  if x.isZero then ⟨0, 0⟩
  else
    let e := x.decimalExponent
    let found := (List.range 17).findSome? fun (i : Nat) => x.decimal? (e - i)
    (found.getD ⟨0, 0⟩).stripped 17

/-- Digits with a decimal point in front of, within or behind them. -/
def positional (ds : Text) (e : Int) : Text :=
  match e with
  | .negSucc k => [Byte.zero, Byte.dot] ++ List.replicate k Byte.zero ++ ds
  | .ofNat k =>
    if ds.length ≤ k + 1 then
      ds ++ List.replicate (k + 1 - ds.length) Byte.zero ++ [Byte.dot, Byte.zero]
    else ds.take (k + 1) ++ [Byte.dot] ++ ds.drop (k + 1)

/-- One digit before the point, if more follow, and a signed exponent. -/
def scientific (ds : Text) (e : Int) : Text :=
  let mantissa := if ds.length ≤ 1 then ds else ds.take 1 ++ [Byte.dot] ++ ds.drop 1
  let sign := if e < 0 then Byte.minus else Byte.plus
  mantissa ++ [Byte.lowerE, sign] ++ Digits.ofNat e.natAbs

/-- The text of a double. -/
def toText (x : Double) : Text :=
  let d := x.shortest
  let ds := Digits.ofNat d.digits
  let e := d.exponent + ds.length - 1
  let sign := if x.negative then [Byte.minus] else []
  sign ++ if -5 ≤ e ∧ e ≤ 15 then positional ds e else scientific ds e

end Double

end OlmReceiver
