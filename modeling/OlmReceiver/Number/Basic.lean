import OlmReceiver.Number.Shortest

/-!
# Numbers of JSON values

A number is an integer of the signed or unsigned 64-bit range, or a double. The two never equal
each other: `1` and `1.0` are different numbers with different texts.
-/

namespace OlmReceiver

/-- An integer between `-2 ^ 63` and `2 ^ 64 - 1`, or a double. -/
inductive Number where
  | integer (n : Int) (inRange : -9223372036854775808 ≤ n ∧ n < 18446744073709551616)
  | double (x : Double)
deriving DecidableEq

namespace Number

/-- A natural number of the unsigned 64-bit range. -/
def ofNat (n : Nat) (h : n < 18446744073709551616 := by decide) : Number :=
  .integer n (by omega)

/-- The integer that a number is, if it is one. -/
def toInt? : Number → Option Int
  | .integer n _ => some n
  | .double _ => none

/-- The JSON text of a number. -/
def toText : Number → Text
  | .integer n _ => (if n < 0 then [Byte.minus] else []) ++ Digits.ofNat n.natAbs
  | .double x => x.toText

/-- The JSON text of a number as a string. -/
protected def toString (n : Number) : String :=
  Text.ofAscii n.toText

end Number

end OlmReceiver
