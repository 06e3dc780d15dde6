/-!
# Powers of two and ten

The two kinds of power that numbers are written with, as natural numbers.
-/

namespace OlmReceiver

/-- Two to the power of `k`. -/
def twoPow (k : Nat) : Nat :=
  Nat.pow 2 k

/-- Ten to the power of `k`. -/
def tenPow (k : Nat) : Nat :=
  Nat.pow 10 k

theorem twoPow_pos (k : Nat) : 0 < twoPow k :=
  Nat.two_pow_pos k

theorem tenPow_pos (k : Nat) : 0 < tenPow k :=
  Nat.pow_pos (by decide)

theorem twoPow_add (j k : Nat) : twoPow (j + k) = twoPow j * twoPow k :=
  Nat.pow_add 2 j k

end OlmReceiver
