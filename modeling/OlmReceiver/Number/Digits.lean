import OlmReceiver.Text

/-!
# Decimal digits of natural numbers

`Digits.ofNat` writes a number without leading zeros and `Digits.toNat` reads digits back.
-/

namespace OlmReceiver.Digits

/-- The decimal digits of a number, most significant first. -/
def ofNat (n : Nat) : Text :=
  if n < 10 then [Byte.ofDigit n] else ofNat (n / 10) ++ [Byte.ofDigit (n % 10)]

/-- The decimal digits of a number as a string. -/
def string (n : Nat) : String :=
  Text.ofAscii (ofNat n)

/-- The number that decimal digits denote. -/
def toNat (ds : Text) : Nat :=
  ds.foldl (fun n d => 10 * n + Byte.digitValue d) 0

theorem digitValue_ofDigit {n : Nat} (h : n < 10) : Byte.digitValue (Byte.ofDigit n) = n := by
  simp [Byte.digitValue, Byte.ofDigit]
  omega

theorem toNat_append (ds : Text) (d : UInt8) :
    toNat (ds ++ [d]) = 10 * toNat ds + Byte.digitValue d := by
  simp [toNat]

/-- Reading the digits of a number gives the number. -/
theorem toNat_ofNat (n : Nat) : toNat (ofNat n) = n := by
  induction n using ofNat.induct with
  | case1 n h =>
    rw [ofNat, if_pos h]
    simp [toNat, digitValue_ofDigit h]
  | case2 n h ih =>
    rw [ofNat, if_neg h, toNat_append, ih, digitValue_ofDigit (Nat.mod_lt _ (by decide))]
    omega

/-- Every digit of a number is a decimal digit. -/
theorem isDigit_of_mem_ofNat {n : Nat} : ∀ b ∈ ofNat n, Byte.isDigit b = true := by
  have hdigit : ∀ n < 10, Byte.isDigit (Byte.ofDigit n) = true := by decide
  induction n using ofNat.induct with
  | case1 n h =>
    rw [ofNat, if_pos h]
    simpa using hdigit n h
  | case2 n h ih =>
    rw [ofNat, if_neg h]
    intro b hb
    obtain hb | hb := List.mem_append.mp hb
    · exact ih b hb
    · rw [List.mem_singleton.mp hb]
      exact hdigit _ (Nat.mod_lt n (by decide))

/-- Every number has a digit. -/
theorem ofNat_ne_nil (n : Nat) : ofNat n ≠ [] := by
  rw [ofNat]
  split <;> simp

/-- Only zero is written with a leading zero. -/
theorem eq_zero_of_head {n : Nat} : (ofNat n).head? = some Byte.zero → n = 0 := by
  have hdigit : ∀ n < 10, Byte.ofDigit n = Byte.zero → n = 0 := by decide
  induction n using ofNat.induct with
  | case1 n h =>
    rw [ofNat, if_pos h]
    intro hhead
    exact hdigit n h (Option.some.inj hhead)
  | case2 n h ih =>
    rw [ofNat, if_neg h]
    intro hhead
    have hfirst : (ofNat (n / 10)).head? = some Byte.zero := by
      cases hdigits : ofNat (n / 10) with
      | nil => exact absurd hdigits (ofNat_ne_nil _)
      | cons d ds => simpa [hdigits] using hhead
    have := ih hfirst
    omega

end OlmReceiver.Digits
