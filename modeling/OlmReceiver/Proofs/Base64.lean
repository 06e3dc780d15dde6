import OlmReceiver.Base64
import OlmReceiver.Proofs.Utf8

/-!
# Base64 is read back

Decoding undoes encoding for every list of bytes. The symbols of the alphabet are ASCII and stand for
their numbers one to one; the rest is arithmetic on groups of three bytes and four symbols.
-/

namespace OlmReceiver.Base64

/-- Every number below 64 is read back from its symbol. -/
theorem value?_symbol : ∀ n < 64, value? (symbol n) = some n := by
  decide +kernel

/-- No symbol is the padding byte. -/
theorem symbol_ne_padding : ∀ n < 64, symbol n ≠ padding := by
  decide +kernel

/-- Every symbol is ASCII. -/
theorem symbol_lt : ∀ n < 64, symbol n < 0x80 := by
  decide +kernel

/-- The number of a symbol is found at any offset. -/
theorem valueAt_symbol {n : Nat} (h : n < 64) (offset : Nat) :
    valueAt (symbol n) offset = .ok n := by
  simp [valueAt, value?_symbol n h]

/-- Symbols of the last group are read as they are. -/
theorem scanTail_symbols (offset : Nat) {ns : List Nat} (h : ∀ n ∈ ns, n < 64) (seen : Nat) :
    scanTail offset seen none (ns.map symbol) = .ok ⟨ns.map fun n => (symbol n, n), false⟩ := by
  induction ns generalizing seen with
  | nil => rfl
  | cons n ns ih =>
    have hn : n < 64 := h n List.mem_cons_self
    have hrest := ih (fun m hm => h m (List.mem_cons_of_mem n hm)) (seen + 1)
    simp only [List.map_cons, scanTail, symbol_ne_padding n hn, if_false, valueAt_symbol hn, hrest,
      bind, Except.bind]

/-- The last group is decoded by its numbers. -/
theorem decodeTail_symbols (offset : Nat) {ns : List Nat} (h : ∀ n ∈ ns, n < 64)
    (hlength : 2 ≤ ns.length) :
    decodeTail offset (ns.map symbol) = tailBytes offset (ns.map fun n => (symbol n, n)) := by
  simp only [decodeTail, scanTail_symbols offset h, bind, Except.bind, List.length_map]
  rw [if_neg (by omega)]
  rfl

/-- A number that is that of a byte is written as this byte. -/
theorem toUInt8_of_eq {a : UInt8} {n : Nat} (h : n = a.toNat) : n.toUInt8 = a := by
  subst h
  simp

/-- One byte is decoded from the two symbols it is written as. -/
theorem decodeTail_one (offset : Nat) (a : UInt8) : decodeTail offset (encode [a]) = .ok [a] := by
  have ha : a.toNat < 256 := a.toNat_lt
  have hns : ∀ n ∈ [a.toNat / 4, a.toNat % 4 * 16], n < 64 := by
    simp only [List.forall_mem_cons]
    exact ⟨by omega, by omega, by simp⟩
  refine (decodeTail_symbols offset hns (by simp)).trans ?_
  have hbyte : (a.toNat / 4 * 4 + a.toNat % 4 * 16 / 16).toUInt8 = a := toUInt8_of_eq (by omega)
  simp only [List.map_cons, List.map_nil, tailBytes, hbyte]
  rw [if_pos (by omega)]

/-- Two bytes are decoded from the three symbols they are written as. -/
theorem decodeTail_two (offset : Nat) (a b : UInt8) :
    decodeTail offset (encode [a, b]) = .ok [a, b] := by
  have ha : a.toNat < 256 := a.toNat_lt
  have hb : b.toNat < 256 := b.toNat_lt
  have hns : ∀ n ∈ [a.toNat / 4, a.toNat % 4 * 16 + b.toNat / 16, b.toNat % 16 * 4], n < 64 := by
    simp only [List.forall_mem_cons]
    exact ⟨by omega, by omega, by omega, by simp⟩
  refine (decodeTail_symbols offset hns (by simp)).trans ?_
  have hfirst : (a.toNat / 4 * 4 + (a.toNat % 4 * 16 + b.toNat / 16) / 16).toUInt8 = a :=
    toUInt8_of_eq (by omega)
  have hsecond : ((a.toNat % 4 * 16 + b.toNat / 16) % 16 * 16 + b.toNat % 16 * 4 / 4).toUInt8 = b :=
    toUInt8_of_eq (by omega)
  simp only [List.map_cons, List.map_nil, tailBytes, hfirst, hsecond]
  rw [if_pos (by omega)]

/-- The numbers of the four symbols of a group of three bytes. -/
def group (a b c : UInt8) : List Nat :=
  [a.toNat / 4, a.toNat % 4 * 16 + b.toNat / 16, b.toNat % 16 * 4 + c.toNat / 64, c.toNat % 64]

/-- Each symbol of a group has a number below 64. -/
theorem lt_of_mem_group (a b c : UInt8) : ∀ n ∈ group a b c, n < 64 := by
  have ha : a.toNat < 256 := a.toNat_lt
  have hb : b.toNat < 256 := b.toNat_lt
  have hc : c.toNat < 256 := c.toNat_lt
  simp only [group, List.forall_mem_cons]
  exact ⟨by omega, by omega, by omega, by omega, by simp⟩

/-- The bytes of a group are found in the numbers of its symbols. -/
theorem bytes_of_group (a b c : UInt8) :
    (a.toNat / 4 * 4 + (a.toNat % 4 * 16 + b.toNat / 16) / 16).toUInt8 = a ∧
      ((a.toNat % 4 * 16 + b.toNat / 16) % 16 * 16 +
        (b.toNat % 16 * 4 + c.toNat / 64) / 4).toUInt8 = b ∧
      ((b.toNat % 16 * 4 + c.toNat / 64) % 4 * 64 + c.toNat % 64).toUInt8 = c := by
  have ha : a.toNat < 256 := a.toNat_lt
  have hb : b.toNat < 256 := b.toNat_lt
  have hc : c.toNat < 256 := c.toNat_lt
  exact ⟨toUInt8_of_eq (by omega), toUInt8_of_eq (by omega), toUInt8_of_eq (by omega)⟩

/-- Decoding undoes encoding from any group on. -/
theorem decodeFrom_encode (t : Text) (offset : Nat) : decodeFrom offset (encode t) = .ok t := by
  induction t using encode.induct generalizing offset with
  | case1 => rfl
  | case2 a => exact decodeTail_one offset a
  | case3 a b => exact decodeTail_two offset a b
  | case4 a b c t ih =>
    have hgroup := lt_of_mem_group a b c
    obtain ⟨ha, hb, hc⟩ := bytes_of_group a b c
    cases htail : encode t with
    | nil =>
      have ht : decodeFrom 0 (encode t) = .ok t := ih 0
      rw [htail] at ht
      obtain rfl : [] = t := Except.ok.inj ht
      refine (decodeTail_symbols offset hgroup (by simp [group])).trans ?_
      simp only [group, List.map_cons, List.map_nil, tailBytes, ha, hb, hc]
    | cons s rest =>
      simp only [group, List.forall_mem_cons] at hgroup
      obtain ⟨h₁, h₂, h₃, h₄, -⟩ := hgroup
      have hrest := ih (offset + 4)
      rw [htail] at hrest
      simp only [encode, htail, decodeFrom, valueAt_symbol h₁, valueAt_symbol h₂,
        valueAt_symbol h₃, valueAt_symbol h₄, hrest, bind, Except.bind, ha, hb, hc]

/-- Encoding never leaves a lone symbol behind complete groups. -/
theorem length_encode_ne (t : Text) : (encode t).length % 4 ≠ 1 := by
  induction t using encode.induct with
  | case1 => decide
  | case2 a => simp [encode]
  | case3 a b => simp [encode]
  | case4 a b c t ih =>
    simp only [encode, List.length_cons]
    omega

/-- Encoded bytes are ASCII. -/
theorem isAscii_encode (t : Text) : Text.IsAscii (encode t) := by
  induction t using encode.induct with
  | case1 => exact Text.isAscii_nil
  | case2 a =>
    have ha : a.toNat < 256 := a.toNat_lt
    exact .cons (symbol_lt _ (by omega)) (.cons (symbol_lt _ (by omega)) Text.isAscii_nil)
  | case3 a b =>
    have ha : a.toNat < 256 := a.toNat_lt
    have hb : b.toNat < 256 := b.toNat_lt
    exact .cons (symbol_lt _ (by omega)) (.cons (symbol_lt _ (by omega))
      (.cons (symbol_lt _ (by omega)) Text.isAscii_nil))
  | case4 a b c t ih =>
    have hgroup := lt_of_mem_group a b c
    simp only [group, List.forall_mem_cons] at hgroup
    obtain ⟨h₁, h₂, h₃, h₄, -⟩ := hgroup
    exact .cons (symbol_lt _ h₁) (.cons (symbol_lt _ h₂) (.cons (symbol_lt _ h₃)
      (.cons (symbol_lt _ h₄) ih)))

/-- Decoding undoes encoding. -/
theorem decode_encode (t : Text) : decode (encode t) = .ok t := by
  have hstray : strayLast? (encode t) = none := by
    rw [strayLast?, if_neg (length_encode_ne t)]
  rw [decode, hstray]
  exact decodeFrom_encode t 0

end OlmReceiver.Base64
