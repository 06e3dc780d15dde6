import Mathlib.Data.List.Basic
import OlmReceiver.Proofs.RoundTrip

/-!
# Base64 has one form for all bytes

A text that is decoded is what its bytes are encoded as, so that no two texts stand for the same bytes.
It is made of symbols of the standard alphabet alone, its last group has at least two of them, and the
bits of the last symbol that fill up no byte are zero.

The body of a message is such a text of the JSON of the message. Which JSON that is does not matter for
this: a body whose bytes are no message is in the one form of its bytes as well.
-/

namespace OlmReceiver

namespace Base64

/-! ## Decoded texts -/

/-- A number found for a byte is below 64, and the byte is its symbol. -/
theorem symbol_of_value? {b : UInt8} {n : Nat} (h : value? b = some n) : n < 64 ∧ symbol n = b := by
  have hall : ∀ b : UInt8, (value? b).all (fun n => n < 64 && symbol n == b) = true := by
    refine Json.forall_byte ?_
    decide +kernel
  have hb := hall b
  rw [h] at hb
  simpa using hb

/-- The number found for a byte at an offset is below 64, and the byte is its symbol. -/
theorem symbol_of_valueAt {b : UInt8} {offset n : Nat} (h : valueAt b offset = .ok n) :
    n < 64 ∧ symbol n = b := by
  unfold valueAt at h
  split at h
  · cases h
    exact symbol_of_value? ‹_›
  · cases h

/-- Once there is padding in the last group, it is told to be padded. -/
theorem padded_of_scanTail {offset seen i : Nat} {t : Text} {tail : Tail}
    (h : scanTail offset seen (some i) t = .ok tail) : tail.padded = true := by
  induction t generalizing seen with
  | nil =>
    cases h
    rfl
  | cons b t ih =>
    unfold scanTail at h
    split at h
    · split at h
      · cases h
      · exact ih h
    · cases h

/-- A last group without padding consists of the symbols of the numbers that are read. -/
theorem scanTail_unpadded {offset seen : Nat} {t : Text} {tail : Tail}
    (h : scanTail offset seen none t = .ok tail) (hpadded : tail.padded = false) :
    ∃ ns : List Nat, (∀ n ∈ ns, n < 64) ∧ t = ns.map symbol ∧
      tail.symbols = ns.map fun n => (symbol n, n) := by
  induction t generalizing seen tail with
  | nil =>
    cases h
    exact ⟨[], by simp, rfl, rfl⟩
  | cons b t ih =>
    unfold scanTail at h
    split at h
    · split at h
      · cases h
      · rw [padded_of_scanTail h] at hpadded
        cases hpadded
    · obtain ⟨n, hn, h⟩ := bind_eq_ok_iff.mp h
      obtain ⟨rest, hrest, h⟩ := bind_eq_ok_iff.mp h
      cases h
      obtain ⟨hlt, rfl⟩ := symbol_of_valueAt hn
      obtain ⟨ns, hns, rfl, hsymbols⟩ := ih hrest hpadded
      exact ⟨n :: ns, List.forall_mem_cons.mpr ⟨hlt, hns⟩, rfl, by simp [hsymbols]⟩

/-- A byte is the number that it is written for. -/
theorem toNat_toUInt8 {n : Nat} (h : n < 256) : n.toUInt8.toNat = n :=
  Nat.mod_eq_of_lt h

/-- The numbers of two symbols are found in the byte that they hold. -/
theorem encode_one {a b : Nat} (ha : a < 64) (hb : b < 64) (hlow : b % 16 = 0) :
    encode [(a * 4 + b / 16).toUInt8] = [a, b].map symbol := by
  have hfirst : (a * 4 + b / 16) / 4 = a := by omega
  have hsecond : (a * 4 + b / 16) % 4 * 16 = b := by omega
  simp only [encode, toNat_toUInt8 (by omega : a * 4 + b / 16 < 256), hfirst, hsecond, List.map_cons,
    List.map_nil]

/-- The numbers of three symbols are found in the two bytes that they hold. -/
theorem encode_two {a b c : Nat} (ha : a < 64) (hb : b < 64) (hc : c < 64) (hlow : c % 4 = 0) :
    encode [(a * 4 + b / 16).toUInt8, (b % 16 * 16 + c / 4).toUInt8] = [a, b, c].map symbol := by
  have hfirst : (a * 4 + b / 16) / 4 = a := by omega
  have hsecond : (a * 4 + b / 16) % 4 * 16 + (b % 16 * 16 + c / 4) / 16 = b := by omega
  have hthird : (b % 16 * 16 + c / 4) % 16 * 4 = c := by omega
  simp only [encode, toNat_toUInt8 (by omega : a * 4 + b / 16 < 256),
    toNat_toUInt8 (by omega : b % 16 * 16 + c / 4 < 256), hfirst, hsecond, hthird, List.map_cons,
    List.map_nil]

/-- The numbers of four symbols are found in the three bytes that they hold, whatever follows. -/
theorem encode_three {a b c d : Nat} (ha : a < 64) (hb : b < 64) (hc : c < 64) (hd : d < 64)
    (t : Text) :
    encode ((a * 4 + b / 16).toUInt8 :: (b % 16 * 16 + c / 4).toUInt8 ::
      (c % 4 * 64 + d).toUInt8 :: t) = [a, b, c, d].map symbol ++ encode t := by
  have hfirst : (a * 4 + b / 16) / 4 = a := by omega
  have hsecond : (a * 4 + b / 16) % 4 * 16 + (b % 16 * 16 + c / 4) / 16 = b := by omega
  have hthird : (b % 16 * 16 + c / 4) % 16 * 4 + (c % 4 * 64 + d) / 64 = c := by omega
  have hfourth : (c % 4 * 64 + d) % 64 = d := by omega
  simp only [encode, toNat_toUInt8 (by omega : a * 4 + b / 16 < 256),
    toNat_toUInt8 (by omega : b % 16 * 16 + c / 4 < 256),
    toNat_toUInt8 (by omega : c % 4 * 64 + d < 256), hfirst, hsecond, hthird, hfourth,
    List.map_cons, List.map_nil, List.cons_append, List.nil_append]

/-- The bytes of the last group are encoded as its symbols. -/
theorem encode_of_tailBytes {offset : Nat} {ns : List Nat} (hns : ∀ n ∈ ns, n < 64) {t : Text}
    (h : tailBytes offset (ns.map fun n => (symbol n, n)) = .ok t) : encode t = ns.map symbol := by
  rcases ns with _ | ⟨a, _ | ⟨b, _ | ⟨c, _ | ⟨d, _ | ⟨e, ns⟩⟩⟩⟩⟩
  · cases h
  · cases h
  · simp only [List.forall_mem_cons, List.map_cons, List.map_nil, tailBytes] at hns h
    split at h
    · cases h
      exact encode_one hns.1 hns.2.1 ‹_›
    · cases h
  · simp only [List.forall_mem_cons, List.map_cons, List.map_nil, tailBytes] at hns h
    split at h
    · cases h
      exact encode_two hns.1 hns.2.1 hns.2.2.1 ‹_›
    · cases h
  · simp only [List.forall_mem_cons] at hns
    cases h
    exact encode_three hns.1 hns.2.1 hns.2.2.1 hns.2.2.2.1 []
  · cases h

/-- A last group that is decoded is what its bytes are encoded as. -/
theorem encode_of_decodeTail {offset : Nat} {s t : Text} (h : decodeTail offset s = .ok t) :
    encode t = s := by
  obtain ⟨tail, htail, hbytes⟩ := bind_eq_ok_iff.mp h
  split at hbytes
  · cases hbytes
  · split at hbytes
    · cases hbytes
    · rename_i hlength hpadded
      obtain ⟨ns, hns, rfl, hsymbols⟩ := scanTail_unpadded htail (Bool.eq_false_iff.mpr hpadded)
      rw [hsymbols] at hbytes
      exact encode_of_tailBytes hns hbytes

/-- A text that is decoded from some group on is what its bytes are encoded as. -/
theorem encode_of_decodeFrom {offset : Nat} {s t : Text} (h : decodeFrom offset s = .ok t) :
    encode t = s := by
  induction offset, s using decodeFrom.induct generalizing t with
  | case1 offset =>
    cases h
    rfl
  | case2 offset s₁ s₂ s₃ s₄ s₅ s ih =>
    obtain ⟨a, ha, h⟩ := bind_eq_ok_iff.mp h
    obtain ⟨b, hb, h⟩ := bind_eq_ok_iff.mp h
    obtain ⟨c, hc, h⟩ := bind_eq_ok_iff.mp h
    obtain ⟨d, hd, h⟩ := bind_eq_ok_iff.mp h
    obtain ⟨rest, hrest, h⟩ := bind_eq_ok_iff.mp h
    cases h
    obtain ⟨halt, rfl⟩ := symbol_of_valueAt ha
    obtain ⟨hblt, rfl⟩ := symbol_of_valueAt hb
    obtain ⟨hclt, rfl⟩ := symbol_of_valueAt hc
    obtain ⟨hdlt, rfl⟩ := symbol_of_valueAt hd
    rw [encode_three halt hblt hclt hdlt, ih hrest]
    rfl
  | case3 offset s hnil hgroup =>
    rw [decodeFrom.eq_3 offset s hnil hgroup] at h
    exact encode_of_decodeTail h

/-- A text that is decoded is what its bytes are encoded as. -/
theorem encode_of_decode {s t : Text} (h : decode s = .ok t) : encode t = s := by
  unfold decode at h
  split at h
  · cases h
  · exact encode_of_decodeFrom h

/-! ## The form of encoded bytes -/

/-- The symbols in the order of their numbers. -/
def alphabet : Text :=
  Text.ofString "ABCDEFGHIJKLMNOPQRSTUVWXYZabcdefghijklmnopqrstuvwxyz0123456789+/"

/-- What a text has to be to stand for bytes. -/
structure Canonical (s : Text) : Prop where
  /-- Neither padding nor a byte outside the alphabet occurs. -/
  symbols : ∀ b ∈ s, b ∈ alphabet
  /-- No symbol stands alone behind complete groups. -/
  length : s.length % 4 ≠ 1
  /-- As many low bits of the last symbol are zero as the symbols have beyond whole bytes. -/
  lowBits : ∀ b, s.getLast? = some b → alphabet.idxOf b % twoPow (6 * s.length % 8) = 0

/-- Each symbol stands at its number in the alphabet. -/
theorem idxOf_symbol : ∀ n < 64, symbol n ∈ alphabet ∧ alphabet.idxOf (symbol n) = n := by
  decide +kernel

theorem canonical_nil : Canonical [] where
  symbols := by simp
  length := by decide
  lowBits := by simp

/-- A group of four symbols in front of a text does not change whether it stands for bytes. -/
theorem Canonical.group {ns : List Nat} (hns : ∀ n ∈ ns, n < 64) (hlength : ns.length = 4) {s : Text}
    (h : Canonical s) : Canonical (ns.map symbol ++ s) where
  symbols := by
    refine List.forall_mem_append.mpr ⟨fun b hb => ?_, h.symbols⟩
    obtain ⟨n, hn, rfl⟩ := List.mem_map.mp hb
    exact (idxOf_symbol n (hns n hn)).1
  length := by
    have := h.length
    simp only [List.length_append, List.length_map]
    omega
  lowBits := by
    intro b hb
    have hbits : 6 * (ns.map symbol ++ s).length % 8 = 6 * s.length % 8 := by
      simp only [List.length_append, List.length_map]
      omega
    rw [hbits]
    cases s with
    | nil => exact Nat.mod_one _
    | cons b' s =>
      rw [List.getLast?_append_cons] at hb
      exact h.lowBits b hb

/-- Two or three symbols stand for bytes if the low bits of the last one are zero. -/
theorem canonical_tail {ns : List Nat} (hns : ∀ n ∈ ns, n < 64) {n : Nat} (hn : n < 64) {k : Nat}
    (hk : ns.length = k) (hlength : (k + 1) % 4 ≠ 1) (hlow : n % twoPow (6 * (k + 1) % 8) = 0) :
    Canonical ((ns ++ [n]).map symbol) where
  symbols := by
    intro b hb
    obtain ⟨m, hm, rfl⟩ := List.mem_map.mp hb
    rcases List.mem_append.mp hm with hm | hm
    · exact (idxOf_symbol m (hns m hm)).1
    · rw [List.mem_singleton.mp hm]
      exact (idxOf_symbol n hn).1
  length := by simpa [hk] using hlength
  lowBits := by
    intro b hb
    rw [List.map_append, List.map_singleton, List.getLast?_concat] at hb
    cases hb
    rw [(idxOf_symbol n hn).2]
    simpa [hk] using hlow

/-- Encoded bytes are of the form that stands for bytes. -/
theorem canonical_encode (t : Text) : Canonical (encode t) := by
  induction t using encode.induct with
  | case1 => exact canonical_nil
  | case2 a =>
    have ha : a.toNat < 256 := a.toNat_lt
    have hns : ∀ n ∈ [a.toNat / 4], n < 64 := List.forall_mem_singleton.mpr (by omega)
    refine canonical_tail hns (by omega) (k := 1) rfl (by decide) ?_
    change a.toNat % 4 * 16 % 16 = 0
    omega
  | case3 a b =>
    have ha : a.toNat < 256 := a.toNat_lt
    have hb : b.toNat < 256 := b.toNat_lt
    have hns : ∀ n ∈ [a.toNat / 4, a.toNat % 4 * 16 + b.toNat / 16], n < 64 := by
      simp only [List.forall_mem_cons]
      exact ⟨by omega, by omega, by simp⟩
    refine canonical_tail hns (by omega) (k := 2) rfl (by decide) ?_
    change b.toNat % 16 * 4 % 4 = 0
    omega
  | case4 a b c t ih => exact ih.group (lt_of_mem_group a b c) rfl

/-- Only a text of the form that stands for bytes is decoded. -/
theorem canonical_of_decode {s t : Text} (h : decode s = .ok t) : Canonical s := by
  rw [← encode_of_decode h]
  exact canonical_encode t

end Base64

namespace Ratchet.Message

/-- A body that is not base64 is refused for that. -/
theorem decode_of_fault {body : String} {fault : Base64.Fault}
    (h : Base64.decode (Text.ofString body) = .error fault) :
    decode body = .error (.malformed (.base64 fault)) := by
  rw [decode, h]

/-- A body that is read, or is refused for its JSON alone, has been decoded to some bytes. -/
theorem exists_bytes {body : String}
    (h : (∃ m, decode body = .ok m) ∨ decode body = .error (.malformed .json)) :
    ∃ t, Base64.decode (Text.ofString body) = .ok t := by
  cases hdecode : Base64.decode (Text.ofString body) with
  | ok t => exact ⟨t, rfl⟩
  | error fault => simp [decode_of_fault hdecode] at h

/-- A body that is decoded is the string that its bytes are encoded as. -/
theorem eq_encode_of_bytes {body : String} {t : Text}
    (h : Base64.decode (Text.ofString body) = .ok t) : body = Text.ofAscii (Base64.encode t) := by
  refine Text.ofString_injective ?_
  rw [Text.ofString_ofAscii (Base64.isAscii_encode t), Base64.encode_of_decode h]

/-- The body of a message stands for the message. A body that is read as a message, or is refused for
its JSON alone, is the unpadded base64 of the bytes it is decoded to; no other body is decoded to these
bytes, and a body that is of no such form is refused as not being base64. -/
theorem body_canonical :
    (∀ m : Message, decode m.encode = .ok m) ∧
      (∀ body, (∃ m, decode body = .ok m) ∨ decode body = .error (.malformed .json) →
        ∃ t, Base64.decode (Text.ofString body) = .ok t ∧
          body = Text.ofAscii (Base64.encode t)) ∧
      (∀ body body' t, Base64.decode (Text.ofString body) = .ok t →
        Base64.decode (Text.ofString body') = .ok t → body = body') ∧
      ∀ body, ¬ Base64.Canonical (Text.ofString body) →
        ∃ fault, decode body = .error (.malformed (.base64 fault)) := by
  refine ⟨decode_encode, fun body h => ?_, fun body body' t h h' => ?_, fun body h => ?_⟩
  · obtain ⟨t, ht⟩ := exists_bytes h
    exact ⟨t, ht, eq_encode_of_bytes ht⟩
  · rw [eq_encode_of_bytes h, eq_encode_of_bytes h']
  · cases hdecode : Base64.decode (Text.ofString body) with
    | ok t => exact absurd (Base64.canonical_of_decode hdecode) h
    | error fault => exact ⟨fault, decode_of_fault hdecode⟩

/-- The word `no` is decoded to two bytes that are no message. Its base64 is refused with padding behind
it, with another low bit set, with one symbol more, and with a letter beyond the alphabet. -/
theorem body_canonical_of_no :
    (∃ t, Base64.decode (Text.ofString "bm8") = .ok t ∧ "bm8" = Text.ofAscii (Base64.encode t)) ∧
      (∀ body, Base64.decode (Text.ofString body) = .ok (Text.ofString "no") → body = "bm8") ∧
      ∀ body ∈ ["bm8=", "bm9", "bm8AA", "bmø"],
        ∃ fault, decode body = .error (.malformed (.base64 fault)) := by
  have hbytes : Base64.decode (Text.ofString "bm8") = .ok (Text.ofString "no") := by decide +kernel
  have hrefused : decode "bm8" = .error (.malformed .json) := by decide +kernel
  refine ⟨body_canonical.2.1 "bm8" (.inr hrefused), fun body h => ?_, fun body hbody => ?_⟩
  · exact body_canonical.2.2.1 body "bm8" _ h hbytes
  · refine body_canonical.2.2.2 body fun h => ?_
    simp only [List.mem_cons, List.not_mem_nil, or_false] at hbody
    rcases hbody with rfl | rfl | rfl | rfl
    · exact absurd (h.symbols 0x3d) (by decide +kernel)
    · exact absurd (h.lowBits 0x39) (by decide +kernel)
    · exact h.length (by decide +kernel)
    · exact absurd (h.symbols 0xc3) (by decide +kernel)

end Ratchet.Message

end OlmReceiver
