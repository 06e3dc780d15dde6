import OlmReceiver.Wire.Basic

/-!
# Texts that are valid UTF-8

All that is written as JSON or base64 is the UTF-8 of some string. Most of it is ASCII; the rest are
the characters of the strings inside, whose bytes are written as they are or escaped one by one.
-/

namespace OlmReceiver

namespace Text

/-- The bytes of a string are those of its characters in order. -/
theorem ofString_ofList (cs : List Char) :
    ofString (String.ofList cs) = cs.flatMap String.utf8EncodeChar := by
  simp [ofString, String.toUTF8, List.utf8Encode]

/-- The bytes of some string. -/
def IsUtf8 (t : Text) : Prop :=
  ∃ s, ofString s = t

/-- Bytes that each stand for a character of their own. -/
def IsAscii (t : Text) : Prop :=
  ∀ b ∈ t, b < 0x80

theorem isUtf8_ofString (s : String) : IsUtf8 (ofString s) :=
  ⟨s, rfl⟩

theorem IsUtf8.append {t u : Text} (ht : IsUtf8 t) (hu : IsUtf8 u) : IsUtf8 (t ++ u) := by
  obtain ⟨x, rfl⟩ := ht
  obtain ⟨y, rfl⟩ := hu
  exact ⟨x ++ y, ofString_append x y⟩

/-- An ASCII character is written as its number. -/
theorem utf8EncodeChar_ofUInt8 {b : UInt8} (h : b < 0x80) :
    String.utf8EncodeChar (Char.ofUInt8 b) = [b] := by
  have hb : b.toNat ≤ 0x7f := by
    have := UInt8.lt_iff_toNat_lt.mp h
    simp at this
    omega
  have hval : (Char.ofUInt8 b).val.toNat = b.toNat := UInt8.toNat_toUInt32 b
  unfold String.utf8EncodeChar
  simp [hval, hb]

/-- An ASCII text is that of the string that reads each of its bytes as a character. -/
theorem ofString_ofAscii {t : Text} (h : IsAscii t) : ofString (ofAscii t) = t := by
  unfold ofAscii
  rw [ofString_ofList]
  induction t with
  | nil => rfl
  | cons b t ih =>
    have hb : b < 0x80 := h b List.mem_cons_self
    have ht : IsAscii t := fun b' hb' => h b' (List.mem_cons_of_mem b hb')
    rw [List.map_cons, List.flatMap_cons, utf8EncodeChar_ofUInt8 hb, ih ht, List.singleton_append]

theorem IsAscii.isUtf8 {t : Text} (h : IsAscii t) : IsUtf8 t :=
  ⟨ofAscii t, ofString_ofAscii h⟩

theorem IsAscii.append {t u : Text} (ht : IsAscii t) (hu : IsAscii u) : IsAscii (t ++ u) :=
  List.forall_mem_append.mpr ⟨ht, hu⟩

theorem IsAscii.cons {b : UInt8} {t : Text} (hb : b < 0x80) (ht : IsAscii t) : IsAscii (b :: t) :=
  List.forall_mem_cons.mpr ⟨hb, ht⟩

theorem isAscii_nil : IsAscii [] := by
  simp [IsAscii]

theorem IsAscii.of_subset {t u : Text} (ht : IsAscii t) (h : u ⊆ t) : IsAscii u :=
  fun b hb => ht b (h hb)

/-- Every byte of a character that is not ASCII lies above the ASCII range. -/
theorem le_of_mem_utf8EncodeChar {c : Char} (hc : 0x80 ≤ c.val.toNat) {b : UInt8}
    (hb : b ∈ String.utf8EncodeChar c) : 0x80 ≤ b := by
  rw [UInt8.le_iff_toNat_le]
  unfold String.utf8EncodeChar at hb
  simp only [show ¬ c.val.toNat ≤ 0x7f by omega, if_false] at hb
  split at hb
  · simp only [List.mem_cons, List.not_mem_nil, or_false] at hb
    obtain rfl | rfl := hb
    · simp
      omega
    · simp
      omega
  · split at hb
    · simp only [List.mem_cons, List.not_mem_nil, or_false] at hb
      obtain rfl | rfl | rfl := hb
      all_goals
        simp
        omega
    · simp only [List.mem_cons, List.not_mem_nil, or_false] at hb
      obtain rfl | rfl | rfl | rfl := hb
      all_goals
        simp
        omega

end Text

open Text (IsUtf8 IsAscii isAscii_nil)

/-! ## Numbers -/

/-- Decimal digits are ASCII. -/
theorem Byte.lt_of_isDigit {b : UInt8} (h : isDigit b = true) : b < 0x80 := by
  simp only [isDigit, Bool.and_eq_true, decide_eq_true_eq, UInt8.le_iff_toNat_le] at h
  rw [UInt8.lt_iff_toNat_lt]
  simp at h ⊢
  omega

theorem Digits.isAscii_ofNat (n : Nat) : IsAscii (ofNat n) :=
  fun b hb => Byte.lt_of_isDigit (isDigit_of_mem_ofNat b hb)

namespace Double

/-- A point inside digits, or behind them, leaves them ASCII. -/
theorem isAscii_pointed {ds : Text} (hds : IsAscii ds) (n : Nat) :
    IsAscii (ds.take n ++ [Byte.dot] ++ ds.drop n) :=
  ((hds.of_subset (List.take_subset n ds)).append (.cons (by decide) isAscii_nil)).append
    (hds.of_subset (List.drop_subset n ds))

theorem isAscii_zeros (n : Nat) : IsAscii (List.replicate n Byte.zero) := by
  intro b hb
  rw [List.eq_of_mem_replicate hb]
  decide

/-- Positional notation adds a point and zeros to the digits. -/
theorem isAscii_positional {ds : Text} (hds : IsAscii ds) (e : Int) : IsAscii (positional ds e) := by
  unfold positional
  split
  · have hpoint : IsAscii [Byte.zero, Byte.dot] := .cons (by decide) (.cons (by decide) isAscii_nil)
    exact (hpoint.append (isAscii_zeros _)).append hds
  · split
    · have hpoint : IsAscii [Byte.dot, Byte.zero] := .cons (by decide) (.cons (by decide) isAscii_nil)
      exact (hds.append (isAscii_zeros _)).append hpoint
    · exact isAscii_pointed hds _

/-- Scientific notation adds a point and an exponent to the digits. -/
theorem isAscii_scientific {ds : Text} (hds : IsAscii ds) (e : Int) : IsAscii (scientific ds e) := by
  unfold scientific
  dsimp only
  refine IsAscii.append (IsAscii.append ?_ ?_) (Digits.isAscii_ofNat _)
  · split
    · exact hds
    · exact isAscii_pointed hds 1
  · refine .cons (by decide) (.cons ?_ isAscii_nil)
    split
    · decide
    · decide

/-- The text of a double is ASCII. -/
theorem isAscii_toText (x : Double) : IsAscii x.toText := by
  unfold toText
  refine IsAscii.append ?_ ?_
  · split
    · exact .cons (by decide) isAscii_nil
    · exact isAscii_nil
  · split
    · exact isAscii_positional (Digits.isAscii_ofNat _) _
    · exact isAscii_scientific (Digits.isAscii_ofNat _) _

end Double

/-- The text of a number is ASCII. -/
theorem Number.isAscii_toText (n : Number) : IsAscii n.toText := by
  cases n with
  | integer i hi =>
    refine IsAscii.append ?_ (Digits.isAscii_ofNat _)
    split
    · exact .cons (by decide) isAscii_nil
    · exact isAscii_nil
  | double x => exact x.isAscii_toText

namespace Json

open Text (isUtf8_ofString)

/-! ## Strings -/

/-- What holds of the bytes of all numbers below 256 holds of every byte. -/
theorem forall_byte {P : UInt8 → Prop} (h : ∀ n : Fin 256, P (UInt8.ofFin n)) (b : UInt8) : P b :=
  UInt8.ofFin_toFin b ▸ h b.toFin

/-- A byte above the ASCII range is written as it is. -/
theorem escapedByte_of_le (b : UInt8) : 0x80 ≤ b → escapedByte b = [b] := by
  revert b
  refine forall_byte ?_
  decide +kernel

/-- An ASCII byte is written in ASCII, escaped or not. -/
theorem isAscii_escapedByte (b : UInt8) : b < 0x80 → IsAscii (escapedByte b) := by
  revert b
  refine forall_byte ?_
  unfold IsAscii
  decide +kernel

/-- A character is written in UTF-8, escaped or not. -/
theorem isUtf8_flatMap_utf8EncodeChar (c : Char) :
    IsUtf8 ((String.utf8EncodeChar c).flatMap escapedByte) := by
  by_cases hc : c.val.toNat < 0x80
  · have hchar : String.utf8EncodeChar c = [UInt8.ofNat c.val.toNat] := by
      unfold String.utf8EncodeChar
      simp only [show c.val.toNat ≤ 0x7f by omega, if_true]
    have hb : UInt8.ofNat c.val.toNat < 0x80 := by
      rw [UInt8.lt_iff_toNat_lt, UInt8.toNat_ofNat']
      exact Nat.lt_of_le_of_lt (Nat.mod_le _ _) hc
    rw [hchar, List.flatMap_singleton]
    exact (isAscii_escapedByte _ hb).isUtf8
  · have hsame : ∀ b ∈ String.utf8EncodeChar c, escapedByte b = [b] := fun b hb =>
      escapedByte_of_le b (Text.le_of_mem_utf8EncodeChar (by omega) hb)
    have hall : (String.utf8EncodeChar c).flatMap escapedByte = String.utf8EncodeChar c := by
      rw [List.flatMap_def, List.map_congr_left hsame, ← List.flatMap_def, List.flatMap_singleton']
    rw [hall]
    exact ⟨String.ofList [c], by rw [Text.ofString_ofList, List.flatMap_singleton]⟩

/-- The text of a string is UTF-8. -/
theorem isUtf8_quoted (x : String) : IsUtf8 (quoted x) := by
  have hinside : ∀ cs : List Char,
      IsUtf8 ((cs.flatMap String.utf8EncodeChar).flatMap escapedByte) := by
    intro cs
    induction cs with
    | nil => exact isUtf8_ofString ""
    | cons c cs ih =>
      rw [List.flatMap_cons, List.flatMap_append]
      exact (isUtf8_flatMap_utf8EncodeChar c).append ih
  have hquote : IsUtf8 [Byte.quote] := ⟨"\"", by decide +kernel⟩
  unfold quoted
  rw [← String.ofList_toList (s := x), Text.ofString_ofList]
  exact (hquote.append (hinside x.toList)).append hquote

/-! ## Values -/

/-- Texts with commas between them are UTF-8 if all of them are. -/
theorem isUtf8_separated {ts : List Text} (h : ∀ t ∈ ts, IsUtf8 t) : IsUtf8 (separated ts) := by
  induction ts with
  | nil => exact isUtf8_ofString ""
  | cons t ts ih =>
    cases ts with
    | nil => exact h t List.mem_cons_self
    | cons u ts =>
      have hcomma : IsUtf8 [Byte.comma] := ⟨",", by decide +kernel⟩
      have ht : IsUtf8 t := h t List.mem_cons_self
      have hrest := ih fun t' ht' => h t' (List.mem_cons_of_mem t ht')
      exact ht.append (hcomma.append hrest)

theorem isUtf8_bracketed {ts : List Text} (h : ∀ t ∈ ts, IsUtf8 t) : IsUtf8 (bracketed ts) := by
  have hopen : IsUtf8 [Byte.openBracket] := ⟨"[", by decide +kernel⟩
  have hclose : IsUtf8 [Byte.closeBracket] := ⟨"]", by decide +kernel⟩
  exact (hopen.append (isUtf8_separated h)).append hclose

theorem isUtf8_braced {ts : List Text} (h : ∀ t ∈ ts, IsUtf8 t) : IsUtf8 (braced ts) := by
  have hopen : IsUtf8 [Byte.openBrace] := ⟨"\x7b", by decide +kernel⟩
  have hclose : IsUtf8 [Byte.closeBrace] := ⟨"\x7d", by decide +kernel⟩
  exact (hopen.append (isUtf8_separated h)).append hclose

theorem isUtf8_memberText (name : String) {t : Text} (h : IsUtf8 t) :
    IsUtf8 (memberText name t) := by
  have hcolon : IsUtf8 [Byte.colon] := ⟨":", by decide +kernel⟩
  exact (isUtf8_quoted name).append (hcolon.append h)

mutual

/-- The text of a value is UTF-8. -/
theorem isUtf8_toText : (v : Json) → IsUtf8 v.toText
  | .null => ⟨"null", by decide +kernel⟩
  | .bool true => ⟨"true", by decide +kernel⟩
  | .bool false => ⟨"false", by decide +kernel⟩
  | .number n => n.isAscii_toText.isUtf8
  | .string x => isUtf8_quoted x
  | .array items => isUtf8_bracketed (isUtf8_itemTexts items)
  | .object ms => isUtf8_braced (isUtf8_memberTexts ms)

theorem isUtf8_itemTexts : (vs : List Json) → ∀ t ∈ itemTexts vs, IsUtf8 t
  | [], t, ht => by simp [itemTexts] at ht
  | v :: vs, t, ht => by
    obtain rfl | ht := List.mem_cons.mp ht
    · exact isUtf8_toText v
    · exact isUtf8_itemTexts vs t ht

theorem isUtf8_memberTexts : (ms : List (String × Json)) → ∀ t ∈ memberTexts ms, IsUtf8 t
  | [], t, ht => by simp [memberTexts] at ht
  | (name, v) :: ms, t, ht => by
    obtain rfl | ht := List.mem_cons.mp ht
    · exact isUtf8_memberText name (isUtf8_toText v)
    · exact isUtf8_memberTexts ms t ht

end

end Json

namespace Wire

open Json (isUtf8_quoted isUtf8_bracketed isUtf8_braced isUtf8_memberText isUtf8_memberTexts)

mutual

/-- The text that a shape writes is UTF-8. -/
theorem Shape.isUtf8_toText : (s : Shape) → (v : s.Value) → IsUtf8 (s.toText v)
  | .string, x => isUtf8_quoted x
  | .number, n => n.isAscii_toText.isUtf8
  | .any, v => v.isUtf8_toText
  | .objectOrString, .inl ms => (Json.object ms).isUtf8_toText
  | .objectOrString, .inr x => isUtf8_quoted x
  | .list item, vs => isUtf8_bracketed fun t ht => by
    obtain ⟨v, -, rfl⟩ := List.mem_map.mp ht
    exact item.isUtf8_toText v
  | .record fields, v => isUtf8_braced (fields.isUtf8_toTexts v)
  | .openRecord fields, (v, extra) => isUtf8_braced fun t ht => by
    obtain ht | ht := List.mem_append.mp ht
    · exact fields.isUtf8_toTexts v t ht
    · exact isUtf8_memberTexts extra t ht

theorem Fields.isUtf8_toTexts : (fs : Fields) → (v : fs.Value) → ∀ t ∈ fs.toTexts v, IsUtf8 t
  | .done, (), t, ht => by simp [Fields.toTexts] at ht
  | .required f s rest, (v, vs), t, ht => by
    obtain rfl | ht := List.mem_cons.mp ht
    · exact isUtf8_memberText f.name (s.isUtf8_toText v)
    · exact rest.isUtf8_toTexts vs t ht
  | .optional _ _ rest, (none, vs), t, ht => rest.isUtf8_toTexts vs t ht
  | .optional f s rest, (some v, vs), t, ht => by
    obtain rfl | ht := List.mem_cons.mp ht
    · exact isUtf8_memberText f.name (s.isUtf8_toText v)
    · exact rest.isUtf8_toTexts vs t ht
  | .repeated f s rest, (xs, vs), t, ht => by
    obtain rfl | ht := List.mem_cons.mp ht
    · refine isUtf8_memberText f.name (isUtf8_bracketed fun t ht => ?_)
      obtain ⟨x, -, rfl⟩ := List.mem_map.mp ht
      exact s.isUtf8_toText x
    · exact rest.isUtf8_toTexts vs t ht

end

/-- What a wire format writes is the text of some string. -/
theorem isUtf8_toText {α : Type} [Wire α] (a : α) : IsUtf8 (Wire.toText a) :=
  (Wire.shape α).isUtf8_toText (Wire.toValue a)

end Wire

end OlmReceiver
