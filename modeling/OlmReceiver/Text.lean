/-!
# Texts as bytes

What arrives over the transport, and what a ratchet hands out, is a list of bytes that need not be
valid UTF-8. A `String` is the valid case: `Text.ofString` writes its bytes, and
`Text.toString?` is the partial inverse, which refuses every other byte list.
-/

namespace OlmReceiver

/-- The bytes of a text in reading order. -/
abbrev Text := List UInt8

namespace Text

/-- The UTF-8 bytes of a string. -/
def ofString (s : String) : Text :=
  s.toUTF8.data.toList

/-- The string whose UTF-8 bytes these are, if they are valid UTF-8. -/
def toString? (t : Text) : Option String :=
  String.fromUTF8? ⟨t.toArray⟩

/-- Each byte read as the character of that number; for ASCII texts this is their string. -/
def ofAscii (t : Text) : String :=
  String.ofList (t.map Char.ofUInt8)

@[simp] theorem toString?_ofString (s : String) : toString? (ofString s) = some s := by
  unfold toString? ofString String.fromUTF8?
  simp only [Array.toArray_toList]
  exact dif_pos s.isValidUTF8

theorem ofString_injective {s t : String} (h : ofString s = ofString t) : s = t := by
  have := congrArg toString? h
  simpa using this

@[simp] theorem ofString_append (s t : String) :
    ofString (s ++ t) = ofString s ++ ofString t := by
  simp [ofString, String.toUTF8]

end Text

/-! Bytes with a meaning in JSON texts. -/
namespace Byte

@[match_pattern] abbrev tab : UInt8 := 0x09
@[match_pattern] abbrev lineFeed : UInt8 := 0x0a
@[match_pattern] abbrev carriageReturn : UInt8 := 0x0d
@[match_pattern] abbrev space : UInt8 := 0x20
@[match_pattern] abbrev quote : UInt8 := 0x22
@[match_pattern] abbrev plus : UInt8 := 0x2b
@[match_pattern] abbrev comma : UInt8 := 0x2c
@[match_pattern] abbrev minus : UInt8 := 0x2d
@[match_pattern] abbrev dot : UInt8 := 0x2e
@[match_pattern] abbrev slash : UInt8 := 0x2f
@[match_pattern] abbrev zero : UInt8 := 0x30
@[match_pattern] abbrev colon : UInt8 := 0x3a
@[match_pattern] abbrev openBracket : UInt8 := 0x5b
@[match_pattern] abbrev backslash : UInt8 := 0x5c
@[match_pattern] abbrev closeBracket : UInt8 := 0x5d
@[match_pattern] abbrev lowerE : UInt8 := 0x65
@[match_pattern] abbrev openBrace : UInt8 := 0x7b
@[match_pattern] abbrev closeBrace : UInt8 := 0x7d

/-- Blanks between the tokens of a JSON text. -/
def isBlank (b : UInt8) : Bool :=
  b == space || b == tab || b == lineFeed || b == carriageReturn

/-- Decimal digits. -/
def isDigit (b : UInt8) : Bool :=
  0x30 ≤ b && b ≤ 0x39

/-- The value of a decimal digit. -/
def digitValue (b : UInt8) : Nat :=
  b.toNat - 0x30

/-- The byte of a decimal digit below ten. -/
def ofDigit (n : Nat) : UInt8 :=
  (0x30 + n).toUInt8

end Byte

/-- A text without its leading blanks. -/
def Text.dropBlanks (t : Text) : Text :=
  t.dropWhile Byte.isBlank

end OlmReceiver
