import OlmReceiver.Json.Basic

/-!
# Writing JSON texts

Values are written without blanks. In strings only the quote, the backslash and the control
characters are escaped; every other character stands as its UTF-8 bytes.
-/

namespace OlmReceiver.Json

/-- The lowercase hexadecimal digit of a number below sixteen. -/
def hexDigit (n : Nat) : UInt8 :=
  if n < 10 then Byte.ofDigit n else (0x57 + n).toUInt8

/-- How one byte of a string is written. -/
def escapedByte (b : UInt8) : Text :=
  if b = Byte.quote ∨ b = Byte.backslash then [Byte.backslash, b]
  else if b = 0x08 then [Byte.backslash, 'b'.toUInt8]
  else if b = Byte.tab then [Byte.backslash, 't'.toUInt8]
  else if b = Byte.lineFeed then [Byte.backslash, 'n'.toUInt8]
  else if b = 0x0c then [Byte.backslash, 'f'.toUInt8]
  else if b = Byte.carriageReturn then [Byte.backslash, 'r'.toUInt8]
  else if b < Byte.space then
    [Byte.backslash, 'u'.toUInt8, Byte.zero, Byte.zero, hexDigit (b.toNat / 16),
      hexDigit (b.toNat % 16)]
  else [b]

/-- The text of a string. -/
def quoted (s : String) : Text :=
  Byte.quote :: (Text.ofString s).flatMap escapedByte ++ [Byte.quote]

/-- Texts with commas between them. -/
def separated : List Text → Text
  | [] => []
  | [t] => t
  | t :: u :: ts => t ++ Byte.comma :: separated (u :: ts)

/-- The text of an array whose elements have these texts. -/
def bracketed (items : List Text) : Text :=
  Byte.openBracket :: separated items ++ [Byte.closeBracket]

/-- The text of an object member whose value has this text. -/
def memberText (name : String) (value : Text) : Text :=
  quoted name ++ Byte.colon :: value

/-- The text of an object whose members have these texts. -/
def braced (members : List Text) : Text :=
  Byte.openBrace :: separated members ++ [Byte.closeBrace]

mutual

/-- The text of a value. -/
def toText : Json → Text
  | .null => nullWord
  | .bool true => trueWord
  | .bool false => falseWord
  | .number n => n.toText
  | .string s => quoted s
  | .array items => bracketed (itemTexts items)
  | .object ms => braced (memberTexts ms)

/-- The texts of array elements. -/
def itemTexts : List Json → List Text
  | [] => []
  | v :: vs => v.toText :: itemTexts vs

/-- The texts of object members. -/
def memberTexts : List (String × Json) → List Text
  | [] => []
  | (name, v) :: ms => memberText name v.toText :: memberTexts ms

end

end OlmReceiver.Json
