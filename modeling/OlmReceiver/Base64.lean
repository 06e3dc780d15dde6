import OlmReceiver.Number.Digits

/-!
# Unpadded standard base64

Three bytes are written as four symbols of the standard alphabet, and a rest of one or two bytes as
two or three symbols without padding. Decoding accepts just what encoding writes. Its faults name
the first offending byte, except that a lone symbol behind complete groups which is no symbol at
all is refused before anything else.
-/

namespace OlmReceiver.Base64

/-- Why a text is not base64. Offsets and lengths count bytes from the start. -/
inductive Fault where
  /-- A byte outside the alphabet, or padding where a symbol is due. -/
  | invalidSymbol (symbol : UInt8) (offset : Nat)
  /-- A last group of fewer than two symbols. -/
  | invalidLength (length : Nat)
  /-- Padding behind the last symbol. -/
  | invalidPadding
  /-- A last symbol with bits that belong to no byte. -/
  | invalidLastSymbol (symbol : UInt8) (offset : Nat)
deriving DecidableEq

/-- What a fault says. -/
def Fault.message : Fault → String
  | .invalidSymbol b i =>
    "Invalid symbol " ++ Digits.string b.toNat ++ ", offset " ++ Digits.string i ++ "."
  | .invalidLength n => "Invalid input length: " ++ Digits.string n
  | .invalidPadding => "Invalid padding"
  | .invalidLastSymbol b i =>
    "Invalid last symbol " ++ Digits.string b.toNat ++ ", offset " ++ Digits.string i ++ "."

/-- The padding byte of other base64 formats. -/
def padding : UInt8 := 0x3d

/-- The symbol of a number below 64. -/
def symbol (n : Nat) : UInt8 :=
  if n < 26 then (0x41 + n).toUInt8
  else if n < 52 then (0x61 + (n - 26)).toUInt8
  else if n < 62 then (0x30 + (n - 52)).toUInt8
  else if n = 62 then 0x2b
  else 0x2f

/-- The number of a symbol. -/
def value? (b : UInt8) : Option Nat :=
  if 0x41 ≤ b ∧ b ≤ 0x5a then some (b.toNat - 0x41)
  else if 0x61 ≤ b ∧ b ≤ 0x7a then some (b.toNat - 0x61 + 26)
  else if 0x30 ≤ b ∧ b ≤ 0x39 then some (b.toNat - 0x30 + 52)
  else if b = 0x2b then some 62
  else if b = 0x2f then some 63
  else none

/-- Writes bytes as symbols. -/
def encode : Text → Text
  | [] => []
  | [a] => [symbol (a.toNat / 4), symbol (a.toNat % 4 * 16)]
  | [a, b] =>
    [symbol (a.toNat / 4), symbol (a.toNat % 4 * 16 + b.toNat / 16), symbol (b.toNat % 16 * 4)]
  | a :: b :: c :: t =>
    symbol (a.toNat / 4) :: symbol (a.toNat % 4 * 16 + b.toNat / 16) ::
      symbol (b.toNat % 16 * 4 + c.toNat / 64) :: symbol (c.toNat % 64) :: encode t

/-- The number of the symbol at an offset. -/
def valueAt (b : UInt8) (offset : Nat) : Except Fault Nat :=
  match value? b with
  | some n => .ok n
  | none => .error (.invalidSymbol b offset)

/-- The symbols of the last group, with their values, and whether padding follows them. -/
structure Tail where
  symbols : List (UInt8 × Nat)
  padded : Bool

/--
Reads the last group, of which `seen` symbols are read: symbols, and padding behind at least two
of them. `padding?` is the offset of the first padding byte.
-/
def scanTail (offset : Nat) : (seen : Nat) → (padding? : Option Nat) → Text → Except Fault Tail
  | _, padding?, [] => .ok ⟨[], padding?.isSome⟩
  | seen, padding?, b :: t =>
    if b = padding then
      if seen < 2 then .error (.invalidSymbol b (offset + seen))
      else scanTail offset (seen + 1) (padding?.orElse fun _ => some (offset + seen)) t
    else match padding? with
      | some i => .error (.invalidSymbol padding i)
      | none => do
        let n ← valueAt b (offset + seen)
        let tail ← scanTail offset (seen + 1) none t
        .ok { tail with symbols := (b, n) :: tail.symbols }

/-- The bytes of the symbols of the last group; bits left over are zero. -/
def tailBytes (offset : Nat) : List (UInt8 × Nat) → Except Fault Text
  | [(_, a), (s, b)] =>
    if b % 16 = 0 then .ok [(a * 4 + b / 16).toUInt8]
    else .error (.invalidLastSymbol s (offset + 1))
  | [(_, a), (_, b), (s, c)] =>
    if c % 4 = 0 then .ok [(a * 4 + b / 16).toUInt8, (b % 16 * 16 + c / 4).toUInt8]
    else .error (.invalidLastSymbol s (offset + 2))
  | [(_, a), (_, b), (_, c), (_, d)] =>
    .ok [(a * 4 + b / 16).toUInt8, (b % 16 * 16 + c / 4).toUInt8, (c % 4 * 64 + d).toUInt8]
  | symbols => .error (.invalidLength (offset + symbols.length))

/-- Decodes the last group of one to four bytes. -/
def decodeTail (offset : Nat) (t : Text) : Except Fault Text := do
  let tail ← scanTail offset 0 none t
  if tail.symbols.length < 2 then .error (.invalidLength (offset + tail.symbols.length))
  else if tail.padded then .error .invalidPadding
  else tailBytes offset tail.symbols

/-- Decodes a text from a group on; a group with more behind it is made of symbols alone. -/
def decodeFrom (offset : Nat) : Text → Except Fault Text
  | [] => .ok []
  | s₁ :: s₂ :: s₃ :: s₄ :: s₅ :: t => do
    let a ← valueAt s₁ offset
    let b ← valueAt s₂ (offset + 1)
    let c ← valueAt s₃ (offset + 2)
    let d ← valueAt s₄ (offset + 3)
    let rest ← decodeFrom (offset + 4) (s₅ :: t)
    .ok ((a * 4 + b / 16).toUInt8 :: (b % 16 * 16 + c / 4).toUInt8 :: (c % 4 * 64 + d).toUInt8 ::
      rest)
  | t => decodeTail offset t

/-- A last byte behind complete groups that is neither symbol nor padding. -/
def strayLast? (t : Text) : Option UInt8 :=
  if t.length % 4 = 1 then
    t.getLast?.filter fun b => b ≠ padding && (value? b).isNone
  else none

/-- Reads symbols back as bytes. -/
def decode (t : Text) : Except Fault Text :=
  match strayLast? t with
  | some b => .error (.invalidSymbol b (t.length - 1))
  | none => decodeFrom 0 t

end OlmReceiver.Base64
