import OlmReceiver.Json.Basic
import OlmReceiver.Number.Literal

/-!
# JSON tokens

Reads the leaves of a JSON text: literal words, numbers and strings. Readers stop at the first
fault in reading order. A value that is skipped is held to the grammar alone: numbers may be out
of range, surrogates unpaired and strings no UTF-8, and a number cut off by the end of the text is
malformed instead of truncated. What is skipped stands for `null` or the empty string.
-/

namespace OlmReceiver.Json

/-- Whether the value read is kept, or only passed over. -/
inductive Mode where
  | keep
  | skip
deriving DecidableEq

namespace Token

/-- Reads the given bytes. -/
def expect : (wanted : Text) → Text → Except Fault Text
  | [], s => .ok s
  | _ :: _, [] => .error .truncated
  | w :: ws, b :: s => if b = w then expect ws s else .error .malformed

/-! ## Numbers -/

/-- The fault of a number that the end of the text cuts off. -/
def cutNumber : Mode → Fault
  | .keep => .truncated
  | .skip => .malformed

/-- Reads one or more digits. -/
def digits (m : Mode) (s : Text) : Except Fault (Text × Text) :=
  match s.takeWhile Byte.isDigit, s.dropWhile Byte.isDigit with
  | [], [] => .error (cutNumber m)
  | [], _ :: _ => .error .malformed
  | d :: ds, r => .ok (d :: ds, r)

/-- Reads the digits of an integer; a leading zero stands alone. -/
def wholePart (m : Mode) (s : Text) : Except Fault (Text × Text) := do
  let (ds, r) ← digits m s
  if ds.head? = some Byte.zero ∧ ds.length ≠ 1 then .error .malformed else .ok (ds, r)

/-- Reads a point and the digits behind it, if there is a point. -/
def fractionPart (m : Mode) : Reader Text
  | Byte.dot :: s => digits m s
  | s => .ok ([], s)

/-- Reads the sign of an exponent, if there is one, and whether it is negative. -/
def exponentSign : Text → Bool × Text
  | Byte.minus :: s => (true, s)
  | Byte.plus :: s => (false, s)
  | s => (false, s)

/-- Reads an exponent, if there is one. -/
def exponentPart (m : Mode) : Reader (Option Int)
  | [] => .ok (none, [])
  | b :: s =>
    if b = 'e'.toUInt8 ∨ b = 'E'.toUInt8 then do
      let (negative, s) := exponentSign s
      let (ds, r) ← digits m s
      let n : Int := Digits.toNat ds
      .ok (some (if negative then -n else n), r)
    else .ok (none, b :: s)

/-- Reads the sign of a number, if there is one. -/
def numberSign : Text → Bool × Text
  | Byte.minus :: s => (true, s)
  | s => (false, s)

/-- Reads a number literal. -/
def literal (m : Mode) (s : Text) : Except Fault (Literal × Text) := do
  let (negative, s) := numberSign s
  let (whole, s) ← wholePart m s
  let (fraction, s) ← fractionPart m s
  let (exponent, s) ← exponentPart m s
  .ok (⟨negative, whole, fraction, exponent⟩, s)

/-- Reads a number; one that is too large is malformed where it is kept. -/
def number (m : Mode) (s : Text) : Except Fault (Json × Text) := do
  let (l, r) ← literal m s
  match m with
  | .skip => .ok (.null, r)
  | .keep =>
    match l.value? with
    | some n => .ok (.number n, r)
    | none => .error .malformed

/-! ## Strings -/

/-- The value of a hexadecimal digit. -/
def hexValue? (b : UInt8) : Option Nat :=
  if Byte.isDigit b then some (Byte.digitValue b)
  else if 'a'.toUInt8 ≤ b ∧ b ≤ 'f'.toUInt8 then some (b.toNat - 'a'.toNat + 10)
  else if 'A'.toUInt8 ≤ b ∧ b ≤ 'F'.toUInt8 then some (b.toNat - 'A'.toNat + 10)
  else none

/-- Reads four hexadecimal digits. -/
def hexUnit : Reader Nat
  | a :: b :: c :: d :: r =>
    match hexValue? a, hexValue? b, hexValue? c, hexValue? d with
    | some a, some b, some c, some d => .ok (4096 * a + 256 * b + 16 * c + d, r)
    | _, _, _, _ => .error .malformed
  | _ => .error .truncated

/-- The first half of a surrogate pair. -/
def isLeadingSurrogate (n : Nat) : Bool :=
  0xd800 ≤ n && n < 0xdc00

/-- The second half of a surrogate pair. -/
def isTrailingSurrogate (n : Nat) : Bool :=
  0xdc00 ≤ n && n < 0xe000

/-- The UTF-8 bytes of a code point. -/
def codePoint (n : Nat) : Text :=
  String.utf8EncodeChar (Char.ofNat n)

/-- The code point of a surrogate pair. -/
def surrogatePair (leading trailing : Nat) : Nat :=
  0x10000 + 0x400 * (leading - 0xd800) + (trailing - 0xdc00)

/-- Reads the second escape of a surrogate pair. -/
def pairedEscape (leading : Nat) (s : Text) : Except Fault (Text × Text) := do
  let r ← expect [Byte.backslash, 'u'.toUInt8] s
  let (n, r) ← hexUnit r
  if isTrailingSurrogate n then .ok (codePoint (surrogatePair leading n), r)
  else .error .malformed

/-- Reads the digits of a `\u` escape, and the second escape of a surrogate pair. -/
def unicodeEscape (m : Mode) (s : Text) : Except Fault (Text × Text) := do
  let (n, r) ← hexUnit s
  if m = .skip then .ok ([], r)
  else if isTrailingSurrogate n then .error .malformed
  else if isLeadingSurrogate n then pairedEscape n r
  else .ok (codePoint n, r)

/-- The byte that a one-letter escape stands for. -/
def escaped? (b : UInt8) : Option UInt8 :=
  if b = Byte.quote ∨ b = Byte.backslash ∨ b = Byte.slash then some b
  else if b = 'b'.toUInt8 then some 0x08
  else if b = 'f'.toUInt8 then some 0x0c
  else if b = 'n'.toUInt8 then some Byte.lineFeed
  else if b = 'r'.toUInt8 then some Byte.carriageReturn
  else if b = 't'.toUInt8 then some Byte.tab
  else none

/-- Reads what follows a backslash. -/
def escape (m : Mode) : Reader Text
  | [] => .error .truncated
  | b :: s =>
    if b = 'u'.toUInt8 then unicodeEscape m s
    else match escaped? b with
      | some c => .ok ([c], s)
      | none => .error .malformed

theorem length_lt_of_hexUnit {s r : Text} {n : Nat} (h : hexUnit s = .ok (n, r)) :
    r.length < s.length := by
  unfold hexUnit at h
  split at h
  · split at h
    · cases h
      simp
      omega
    · cases h
  · cases h

theorem length_le_of_expect {w s r : Text} (h : expect w s = .ok r) :
    r.length ≤ s.length := by
  induction w generalizing s with
  | nil =>
    cases h
    exact Nat.le_refl _
  | cons w ws ih =>
    cases s with
    | nil => cases h
    | cons b s =>
      unfold expect at h
      split at h
      · have := ih h
        simp
        omega
      · cases h

theorem length_lt_of_pairedEscape {n : Nat} {s t r : Text}
    (h : pairedEscape n s = .ok (t, r)) : r.length < s.length := by
  unfold pairedEscape at h
  cases he : expect [Byte.backslash, 'u'.toUInt8] s with
  | error f => simp [he, bind, Except.bind] at h
  | ok r₁ =>
    have h₁ := length_le_of_expect he
    cases hu : hexUnit r₁ with
    | error f => simp [he, hu, bind, Except.bind] at h
    | ok p =>
      obtain ⟨n', r₂⟩ := p
      have h₂ := length_lt_of_hexUnit hu
      simp only [he, hu, bind, Except.bind] at h
      split at h
      · simp only [Except.ok.injEq, Prod.mk.injEq] at h
        obtain ⟨-, rfl⟩ := h
        omega
      · cases h

theorem length_lt_of_unicodeEscape {m : Mode} {s t r : Text}
    (h : unicodeEscape m s = .ok (t, r)) : r.length < s.length := by
  unfold unicodeEscape at h
  cases hu : hexUnit s with
  | error f => simp [hu, bind, Except.bind] at h
  | ok p =>
    obtain ⟨n, r₁⟩ := p
    have h₁ := length_lt_of_hexUnit hu
    simp only [hu, bind, Except.bind] at h
    split at h
    · cases h
      exact h₁
    · split at h
      · cases h
      · split at h
        · have := length_lt_of_pairedEscape h
          omega
        · cases h
          exact h₁

/-- An escape uses up at least one byte. -/
theorem length_lt_of_escape {m : Mode} {s t r : Text} (h : escape m s = .ok (t, r)) :
    r.length < s.length := by
  unfold escape at h
  split at h
  · cases h
  · split at h
    · have := length_lt_of_unicodeEscape h
      simp
      omega
    · split at h
      · cases h
        simp
      · cases h

/-- Reads the rest of a string behind its opening quote, as the bytes it stands for. -/
def stringBytes (m : Mode) (s : Text) : Except Fault (Text × Text) :=
  match s with
  | [] => .error .truncated
  | b :: s =>
    if b = Byte.quote then .ok ([], s)
    else if b = Byte.backslash then
      match _h : escape m s with
      | .error f => .error f
      | .ok (t, r) => do
        let (t', r) ← stringBytes m r
        .ok (t ++ t', r)
    else if b < Byte.space then .error .malformed
    else do
      let (t', r) ← stringBytes m s
      .ok (b :: t', r)
termination_by s.length
decreasing_by
  · have := length_lt_of_escape _h
    simp
    omega
  · simp

/-- Reads a string behind its opening quote; where it is kept, its bytes are valid UTF-8. -/
def stringRest (m : Mode) (s : Text) : Except Fault (String × Text) := do
  let (t, r) ← stringBytes m s
  match m with
  | .skip => .ok ("", r)
  | .keep =>
    match Text.toString? t with
    | some x => .ok (x, r)
    | none => .error .malformed

/-- Reads the name of an object member, which begins with a quote. -/
def key (m : Mode) : Reader String
  | [] => .error .truncated
  | b :: s => if b = Byte.quote then stringRest m s else .error .malformed

/-! ## Scalars -/

/-- Reads a value without parts: a literal word, a number or a string. -/
def scalar (m : Mode) : Reader Json
  | [] => .error .truncated
  | b :: s =>
    if b = Byte.quote then do
      let (x, r) ← stringRest m s
      .ok (.string x, r)
    else if b = 'n'.toUInt8 then do
      let r ← expect nullWord (b :: s)
      .ok (.null, r)
    else if b = 't'.toUInt8 then do
      let r ← expect trueWord (b :: s)
      .ok (.bool true, r)
    else if b = 'f'.toUInt8 then do
      let r ← expect falseWord (b :: s)
      .ok (.bool false, r)
    else if b = Byte.minus ∨ Byte.isDigit b then number m (b :: s)
    else .error .malformed

end Token

end OlmReceiver.Json
