import OlmReceiver.Json.Reader
import OlmReceiver.Proofs.Numerals
import OlmReceiver.Proofs.Utf8

/-!
# Written tokens are read back

A reader reads a written text back when it returns the value and leaves what stands behind the text.
Strings can be followed by anything. A number ends only where something follows that cannot continue
it, as a comma or a closing bracket.
-/

namespace OlmReceiver.Json

open Token

variable {α : Type}

/-- What stands behind a value: nothing, or what goes on with or ends the array or object around it. -/
def Ends (rest : Text) : Prop :=
  ∀ b r, rest = b :: r → b = Byte.comma ∨ b = Byte.closeBracket ∨ b = Byte.closeBrace

theorem ends_nil : Ends [] := by
  intro b r h
  cases h

theorem ends_cons {b : UInt8} (h : b = Byte.comma ∨ b = Byte.closeBracket ∨ b = Byte.closeBrace)
    (r : Text) : Ends (b :: r) := by
  intro b' r' heq
  cases heq
  exact h

/-- The reader reads the text as the value wherever the text ends. -/
def Reads (item : Reader α) (t : Text) (a : α) : Prop :=
  ∀ rest, Ends rest → item (t ++ rest) = .ok (a, rest)

/-- The reader makes this of the text wherever the text ends: it succeeds with what the text holds, or
fails without looking at what follows. -/
def Settles (item : Reader α) (t : Text) (o : Except Fault α) : Prop :=
  ∀ rest, Ends rest → item (t ++ rest) = o.map fun a => (a, rest)

theorem settles_ok_iff {item : Reader α} {t : Text} {a : α} :
    Settles item t (.ok a) ↔ Reads item t a := Iff.rfl

/-- A text settles in one way only. -/
theorem Settles.unique {item : Reader α} {t : Text} {o o' : Except Fault α} (h : Settles item t o)
    (h' : Settles item t o') : o = o' := by
  have heq := (h [] ends_nil).symm.trans (h' [] ends_nil)
  cases o <;> cases o' <;> cases heq <;> rfl

/-- What goes on behind a text that settles, without looking at what follows, settles too. -/
theorem Settles.andThen {β : Type} {item : Reader α} {t : Text} {o : Except Fault α}
    (h : Settles item t o) (go : α → Text → Except Fault (β × Text)) (out : α → Except Fault β)
    (hgo : ∀ a rest, go a rest = (out a).map fun b => (b, rest)) :
    Settles (fun s => (item s).bind fun p => go p.1 p.2) t (o.bind out) := by
  intro rest hrest
  simp only [h rest hrest]
  cases o with
  | error fault => rfl
  | ok a => exact hgo a rest

/-! ## Strings -/

/-- A string that begins with an escape goes on behind it. -/
theorem stringBytes_escape {m : Mode} {s t r : Text} (h : escape m s = .ok (t, r)) :
    stringBytes m (Byte.backslash :: s) = (stringBytes m r).map fun p => (t ++ p.1, p.2) := by
  rw [stringBytes]
  simp only [show Byte.backslash ≠ Byte.quote by decide, if_false, if_true]
  split
  · rename_i heq
    rw [h] at heq
    cases heq
  · rename_i heq
    rw [h] at heq
    cases heq
    cases stringBytes m r <;> rfl

/-- Behind the escape of a byte, the rest of the string is read. -/
theorem stringBytes_backslash {s r : Text} {b : UInt8} (h : escape .keep s = .ok ([b], r)) :
    stringBytes .keep (Byte.backslash :: s) =
      (stringBytes .keep r).map fun p => (b :: p.1, p.2) :=
  stringBytes_escape h

/-- A byte that is not escaped stands for itself. -/
theorem stringBytes_plain {m : Mode} {b : UInt8} (hquote : b ≠ Byte.quote)
    (hbackslash : b ≠ Byte.backslash) (hspace : ¬ b < Byte.space) (s : Text) :
    stringBytes m (b :: s) = (stringBytes m s).map fun p => (b :: p.1, p.2) := by
  rw [stringBytes]
  simp only [hquote, hbackslash, hspace, if_false]
  cases stringBytes m s <;> rfl

/-- Hexadecimal digits are read back. -/
theorem hexValue?_hexDigit : ∀ n < 16, hexValue? (hexDigit n) = some n := by
  decide +kernel

/-- A control character is the UTF-8 of its own code point. -/
theorem codePoint_control (b : UInt8) : b < Byte.space → codePoint b.toNat = [b] := by
  revert b
  refine forall_byte ?_
  decide +kernel

/-- The hexadecimal escape of a control character is read back. -/
theorem escape_control {b : UInt8} (h : b < Byte.space) (s : Text) :
    escape .keep ('u'.toUInt8 :: Byte.zero :: Byte.zero :: hexDigit (b.toNat / 16) ::
      hexDigit (b.toNat % 16) :: s) = .ok ([b], s) := by
  have hb : b.toNat < 32 := UInt8.lt_iff_toNat_lt.mp h
  have hunit : hexUnit (Byte.zero :: Byte.zero :: hexDigit (b.toNat / 16) ::
      hexDigit (b.toNat % 16) :: s) = .ok (b.toNat, s) := by
    have hzero : hexValue? Byte.zero = some 0 := by decide
    simp only [hexUnit, hzero, hexValue?_hexDigit _ (by omega : b.toNat / 16 < 16),
      hexValue?_hexDigit _ (by omega : b.toNat % 16 < 16)]
    congr 2
    omega
  have hleading : isLeadingSurrogate b.toNat = false := by
    simp [isLeadingSurrogate]
    omega
  have htrailing : isTrailingSurrogate b.toNat = false := by
    simp [isTrailingSurrogate]
    omega
  rw [escape, if_pos rfl]
  simp [unicodeEscape, hunit, hleading, htrailing, codePoint_control b h, bind, Except.bind]

/-- Every byte of a string is read back from how it is written. -/
theorem stringBytes_escapedByte (b : UInt8) (s : Text) :
    stringBytes .keep (escapedByte b ++ s) =
      (stringBytes .keep s).map fun p => (b :: p.1, p.2) := by
  by_cases hletter : b ∈ [Byte.quote, Byte.backslash, 0x08, Byte.tab, Byte.lineFeed, 0x0c,
    Byte.carriageReturn]
  · simp only [List.mem_cons, List.not_mem_nil, or_false] at hletter
    obtain rfl | rfl | rfl | rfl | rfl | rfl | rfl := hletter
    all_goals exact stringBytes_backslash rfl
  · simp only [List.mem_cons, List.not_mem_nil, or_false, not_or] at hletter
    obtain ⟨hquote, hbackslash, hbackspace, htab, hlineFeed, hformFeed, hreturn⟩ := hletter
    simp only [escapedByte, hquote, hbackslash, hbackspace, htab, hlineFeed, hformFeed, hreturn,
      or_self, if_false]
    split
    · rename_i hcontrol
      exact stringBytes_backslash (escape_control hcontrol s)
    · rename_i hspace
      exact stringBytes_plain hquote hbackslash hspace s

/-- The bytes of a string are read back from how they are written. -/
theorem stringBytes_flatMap (t r : Text) :
    stringBytes .keep (t.flatMap escapedByte ++ Byte.quote :: r) = .ok (t, r) := by
  induction t with
  | nil =>
    rw [List.flatMap_nil, List.nil_append, stringBytes]
    rfl
  | cons b t ih =>
    rw [List.flatMap_cons, List.append_assoc, stringBytes_escapedByte, ih]
    rfl

/-- The rest of a string behind its opening quote is read back. -/
theorem stringRest_quoted (x : String) (r : Text) :
    stringRest .keep ((Text.ofString x).flatMap escapedByte ++ Byte.quote :: r) = .ok (x, r) := by
  simp only [stringRest, stringBytes_flatMap, bind, Except.bind, Text.toString?_ofString]

/-- A text that begins with a written string. -/
theorem quoted_append (x : String) (r : Text) :
    quoted x ++ r =
      Byte.quote :: ((Text.ofString x).flatMap escapedByte ++ Byte.quote :: r) := by
  simp [quoted]

/-- A member name is read back. -/
theorem key_quoted (x : String) (r : Text) : key .keep (quoted x ++ r) = .ok (x, r) := by
  rw [quoted_append, key, if_pos rfl, stringRest_quoted]

/-- A string is read back, whatever follows it. -/
theorem scalar_quoted (x : String) (r : Text) :
    scalar .keep (quoted x ++ r) = .ok (.string x, r) := by
  rw [quoted_append, scalar, if_pos rfl, stringRest_quoted]
  rfl

/-! ## Numbers -/

/-- What ends a value begins with nothing that could belong to a number. -/
theorem Ends.noNumber {rest : Text} (h : Ends rest) : NoNumber rest := by
  intro b hb
  cases rest with
  | nil => cases hb
  | cons c r =>
    cases hb
    obtain rfl | rfl | rfl := h b r rfl
    all_goals decide

/-- The digits of an integer in range denote it. -/
theorem value?_integer (i : Int)
    (hi : -9223372036854775808 ≤ i ∧ i < 18446744073709551616) :
    Literal.value? ⟨decide (i < 0), Digits.ofNat i.natAbs, [], none⟩ =
      some (.integer i hi) := by
  by_cases hneg : i < 0
  · have hrange : 0 < i.natAbs ∧ i.natAbs ≤ 9223372036854775808 := by omega
    have habs : -(i.natAbs : Int) = i := by omega
    simp only [Literal.value?, Literal.integer?, hneg, Digits.toNat_ofNat, hrange, habs, and_self,
      decide_true, if_true, dite_true]
  · have hrange : i.natAbs < 18446744073709551616 := by omega
    have habs : (i.natAbs : Int) = i := by omega
    simp only [Literal.value?, Literal.integer?, hneg, Digits.toNat_ofNat, hrange, habs, and_self,
      decide_false, if_true, dite_true, Bool.false_eq_true, if_false]

/-- An integer is read back. -/
theorem reads_number {n : Number} (hn : n.toInt?.isSome) :
    Reads (Token.number .keep) n.toText (.number n) := by
  intro rest hrest
  cases n with
  | double x => simp [Number.toInt?] at hn
  | integer i hi =>
    have hvalue : (Numeral.ofInt i).literal.value? = some (.integer i hi) := value?_integer i hi
    rw [Number.toText_integer, Token.number, literal_numeral _ hrest.noNumber]
    simp only [bind, Except.bind, hvalue]

/-! ## What a text begins with -/

/-- Whether a byte may begin a value; blanks and closing brackets do not. -/
def opensValue (b : UInt8) : Bool :=
  !Byte.isBlank b && b != Byte.closeBracket && b != Byte.closeBrace

/-- Whether a byte may begin a value without parts. -/
def opensScalar (b : UInt8) : Bool :=
  opensValue b && b != Byte.openBracket && b != Byte.openBrace

/-- Whether a byte begins a number. -/
def opensNumber (b : UInt8) : Bool :=
  b == Byte.minus || Byte.isDigit b

/-- The text begins with a byte of some kind. -/
def BeginsWith (p : UInt8 → Bool) (t : Text) : Prop :=
  ∃ b r, t = b :: r ∧ p b = true

theorem BeginsWith.mono {p q : UInt8 → Bool} {t : Text} (h : BeginsWith p t)
    (hpq : ∀ b, p b = true → q b = true) : BeginsWith q t := by
  obtain ⟨b, r, rfl, hb⟩ := h
  exact ⟨b, r, rfl, hpq b hb⟩

theorem opensValue_of_opensScalar (b : UInt8) (h : opensScalar b = true) :
    opensValue b = true := by
  simp only [opensScalar, Bool.and_eq_true] at h
  exact h.1.1

theorem opensScalar_of_opensNumber (b : UInt8) : opensNumber b = true → opensScalar b = true := by
  revert b
  refine forall_byte ?_
  decide +kernel

/-- A string begins with its quote. -/
theorem beginsWith_quoted {p : UInt8 → Bool} (h : p Byte.quote = true) (x : String) :
    BeginsWith p (quoted x) :=
  ⟨Byte.quote, _, rfl, h⟩

/-- A number begins with its sign or its first digit. -/
theorem beginsWith_number (n : Number) : BeginsWith opensNumber n.toText := by
  obtain ⟨w, hw, -⟩ := n.exists_numeral
  obtain ⟨d, ds, hwhole⟩ := List.exists_cons_of_ne_nil w.whole_ne_nil
  have hd : Byte.isDigit d = true := w.whole_digits d (by simp [hwhole])
  rw [hw, Numeral.toText, hwhole]
  cases w.negative with
  | true => exact ⟨Byte.minus, _, rfl, by decide⟩
  | false => exact ⟨d, _, rfl, by simp [opensNumber, hd]⟩

/-- In front of a value there are no blanks to drop. -/
theorem dropBlanks_append {t : Text} (h : BeginsWith opensValue t) (rest : Text) :
    Text.dropBlanks (t ++ rest) = t ++ rest := by
  obtain ⟨b, r, rfl, hb⟩ := h
  simp only [opensValue, Bool.and_eq_true, Bool.not_eq_true'] at hb
  simp [Text.dropBlanks, hb.1.1]

/-- A text that begins like a scalar is read as one. -/
theorem dispatch_scalar {scalar array object : Reader α} {t : Text}
    (h : BeginsWith opensScalar t) (rest : Text) :
    dispatch scalar array object (t ++ rest) = scalar (t ++ rest) := by
  unfold dispatch
  rw [dropBlanks_append (h.mono opensValue_of_opensScalar)]
  obtain ⟨b, r, rfl, hb⟩ := h
  simp only [opensScalar, Bool.and_eq_true, bne_iff_ne] at hb
  simp [hb.1.2, hb.2]

/-- An opening bracket is read as that of an array. -/
theorem dispatch_array (scalar array object : Reader α) (r : Text) :
    dispatch scalar array object (Byte.openBracket :: r) = array r := rfl

/-- An opening brace is read as that of an object. -/
theorem dispatch_object (scalar array object : Reader α) (r : Text) :
    dispatch scalar array object (Byte.openBrace :: r) = object r := rfl

/-! ## Scalars -/

/-- Values without parts. -/
def IsScalar : Json → Prop
  | .array _ | .object _ => False
  | _ => True

/-- A number is read as one among the scalars. -/
theorem scalar_of_opensNumber {m : Mode} {t : Text} (h : BeginsWith opensNumber t) (rest : Text) :
    scalar m (t ++ rest) = Token.number m (t ++ rest) := by
  obtain ⟨b, r, rfl, hb⟩ := h
  have hnot : ∀ b : UInt8, opensNumber b = true → b ≠ Byte.quote ∧ b ≠ 'n'.toUInt8 ∧
      b ≠ 't'.toUInt8 ∧ b ≠ 'f'.toUInt8 := by
    refine forall_byte ?_
    decide +kernel
  obtain ⟨hquote, hn, ht, hf⟩ := hnot b hb
  simp only [opensNumber, Bool.or_eq_true, beq_iff_eq] at hb
  simp [scalar, hquote, hn, ht, hf, hb]

/-- A scalar other than a double is read back. -/
theorem reads_scalar {v : Json} (hv : v.IsScalar)
    (hn : ∀ n, v = .number n → n.toInt?.isSome) : Reads (scalar .keep) v.toText v := by
  intro rest hrest
  cases v with
  | null => rfl
  | bool b => cases b <;> rfl
  | number n =>
    rw [toText, scalar_of_opensNumber (beginsWith_number n)]
    exact reads_number (hn n rfl) rest hrest
  | string x => exact scalar_quoted x rest
  | array items => exact hv.elim
  | object ms => exact hv.elim

/-- A scalar begins like one. -/
theorem beginsWith_scalar {v : Json} (hv : v.IsScalar) : BeginsWith opensScalar v.toText := by
  cases v with
  | null => exact ⟨_, _, rfl, by decide⟩
  | bool b => cases b <;> exact ⟨_, _, rfl, by decide⟩
  | number n => exact (beginsWith_number n).mono opensScalar_of_opensNumber
  | string x => exact beginsWith_quoted (by decide) x
  | array items => exact hv.elim
  | object ms => exact hv.elim

end OlmReceiver.Json
