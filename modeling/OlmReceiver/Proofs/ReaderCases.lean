import OlmReceiver.Proofs.WireText

/-!
# What readers do on success

Said once for the dispatch on the first byte, for one round of each loop, and for the readers of
shapes: which bytes a reader has gone over when it succeeds, and what it has read. Laws of readers
go through these cases.

The reader of a record is taken apart into its first field and the fields behind it, so that a law
of all records is proved one field at a time.
-/

namespace OlmReceiver

namespace Json

open Token

variable {α σ : Type}

/-! ## Values -/

/-- A value is read as a scalar, an array or an object by its first byte. -/
theorem dispatch_cases {scalar array object : Reader α} {s : Text} {p : α × Text}
    (h : dispatch scalar array object s = .ok p) :
    (∃ b t, Text.dropBlanks s = b :: t ∧ b ≠ Byte.openBracket ∧ b ≠ Byte.openBrace ∧
        scalar (b :: t) = .ok p) ∨
      (∃ t, Text.dropBlanks s = Byte.openBracket :: t ∧ array t = .ok p) ∨
      ∃ t, Text.dropBlanks s = Byte.openBrace :: t ∧ object t = .ok p := by
  unfold dispatch at h
  split at h
  · cases h
  · rename_i b t hblanks
    split at h
    · rename_i hbracket
      exact .inr (.inl ⟨t, by rw [hblanks, hbracket], h⟩)
    · rename_i hbracket
      split at h
      · rename_i hbrace
        exact .inr (.inr ⟨t, by rw [hblanks, hbrace], h⟩)
      · rename_i hbrace
        exact .inl ⟨b, t, hblanks, hbracket, hbrace, h⟩

/-- A text with a scalar behind its blanks is read as one. -/
theorem dispatch_of_scalar {scalar array object : Reader α} {s t : Text} {b : UInt8}
    (h : Text.dropBlanks s = b :: t) (hbracket : b ≠ Byte.openBracket) (hbrace : b ≠ Byte.openBrace) :
    dispatch scalar array object s = scalar (b :: t) := by
  simp [dispatch, h, hbracket, hbrace]

/-- A text with an array behind its blanks is read as one. -/
theorem dispatch_of_array {scalar array object : Reader α} {s t : Text}
    (h : Text.dropBlanks s = Byte.openBracket :: t) : dispatch scalar array object s = array t := by
  simp [dispatch, h]

/-- A text with an object behind its blanks is read as one. -/
theorem dispatch_of_object {scalar array object : Reader α} {s t : Text}
    (h : Text.dropBlanks s = Byte.openBrace :: t) : dispatch scalar array object s = object t := by
  rw [dispatch, h]
  rfl

/-- Behind the last element only the closing bracket is read. -/
theorem elements_of_done {item : Reader α} {first : Bool} {s s' : Text}
    (h : another Byte.closeBracket first s = .ok (false, s')) (fuel : Nat) :
    elements item (fuel + 1) first s = .ok ([], s'.tail) := by
  rw [elements, h]
  rfl

/-- An element is read, and then those behind it. -/
theorem elements_of_more {item : Reader α} {first : Bool} {s s' : Text}
    (h : another Byte.closeBracket first s = .ok (true, s')) (fuel : Nat) :
    elements item (fuel + 1) first s =
      (item s').bind fun p => (elements item fuel false p.2).bind fun q => .ok (p.1 :: q.1, q.2) := by
  rw [elements, h]
  rfl

/-- Behind the last member only the closing brace is read. -/
theorem members_of_done {m : Mode} {step : σ → String → Reader σ} {first : Bool} {acc : σ}
    {s s' : Text} (h : another Byte.closeBrace first s = .ok (false, s')) (fuel : Nat) :
    members m step (fuel + 1) first acc s = .ok (acc, s'.tail) := by
  rw [members, h]
  rfl

/-- A member is read, and then those behind it. -/
theorem members_of_more {m : Mode} {step : σ → String → Reader σ} {first : Bool} {acc : σ}
    {s s' : Text} (h : another Byte.closeBrace first s = .ok (true, s')) (fuel : Nat) :
    members m step (fuel + 1) first acc s =
      (key m s').bind fun p => (step acc p.1 p.2).bind fun q => members m step fuel false q.1 q.2 := by
  rw [members, h]
  rfl

/-- A member is read behind its colon. -/
theorem addMember_eq_ok_iff {item : Reader Json} {ms ms' : Members} {name : String} {s r : Text} :
    addMember item ms name s = .ok (ms', r) ↔
      ∃ s' v, colon s = .ok s' ∧ item s' = .ok (v, r) ∧ ms' = Dictionary.insert name v ms := by
  constructor
  · intro h
    obtain ⟨⟨v, r'⟩, hv, h⟩ := bind_eq_ok_iff.mp h
    obtain ⟨s', hcolon, hv⟩ := bind_eq_ok_iff.mp hv
    cases h
    exact ⟨s', v, hcolon, hv, rfl⟩
  · rintro ⟨s', v, hcolon, hv, rfl⟩
    exact bind_eq_ok_iff.mpr ⟨_, bind_eq_ok_iff.mpr ⟨_, hcolon, hv⟩, rfl⟩

/-- A value is a scalar, or its elements or members are read one level further in. -/
theorem value_cases {m : Mode} {depth : Nat} {s r : Text} {v : Json}
    (h : value m depth s = .ok (v, r)) :
    (∃ b t, Text.dropBlanks s = b :: t ∧ b ≠ Byte.openBracket ∧ b ≠ Byte.openBrace ∧
        scalar m (b :: t) = .ok (v, r)) ∨
      (∃ t depth' items, Text.dropBlanks s = Byte.openBracket :: t ∧ depth = depth' + 1 ∧
        elements (value m depth') (t.length + 1) true t = .ok (items, r) ∧ v = .array items) ∨
      ∃ t depth' ms, Text.dropBlanks s = Byte.openBrace :: t ∧ depth = depth' + 1 ∧
        members m (addMember (value m depth')) (t.length + 1) true [] t = .ok (ms, r) ∧
          v = .object ms := by
  cases depth with
  | zero =>
    rcases dispatch_cases h with hscalar | ⟨t, -, h⟩ | ⟨t, -, h⟩
    · exact .inl hscalar
    · cases h
    · cases h
  | succ depth =>
    rcases dispatch_cases h with hscalar | ⟨t, hblanks, h⟩ | ⟨t, hblanks, h⟩
    · exact .inl hscalar
    · obtain ⟨⟨items, r'⟩, hitems, h⟩ := bind_eq_ok_iff.mp h
      cases h
      exact .inr (.inl ⟨t, depth, items, hblanks, rfl, hitems, rfl⟩)
    · obtain ⟨⟨ms, r'⟩, hms, h⟩ := bind_eq_ok_iff.mp h
      cases h
      exact .inr (.inr ⟨t, depth, ms, hblanks, rfl, hms, rfl⟩)

/-- A text with a scalar behind its blanks is read as one at every depth. -/
theorem value_of_scalar {m : Mode} {s t : Text} {b : UInt8} (h : Text.dropBlanks s = b :: t)
    (hbracket : b ≠ Byte.openBracket) (hbrace : b ≠ Byte.openBrace) (depth : Nat) :
    value m depth s = scalar m (b :: t) := by
  cases depth with
  | zero => exact dispatch_of_scalar h hbracket hbrace
  | succ depth => exact dispatch_of_scalar h hbracket hbrace

/-- A closing bracket is not passed by looking for one more item. -/
theorem another_of_done {close : UInt8} (hclose : Byte.isBlank close = false) {first : Bool}
    {s s' : Text} (h : another close first s = .ok (false, s')) :
    another close first s' = .ok (false, s') := by
  have hs' : ∃ t, s' = close :: t := by
    unfold another at h
    split at h
    · cases h
    · split at h
      · rename_i b t hblanks hb
        cases h
        exact ⟨t, by rw [hb]⟩
      · split at h
        · cases h
        · split at h
          · split at h
            · cases h
            · split at h
              · cases h
              · cases h
          · cases h
  obtain ⟨t, rfl⟩ := hs'
  have hblanks : Text.dropBlanks (close :: t) = close :: t := by
    rw [Text.dropBlanks, List.dropWhile_cons, hclose]
    rfl
  rw [another, hblanks]
  simp only [if_true]

/-- An array is read off its elements. -/
theorem value_of_array {m : Mode} {depth : Nat} {s t r : Text} {v : Json}
    (hblanks : Text.dropBlanks s = Byte.openBracket :: t)
    (h : value m (depth + 1) s = .ok (v, r)) :
    ∃ items, elements (value m depth) (t.length + 1) true t = .ok (items, r) ∧ v = .array items := by
  rw [value, dispatch_of_array hblanks] at h
  obtain ⟨⟨items, r'⟩, hitems, h⟩ := bind_eq_ok_iff.mp h
  cases h
  exact ⟨items, hitems, rfl⟩

/-- An object is read off its members. -/
theorem value_of_object {m : Mode} {depth : Nat} {s t r : Text} {v : Json}
    (hblanks : Text.dropBlanks s = Byte.openBrace :: t)
    (h : value m (depth + 1) s = .ok (v, r)) :
    ∃ ms, members m (addMember (value m depth)) (t.length + 1) true [] t = .ok (ms, r) ∧
      v = .object ms := by
  rw [value, dispatch_of_object hblanks] at h
  obtain ⟨⟨ms, r'⟩, hms, h⟩ := bind_eq_ok_iff.mp h
  cases h
  exact ⟨ms, hms, rfl⟩

end Json

namespace Wire

open Json (Reader Members)

variable {α : Type} {depth : Nat} {s r : Text}

/-! ## Shapes -/

theorem refuseScalar_ne_ok {p : α × Text} : refuseScalar s ≠ .ok p := by
  intro h
  obtain ⟨_, -, h⟩ := bind_eq_ok_iff.mp h
  cases h

/-- A scalar of a wanted shape is read as a scalar first. -/
theorem scalarOf_cases {pick? : Json → Option α} {a : α} (h : scalarOf pick? s = .ok (a, r)) :
    ∃ b t v, Text.dropBlanks s = b :: t ∧ b ≠ Byte.openBracket ∧ b ≠ Byte.openBrace ∧
      Json.Token.scalar .keep (b :: t) = .ok (v, r) ∧ pick? v = some a := by
  rcases Json.dispatch_cases h with ⟨b, t, hblanks, hbracket, hbrace, h⟩ | ⟨t, -, h⟩ | ⟨t, -, h⟩
  · obtain ⟨⟨v, r'⟩, hv, h⟩ := bind_eq_ok_iff.mp h
    dsimp only at h
    split at h
    · rename_i hpick
      cases h
      exact ⟨b, t, v, hblanks, hbracket, hbrace, hv, hpick⟩
    · cases h
  · cases h
  · cases h

/-- An array of any length is read off its elements, one level further in. -/
theorem list_cases {item : (depth : Nat) → Reader α} {as : List α}
    (h : list depth item s = .ok (as, r)) :
    ∃ t depth', Text.dropBlanks s = Byte.openBracket :: t ∧ depth = depth' + 1 ∧
      Json.elements (item depth') (t.length + 1) true t = .ok (as, r) := by
  rcases Json.dispatch_cases h with ⟨b, t, -, -, -, h⟩ | ⟨t, hblanks, h⟩ | ⟨t, -, h⟩
  · exact absurd h refuseScalar_ne_ok
  · cases depth with
    | zero => cases h
    | succ depth => exact ⟨t, depth, hblanks, rfl, h⟩
  · cases h

/-- A field is filled once, by the value behind its colon. -/
theorem fillSlot_cases {slot slot' : Option α} {item : Reader α}
    (h : fillSlot slot item s = .ok (slot', r)) :
    slot = none ∧ ∃ t a, Json.colon s = .ok t ∧ item t = .ok (a, r) ∧ slot' = some a := by
  unfold fillSlot at h
  split at h
  · cases h
  · obtain ⟨⟨a, r'⟩, ha, h⟩ := bind_eq_ok_iff.mp h
    obtain ⟨t, hcolon, ha⟩ := bind_eq_ok_iff.mp ha
    cases h
    exact ⟨rfl, t, a, hcolon, ha, rfl⟩

/-- A record is read off the elements of an array or the members of an object. -/
theorem Shape.read_record_cases {fields : Fields} {x : fields.Value}
    (h : (Shape.record fields).read depth s = .ok (x, r)) :
    ∃ t depth', depth = depth' + 1 ∧
      ((Text.dropBlanks s = Byte.openBracket :: t ∧ fields.readItems depth' true t = .ok (x, r)) ∨
        Text.dropBlanks s = Byte.openBrace :: t ∧ ∃ slots,
          Json.members .keep (fields.step depth') (t.length + 1) true fields.vacant t =
            .ok (slots, r) ∧ fields.filled? slots = some x) := by
  rcases Json.dispatch_cases h with ⟨b, t, -, -, -, h⟩ | ⟨t, hblanks, h⟩ | ⟨t, hblanks, h⟩
  · exact absurd h refuseScalar_ne_ok
  · cases depth with
    | zero => cases h
    | succ depth => exact ⟨t, depth, rfl, .inl ⟨hblanks, h⟩⟩
  · cases depth with
    | zero => cases h
    | succ depth =>
      obtain ⟨⟨slots, r'⟩, hslots, h⟩ := bind_eq_ok_iff.mp h
      dsimp only at h
      split at h
      · rename_i hfilled
        cases h
        exact ⟨t, depth, rfl, .inr ⟨hblanks, slots, hslots, hfilled⟩⟩
      · cases h

/-- An open record is read off the members of an object. -/
theorem Shape.read_openRecord_cases {fields : Fields} {x : fields.Value} {extra : Members}
    (h : (Shape.openRecord fields).read depth s = .ok ((x, extra), r)) :
    ∃ t depth', depth = depth' + 1 ∧ Text.dropBlanks s = Byte.openBrace :: t ∧ ∃ slots,
      Json.members .keep (fields.openStep depth') (t.length + 1) true (fields.vacant, []) t =
        .ok ((slots, extra), r) ∧ fields.filled? slots = some x := by
  rcases Json.dispatch_cases h with ⟨b, t, -, -, -, h⟩ | ⟨t, -, h⟩ | ⟨t, hblanks, h⟩
  · exact absurd h refuseScalar_ne_ok
  · cases h
  · cases depth with
    | zero => cases h
    | succ depth =>
      obtain ⟨⟨⟨slots, extra'⟩, r'⟩, hslots, h⟩ := bind_eq_ok_iff.mp h
      dsimp only at h
      split at h
      · rename_i hfilled
        cases h
        exact ⟨t, depth, rfl, hblanks, slots, hslots, hfilled⟩
      · cases h

/-! ## The fields of a record -/

/-- Where an array of fields is closed, no further item is announced. -/
theorem another_of_closeItems (h : closeItems s = .ok r) (first : Bool) :
    Json.another Byte.closeBracket first s = .ok (false, Byte.closeBracket :: r) := by
  unfold closeItems at h
  split at h
  · cases h
  · rename_i b t hblanks
    split at h
    · rename_i hclose
      cases h
      rw [Json.another, hblanks, hclose]
      simp only [if_true]
    · cases h

/-- Reads the first field of a record off the first element, and those behind it off the others; the
first field may have a value to stand for it when no element is left. -/
def pairItems {β : Type} (absent : Option α) (item : Reader α) (rest : (first : Bool) → Reader β)
    (first : Bool) : Reader (α × β) := fun s => do
  let (more, s) ← Json.another Byte.closeBracket first s
  if more then
    let (a, s) ← item s
    let (b, s) ← rest false s
    .ok ((a, b), s)
  else match absent with
    | none => .error .shape
    | some a => do
      let (b, s) ← rest first s
      .ok ((a, b), s)

/-- Takes the first field of a record from the first element, and those behind it from the others. -/
def pairItems? {β : Type} (absent : Option α) (item? : Json → Option α)
    (rest? : List Json → Option β) : List Json → Option (α × β)
  | [] => do some (← absent, ← rest? [])
  | v :: vs => do some (← item? v, ← rest? vs)

/-- Reads a member into the slot of the first field of a record, or into those of the fields behind
it. -/
def pairMember {σ : Type} (f : FieldName) (item : Reader α) (rest : σ → Reader σ) (name : String)
    (slots : Option α × σ) : Reader (Option α × σ) := fun s =>
  if f.accepts name then do
    let (slot, s) ← fillSlot slots.1 item s
    .ok ((slot, slots.2), s)
  else do
    let (rest, s) ← rest slots.2 s
    .ok ((slots.1, rest), s)

end Wire

end OlmReceiver
