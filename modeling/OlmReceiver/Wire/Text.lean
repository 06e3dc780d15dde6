import OlmReceiver.Json.Printer
import OlmReceiver.Json.Reader
import OlmReceiver.Wire.Shape

/-!
# Reading and writing JSON texts

`Shape.read` reads a text as a shape says, in one pass and up to the first fault: a member of the
wrong shape, or a field for the second time, is refused where it stands, and a missing field at the
closing bracket. Members that are no fields are passed over. `Shape.toText` writes the fields of a
record in their own order instead of the order of their names.
-/

namespace OlmReceiver.Wire

open Json (Reader Fault)

variable {α : Type}

/-! ## Reading -/

/-- Refuses a value of the wrong shape. -/
def refuse : Reader α := fun _ => .error .shape

/-- Refuses a scalar of the wrong shape behind its end, as its own faults come first. -/
def refuseScalar : Reader α := fun s => do
  let _ ← Json.Token.scalar .keep s
  .error .shape

/-- Reads a scalar of the wanted shape. -/
def scalarOf (pick? : Json → Option α) : Reader α :=
  Json.dispatch
    (fun s => do
      let (v, s) ← Json.Token.scalar .keep s
      match pick? v with
      | some a => .ok (a, s)
      | none => .error .shape)
    refuse refuse

/-- Goes one array or object deeper, if that is allowed. -/
def enter (depth : Nat) (inside : (depth : Nat) → Reader α) : Reader α :=
  match depth with
  | 0 => fun _ => .error .malformed
  | depth + 1 => inside depth

/-- Reads null as nothing. -/
def nullable (item : Reader α) : Reader (Option α) := fun s =>
  if (Text.dropBlanks s).head? = some 'n'.toUInt8 then do
    let s ← Json.Token.expect Json.nullWord (Text.dropBlanks s)
    .ok (none, s)
  else do
    let (a, s) ← item s
    .ok (some a, s)

/-- Reads an array of any length. -/
def list (depth : Nat) (item : (depth : Nat) → Reader α) : Reader (List α) :=
  Json.dispatch refuseScalar
    (enter depth fun depth s => Json.elements (item depth) (s.length + 1) true s)
    refuse

/-- Reads the closing bracket of an array that lists the fields of a record. -/
def closeItems (s : Text) : Except Fault Text :=
  match Text.dropBlanks s with
  | [] => .error .truncated
  | b :: r => if b = Byte.closeBracket then .ok r else .error .malformed

/-- What has been read of the fields of a record so far. -/
@[reducible] def Fields.Slots : Fields → Type
  | .done => Unit
  | .required _ s rest => Option s.Value × rest.Slots
  | .optional _ s rest => Option (Option s.Value) × rest.Slots
  | .repeated _ s rest => Option (List s.Value) × rest.Slots

/-- Nothing has been read yet. -/
def Fields.vacant : (fs : Fields) → fs.Slots
  | .done => ()
  | .required _ _ rest => (none, rest.vacant)
  | .optional _ _ rest => (none, rest.vacant)
  | .repeated _ _ rest => (none, rest.vacant)

/-- The fields of a record, if none that is required is missing. -/
def Fields.filled? : (fs : Fields) → fs.Slots → Option fs.Value
  | .done, () => some ()
  | .required _ _ rest, (slot, slots) => do some (← slot, ← rest.filled? slots)
  | .optional _ _ rest, (slot, slots) => do some (slot.getD none, ← rest.filled? slots)
  | .repeated _ _ rest, (slot, slots) => do some (slot.getD [], ← rest.filled? slots)

/-- Reads the value of a field behind its name; a field occurs only once. -/
def fillSlot (slot : Option α) (item : Reader α) : Reader (Option α) := fun s =>
  match slot with
  | some _ => .error .shape
  | none => do
    let (a, s) ← Json.memberValue item s
    .ok (some a, s)

mutual

/-- Reads a value as the shape says, at most `depth` arrays and objects deep. -/
def Shape.read : (s : Shape) → (depth : Nat) → Reader s.Value
  | .string, _ => scalarOf Json.string?
  | .number, _ => scalarOf Json.number?
  | .any, depth => Json.value .keep depth
  | .objectOrString, depth => fun s => do
    let (v, s) ← Json.value .keep depth s
    match v with
    | .object ms => .ok (.inl ms, s)
    | .string x => .ok (.inr x, s)
    | _ => .error .shape
  | .list item, depth => list depth (fun depth s => item.read depth s)
  | .record fields, depth =>
    Json.dispatch refuseScalar
      (enter depth fun depth s => fields.readItems depth true s)
      (enter depth fun depth s => do
        let step (slots : fields.Slots) (name : String) (s : Text) :=
          if fields.accept name then fields.readMember depth name slots s
          else do
            let s ← Json.colon s
            let s ← Json.skip s
            .ok (slots, s)
        let (slots, s) ← Json.members .keep step (s.length + 1) true fields.vacant s
        match fields.filled? slots with
        | some v => .ok (v, s)
        | none => .error .shape)
  | .openRecord fields, depth =>
    Json.dispatch refuseScalar refuse
      (enter depth fun depth s => do
        let step (acc : fields.Slots × Json.Members) (name : String) (s : Text) :=
          if fields.accept name then do
            let (slots, s) ← fields.readMember depth name acc.1 s
            .ok ((slots, acc.2), s)
          else do
            let (extra, s) ← Json.addMember (Json.value .keep depth) acc.2 name s
            .ok ((acc.1, extra), s)
        let (acc, s) ← Json.members .keep step (s.length + 1) true (fields.vacant, []) s
        match fields.filled? acc.1 with
        | some v => .ok ((v, acc.2), s)
        | none => .error .shape)

/-- Reads the value of the field that a name belongs to. -/
def Fields.readMember :
    (fs : Fields) → (depth : Nat) → (name : String) → fs.Slots → Reader fs.Slots
  | .done, _, _, _, _ => .error .shape
  | .required f shape rest, depth, name, (slot, slots), s =>
    if f.accepts name then do
      let (slot, s) ← fillSlot slot (fun s => shape.read depth s) s
      .ok ((slot, slots), s)
    else do
      let (slots, s) ← rest.readMember depth name slots s
      .ok ((slot, slots), s)
  | .optional f shape rest, depth, name, (slot, slots), s =>
    if f.accepts name then do
      let (slot, s) ← fillSlot slot (nullable fun s => shape.read depth s) s
      .ok ((slot, slots), s)
    else do
      let (slots, s) ← rest.readMember depth name slots s
      .ok ((slot, slots), s)
  | .repeated f item rest, depth, name, (slot, slots), s =>
    if f.accepts name then do
      let (slot, s) ← fillSlot slot (list depth fun depth s => item.read depth s) s
      .ok ((slot, slots), s)
    else do
      let (slots, s) ← rest.readMember depth name slots s
      .ok ((slot, slots), s)

/-- Reads the fields of a record from an array that lists them, and its closing bracket. -/
def Fields.readItems : (fs : Fields) → (depth : Nat) → (first : Bool) → Reader fs.Value
  | .done, _, _, s => do
    let s ← closeItems s
    .ok ((), s)
  | .required _ shape rest, depth, first, s => do
    let (more, s) ← Json.another Byte.closeBracket first s
    if more then
      let (v, s) ← shape.read depth s
      let (vs, s) ← rest.readItems depth false s
      .ok ((v, vs), s)
    else .error .shape
  | .optional _ shape rest, depth, first, s => do
    let (more, s) ← Json.another Byte.closeBracket first s
    if more then
      let (v, s) ← nullable (fun s => shape.read depth s) s
      let (vs, s) ← rest.readItems depth false s
      .ok ((v, vs), s)
    else
      let (vs, s) ← rest.readItems depth first s
      .ok ((none, vs), s)
  | .repeated _ item rest, depth, first, s => do
    let (more, s) ← Json.another Byte.closeBracket first s
    if more then
      let (v, s) ← list depth (fun depth s => item.read depth s) s
      let (vs, s) ← rest.readItems depth false s
      .ok ((v, vs), s)
    else
      let (vs, s) ← rest.readItems depth first s
      .ok (([], vs), s)

end

/-! ## Writing -/

mutual

/-- The text of what a value denotes. -/
def Shape.toText : (s : Shape) → s.Value → Text
  | .string, x => Json.quoted x
  | .number, n => n.toText
  | .any, v => v.toText
  | .objectOrString, .inl ms => (Json.object ms).toText
  | .objectOrString, .inr x => Json.quoted x
  | .list item, vs => Json.bracketed (vs.map fun v => item.toText v)
  | .record fields, v => Json.braced (fields.toTexts v)
  | .openRecord fields, (v, extra) => Json.braced (fields.toTexts v ++ Json.memberTexts extra)

/-- The texts of the members of a record in the order of its fields. -/
def Fields.toTexts : (fs : Fields) → fs.Value → List Text
  | .done, () => []
  | .required f s rest, (v, vs) => Json.memberText f.name (s.toText v) :: rest.toTexts vs
  | .optional _ _ rest, (none, vs) => rest.toTexts vs
  | .optional f s rest, (some v, vs) => Json.memberText f.name (s.toText v) :: rest.toTexts vs
  | .repeated f s rest, (xs, vs) =>
    Json.memberText f.name (Json.bracketed (xs.map fun v => s.toText v)) :: rest.toTexts vs

end

end OlmReceiver.Wire
