import OlmReceiver.Wire.Shape

/-!
# Reading and writing JSON values

`Shape.ofJson?` reads a value as a shape says and `Shape.toJson` is its way back. A value is read
as a whole, so a failure has no position and no cause other than the wrong shape.
-/

namespace OlmReceiver.Wire

variable {α : Type}

/-- Reads null as nothing. -/
def nullable? (item? : Json → Option α) : Json → Option (Option α)
  | .null => some none
  | v => (item? v).map some

/-- Reads every element of an array. -/
def elements? (item? : Json → Option α) : Json → Option (List α)
  | .array items => items.mapM item?
  | _ => none

/-- The values of all members that are a given field. -/
def FieldName.values (f : FieldName) (ms : Json.Members) : List Json :=
  (ms.filter fun m => f.accepts m.1).map Prod.snd

/-- The value of a field that stands under exactly one of its names. -/
def FieldName.required? (f : FieldName) (item? : Json → Option α) (ms : Json.Members) :
    Option α :=
  match f.values ms with
  | [v] => item? v
  | _ => none

/-- The value of a field that stands under at most one of its names. -/
def FieldName.optional? (f : FieldName) (absent : α) (item? : Json → Option α)
    (ms : Json.Members) : Option α :=
  match f.values ms with
  | [] => some absent
  | [v] => item? v
  | _ => none

mutual

/-- Reads a value as the shape says. -/
def Shape.ofJson? : (s : Shape) → Json → Option s.Value
  | .string, .string x => some x
  | .number, .number n => some n
  | .any, v => some v
  | .objectOrString, .object ms => some (.inl ms)
  | .objectOrString, .string x => some (.inr x)
  | .list item, v => elements? (fun v => item.ofJson? v) v
  | .record fields, .object ms => fields.ofMembers? ms
  | .record fields, .array items => fields.ofItems? items
  | .openRecord fields, .object ms => do
    let v ← fields.ofMembers? ms
    some (v, ms.filter fun m => !fields.accept m.1)
  | _, _ => none

/-- Reads the fields of a record from the members of an object. -/
def Fields.ofMembers? : (fs : Fields) → Json.Members → Option fs.Value
  | .done, _ => some ()
  | .required f s rest, ms => do
    some (← f.required? (fun v => s.ofJson? v) ms, ← rest.ofMembers? ms)
  | .optional f s rest, ms => do
    some (← f.optional? none (nullable? fun v => s.ofJson? v) ms, ← rest.ofMembers? ms)
  | .repeated f s rest, ms => do
    some (← f.optional? [] (elements? fun v => s.ofJson? v) ms, ← rest.ofMembers? ms)

/-- Reads the fields of a record from the elements of an array, in order. -/
def Fields.ofItems? : (fs : Fields) → List Json → Option fs.Value
  | .done, [] => some ()
  | .done, _ :: _ => none
  | .required .., [] => none
  | .required _ s rest, v :: vs => do some (← s.ofJson? v, ← rest.ofItems? vs)
  | .optional _ _ rest, [] => do some (none, ← rest.ofItems? [])
  | .optional _ s rest, v :: vs => do
    some (← nullable? (fun v => s.ofJson? v) v, ← rest.ofItems? vs)
  | .repeated _ _ rest, [] => do some ([], ← rest.ofItems? [])
  | .repeated _ s rest, v :: vs => do
    some (← elements? (fun v => s.ofJson? v) v, ← rest.ofItems? vs)

end

mutual

/-- Writes what a value denotes as a value. -/
def Shape.toJson : (s : Shape) → s.Value → Json
  | .string, x => .string x
  | .number, n => .number n
  | .any, v => v
  | .objectOrString, .inl ms => .object ms
  | .objectOrString, .inr x => .string x
  | .list item, vs => .array (vs.map fun v => item.toJson v)
  | .record fields, v => Json.ofMembers (fields.toMembers v)
  | .openRecord fields, (v, extra) => Json.ofMembers (fields.toMembers v ++ extra)

/-- The members of a record in the order of its fields. -/
def Fields.toMembers : (fs : Fields) → fs.Value → List (String × Json)
  | .done, () => []
  | .required f s rest, (v, vs) => (f.name, s.toJson v) :: rest.toMembers vs
  | .optional _ _ rest, (none, vs) => rest.toMembers vs
  | .optional f s rest, (some v, vs) => (f.name, s.toJson v) :: rest.toMembers vs
  | .repeated f s rest, (xs, vs) =>
    (f.name, .array (xs.map fun v => s.toJson v)) :: rest.toMembers vs

end

end OlmReceiver.Wire
