import OlmReceiver.Json.Basic

/-!
# Shapes of wire formats

A shape says which JSON values a wire format takes and what they denote: `Shape.Value` is the type
of its denotations. Readers and writers of all formats are defined once, by recursion on shapes, so
that a law of one of them holds of every format.

A record is read from an object, in which unknown members are ignored, or from an array that lists
the fields in their order. An open record keeps unknown members and is read from an object only.
-/

namespace OlmReceiver.Wire

/-- The name that a field is written under, and further names it is read under. -/
structure FieldName where
  name : String
  aliases : List String := []

instance : Coe String FieldName := ⟨fun name => ⟨name, []⟩⟩

/-- Whether a member of this name is the field. -/
def FieldName.accepts (f : FieldName) (name : String) : Bool :=
  name = f.name || f.aliases.contains name

mutual

/-- What a value on the wire may look like. -/
inductive Shape where
  | string
  | number
  | any
  | objectOrString
  | list (item : Shape)
  | record (fields : Fields)
  | openRecord (fields : Fields)

/--
The fields of a record in their order. An optional field may be absent or null, and is not written
when it has no value; a repeated field may be absent when it is empty, and is always written.
-/
inductive Fields where
  | done
  | required (name : FieldName) (shape : Shape) (rest : Fields)
  | optional (name : FieldName) (shape : Shape) (rest : Fields)
  | repeated (name : FieldName) (item : Shape) (rest : Fields)

end

mutual

/-- What a value of a shape denotes. -/
@[reducible] def Shape.Value : Shape → Type
  | .string => String
  | .number => Number
  | .any => Json
  | .objectOrString => Json.Members ⊕ String
  | .list item => List item.Value
  | .record fields => fields.Value
  | .openRecord fields => fields.Value × Json.Members

/-- What the fields of a record denote together. -/
@[reducible] def Fields.Value : Fields → Type
  | .done => Unit
  | .required _ shape rest => shape.Value × rest.Value
  | .optional _ shape rest => Option shape.Value × rest.Value
  | .repeated _ item rest => List item.Value × rest.Value

end

/-- Whether some field accepts a member of this name. -/
def Fields.accept : Fields → (name : String) → Bool
  | .done, _ => false
  | .required f _ rest, name => f.accepts name || rest.accept name
  | .optional f _ rest, name => f.accepts name || rest.accept name
  | .repeated f _ rest, name => f.accepts name || rest.accept name

end OlmReceiver.Wire
