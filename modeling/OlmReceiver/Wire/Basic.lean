import OlmReceiver.Wire.Text
import OlmReceiver.Wire.Value

/-!
# Types with a wire format

A type has a wire format when it is in bijection with what some shape denotes. Its four readers and
writers, of values and of texts, are those of the shape.
-/

namespace OlmReceiver

/-- A wire format for `α`: a shape, and a bijection between `α` and what the shape denotes. -/
class Wire (α : Type) where
  shape : Wire.Shape
  ofValue : shape.Value → α
  toValue : α → shape.Value
  ofValue_toValue (a : α) : ofValue (toValue a) = a := by intro a; rfl
  toValue_ofValue (v : shape.Value) : toValue (ofValue v) = v := by intro v; rfl

namespace Wire

variable {α : Type} [Wire α]

/-- Reads a value on the wire. -/
def ofJson? (v : Json) : Option α :=
  ((Wire.shape α).ofJson? v).map Wire.ofValue

/-- Reads a text on the wire. -/
def ofText (t : Text) : Except Json.Fault α := do
  let v ← Json.complete ((Wire.shape α).read Json.maxDepth) t
  .ok (Wire.ofValue v)

/-- Writes as a value on the wire. -/
def toJson (a : α) : Json :=
  (Wire.shape α).toJson (Wire.toValue a)

/-- Writes as a text on the wire. -/
def toText (a : α) : Text :=
  (Wire.shape α).toText (Wire.toValue a)

end Wire

end OlmReceiver
