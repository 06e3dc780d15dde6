import OlmReceiver.Number.Basic
import OlmReceiver.Ordered.Dictionary

/-!
# JSON values

Objects are dictionaries: lists of members in the order of their keys, each key once, as reading
builds them. Numbers keep the distinction between integers and doubles.
-/

namespace OlmReceiver

/-- A JSON value; the members of an object stand in the order of their keys. -/
inductive Json where
  | null
  | bool (b : Bool)
  | number (n : Number)
  | string (s : String)
  | array (items : List Json)
  | object (members : List (String × Json))

namespace Json

/-- The members of an object. -/
abbrev Members := Dictionary String Json

/-- The object with these members; of several under one name the last one stays. -/
def ofMembers (members : List (String × Json)) : Json :=
  .object (Dictionary.ofList members)

/-- The value of a member, if this is an object that has it. -/
def member? (name : String) : Json → Option Json
  | .object ms => Dictionary.get? name ms
  | _ => none

/-- The string that a value is, if it is one. -/
def string? : Json → Option String
  | .string s => some s
  | _ => none

/-- The number that a value is, if it is one. -/
def number? : Json → Option Number
  | .number n => some n
  | _ => none

/-- The bytes of `null`. -/
def nullWord : Text := [0x6e, 0x75, 0x6c, 0x6c]

/-- The bytes of `true`. -/
def trueWord : Text := [0x74, 0x72, 0x75, 0x65]

/-- The bytes of `false`. -/
def falseWord : Text := [0x66, 0x61, 0x6c, 0x73, 0x65]

/-- Why a JSON text or value is refused. -/
inductive Fault where
  /-- It is no instance of the wanted shape. -/
  | shape
  /-- The text ends inside a value. -/
  | truncated
  /-- The text is not JSON, or goes beyond a limit of the reader. -/
  | malformed
deriving DecidableEq

/-- Reads a thing off the front of a text and returns it with the text behind it. -/
abbrev Reader (α : Type) := Text → Except Fault (α × Text)

end Json

/-! Readers are put together one behind the other, and stop at the first that fails. -/

/-- A computation that goes on after another succeeds exactly when both do. -/
theorem bind_eq_ok_iff {ε α β : Type} {x : Except ε α} {f : α → Except ε β} {b : β} :
    x.bind f = .ok b ↔ ∃ a, x = .ok a ∧ f a = .ok b := by
  cases x with
  | error err => simp [Except.bind]
  | ok a => simp [Except.bind]

/-- A computation that goes on after another fails exactly when one of the two does. -/
theorem bind_eq_error_iff {ε α β : Type} {x : Except ε α} {f : α → Except ε β} {err : ε} :
    x.bind f = .error err ↔ x = .error err ∨ ∃ a, x = .ok a ∧ f a = .error err := by
  cases x with
  | error err' => simp [Except.bind]
  | ok a => simp [Except.bind]

end OlmReceiver
