import OlmReceiver.Proofs.Call
import OlmReceiver.Proofs.ContentFields
import OlmReceiver.Proofs.Dictionaries

/-!
# The algorithm tag read alone

The tag of encrypted content is read as a record with no other field, before the content is read in
full. On objects the two readings agree, as members that are no field of a record are passed over. On
arrays they do not: a record takes the elements of an array one for each field and none besides, so
content that is an array has a tag only if it has nothing else.

Content that reads in full as an array is therefore refused for its tag, whatever the receiver.
-/

namespace OlmReceiver

open Wire (Shape)

namespace EncryptedContent

/-! ## Arrays -/

/-- The algorithm tag of an array is its only element. -/
theorem algorithmOf?_array (items : List Json) :
    algorithmOf? (.array items) = Json.oneString? items := by
  simp only [algorithmOf?, Shape.ofJson?]
  rcases items with _ | ⟨v, _ | ⟨v', rest⟩⟩
  · rfl
  · cases v <;> rfl
  · cases v <;> rfl

/-- What reads as a string is that string. -/
theorem eq_string_of_ofJson? {v : Json} {x : String} (h : Shape.string.ofJson? v = some x) :
    v = .string x := by
  cases v with
  | string y => exact congrArg Json.string (Option.some.inj h)
  | _ => cases h

/-- An array that reads in full has three elements, the tag and the sender key first. -/
theorem array_of_ofJson? {items : List Json} {c : EncryptedContent}
    (h : Wire.ofJson? (.array items) = some c) :
    ∃ v, items = [.string c.algorithm, .string c.senderKey.value, v] := by
  obtain ⟨⟨algorithm, key, ciphertext, ⟨⟩⟩, hvalue, hc⟩ := Option.map_eq_some_iff.mp h
  have hfields : c.algorithm = algorithm ∧ c.senderKey.value = key := by
    cases ciphertext <;> exact hc ▸ ⟨rfl, rfl⟩
  simp only [Wire.shape, Shape.ofJson?] at hvalue
  rcases items with _ | ⟨first, _ | ⟨second, _ | ⟨third, _ | ⟨fourth, rest⟩⟩⟩⟩
  · cases hvalue
  · simp [Wire.Fields.ofItems?] at hvalue
  · simp [Wire.Fields.ofItems?] at hvalue
  · obtain ⟨x, hx, hvalue⟩ := Option.bind_eq_some_iff.mp hvalue
    obtain ⟨vs, hvs, heq⟩ := Option.bind_eq_some_iff.mp hvalue
    cases heq
    obtain ⟨y, hy, hvs⟩ := Option.bind_eq_some_iff.mp hvs
    obtain ⟨ws, -, heq⟩ := Option.bind_eq_some_iff.mp hvs
    cases heq
    rw [hfields.1, hfields.2, eq_string_of_ofJson? hx, eq_string_of_ofJson? hy]
    exact ⟨third, rfl⟩
  · simp [Wire.Fields.ofItems?] at hvalue

/-- Nothing but objects and arrays reads in full. -/
theorem object_or_array_of_ofJson? {v : Json} {c : EncryptedContent}
    (h : Wire.ofJson? v = some c) : (∃ ms, v = .object ms) ∨ ∃ items, v = .array items := by
  cases v with
  | object ms => exact .inl ⟨ms, rfl⟩
  | array items => exact .inr ⟨items, rfl⟩
  | _ => cases h

/-! ## Objects -/

/-- The algorithm tag of an object is the string that stands under `algorithm`. -/
theorem algorithmOf?_eq_member? {ms : Json.Members} (h : Dictionary.Ordered ms) :
    algorithmOf? (.object ms) =
      ((Json.object ms).member? "algorithm").bind Json.string? := by
  have hvalues : algorithmField.values ms = (Dictionary.get? "algorithm" ms).toList := by
    rw [← h.filter_key]
    simp [Wire.FieldName.values, Wire.FieldName.accepts]
  rw [algorithmOf?_object, hvalues, Json.member?]
  cases Dictionary.get? "algorithm" ms with
  | none => rfl
  | some v => cases v <;> rfl

/-- On an object, the tag read alone is that of the content read in full. -/
theorem algorithmOf?_of_object {ms : Json.Members} {c : EncryptedContent}
    (h : Wire.ofJson? (.object ms) = some c) : algorithmOf? (.object ms) = some c.algorithm := by
  rw [ofJson?_object] at h
  rw [algorithmOf?_object]
  obtain ⟨algorithm, halgorithm, h⟩ := Option.bind_eq_some_iff.mp h
  obtain ⟨key, -, h⟩ := Option.bind_eq_some_iff.mp h
  obtain ⟨ciphertext, -, h⟩ := Option.bind_eq_some_iff.mp h
  cases h
  exact halgorithm

end EncryptedContent

namespace Receiver

/-- Content without a tag of its own is refused, and nothing happens. -/
theorem decrypt_of_untagged {e : Event} (h : EncryptedContent.algorithmOf? e.content = none)
    (r : Receiver) :
    r.decrypt e =
      ⟨.error (.invalidEncryptedContent .shape), r, [.began e.sender r.device.deviceId]⟩ := by
  simp [decrypt_eq, Envelope.ofContent, Envelope.readOlm, h, bind, Except.bind]

end Receiver

namespace EncryptedContent

/-- Content that reads in full is an object, whose tag reads alone to the same, or an array of three
elements, whose tag does not read alone: every receiver refuses it as invalid. -/
theorem read_tagged_or_refused {v : Json} {c : EncryptedContent} (h : Wire.ofJson? v = some c) :
    (∃ ms, v = .object ms ∧ algorithmOf? v = some c.algorithm) ∨
      ∃ ciphertext, v = .array [.string c.algorithm, .string c.senderKey.value, ciphertext] ∧
        algorithmOf? v = none ∧
        ∀ (r : Receiver) (e : Event), e.content = v →
          (r.decrypt e).answer = .error (.invalidEncryptedContent .shape) := by
  rcases object_or_array_of_ofJson? h with ⟨ms, rfl⟩ | ⟨items, rfl⟩
  · exact .inl ⟨ms, rfl, algorithmOf?_of_object h⟩
  · obtain ⟨ciphertext, rfl⟩ := array_of_ofJson? h
    refine .inr ⟨ciphertext, rfl, algorithmOf?_array _, fun r e hcontent => ?_⟩
    rw [Receiver.decrypt_of_untagged (hcontent ▸ algorithmOf?_array _)]

/-- The entries of a recipient map with one malformed message. -/
def oneRecipient : Json.Members :=
  [("ACC1", (RecipientCiphertext.ofMessage .preKey "x").toEntry)]

/-- Olm content as an array, with its fields in order. -/
def listed : Json :=
  .array [.string olmAlgorithm, .string "SENDER1", .object oneRecipient]

/-- Olm content that is an array reads in full, and is refused by every receiver. -/
theorem read_tagged_or_refused_listed :
    Wire.ofJson? listed = some (⟨olmAlgorithm, ⟨"SENDER1"⟩, .recipients oneRecipient⟩ :
        EncryptedContent) ∧
      algorithmOf? listed = none ∧
      ∀ (r : Receiver) (e : Event), e.content = listed →
        (r.decrypt e).answer = .error (.invalidEncryptedContent .shape) := by
  have hread : Wire.ofJson? listed = some (⟨olmAlgorithm, ⟨"SENDER1"⟩, .recipients oneRecipient⟩ :
    EncryptedContent) := rfl
  obtain ⟨ms, hobject, -⟩ | ⟨ciphertext, -, hnone, hrefused⟩ := read_tagged_or_refused hread
  · cases hobject
  · exact ⟨hread, hnone, hrefused⟩

/-- The tag read alone is not always that of the content read in full. -/
theorem not_always_tagged :
    ¬ ∀ (v : Json) (c : EncryptedContent), Wire.ofJson? v = some c →
      algorithmOf? v = some c.algorithm := by
  intro h
  cases h listed ⟨olmAlgorithm, ⟨"SENDER1"⟩, .recipients oneRecipient⟩ rfl

end EncryptedContent

end OlmReceiver
