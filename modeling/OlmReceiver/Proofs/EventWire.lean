import OlmReceiver.Proofs.AlgorithmTag
import OlmReceiver.Proofs.RoundTrip
import OlmReceiver.Proofs.WireValue

/-!
# Events survive the wire

An event is read back from its value and, if its content is legible, from its text. So is the content
that an encrypted event was made of: its tag, its sender key, and a recipient map that has an entry for
each recipient and for nobody else. The entries are written by hand when the map is put together, and
read one by one as a record; both formats are the same.
-/

namespace OlmReceiver

/-- The entry of a recipient map is the value of the ciphertext on the wire. -/
theorem RecipientCiphertext.toEntry_eq_toJson (c : RecipientCiphertext) :
    c.toEntry = Wire.toJson c := by
  have hmembers : Wire.toJson c =
      Json.ofMembers [("type", .number c.type), ("body", .string c.body)] := rfl
  have hfirst : "body" < "type" := by decide
  rw [hmembers]
  simp [toEntry, Json.ofMembers, Dictionary.ofList, Dictionary.insert, hfirst]

namespace Event

/-- An event is read back from its value. -/
theorem ofJson?_toJson (e : Event) : Wire.ofJson? (Wire.toJson e) = some e := by
  have htidy : (Wire.shape Event).Tidy (Wire.toValue e) := by
    obtain ⟨sender, type, id, content⟩ := e
    cases id with
    | none => exact ⟨trivial, trivial, trivial, trivial⟩
    | some id => exact ⟨trivial, trivial, trivial, trivial, trivial⟩
  exact Wire.ofJson?_toJson (by decide) (by decide) htidy

/-- An event is read back from its text, if its content can be read one level further in. -/
theorem ofText_toText {e : Event} (h : e.content.Legible 126) :
    Wire.ofText (Wire.toText e) = .ok e := by
  have hlegible : (Wire.shape Event).Legible Json.maxDepth (Wire.toValue e) := by
    obtain ⟨sender, type, id, content⟩ := e
    cases id with
    | none => exact ⟨trivial, trivial, h, trivial⟩
    | some id => exact ⟨trivial, trivial, trivial, h, trivial⟩
  exact Wire.ofText_toText (by decide) hlegible

end Event

namespace EncryptedContent

/-- Encrypted content is read back from its value. -/
theorem ofJson?_toJson (c : EncryptedContent) : Wire.ofJson? (Wire.toJson c) = some c := by
  have htidy : (Wire.shape EncryptedContent).Tidy (Wire.toValue c) := by
    obtain ⟨algorithm, key, entries | body⟩ := c
    · exact ⟨trivial, trivial, trivial, trivial⟩
    · exact ⟨trivial, trivial, trivial, trivial⟩
  exact Wire.ofJson?_toJson (by decide) (by decide) htidy

/-- What is found for a recipient is the entry of its ciphertext. -/
theorem get?_entries (recipient : IdentityKey)
    (ciphertexts : Dictionary IdentityKey RecipientCiphertext) :
    Dictionary.get? recipient.value (ciphertexts.map fun e => (e.1.value, e.2.toEntry)) =
      (Dictionary.get? recipient ciphertexts).map RecipientCiphertext.toEntry := by
  induction ciphertexts with
  | nil => rfl
  | cons e ciphertexts ih =>
    obtain ⟨key, c⟩ := e
    rw [List.map_cons, Dictionary.get?, Dictionary.get?, ih]
    by_cases heq : recipient = key
    · simp [heq]
    · have hvalue : recipient.value ≠ key.value := fun h => heq (congrArg IdentityKey.mk h)
      simp [heq, hvalue]

/-- What is read off a value that stands for Olm content with these ciphertexts. -/
structure ReadsAsOlm (v : Json) (key : IdentityKey)
    (ciphertexts : Dictionary IdentityKey RecipientCiphertext) : Prop where
  /-- The tag, read alone, is that of Olm. -/
  algorithm : algorithmOf? v = some olmAlgorithm
  /-- The content is the one that was put together. -/
  content : Wire.ofJson? v = some (olm key ciphertexts)
  /-- Its recipient map has the recipients as its keys, and under each one the entry of its ciphertext. -/
  recipients : ∃ entries,
    Wire.ofJson? v = some (⟨olmAlgorithm, key, .recipients entries⟩ : EncryptedContent) ∧
      entries.map Prod.fst = ciphertexts.map (fun e => e.1.value) ∧
      ∀ recipient, (Dictionary.get? recipient.value entries).map Wire.ofJson? =
        (Dictionary.get? recipient ciphertexts).map some

/-- Olm content is read as what it was put together of. -/
theorem readsAsOlm (key : IdentityKey) (ciphertexts : Dictionary IdentityKey RecipientCiphertext) :
    ReadsAsOlm (Wire.toJson (olm key ciphertexts)) key ciphertexts where
  algorithm := by
    rw [toJson_olm]
    rfl
  content := ofJson?_toJson _
  recipients := by
    refine ⟨ciphertexts.map fun e => (e.1.value, e.2.toEntry), ofJson?_toJson _, ?_, ?_⟩
    · rw [List.map_map]
      rfl
    · intro recipient
      rw [get?_entries, Option.map_map]
      rfl

end EncryptedContent

namespace Event

/-- Every event is read back from its value, and from its text as far as its content is legible. The
content of an encrypted event is read as what it was put together of, and its entries are written as
the records that they are read as. -/
theorem survives_wire :
    (∀ e : Event, Wire.ofJson? (Wire.toJson e) = some e) ∧
      (∀ e : Event, e.content.Legible 126 → Wire.ofText (Wire.toText e) = .ok e) ∧
      (∀ (sender : UserId) (key : IdentityKey)
        (ciphertexts : Dictionary IdentityKey RecipientCiphertext),
        EncryptedContent.ReadsAsOlm (encrypted sender (.olm key ciphertexts)).content key
          ciphertexts) ∧
      ∀ c : RecipientCiphertext, c.toEntry = Wire.toJson c :=
  ⟨ofJson?_toJson, fun _ h => ofText_toText h, fun _ => EncryptedContent.readsAsOlm,
    RecipientCiphertext.toEntry_eq_toJson⟩

/-- A greeting that is not encrypted, with an id. -/
def greeting : Event :=
  ⟨⟨"@alice:localhost"⟩, "m.greeting", some "$greeting", Receiver.greeting.content⟩

/-- The greeting is read back from its text. -/
theorem survives_wire_of_greeting : Wire.ofText (Wire.toText greeting) = .ok greeting :=
  survives_wire.2.1 greeting Receiver.legible_greeting

end Event

end OlmReceiver
