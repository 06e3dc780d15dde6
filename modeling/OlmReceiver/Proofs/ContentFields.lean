import OlmReceiver.Proofs.Envelope

/-!
# The fields of encrypted content

Encrypted content that is an object is read off the values of three fields, and the recipient map is
reached through nothing but these: a tag that is not Olm's is told before anything else is looked at,
and a group message before our entry is looked for.
-/

namespace OlmReceiver

open Wire (FieldName Shape)

/-- The one string among some values, if there is nothing but that. -/
def Json.oneString? : List Json → Option String
  | [.string x] => some x
  | _ => none

namespace EncryptedContent

/-- The field of the algorithm tag. -/
abbrev algorithmField : FieldName := ⟨"algorithm", []⟩

/-- The field of the sender key. -/
abbrev senderKeyField : FieldName := ⟨"sender_key", ["senderKey"]⟩

/-- The field of the recipient map. -/
abbrev ciphertextField : FieldName := ⟨"ciphertext", ["ciphertexts"]⟩

/-- The one ciphertext among some values, if there is nothing but that. -/
def oneCiphertext? : List Json → Option Ciphertext
  | [.object entries] => some (.recipients entries)
  | [.string body] => some (.group body)
  | _ => none

/-- The algorithm tag of an object is read off the values of its field. -/
theorem algorithmOf?_object (ms : Json.Members) :
    algorithmOf? (.object ms) = Json.oneString? (algorithmField.values ms) := by
  simp only [algorithmOf?, Shape.ofJson?, Wire.Fields.ofMembers?, FieldName.required?]
  generalize algorithmField.values ms = values
  rcases values with _ | ⟨v, _ | ⟨v', rest⟩⟩
  · rfl
  · cases v <;> rfl
  · cases v <;> rfl

/-- The content of an object is read off the values of its three fields. -/
theorem ofJson?_object (ms : Json.Members) :
    (Wire.ofJson? (.object ms) : Option EncryptedContent) =
      (do
        let algorithm ← Json.oneString? (algorithmField.values ms)
        let key ← Json.oneString? (senderKeyField.values ms)
        let ciphertext ← oneCiphertext? (ciphertextField.values ms)
        some ⟨algorithm, ⟨key⟩, ciphertext⟩) := by
  simp only [Wire.ofJson?, Wire.shape, Shape.ofJson?, Wire.Fields.ofMembers?,
    FieldName.required?]
  generalize algorithmField.values ms = algorithms
  generalize senderKeyField.values ms = keys
  generalize ciphertextField.values ms = ciphertexts
  rcases algorithms with _ | ⟨algorithm, _ | ⟨algorithm', algorithms⟩⟩
  · rfl
  · cases algorithm with
    | string x =>
      rcases keys with _ | ⟨key, _ | ⟨key', keys⟩⟩
      · rfl
      · cases key with
        | string y =>
          rcases ciphertexts with _ | ⟨ciphertext, _ | ⟨ciphertext', ciphertexts⟩⟩
          · rfl
          · cases ciphertext <;> rfl
          · cases ciphertext <;> rfl
        | _ => rfl
      · cases key <;> rfl
    | _ => rfl
  · cases algorithm <;> rfl

end EncryptedContent

namespace Envelope

/-- The recipient map behind an algorithm tag, a sender key and a ciphertext, as far as these are
there. -/
def readFields (algorithm key : Option String) (ciphertext : Option Ciphertext) :
    Except DecryptError (IdentityKey × Json.Members) :=
  match algorithm with
  | none => .error (.invalidEncryptedContent .shape)
  | some algorithm =>
    if algorithm ≠ olmAlgorithm then .error (.unsupportedAlgorithm algorithm)
    else match key, ciphertext with
      | some key, some (.recipients entries) => .ok (⟨key⟩, entries)
      | some _, some (.group _) => .error .incorrectEncryptedContentType
      | _, _ => .error (.invalidEncryptedContent .shape)

/-- The recipient map of an object is reached through the values of its three fields. -/
theorem readOlm_object (ms : Json.Members) :
    readOlm (.object ms) =
      readFields (Json.oneString? (EncryptedContent.algorithmField.values ms))
        (Json.oneString? (EncryptedContent.senderKeyField.values ms))
        (EncryptedContent.oneCiphertext? (EncryptedContent.ciphertextField.values ms)) := by
  unfold readOlm readContent readFields
  rw [EncryptedContent.algorithmOf?_object, EncryptedContent.ofJson?_object]
  cases Json.oneString? (EncryptedContent.algorithmField.values ms) with
  | none => rfl
  | some algorithm =>
    by_cases holm : algorithm = olmAlgorithm
    · subst holm
      cases Json.oneString? (EncryptedContent.senderKeyField.values ms) with
      | none => rfl
      | some key =>
        cases EncryptedContent.oneCiphertext? (EncryptedContent.ciphertextField.values ms) with
        | none => rfl
        | some ciphertext => cases ciphertext <;> rfl
    · simp [holm]

/-- With a recipient map the other two fields decide, and what stands in the map does not matter. -/
theorem readFields_recipients (algorithm key : Option String) :
    (∃ err, ∀ entries, readFields algorithm key (some (.recipients entries)) = .error err) ∨
      ∃ k, ∀ entries, readFields algorithm key (some (.recipients entries)) = .ok (k, entries) := by
  cases algorithm with
  | none => exact .inl ⟨_, fun _ => rfl⟩
  | some algorithm =>
    by_cases holm : algorithm = olmAlgorithm
    · subst holm
      cases key with
      | none => exact .inl ⟨_, fun _ => rfl⟩
      | some key => exact .inr ⟨⟨key⟩, fun _ => rfl⟩
    · exact .inl ⟨.unsupportedAlgorithm algorithm, fun _ => by simp [readFields, holm]⟩

/-- Without a recipient map nothing is reached. -/
theorem readFields_of_no_recipients (algorithm key : Option String)
    {ciphertext : Option Ciphertext} (h : ∀ entries, ciphertext ≠ some (.recipients entries)) :
    ∃ err, readFields algorithm key ciphertext = .error err := by
  unfold readFields
  cases algorithm with
  | none => exact ⟨_, rfl⟩
  | some algorithm =>
    dsimp only
    split
    · exact ⟨_, rfl⟩
    · split
      · exact absurd rfl (h _)
      · exact ⟨_, rfl⟩
      · exact ⟨_, rfl⟩

end Envelope

end OlmReceiver
