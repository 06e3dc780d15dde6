import OlmReceiver.Receiver.Envelope

/-!
# What an opened envelope says about its event

An envelope opens exactly when every format on the way to our own entry is read: the algorithm tag
on its own, the whole content, the entry under our identity key, and the number of its message
type. The envelope then repeats the sender key of the content and the body of the entry. All that
can go wrong is an input error.
-/

namespace OlmReceiver

/-- The identity key that the content of an event names as its sender's, if it is read at all. -/
def Event.senderKey? (e : Event) : Option IdentityKey :=
  (Wire.ofJson? e.content : Option EncryptedContent).map EncryptedContent.senderKey

namespace MessageType

/-- Exactly the integers zero and one are the numbers of message types. -/
theorem ofNumber?_eq_some_iff {n : Number} {type : MessageType} :
    ofNumber? n = some type ↔ n = type.number := by
  cases n with
  | double x => cases type <;> simp [ofNumber?, Number.toInt?, number, Number.ofNat]
  | integer i hi =>
    unfold ofNumber?
    split
    · rename_i h
      obtain rfl : i = 0 := by simpa [Number.toInt?] using h
      cases type <;> simp [number, Number.ofNat]
    · rename_i h
      obtain rfl : i = 1 := by simpa [Number.toInt?] using h
      cases type <;> simp [number, Number.ofNat]
    · rename_i h₀ h₁
      simp only [Number.toInt?, Option.some.injEq] at h₀ h₁
      cases type with
      | preKey => simpa [number, Number.ofNat] using h₀
      | normal => simpa [number, Number.ofNat] using h₁

end MessageType

namespace Envelope

/-- A format is read from a value, or the value is refused as invalid content. -/
theorem readContent_eq_ok_iff {α : Type} [Wire α] {v : Json} {a : α} :
    readContent v = .ok a ↔ Wire.ofJson? v = some a := by
  unfold readContent
  split
  · rename_i h
    simp [h]
  · rename_i h
    simp [h]

/-- Olm content has Olm's algorithm tag, and reads as content with a recipient map. -/
theorem readOlm_eq_ok_iff {content : Json} {senderKey : IdentityKey} {entries : Json.Members} :
    readOlm content = .ok (senderKey, entries) ↔
      EncryptedContent.algorithmOf? content = some olmAlgorithm ∧
        ∃ encrypted : EncryptedContent, Wire.ofJson? content = some encrypted ∧
          encrypted.senderKey = senderKey ∧ encrypted.ciphertext = .recipients entries := by
  unfold readOlm
  cases halgorithm : EncryptedContent.algorithmOf? content with
  | none => simp
  | some algorithm =>
    by_cases holm : algorithm = olmAlgorithm
    · subst holm
      simp only [ne_eq, not_true_eq_false, if_false, true_and]
      refine bind_eq_ok_iff.trans (exists_congr fun encrypted => ?_)
      rw [readContent_eq_ok_iff]
      refine and_congr_right fun _ => ?_
      cases hciphertext : encrypted.ciphertext with
      | recipients entries' => simp
      | group body => simp
    · simp [holm]

/-- An entry of the recipient map names a message type by its number. -/
theorem readEntry_eq_ok_iff {key : IdentityKey} {entries : Json.Members} {type : MessageType}
    {body : String} :
    readEntry key entries = .ok (type, body) ↔
      ∃ entry, Dictionary.get? key.value entries = some entry ∧
        ∃ own : RecipientCiphertext, Wire.ofJson? entry = some own ∧ own.type = type.number ∧
          own.body = body := by
  unfold readEntry
  cases hentry : Dictionary.get? key.value entries with
  | none => simp
  | some entry =>
    simp only [Option.some.injEq, exists_eq_left']
    refine bind_eq_ok_iff.trans (exists_congr fun own => ?_)
    rw [readContent_eq_ok_iff]
    refine and_congr_right fun _ => ?_
    rw [← MessageType.ofNumber?_eq_some_iff]
    cases htype : MessageType.ofNumber? own.type with
    | none => simp
    | some type' => simp

/-- The envelope is made of what the content and its entry for us say. -/
theorem ofContent_eq_ok_iff {ownKey : IdentityKey} {content : Json} {env : Envelope} :
    ofContent ownKey content = .ok env ↔
      ∃ entries, readOlm content = .ok (env.senderKey, entries) ∧
        readEntry ownKey entries = .ok (env.type, env.body) := by
  unfold ofContent
  refine bind_eq_ok_iff.trans ?_
  constructor
  · rintro ⟨⟨senderKey, entries⟩, holm, hrest⟩
    obtain ⟨⟨type, body⟩, hentry, henv⟩ := bind_eq_ok_iff.mp hrest
    obtain rfl : ⟨senderKey, type, body⟩ = env := by simpa using henv
    exact ⟨entries, holm, hentry⟩
  · rintro ⟨entries, holm, hentry⟩
    exact ⟨_, holm, bind_eq_ok_iff.mpr ⟨_, hentry, rfl⟩⟩

/-- An opened envelope names the sender key that the content of the event names. -/
theorem senderKey?_of_ofContent {ownKey : IdentityKey} {e : Event} {env : Envelope}
    (hopen : ofContent ownKey e.content = .ok env) : e.senderKey? = some env.senderKey := by
  obtain ⟨entries, holm, -⟩ := ofContent_eq_ok_iff.mp hopen
  obtain ⟨-, encrypted, hread, hkey, -⟩ := readOlm_eq_ok_iff.mp holm
  simp [Event.senderKey?, hread, hkey]

/-! ## Refusals -/

/-- A value of another shape is the wrong input. -/
theorem kind_of_readContent {α : Type} [Wire α] {v : Json} {err : DecryptError}
    (h : (readContent v : Except DecryptError α) = .error err) : err.kind = .input := by
  unfold readContent at h
  split at h
  · cases h
  · cases h
    rfl

/-- Whatever keeps the recipient map from being read is the fault of the content. -/
theorem kind_of_readOlm {content : Json} {err : DecryptError}
    (h : readOlm content = .error err) : err.kind = .input := by
  unfold readOlm at h
  cases halgorithm : EncryptedContent.algorithmOf? content with
  | none =>
    simp only [halgorithm, Except.error.injEq] at h
    rw [← h]
    rfl
  | some algorithm =>
    simp only [halgorithm] at h
    split at h
    · cases h
      rfl
    · rcases bind_eq_error_iff.mp h with hread | ⟨encrypted, -, hmap⟩
      · exact kind_of_readContent hread
      · cases hciphertext : encrypted.ciphertext with
        | recipients entries => simp [hciphertext] at hmap
        | group body =>
          simp only [hciphertext, Except.error.injEq] at hmap
          rw [← hmap]
          rfl

/-- Whatever keeps our entry from being read is the fault of the content. -/
theorem kind_of_readEntry {key : IdentityKey} {entries : Json.Members} {err : DecryptError}
    (h : readEntry key entries = .error err) : err.kind = .input := by
  unfold readEntry at h
  cases hentry : Dictionary.get? key.value entries with
  | none =>
    simp only [hentry, Except.error.injEq] at h
    rw [← h]
    rfl
  | some entry =>
    simp only [hentry] at h
    rcases bind_eq_error_iff.mp h with hread | ⟨own, -, htype⟩
    · exact kind_of_readContent hread
    · cases hnumber : MessageType.ofNumber? own.type with
      | some type => simp [hnumber] at htype
      | none =>
        simp only [hnumber, Except.error.injEq] at htype
        rw [← htype]
        rfl

/-- An envelope that does not open is an input error. -/
theorem kind_of_ofContent {ownKey : IdentityKey} {content : Json} {err : DecryptError}
    (h : ofContent ownKey content = .error err) : err.kind = .input := by
  unfold ofContent at h
  rcases bind_eq_error_iff.mp h with holm | ⟨⟨senderKey, entries⟩, -, hrest⟩
  · exact kind_of_readOlm holm
  · rcases bind_eq_error_iff.mp hrest with hentry | ⟨⟨type, body⟩, -, hok⟩
    · exact kind_of_readEntry hentry
    · cases hok

end Envelope

end OlmReceiver
