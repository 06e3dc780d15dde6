import OlmReceiver.Proofs.Decryption
import OlmReceiver.Proofs.Ladder
import OlmReceiver.Proofs.OneTimeKeys
import OlmReceiver.Proofs.Payload
import OlmReceiver.Proofs.WireGrammar

/-!
# What is held against the content of an event

Seven things may be wrong with the content of an encrypted event before anything is decrypted, and any
of them may be wrong together. Each is said of the content by the forms that its parts may have, without
a word on readers. A decryption fails with an input error exactly if one of them applies, and the error
is that of the first.

Our identity key and the content are all that this looks at. Sessions, one-time keys and switches, the
sink, the registry and the sender are anything, and none of them is touched.
-/

namespace OlmReceiver

open Ratchet (Message)

/-- What is found under no key is an entry of no key. -/
theorem Dictionary.get?_eq_none_iff {κ α : Type} [DecidableEq κ] {k : κ} {d : Dictionary κ α} :
    get? k d = none ↔ ∀ a, (k, a) ∉ d := by
  induction d with
  | nil => simp [get?]
  | cons e d ih =>
    obtain ⟨k', a'⟩ := e
    by_cases heq : k = k'
    · subst heq
      refine iff_of_false (by simp [get?]) fun h => h a' List.mem_cons_self
    · simp [get?, heq, ih]

namespace MessageType

/-- A number is that of no message type exactly if it is neither of the integers zero and one. -/
theorem ofNumber?_eq_none_iff {n : Number} :
    ofNumber? n = none ↔ (∀ h, n ≠ .integer 0 h) ∧ ∀ h, n ≠ .integer 1 h := by
  constructor
  · intro h
    have hne (type : MessageType) : n ≠ type.number := fun heq => by
      rw [ofNumber?_eq_some_iff.mpr heq] at h
      cases h
    exact ⟨fun _ => hne .preKey, fun _ => hne .normal⟩
  · rintro ⟨hzero, hone⟩
    cases h : ofNumber? n with
    | none => rfl
    | some type =>
      have heq := ofNumber?_eq_some_iff.mp h
      cases type with
      | preKey => exact absurd heq (hzero _)
      | normal => exact absurd heq (hone _)

end MessageType

namespace Envelope

open Objection Ladder

/-- The content has this recipient map. -/
def HasRecipients (content : Json) (entries : Json.Members) : Prop :=
  ∃ c : EncryptedContent, c.Form content ∧ c.ciphertext = .recipients entries

/-- The recipient map of the content has this entry for an identity key. -/
def HasEntry (ownKey : IdentityKey) (content entry : Json) : Prop :=
  ∃ entries, HasRecipients content entries ∧ Dictionary.get? ownKey.value entries = some entry

/-- The entry for an identity key is this message. -/
def HasMessage (ownKey : IdentityKey) (content : Json) (own : RecipientCiphertext) : Prop :=
  ∃ entry, HasEntry ownKey content entry ∧ own.Form entry

/-- What is held against content until it has a recipient map: it has no algorithm tag, or one other
than Olm's, is no encrypted content, or has a group message. -/
def contentObjections (content : Json) : Ladder :=
  [raise (∀ tag, ¬ EncryptedContent.TagForm tag content) (.invalidEncryptedContent .shape),
    against (EncryptedContent.TagForm · content) fun tag =>
      raise (tag ≠ olmAlgorithm) (.unsupportedAlgorithm tag),
    raise (∀ c : EncryptedContent, ¬ c.Form content) (.invalidEncryptedContent .shape),
    against (EncryptedContent.Form · content) fun c =>
      raise (∃ body, c.ciphertext = .group body) .incorrectEncryptedContentType]

/-- What is held against a recipient map by the holder of an identity key: it has no entry for the key,
the entry is no message, or the message has the number of no message type. -/
def entryObjections (ownKey : IdentityKey) (content : Json) : Ladder :=
  [against (HasRecipients content) fun entries =>
      raise (∀ entry, (ownKey.value, entry) ∉ entries) .notEncryptedForMe,
    against (HasEntry ownKey content) fun entry =>
      raise (∀ own : RecipientCiphertext, ¬ own.Form entry) (.invalidEncryptedContent .shape),
    against (HasMessage ownKey content) fun own =>
      raise ((∀ h, own.type ≠ .integer 0 h) ∧ ∀ h, own.type ≠ .integer 1 h)
        (.unsupportedOlmMessageType own.type)]

/-- What is held against the content of an event by the holder of an identity key. -/
def objections (ownKey : IdentityKey) (content : Json) : Ladder :=
  contentObjections content ++ entryObjections ownKey content

variable {ownKey : IdentityKey} {content : Json}

/-! ## What the content has -/

/-- Content has the recipient map that it reads with, and no other. -/
theorem hasRecipients_iff {c : EncryptedContent} {entries : Json.Members}
    (hread : Wire.ofJson? content = some c) (hmap : c.ciphertext = .recipients entries)
    (entries' : Json.Members) : HasRecipients content entries' ↔ entries' = entries := by
  constructor
  · rintro ⟨c', hform, hmap'⟩
    obtain rfl : c = c' :=
      Option.some.inj (hread.symm.trans (EncryptedContent.ofJson?_eq_some_iff.mpr hform))
    rw [hmap] at hmap'
    exact (Ciphertext.recipients.inj hmap').symm
  · rintro rfl
    exact ⟨c, EncryptedContent.ofJson?_eq_some_iff.mp hread, hmap⟩

section

variable {entries : Json.Members}
  (hentries : ∀ entries', HasRecipients content entries' ↔ entries' = entries)

include hentries

/-- The entries for an identity key are looked up in the one recipient map. -/
theorem hasEntry_iff (entry : Json) :
    Dictionary.get? ownKey.value entries = some entry ↔ HasEntry ownKey content entry := by
  simp [HasEntry, hentries]

/-- The message for an identity key is read off its one entry. -/
theorem hasMessage_iff {entry : Json} (hentry : Dictionary.get? ownKey.value entries = some entry)
    (own : RecipientCiphertext) :
    Wire.ofJson? entry = some own ↔ HasMessage ownKey content own := by
  simp [HasMessage, ← hasEntry_iff hentries, hentry, RecipientCiphertext.ofJson?_eq_some_iff]

end

/-! ## The ladder decides -/

/-- A value is refused if it is in none of the forms of a format. -/
theorem decides_readContent {α : Type} [Wire α] {Form : α → Json → Prop} {v : Json}
    (hform : ∀ a, Wire.ofJson? v = some a ↔ Form a v) :
    Decides [raise (∀ a, ¬ Form a v) (.invalidEncryptedContent .shape)]
      (readContent v : Except DecryptError α) := by
  unfold readContent
  cases hread : (Wire.ofJson? v : Option α) with
  | none => exact decides_raise (fun a ha => by simp [(hform a).mpr ha] at hread) _ _
  | some a =>
    refine (decides_nil a).cons_of_silent (raise_silent_iff.mpr fun hnone => ?_)
    exact hnone a ((hform a).mp hread)

/-- The recipient map is not read for the first objection to the content. -/
theorem decides_readOlm (content : Json) :
    (contentObjections content).Decides (readOlm content) := by
  have htags (tag : String) : EncryptedContent.algorithmOf? content = some tag ↔
    EncryptedContent.TagForm tag content := EncryptedContent.algorithmOf?_eq_some_iff
  unfold readOlm contentObjections
  cases htag : EncryptedContent.algorithmOf? content with
  | none => exact decides_raise (fun tag hform => by simp [(htags tag).mpr hform] at htag) _ _
  | some tag =>
    have htagged : ¬ ∀ tag, ¬ EncryptedContent.TagForm tag content :=
      fun hnone => hnone tag ((htags tag).mp htag)
    refine Decides.cons_of_silent ?_ (raise_silent_iff.mpr htagged)
    rw [against_of_found htags htag]
    refine .guard (fun _ => ?_) _
    refine Decides.bind (decides_readContent fun _ => EncryptedContent.ofJson?_eq_some_iff)
      fun c hc => ?_
    rw [against_of_found (fun _ => EncryptedContent.ofJson?_eq_some_iff) (readContent_eq_ok_iff.mp hc)]
    cases c.ciphertext with
    | group body => exact decides_raise ⟨body, rfl⟩ _ _
    | recipients entries =>
      exact (decides_nil _).cons_of_silent (raise_silent_iff.mpr (by simp))

/-- Our entry is not read for the first objection to the recipient map. -/
theorem decides_readEntry {entries : Json.Members}
    (hentries : ∀ entries', HasRecipients content entries' ↔ entries' = entries) :
    (entryObjections ownKey content).Decides (readEntry ownKey entries) := by
  unfold readEntry entryObjections
  rw [against_eq hentries]
  cases hentry : Dictionary.get? ownKey.value entries with
  | none => exact decides_raise (Dictionary.get?_eq_none_iff.mp hentry) _ _
  | some entry =>
    have hsome : ¬ ∀ entry, (ownKey.value, entry) ∉ entries :=
      fun hnone => by simp [Dictionary.get?_eq_none_iff.mpr hnone] at hentry
    refine Decides.cons_of_silent ?_ (raise_silent_iff.mpr hsome)
    rw [against_of_found (hasEntry_iff hentries) hentry]
    refine Decides.bind (decides_readContent fun _ => RecipientCiphertext.ofJson?_eq_some_iff)
      fun own hown => ?_
    rw [against_of_found (hasMessage_iff hentries hentry) (readContent_eq_ok_iff.mp hown)]
    cases htype : MessageType.ofNumber? own.type with
    | none => exact decides_raise (MessageType.ofNumber?_eq_none_iff.mp htype) _ _
    | some type =>
      refine (decides_nil _).cons_of_silent (raise_silent_iff.mpr fun hnone => ?_)
      rw [MessageType.ofNumber?_eq_none_iff.mpr hnone] at htype
      cases htype

/-- Zero written as a double is the number of no message type, with either sign. -/
example : ∀ negative, readEntry ⟨"BOBKEY"⟩
    [("BOBKEY", RecipientCiphertext.toEntry ⟨.double (.zero negative), ""⟩)] =
      .error (.unsupportedOlmMessageType (.double (.zero negative))) :=
  fun _ => rfl

/-- Content does not open for the first objection to it. -/
theorem decides_ofContent (ownKey : IdentityKey) (content : Json) :
    (objections ownKey content).Decides (ofContent ownKey content) := by
  unfold ofContent
  refine (decides_readOlm content).bind fun ⟨senderKey, entries⟩ holm => ?_
  obtain ⟨-, encrypted, hread, -, hmap⟩ := readOlm_eq_ok_iff.mp holm
  exact (decides_readEntry (hasRecipients_iff hread hmap)).bind_ok _

end Envelope

namespace Receiver

/-! ## Nothing later is an input error -/

/-- No refusal of a plaintext is the fault of the event's content. -/
theorem kind_ne_input_of_accept {r : Receiver} {e : Event} {senderKey : IdentityKey} {t : Text}
    {err : DecryptError} (h : r.accept e senderKey t = .error err) : err.kind ≠ .input := by
  rcases accept_eq_error h with ⟨fault, rfl⟩ | hkind | ⟨type, fault, rfl⟩
  · simp [DecryptError.kind]
  · simp [hkind]
  · simp [DecryptError.kind]

/-- No failure on a message is the fault of the event's content. -/
theorem kind_ne_input_of_course {r : Receiver} {sender : UserId} {env : Envelope}
    {answer : Except DecryptError Text} {calls : List Call} {err : DecryptError}
    (h : Course r sender env answer calls) (herr : answer = .error err) : err.kind ≠ .input := by
  cases h
  all_goals cases herr
  all_goals simp [DecryptError.kind]

/-- An event whose content opens is not refused for its content. -/
theorem kind_ne_input_of_opened {r : Receiver} {e : Event} {env : Envelope} {err : DecryptError}
    (hopen : Envelope.ofContent r.ownKey e.content = .ok env)
    (h : (r.decrypt e).answer = .error err) : err.kind ≠ .input := by
  rw [(decrypt_of_opened hopen).1] at h
  rcases bind_eq_error_iff.mp h with hplain | ⟨t, -, haccept⟩
  · exact kind_ne_input_of_course (r.plaintext_course e.sender env) hplain
  · exact kind_ne_input_of_accept haccept

/-- An input error is that of content which does not open. -/
theorem answer_input_iff {r : Receiver} {e : Event} {err : DecryptError} :
    (r.decrypt e).answer = .error err ∧ err.kind = .input ↔
      Envelope.ofContent r.ownKey e.content = .error err := by
  cases hopen : Envelope.ofContent r.ownKey e.content with
  | ok env =>
    refine iff_of_false ?_ nofun
    exact fun ⟨hanswer, hkind⟩ => kind_ne_input_of_opened hopen hanswer hkind
  | error err' =>
    rw [(decrypt_of_unopened hopen).1, Except.error.injEq, Except.error.injEq]
    refine and_iff_left_of_imp fun heq => ?_
    rw [← heq]
    exact Envelope.kind_of_ofContent hopen

/-- A decryption fails with an input error exactly if something is held against the content of the
event, and the error is that of the first objection. Any other receiver with our identity key answers so
to any event with this content, and nothing happens but that the decryption begins. -/
theorem input_errors (r : Receiver) (e : Event) :
    (∀ err, (r.decrypt e).answer = .error err ∧ err.kind = .input ↔
      (Envelope.objections r.ownKey e.content).First err) ∧
    (∀ (r' : Receiver) (e' : Event), r'.ownKey = r.ownKey → e'.content = e.content →
      ∀ err, err.kind = .input →
        ((r'.decrypt e').answer = .error err ↔ (r.decrypt e).answer = .error err)) ∧
    ∀ err, (r.decrypt e).answer = .error err → err.kind = .input →
      (r.decrypt e).receiver = r ∧
        (r.decrypt e).notices = [.began e.sender r.device.deviceId] := by
  refine ⟨fun err => ?_, fun r' e' hkey hcontent err hkind => ?_, fun err hanswer hkind => ?_⟩
  · exact answer_input_iff.trans (Envelope.decides_ofContent r.ownKey e.content err)
  · have hsame : (r'.decrypt e').answer = .error err ∧ err.kind = .input ↔
        (r.decrypt e).answer = .error err ∧ err.kind = .input := by
      rw [answer_input_iff, answer_input_iff, hkey, hcontent]
    simpa [hkind] using hsame
  · have hopen := answer_input_iff.mp ⟨hanswer, hkind⟩
    simp [decrypt_eq, hopen]

/-- An event of another algorithm, without a sender key and with a group message. -/
def groupEvent : Event where
  sender := ⟨"@alice:localhost"⟩
  type := "m.room.encrypted"
  id := none
  content := .object [("algorithm", .string "m.megolm.v1.aes-sha2"), ("ciphertext", .string "")]

/-- The event is refused for its algorithm and for nothing else, whatever sessions the receiver has. -/
theorem input_errors_of_group :
    (withTwoKeys.decrypt groupEvent).answer =
        .error (.unsupportedAlgorithm "m.megolm.v1.aes-sha2") ∧
      (∀ store sink, ({ withTwoKeys with store, sink }.decrypt groupEvent).answer =
        .error (.unsupportedAlgorithm "m.megolm.v1.aes-sha2")) ∧
      (withTwoKeys.decrypt groupEvent).receiver = withTwoKeys ∧
      (withTwoKeys.decrypt groupEvent).notices =
        [.began ⟨"@alice:localhost"⟩ ⟨"BOBDEVICE"⟩] := by
  obtain ⟨hiff, hsame, hkept⟩ := withTwoKeys.input_errors groupEvent
  have htag : EncryptedContent.TagForm "m.megolm.v1.aes-sha2" groupEvent.content :=
    EncryptedContent.algorithmOf?_eq_some_iff.mp rfl
  have hfirst : (Envelope.objections withTwoKeys.ownKey groupEvent.content).First
      (.unsupportedAlgorithm "m.megolm.v1.aes-sha2") :=
    .later (Objection.raise_silent_iff.mpr fun hnone => hnone _ htag)
      (.here ⟨"m.megolm.v1.aes-sha2", htag, by decide, rfl⟩)
  have hanswer := ((hiff _).mpr hfirst).1
  refine ⟨hanswer, fun store sink => ?_, hkept _ hanswer rfl⟩
  exact (hsame { withTwoKeys with store, sink } groupEvent rfl rfl _ rfl).mpr hanswer

end Receiver

end OlmReceiver
