import OlmReceiver.Proofs.Envelope
import OlmReceiver.Receiver.Accept

/-!
# Which payloads are accepted

A plaintext is accepted exactly when it reads as a payload that is from the transport's sender and
for our user and signing key, and the registry parses its content. What is then delivered repeats
the payload. No refusal at this stage speaks of a session that is out of sync.
-/

namespace OlmReceiver

namespace Payload

/-- A payload is authentic when all three identities match. -/
theorem authenticate_eq_ok_iff {p : Payload} {sender user : UserId} {key : FingerprintKey} :
    p.authenticate sender user key = .ok () ↔
      p.sender = sender ∧ p.recipient = user ∧ p.recipientKeys.ed25519 = key := by
  unfold authenticate
  by_cases hsender : p.sender = sender
  · by_cases huser : p.recipient = user
    · by_cases hkey : p.recipientKeys.ed25519 = key
      · simp [hsender, huser, hkey]
      · simp [hsender, huser, hkey]
    · simp [hsender, huser]
  · simp [hsender]

/-- The content of a payload is what the registry makes of it. -/
theorem parseContent_eq_ok_iff {p : Payload} {registry : ContentRegistry} {content : EventContent} :
    p.parseContent registry = .ok content ↔ registry.parse p.type p.content = .ok content := by
  unfold parseContent
  cases registry.parse p.type p.content <;> simp

/-- A mismatch is a fault of authentication. -/
theorem kind_of_authenticate {p : Payload} {sender user : UserId} {key : FingerprintKey}
    {err : DecryptError} (h : p.authenticate sender user key = .error err) :
    err.kind = .authentication := by
  unfold authenticate at h
  split at h
  · cases h
    rfl
  · split at h
    · cases h
      rfl
    · split at h
      · cases h
        rfl
      · cases h

end Payload

namespace Receiver

/-- An accepted plaintext is an authentic payload whose content is parsed. -/
theorem accept_eq_ok_iff {r : Receiver} {e : Event} {senderKey : IdentityKey} {t : Text}
    {d : DecryptedEvent} :
    r.accept e senderKey t = .ok d ↔
      ∃ p : Payload, Wire.ofText t = .ok p ∧
        (p.sender = e.sender ∧ p.recipient = r.device.userId ∧
          p.recipientKeys.ed25519 = r.ownFingerprint) ∧
        ∃ content, r.registry.parse p.type p.content = .ok content ∧
          d = ⟨e, senderKey, p.sender, p.senderDevice, p.keys, p.recipient, p.recipientKeys, p.type,
            content⟩ := by
  unfold accept
  cases hread : (Wire.ofText t : Except Json.Fault Payload) with
  | error fault => simp
  | ok p =>
    simp only [Except.ok.injEq, exists_eq_left']
    refine bind_eq_ok_iff.trans ⟨?_, ?_⟩
    · rintro ⟨⟨⟩, hauthentic, hrest⟩
      obtain ⟨content, hcontent, hd⟩ := bind_eq_ok_iff.mp hrest
      refine ⟨Payload.authenticate_eq_ok_iff.mp hauthentic, content, ?_, ?_⟩
      · exact Payload.parseContent_eq_ok_iff.mp hcontent
      · exact (Except.ok.inj hd).symm
    · rintro ⟨hauthentic, content, hcontent, rfl⟩
      have hparsed := Payload.parseContent_eq_ok_iff.mpr hcontent
      exact ⟨(), Payload.authenticate_eq_ok_iff.mpr hauthentic,
        bind_eq_ok_iff.mpr ⟨content, hparsed, rfl⟩⟩

/-- A plaintext is refused as no payload, as not authentic, or for its content. -/
theorem accept_eq_error {r : Receiver} {e : Event} {senderKey : IdentityKey} {t : Text}
    {err : DecryptError} (h : r.accept e senderKey t = .error err) :
    (∃ fault, err = .malformedPayload fault) ∨ err.kind = .authentication ∨
      ∃ type fault, err = .malformedContent type fault := by
  unfold accept at h
  cases hread : (Wire.ofText t : Except Json.Fault Payload) with
  | error fault =>
    rw [hread] at h
    exact .inl ⟨fault, (Except.error.inj h).symm⟩
  | ok p =>
    rw [hread] at h
    cases hauthentic : p.authenticate e.sender r.device.userId r.ownFingerprint with
    | error err' =>
      have hkind := Payload.kind_of_authenticate hauthentic
      simp only [hauthentic, bind, Except.bind, Except.error.injEq] at h
      exact .inr (.inl (h ▸ hkind))
    | ok u =>
      simp only [hauthentic, bind, Except.bind, Payload.parseContent] at h
      cases hcontent : r.registry.parse p.type p.content with
      | error fault =>
        simp only [hcontent, Except.error.injEq] at h
        exact .inr (.inr ⟨p.type, fault, h.symm⟩)
      | ok content => simp [hcontent] at h

/-- No refusal of a plaintext asks for a new session. -/
theorem kind_ne_sessionDesync_of_accept {r : Receiver} {e : Event} {senderKey : IdentityKey}
    {t : Text} {err : DecryptError} (h : r.accept e senderKey t = .error err) :
    err.kind ≠ .sessionDesync := by
  rcases accept_eq_error h with ⟨fault, rfl⟩ | hkind | ⟨type, fault, rfl⟩
  · simp [DecryptError.kind]
  · simp [hkind]
  · simp [DecryptError.kind]

end Receiver

end OlmReceiver
