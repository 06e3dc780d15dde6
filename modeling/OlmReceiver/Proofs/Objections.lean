import OlmReceiver.Proofs.Decryption
import OlmReceiver.Proofs.Ladder
import OlmReceiver.Proofs.Payload
import OlmReceiver.Proofs.RoundTrip

/-!
# What is held against a plaintext

A plaintext is held against the transport and against our own identity before its content is parsed.
Of the five things that may be wrong with it, any may be wrong together; the answer is the first of
them in a fixed order, and the content comes last. A parser is therefore of no consequence until the
payload is known to be authentic, whatever the registry has it do.

Nothing is assumed of the plaintext or of the registry.
-/

namespace OlmReceiver

namespace Objection

/-- What is found is not what is expected. -/
def mismatch {α : Type} (expected found : α) (error : α → α → DecryptError) : Objection :=
  raise (found ≠ expected) (error expected found)

/-- The plaintext is no payload. -/
def unreadable (t : Text) : Objection :=
  against (fun fault => (Wire.ofText t : Except Json.Fault Payload) = .error fault)
    fun fault err => err = .malformedPayload fault

/-- What is held against the payload that a plaintext is. -/
def ofPayload (t : Text) : (Payload → Objection) → Objection :=
  against fun p => Wire.ofText t = .ok p

/-- The type of the payload is registered, and its parser rejects the content. -/
def rejected (registry : ContentRegistry) (p : Payload) : Objection :=
  against (fun fault => ∃ parser, registry.parser? p.type = some parser ∧
    parser p.content = .error fault) fun fault err => err = .malformedContent p.type fault

variable {t : Text} {p : Payload}

/-- Nothing is held against what is expected. -/
theorem mismatch_silent_iff {α : Type} [DecidableEq α] {expected found : α}
    {error : α → α → DecryptError} :
    (mismatch expected found error).Silent ↔ found = expected :=
  raise_silent_iff.trans Decidable.not_not

/-- A payload is not held to be none. -/
theorem unreadable_silent (h : Wire.ofText t = .ok p) : (unreadable t).Silent :=
  against_silent (by simp [h]) _

/-- Against a plaintext that reads, that is what is held against its payload. -/
theorem ofPayload_of_read (h : Wire.ofText t = .ok p) (o : Payload → Objection) :
    ofPayload t o = o p :=
  against_eq (by simp [h, eq_comm]) o

end Objection

namespace Payload

open Objection Ladder

/-- A payload is refused for the first identity that does not match. -/
theorem decides_authenticate (p : Payload) (sender user : UserId) (key : FingerprintKey) :
    Decides
      [mismatch sender p.sender .senderMismatch, mismatch user p.recipient .recipientMismatch,
        mismatch key p.recipientKeys.ed25519 .recipientKeyMismatch]
      (p.authenticate sender user key) :=
  .guard (fun _ => .guard (fun _ => .guard (fun _ => decides_nil ()) _) _) _

/-- Content is refused if its type has a parser that rejects it. -/
theorem decides_parseContent (p : Payload) (registry : ContentRegistry) :
    Decides [rejected registry p] (p.parseContent registry) := by
  unfold parseContent ContentRegistry.parse rejected
  cases hparser : registry.parser? p.type with
  | none => exact (decides_nil _).cons_of_silent (against_silent (by simp) _)
  | some parser =>
    cases hcontent : parser p.content with
    | ok content =>
      simp only [hcontent]
      exact (decides_nil _).cons_of_silent (against_silent (by simp [hcontent]) _)
    | error fault =>
      simp only [hcontent]
      exact decides_cons_of_raised (fun err => by simp [against, hcontent]) _

end Payload

namespace Receiver

open Objection Ladder
open Ratchet (Message)

/-- What is held against a plaintext without a look at its content: it is no payload, or names a sender,
a recipient or a recipient's key other than those that it should. -/
def identityObjections (r : Receiver) (e : Event) (t : Text) : Ladder :=
  [unreadable t,
    ofPayload t fun p => mismatch e.sender p.sender .senderMismatch,
    ofPayload t fun p => mismatch r.device.userId p.recipient .recipientMismatch,
    ofPayload t fun p => mismatch r.ownFingerprint p.recipientKeys.ed25519 .recipientKeyMismatch]

/-- What is held against a plaintext; its content comes last. -/
def objections (r : Receiver) (e : Event) (t : Text) : Ladder :=
  r.identityObjections e t ++ [ofPayload t (rejected r.registry)]

/-- A plaintext is refused for the first objection to it. -/
theorem decides_accept (r : Receiver) (e : Event) (senderKey : IdentityKey) (t : Text) :
    (r.objections e t).Decides (r.accept e senderKey t) := by
  unfold accept objections identityObjections
  cases hread : (Wire.ofText t : Except Json.Fault Payload) with
  | error fault =>
    exact decides_cons_of_raised (fun err => by simp [unreadable, against, hread]) _
  | ok p =>
    simp only [ofPayload_of_read hread]
    refine Decides.cons_of_silent ?_ (unreadable_silent hread)
    refine (p.decides_authenticate e.sender r.device.userId r.ownFingerprint).bind fun _ _ => ?_
    exact (p.decides_parseContent r.registry).bind_ok _

/-- Without a look at the content, nothing is held against authentic payloads and against nothing
else. -/
theorem silent_identityObjections_iff {r : Receiver} {e : Event} {t : Text} :
    (∀ o ∈ r.identityObjections e t, o.Silent) ↔
      ∃ p : Payload, Wire.ofText t = .ok p ∧
        (p.sender = e.sender ∧ p.recipient = r.device.userId ∧
          p.recipientKeys.ed25519 = r.ownFingerprint) := by
  simp only [identityObjections, List.forall_mem_cons]
  cases hread : (Wire.ofText t : Except Json.Fault Payload) with
  | error fault =>
    refine ⟨fun h => absurd ⟨fault, hread, rfl⟩ (h.1 _), ?_⟩
    rintro ⟨p, ⟨⟩, -⟩
  | ok p =>
    simp only [ofPayload_of_read hread, mismatch_silent_iff, Except.ok.injEq, exists_eq_left']
    refine ⟨fun ⟨_, hsender, huser, hkey, _⟩ => ⟨hsender, huser, hkey⟩, ?_⟩
    rintro ⟨hsender, huser, hkey⟩
    exact ⟨unreadable_silent hread, hsender, huser, hkey, nofun⟩

/-- No objection to the identities speaks of the content. -/
theorem ne_malformedContent_of_first {r : Receiver} {e : Event} {t : Text} {err : DecryptError}
    (h : (r.identityObjections e t).First err) (type : String) (fault : Json.Fault) :
    err ≠ .malformedContent type fault := by
  obtain ⟨o, hmem, ho⟩ := h.exists_mem
  simp only [identityObjections, List.mem_cons, List.not_mem_nil, or_false] at hmem
  rcases hmem with rfl | rfl | rfl | rfl
  · obtain ⟨fault', -, rfl⟩ := ho
    exact nofun
  all_goals
    obtain ⟨p, -, -, rfl⟩ := ho
    exact nofun

/-- What is answered to a plaintext, by what is held against it. -/
structure Judged (r : Receiver) (e : Event) (senderKey : IdentityKey) (t : Text)
    (answer : Except DecryptError DecryptedEvent) : Prop where
  /-- A refusal is the first objection that applies. -/
  refused (err : DecryptError) : answer = .error err ↔ (r.objections e t).First err
  /-- Without an objection, the payload is delivered with its content as parsed. -/
  delivered (hnone : ∀ o ∈ r.objections e t, o.Silent) :
    ∃ (p : Payload) (content : EventContent), Wire.ofText t = .ok p ∧
      r.registry.parse p.type p.content = .ok content ∧
      answer = .ok ⟨e, senderKey, p.sender, p.senderDevice, p.keys, p.recipient, p.recipientKeys,
        p.type, content⟩
  /-- A payload that is not authentic is refused alike under every registry. -/
  anyRegistry {err : DecryptError} (hfirst : (r.identityObjections e t).First err)
    (registry : ContentRegistry) :
    answer = .error err ∧ { r with registry }.accept e senderKey t = .error err
  /-- Malformed content is content of an authentic payload, of a registered type, that the parser of
  this type rejects. -/
  malformed {type : String} {fault : Json.Fault}
    (hanswer : answer = .error (.malformedContent type fault)) :
    ∃ (p : Payload) (parser : ContentParser), Wire.ofText t = .ok p ∧ p.type = type ∧
      (p.sender = e.sender ∧ p.recipient = r.device.userId ∧
        p.recipientKeys.ed25519 = r.ownFingerprint) ∧
      r.registry.parser? type = some parser ∧ parser p.content = .error fault
  /-- Content of a type that is not registered is delivered raw. -/
  raw {p : Payload} (hread : Wire.ofText t = .ok p) (hsender : p.sender = e.sender)
    (hrecipient : p.recipient = r.device.userId)
    (hkey : p.recipientKeys.ed25519 = r.ownFingerprint)
    (hunregistered : r.registry.isRegistered p.type = false) :
    answer = .ok ⟨e, senderKey, p.sender, p.senderDevice, p.keys, p.recipient, p.recipientKeys,
      p.type, .unknown p.content⟩

/-- Every plaintext is judged as it is said to be. -/
theorem judged_accept (r : Receiver) (e : Event) (senderKey : IdentityKey) (t : Text) :
    r.Judged e senderKey t (r.accept e senderKey t) where
  refused := r.decides_accept e senderKey t
  delivered hnone := by
    cases hanswer : r.accept e senderKey t with
    | error err =>
      have hfirst := (r.decides_accept e senderKey t err).mp hanswer
      exact absurd hfirst (forall_silent_iff.mp hnone err)
    | ok d =>
      obtain ⟨p, hread, -, content, hparse, rfl⟩ := accept_eq_ok_iff.mp hanswer
      exact ⟨p, content, hread, hparse, rfl⟩
  anyRegistry hfirst registry :=
    ⟨(r.decides_accept e senderKey t _).mpr (hfirst.append _),
      (decides_accept { r with registry } e senderKey t _).mpr (hfirst.append _)⟩
  malformed {type fault} hanswer := by
    rcases first_append_iff.mp ((r.decides_accept e senderKey t _).mp hanswer) with
      hfirst | ⟨hsilent, hfirst⟩
    · exact absurd rfl (ne_malformedContent_of_first hfirst type fault)
    · obtain ⟨p, hread, hauthentic⟩ := silent_identityObjections_iff.mp hsilent
      obtain ⟨o, hmem, ho⟩ := hfirst.exists_mem
      obtain rfl := List.mem_singleton.mp hmem
      rw [ofPayload_of_read hread] at ho
      obtain ⟨fault', ⟨parser, hparser, hcontent⟩, heq⟩ := ho
      cases heq
      exact ⟨p, parser, hread, rfl, hauthentic, hparser, hcontent⟩
  raw {p} hread hsender hrecipient hkey hunregistered := by
    have hparser : r.registry.parser? p.type = none := by
      simpa [ContentRegistry.isRegistered] using hunregistered
    have hparse : r.registry.parse p.type p.content = .ok (.unknown p.content) := by
      simp [ContentRegistry.parse, hparser, ContentParser.raw]
    exact accept_eq_ok_iff.mpr ⟨p, hread, ⟨hsender, hrecipient, hkey⟩, _, hparse, rfl⟩

/-- Every plaintext is answered by the first of five objections that applies to it, the last of which is
that of the parser of its content, and otherwise delivered; so is an event by its plaintext. -/
theorem plaintext_judged (r : Receiver) (e : Event) :
    (∀ senderKey t, r.Judged e senderKey t (r.accept e senderKey t)) ∧
      ∀ env t, Envelope.ofContent r.ownKey e.content = .ok env →
        (r.plaintext e.sender env).answer = .ok t →
        (r.decrypt e).answer = r.accept e env.senderKey t := by
  refine ⟨r.judged_accept e, fun env t hopen hplain => ?_⟩
  rw [(decrypt_of_opened hopen).1, hplain]
  rfl

/-- A receiver of another user, whose registry refuses every greeting. -/
def unfriendly : Receiver :=
  { withTwoKeys with
    device := ⟨⟨"@carol:localhost"⟩, ⟨"CAROLDEVICE"⟩⟩
    registry := ContentRegistry.empty.register "m.greeting" fun _ => .error .shape }

/-- A message in which somebody else hands on a plaintext. -/
def relaying (plaintext : String) : Event :=
  .carrying ⟨"@mallory:localhost"⟩ ⟨"MALLORYKEY"⟩ unfriendly.ownKey .preKey
    ⟨"S7", some "OTK7", plaintext⟩

/-- The relayed greeting has the wrong sender, the wrong recipient and content that is refused. It is
refused for its sender, whether or not its content is registered. -/
theorem plaintext_judged_of_relayed :
    ∃ hello, Text.ofString hello = Wire.toText greeting ∧
      (unfriendly.decrypt (relaying hello)).answer =
        .error (.senderMismatch ⟨"@mallory:localhost"⟩ ⟨"@alice:localhost"⟩) ∧
      ∀ registry,
        { unfriendly with registry }.accept (relaying hello) ⟨"MALLORYKEY"⟩ (Wire.toText greeting) =
          .error (.senderMismatch ⟨"@mallory:localhost"⟩ ⟨"@alice:localhost"⟩) := by
  obtain ⟨hello, htext⟩ := Wire.isUtf8_toText greeting
  obtain ⟨hjudged, hdecrypt⟩ := unfriendly.plaintext_judged (relaying hello)
  have hread : Wire.ofText (Wire.toText greeting) = .ok greeting :=
    Payload.ofText_toText legible_greeting
  have hsender : (⟨"@alice:localhost"⟩ : UserId) ≠ ⟨"@mallory:localhost"⟩ := by decide
  have hfirst : (unfriendly.identityObjections (relaying hello) (Wire.toText greeting)).First
      (.senderMismatch ⟨"@mallory:localhost"⟩ ⟨"@alice:localhost"⟩) :=
    .later (unreadable_silent hread) (.here ⟨greeting, hread, hsender, rfl⟩)
  have hnew : unfriendly.Bootstraps ⟨⟨"MALLORYKEY"⟩, .preKey,
      Message.encode ⟨"S7", some "OTK7", hello⟩⟩ ⟨"S7", some "OTK7", hello⟩ "OTK7" :=
    { type := rfl
      body := Message.decode_encode _
      unclaimed := fun s hs => absurd hs List.not_mem_nil
      named := rfl
      unused := by decide }
  have hplain : (unfriendly.plaintext (relaying hello).sender ⟨⟨"MALLORYKEY"⟩, .preKey,
      Message.encode ⟨"S7", some "OTK7", hello⟩⟩).answer = .ok (Wire.toText greeting) :=
    plaintext_eq_ok_iff_yields.mpr
      ⟨rfl, _, hnew.body, .inr ⟨"OTK7", hnew, rfl, rfl⟩, htext.symm⟩
  have hrefused := (hjudged ⟨"MALLORYKEY"⟩ (Wire.toText greeting)).anyRegistry hfirst
  refine ⟨hello, htext, ?_, fun registry => (hrefused registry).2⟩
  exact (hdecrypt _ _ (Envelope.ofContent_toRecipient ..) hplain).trans
    (hrefused unfriendly.registry).1

end Receiver

end OlmReceiver
