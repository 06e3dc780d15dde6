import OlmReceiver.Proofs.Oblivious
import OlmReceiver.Proofs.RoundTrip

/-!
# The log tells nothing of the plaintext

A decryption logs the span that it opens, then what became of the message and its sessions, and last
whether the content of the payload was kept raw. Only the last of these follows the plaintext. Two
messages that differ in nothing but the plaintext are therefore logged alike, but for that one entry,
which is logged exactly if raw content is delivered, and which tells the type of the payload alone.
-/

namespace OlmReceiver

open Ratchet (Session Message)

/-! ## Entries of the log -/

/-- An entry of the log: a span that is opened, or an event. -/
structure LogEntry where
  isSpan : Bool
  level : Level
  message : String
  fields : List (String × String)
deriving DecidableEq

namespace LogEntry

/-- The span of the decryption of an event. -/
def span (sender : UserId) (device : DeviceId) : LogEntry :=
  ⟨true, .debug, "decrypt_olm_event", [("sender", sender.value), ("device", device.value)]⟩

/-- What an entry says of content that is kept raw. -/
def rawMessage : String :=
  "Keeping olm payload content of unknown type raw"

/-- The entry for content of an unknown type. -/
def raw (type : String) : LogEntry :=
  ⟨false, .debug, rawMessage, [("event_type", type)]⟩

end LogEntry

namespace Notice

/-- How a notice is logged. -/
def entry (n : Notice) : LogEntry :=
  ⟨n.isSpan, n.level, n.message, n.fields⟩

/-- Whether a notice tells of a message and its sessions, neither of the beginning of the decryption nor
of the payload at its end. -/
def isOfMessage : Notice → Bool
  | .began .. | .keptRaw _ => false
  | _ => true

/-- A text is told from another by the first character of what it begins with. -/
theorem append_ne_of_head {a b c : String} {x y : Char} (ha : a.toList.head? = some x)
    (hc : c.toList.head? = some y) (hne : x ≠ y) : a ++ b ≠ c := by
  rintro rfl
  rw [String.toList_append, List.head?_append, ha] at hc
  exact hne (Option.some.inj hc)

/-- No notice on a message says what is said of content that is kept raw. -/
theorem message_ne_rawMessage {n : Notice} (h : n.isOfMessage = true) :
    n.message ≠ LogEntry.rawMessage := by
  unfold message LogEntry.rawMessage
  cases n with
  | began sender device => cases h
  | keptRaw type => cases h
  | matchingSessionDesync sender key id => exact append_ne_of_head rfl rfl (by decide)
  | normalMessageDesync sender key => exact append_ne_of_head rfl rfl (by decide)
  | sessionNotStored key id error => exact append_ne_of_head rfl rfl (by decide)
  | _ =>
    dsimp only
    decide

/-- No notice on a message is logged as a span. -/
theorem isSpan_of_isOfMessage {n : Notice} (h : n.isOfMessage = true) : n.isSpan = false := by
  cases n with
  | began sender device => cases h
  | _ => rfl

end Notice

/-! ## Messages put in the place of others -/

/-- An event that carries one message carries another once that is put in its place. -/
theorem Event.carrying_withOwnBody (sender : UserId) (senderKey recipient : IdentityKey)
    (type : MessageType) (m m' : Message) :
    (carrying sender senderKey recipient type m).withOwnBody recipient m'.encode =
      carrying sender senderKey recipient type m' := by
  simp only [carrying, toRecipient, encrypted, withOwnBody, EncryptedContent.toJson_olm]
  simp [EncryptedContent.withOwnBody, Ciphertext.withOwnBody, RecipientCiphertext.withBody,
    Json.mapNamed, RecipientCiphertext.toEntry, RecipientCiphertext.ofMessage]

/-! ## Notices on a message -/

namespace Trial

/-- A trial of a normal message tells of its sessions. -/
theorem isOfMessage_ofNormal (body : String) (sessions : List Session) :
    ∀ n ∈ (ofNormal body sessions).notices, n.isOfMessage = true := by
  induction sessions with
  | nil => simp [ofNormal]
  | cons s rest ih =>
    simp only [ofNormal, Session.decrypt]
    cases s.attempt body with
    | ok t => simp [Notice.isOfMessage]
    | error err => exact List.forall_mem_cons.mpr ⟨rfl, ih⟩

/-- A trial of a pre-key message tells of its sessions. -/
theorem isOfMessage_ofPreKey (body : String) (sessions : List Session) :
    ∀ n ∈ (ofPreKey body sessions).notices, n.isOfMessage = true := by
  induction sessions with
  | nil => simp [ofPreKey]
  | cons s rest ih =>
    simp only [ofPreKey, Session.decrypt]
    cases s.matchesBody body with
    | error err => simp
    | ok claimed =>
      cases claimed with
      | false => exact ih
      | true =>
        cases s.attempt body with
        | ok t => simp [Notice.isOfMessage]
        | error err => simp [Notice.isOfMessage]

/-- A trial tells of its sessions. -/
theorem isOfMessage_ofMessage (type : MessageType) (body : String) (sessions : List Session) :
    ∀ n ∈ (ofMessage type body sessions).notices, n.isOfMessage = true := by
  cases type with
  | preKey => exact isOfMessage_ofPreKey body sessions
  | normal => exact isOfMessage_ofNormal body sessions

end Trial

namespace Receiver

/-- A trial, if there is one, tells of its sessions. -/
theorem isOfMessage_tryStored (r : Receiver) (env : Envelope) :
    ∀ n ∈ (r.tryStored env).notices, n.isOfMessage = true := by
  cases hreads : r.store.faults.failReads with
  | true => simp [tryStored_of_failReads hreads]
  | false =>
    rw [notices_tryStored hreads]
    exact Trial.isOfMessage_ofMessage env.type env.body (r.sessions env.senderKey)

theorem isOfMessage_keepSession (r : Receiver) (key : IdentityKey) (session : Session) :
    ∀ n ∈ ((Script.keepSession key session).run r).notices, n.isOfMessage = true := by
  rw [Script.run_keepSession]
  rcases r.store.add key session with ⟨_ | _, store⟩
  · simp [Notice.isOfMessage]
  · simp

theorem isOfMessage_decryptWithNew (r : Receiver) (sender : UserId) (env : Envelope) :
    ∀ n ∈ (r.decryptWithNew sender env).notices, n.isOfMessage = true := by
  rw [decryptWithNew_eq]
  rcases Bootstrap.ofBody r.account env.body with ⟨err | session, account⟩
  · simp [Notice.isOfMessage]
  · have hkept := isOfMessage_keepSession { r with account } env.senderKey session.advance
    dsimp only
    cases session.attempt env.body with
    | error err =>
      refine List.forall_mem_append.mpr ⟨List.forall_mem_cons.mpr ⟨rfl, hkept⟩, ?_⟩
      exact List.forall_mem_singleton.mpr rfl
    | ok t => exact List.forall_mem_cons.mpr ⟨rfl, hkept⟩

theorem isOfMessage_afterTrial (r : Receiver) (sender : UserId) (env : Envelope)
    (verdict : Verdict) :
    ∀ n ∈ (r.afterTrial sender env verdict).notices, n.isOfMessage = true := by
  cases verdict with
  | decrypted t => simp [afterTrial_eq]
  | refused id => simp [afterTrial_eq, Notice.isOfMessage]
  | unclaimed =>
    rw [afterTrial_eq]
    dsimp only
    cases env.type with
    | preKey => exact r.isOfMessage_decryptWithNew sender env
    | normal => simp [Notice.isOfMessage]

/-- Until there is a plaintext, the notices are those on the message. -/
theorem isOfMessage_plaintext (r : Receiver) (sender : UserId) (env : Envelope) :
    ∀ n ∈ (r.plaintext sender env).notices, n.isOfMessage = true := by
  have htried := r.isOfMessage_tryStored env
  rw [plaintext_eq]
  rcases htry : r.tryStored env with ⟨err | verdict, r', notices⟩
  all_goals rw [htry] at htried
  · exact htried
  · exact List.forall_mem_append.mpr ⟨htried, r'.isOfMessage_afterTrial sender env verdict⟩

/-- The notices on the message of an event, if it opens. -/
def messageNotices (r : Receiver) (e : Event) : List Notice :=
  match Envelope.ofContent r.ownKey e.content with
  | .error _ => []
  | .ok env => (r.plaintext e.sender env).notices

theorem isOfMessage_messageNotices (r : Receiver) (e : Event) :
    ∀ n ∈ r.messageNotices e, n.isOfMessage = true := by
  unfold messageNotices
  cases Envelope.ofContent r.ownKey e.content with
  | error err => simp
  | ok env => exact r.isOfMessage_plaintext e.sender env

/-- A decryption tells that it begins, what became of the message, and what of the payload. -/
theorem notices_decrypt (r : Receiver) (e : Event) :
    (r.decrypt e).notices =
      .began e.sender r.device.deviceId :: r.messageNotices e ++
        acceptNotices (r.decrypt e).answer := by
  rw [decrypt_eq, messageNotices]
  cases Envelope.ofContent r.ownKey e.content with
  | error err => rfl
  | ok env =>
    dsimp only
    rcases r.plaintext e.sender env with ⟨err | t, r', notices⟩
    · exact (List.append_nil _).symm
    · rfl

/-- Messages that differ in nothing but the plaintext fare alike, so that the notices on them are the
same. -/
theorem messageNotices_withOwnBody (r : Receiver) (e : Event) {body body' x : String}
    (h : TwinBodies body body' x) :
    r.messageNotices (e.withOwnBody r.ownKey body') =
      r.messageNotices (e.withOwnBody r.ownKey body) := by
  rcases Envelope.ofContent_withOwnBody r.ownKey e.content with ⟨err, herr⟩ | ⟨key, type, hok⟩
  · simp only [messageNotices, Event.withOwnBody, herr]
  · simp only [messageNotices, Event.withOwnBody, hok]
    rw [h.plaintext r e.sender]
    rfl

/-! ## The log of a decryption -/

/-- What the decryption of an event logs. -/
def logged (r : Receiver) (e : Event) : List LogEntry :=
  (r.decrypt e).notices.map Notice.entry

/-- What an event with this plaintext logs besides the entries on its message: the span that comes first,
and last an entry with the type of the payload, exactly if raw content is delivered. Nothing else is
reported either, whatever of the notices on the message the log leaves out. -/
structure LogsAround (r : Receiver) (e : Event) (plaintext : String) (told : List Notice) :
    Prop where
  raw (d : DecryptedEvent) (hanswer : (r.decrypt e).answer = .ok d)
    (hraw : d.content.isUnknown = true) :
    ∃ p : Payload, Wire.ofText (Text.ofString plaintext) = .ok p ∧
      (p.sender = e.sender ∧ p.recipient = r.device.userId ∧
        p.recipientKeys.ed25519 = r.ownFingerprint) ∧
      r.registry.parse p.type p.content = .ok d.content ∧
      (r.decrypt e).notices = .began e.sender r.device.deviceId :: told ++ [.keptRaw p.type] ∧
      r.logged e =
        .span e.sender r.device.deviceId :: told.map Notice.entry ++ [.raw p.type]
  other (hanswer : ∀ d, (r.decrypt e).answer = .ok d → d.content.isUnknown = false) :
    (r.decrypt e).notices = .began e.sender r.device.deviceId :: told ∧
      r.logged e = .span e.sender r.device.deviceId :: told.map Notice.entry

/-- What is logged besides the entries on the message follows from the payload. -/
theorem logsAround {r : Receiver} {e : Event} {plaintext : String}
    (haccept : ∀ d, (r.decrypt e).answer = .ok d →
      ∃ senderKey, r.accept e senderKey (Text.ofString plaintext) = .ok d) :
    r.LogsAround e plaintext (r.messageNotices e) where
  raw d hanswer hraw := by
    obtain ⟨senderKey, hd⟩ := haccept d hanswer
    obtain ⟨p, hread, hauthentic, content, hparse, rfl⟩ := accept_eq_ok_iff.mp hd
    have hlast : acceptNotices (r.decrypt e).answer = [.keptRaw p.type] := by
      rw [hanswer]
      exact if_pos hraw
    have hnotices := r.notices_decrypt e
    rw [hlast] at hnotices
    refine ⟨p, hread, hauthentic, hparse, hnotices, ?_⟩
    rw [logged, hnotices, List.map_append]
    rfl
  other hanswer := by
    have hlast : acceptNotices (r.decrypt e).answer = [] := by
      cases h : (r.decrypt e).answer with
      | error err => rfl
      | ok d => simp [acceptNotices, hanswer d h]
    have hnotices := r.notices_decrypt e
    rw [hlast, List.append_nil] at hnotices
    refine ⟨hnotices, ?_⟩
    rw [logged, hnotices]
    rfl

/-- An event is delivered only if its plaintext is accepted. -/
theorem exists_accept_of_decrypt {r : Receiver} {e : Event} {body : String} {m : Message}
    (hbody : Message.decode body = .ok m) {d : DecryptedEvent}
    (h : (r.decrypt (e.withOwnBody r.ownKey body)).answer = .ok d) :
    ∃ senderKey,
      r.accept (e.withOwnBody r.ownKey body) senderKey (Text.ofString m.plaintext) = .ok d := by
  rcases Envelope.ofContent_withOwnBody r.ownKey e.content with ⟨err, herr⟩ | ⟨key, type, hok⟩
  · obtain ⟨hanswer, -⟩ := decrypt_of_unopened (r := r) (e := e.withOwnBody r.ownKey body) (herr body)
    rw [hanswer] at h
    cases h
  · obtain ⟨hanswer, -⟩ := decrypt_of_opened (r := r) (e := e.withOwnBody r.ownKey body) (hok body)
    rw [hanswer] at h
    obtain ⟨t, ht, hd⟩ := bind_eq_ok_iff.mp h
    rcases TwinBodies.answer_cases hbody hbody r e.sender with ⟨err, herr, -⟩ | ⟨hplain, -⟩
    · exact absurd (herr.symm.trans ht) (by simp)
    · obtain rfl := Except.ok.inj (hplain.symm.trans ht)
      exact ⟨key, hd⟩

/-- Of two events that differ in the plaintext of the message for us and in nothing else, both log the
same span and the same entries on the message. The notices behind these entries are the same as well,
with the causes of the errors in them. Beyond these either logs one last entry exactly if it delivers
raw content, and of the plaintext that entry tells the type of the payload alone. -/
theorem logged_oblivious (r : Receiver) (e : Event) {body body' : String} {m : Message} {x : String}
    (hbody : Message.decode body = .ok m)
    (hbody' : Message.decode body' = .ok { m with plaintext := x }) :
    ∃ told : List Notice,
      (∀ n ∈ told, n.entry.isSpan = false ∧ n.entry.message ≠ LogEntry.rawMessage) ∧
        r.LogsAround (e.withOwnBody r.ownKey body) m.plaintext told ∧
        r.LogsAround (e.withOwnBody r.ownKey body') x told := by
  have hsame := r.messageNotices_withOwnBody e ⟨m, hbody, hbody'⟩
  refine ⟨r.messageNotices (e.withOwnBody r.ownKey body), fun n hn => ?_, ?_, ?_⟩
  · have htold := r.isOfMessage_messageNotices _ n hn
    exact ⟨Notice.isSpan_of_isOfMessage htold, Notice.message_ne_rawMessage htold⟩
  · exact logsAround fun d hd => exists_accept_of_decrypt hbody hd
  · rw [← hsame]
    exact logsAround fun d hd => exists_accept_of_decrypt hbody' hd

/-- A message for a one-time key that nobody has used, with this plaintext. -/
def saying (plaintext : String) : Event :=
  .carrying ⟨"@alice:localhost"⟩ ⟨"ALICEKEY"⟩ withTwoKeys.ownKey .preKey
    ⟨"S7", some "OTK7", plaintext⟩

/-- A message that says nothing is logged as the greeting is, but for the type of the greeting. -/
theorem logged_oblivious_of_greeting :
    ∃ hello, Text.ofString hello = Wire.toText greeting ∧
      ∃ told, (withTwoKeys.decrypt (saying "")).notices =
          .began ⟨"@alice:localhost"⟩ ⟨"BOBDEVICE"⟩ :: told ∧
        (withTwoKeys.decrypt (saying hello)).notices =
          .began ⟨"@alice:localhost"⟩ ⟨"BOBDEVICE"⟩ :: told ++ [.keptRaw "m.greeting"] ∧
        withTwoKeys.logged (saying "") =
          .span ⟨"@alice:localhost"⟩ ⟨"BOBDEVICE"⟩ :: told.map Notice.entry ∧
        withTwoKeys.logged (saying hello) =
          .span ⟨"@alice:localhost"⟩ ⟨"BOBDEVICE"⟩ :: told.map Notice.entry ++
            [.raw "m.greeting"] := by
  obtain ⟨hello, htext⟩ := Wire.isUtf8_toText greeting
  obtain ⟨told, -, hnothing, hgreeting⟩ := withTwoKeys.logged_oblivious (saying "")
    (Message.decode_encode ⟨"S7", some "OTK7", ""⟩)
    (Message.decode_encode ⟨"S7", some "OTK7", hello⟩)
  rw [saying, Event.carrying_withOwnBody] at hnothing hgreeting
  have hunanswered : ∀ d, (withTwoKeys.decrypt (saying "")).answer = .ok d →
      d.content.isUnknown = false := by
    have hrefused : (withTwoKeys.decrypt (saying "")).answer.isOk = false := by decide +kernel
    intro d hd
    rw [hd] at hrefused
    cases hrefused
  obtain ⟨hnotices, hlogged⟩ := hnothing.other hunanswered
  have hnew : withTwoKeys.Bootstraps ⟨⟨"ALICEKEY"⟩, .preKey,
      Message.encode ⟨"S7", some "OTK7", hello⟩⟩ ⟨"S7", some "OTK7", hello⟩ "OTK7" :=
    { type := rfl
      body := Message.decode_encode _
      unclaimed := fun s hs => absurd hs List.not_mem_nil
      named := rfl
      unused := by decide }
  have hdelivered := decrypt_of_yields (r := withTwoKeys) (p := greeting) ⟨rfl, rfl, rfl⟩
    legible_greeting rfl rfl htext (.inr ⟨"OTK7", hnew, rfl, rfl⟩)
  obtain ⟨p, hread, -, -, htold⟩ := hgreeting.raw _ hdelivered rfl
  have hsame : greeting = p := by
    rw [htext, Payload.ofText_toText legible_greeting] at hread
    exact Except.ok.inj hread
  rw [← hsame] at htold
  exact ⟨hello, htext, told, hnotices, htold.1, hlogged, htold.2⟩

end Receiver

end OlmReceiver
