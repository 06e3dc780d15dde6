import OlmReceiver.Event.Encrypted
import OlmReceiver.Event.Payload
import OlmReceiver.Proofs.ShapeGrammar

/-!
# What is read as an event

The exact grammar of what travels: events, their encrypted contents, the entries of those, and
payloads. Each is an object with all its fields, every one alone under its names, or an array that
lists the fields in their order and nothing else. Members that are no fields do not matter in an
object.

Every other value is refused, and what is read says all that the fields hold.
-/

namespace OlmReceiver

open Json (Members Absent Sole)

namespace Wire

variable {α : Type} [Wire α]

/-- A format is read off exactly the values that denote it. -/
theorem ofJson?_eq_some_iff {v : Json} {a : α} :
    Wire.ofJson? v = some a ↔ (Wire.shape α).Denotes v (Wire.toValue a) := by
  refine Iff.trans ?_ ((Wire.shape α).finds v (Wire.toValue a))
  rw [Wire.ofJson?, Option.map_eq_some_iff]
  constructor
  · rintro ⟨y, hy, rfl⟩
    rw [Wire.toValue_ofValue]
    exact hy
  · intro h
    exact ⟨_, h, Wire.ofValue_toValue a⟩

end Wire

/-- A string, or null for none. -/
def Json.ofString? : Option String → Json
  | none => .null
  | some x => .string x

/-- The value of a ciphertext. -/
def Ciphertext.raw : Ciphertext → Json
  | .recipients entries => .object entries
  | .group body => .string body

/-- An event is an object with a sender, a type, any content and an id that may be absent or null,
or the list of the four with the id in front of the content. -/
inductive Event.Form (e : Event) : Json → Prop
  | object {ms : Members} (sender : Sole ["sender"] ms (.string e.sender.value))
    (type : Sole ["type"] ms (.string e.type))
    (id : (Absent ["event_id"] ms ∧ e.id = none) ∨ Sole ["event_id"] ms (.ofString? e.id))
    (content : Sole ["content"] ms e.content) : Form e (.object ms)
  | listed : Form e
    (.array [.string e.sender.value, .string e.type, .ofString? e.id, e.content])

/-- Encrypted content is an object with a tag, and a sender key and a ciphertext under one of their
two names each, or the list of the three. -/
inductive EncryptedContent.Form (c : EncryptedContent) : Json → Prop
  | object {ms : Members} (algorithm : Sole ["algorithm"] ms (.string c.algorithm))
    (senderKey : Sole ["sender_key", "senderKey"] ms (.string c.senderKey.value))
    (ciphertext : Sole ["ciphertext", "ciphertexts"] ms c.ciphertext.raw) : Form c (.object ms)
  | listed : Form c (.array [.string c.algorithm, .string c.senderKey.value, c.ciphertext.raw])

/-- An algorithm tag is a member of an object, or stands in a list alone. -/
inductive EncryptedContent.TagForm (tag : String) : Json → Prop
  | object {ms : Members} (algorithm : Sole ["algorithm"] ms (.string tag)) :
    TagForm tag (.object ms)
  | listed : TagForm tag (.array [.string tag])

/-- The entry for one recipient is an object with any number and a string, or the list of the two. -/
inductive RecipientCiphertext.Form (c : RecipientCiphertext) : Json → Prop
  | object {ms : Members} (type : Sole ["type"] ms (.number c.type))
    (body : Sole ["body"] ms (.string c.body)) : Form c (.object ms)
  | listed : Form c (.array [.number c.type, .string c.body])

/-- The signing key of one party is a member of an object, or stands in a list alone. -/
inductive SigningKeys.Form (k : SigningKeys) : Json → Prop
  | object {ms : Members} (ed25519 : Sole ["ed25519"] ms (.string k.ed25519.value)) :
    Form k (.object ms)
  | listed : Form k (.array [.string k.ed25519.value])

/-- A payload is an object with all its fields, of which two hold signing keys in either form, or
the list of the seven. -/
inductive Payload.Form (p : Payload) : Json → Prop
  | object {ms : Members} {k k' : Json}
    (sender : Sole ["sender"] ms (.string p.sender.value))
    (senderDevice : Sole ["sender_device"] ms (.string p.senderDevice.value))
    (keys : Sole ["keys"] ms k) (hkeys : p.keys.Form k)
    (recipient : Sole ["recipient"] ms (.string p.recipient.value))
    (recipientKeys : Sole ["recipient_keys"] ms k') (hrecipientKeys : p.recipientKeys.Form k')
    (type : Sole ["type"] ms (.string p.type)) (content : Sole ["content"] ms p.content) :
    Form p (.object ms)
  | listed {k k' : Json} (hkeys : p.keys.Form k) (hrecipientKeys : p.recipientKeys.Form k') :
    Form p (.array [.string p.sender.value, .string p.senderDevice.value, k,
      .string p.recipient.value, k', .string p.type, p.content])

theorem nullOr_string_iff {v : Json} {x : Option String} :
    Wire.NullOr (fun v x => Wire.Shape.string.Denotes v x) v x ↔ v = .ofString? x := by
  cases x with
  | none => rfl
  | some x =>
    constructor
    · exact fun h => h.2
    · rintro rfl
      exact ⟨Json.noConfusion, rfl⟩

theorem Event.ofJson?_eq_some_iff {v : Json} {e : Event} :
    Wire.ofJson? v = some e ↔ e.Form v := by
  rw [Wire.ofJson?_eq_some_iff]
  constructor
  · rintro (⟨ms, rfl, ⟨_, hsender, rfl⟩, ⟨_, htype, rfl⟩, hid, ⟨_, hcontent, rfl⟩, -⟩ |
      ⟨_, rfl, _, _, rfl, rfl, _, _, rfl, rfl, hitems⟩)
    · refine .object hsender htype (hid.imp_right ?_) hcontent
      rintro ⟨w, hsole, hw⟩
      exact nullOr_string_iff.mp hw ▸ hsole
    · rcases hitems with ⟨-, -, _, _, h, -⟩ | ⟨_, _, rfl, hid, _, _, rfl, rfl, rfl⟩
      · cases h
      · cases nullOr_string_iff.mp hid
        exact .listed
  · rintro (⟨hsender, htype, hid, hcontent⟩ | _)
    · refine .inl ⟨_, rfl, ⟨_, hsender, rfl⟩, ⟨_, htype, rfl⟩, hid.imp_right fun h => ?_,
        ⟨_, hcontent, rfl⟩, trivial⟩
      exact ⟨_, h, nullOr_string_iff.mpr rfl⟩
    · exact .inr ⟨_, rfl, _, _, rfl, rfl, _, _, rfl, rfl, .inr ⟨_, _, rfl, nullOr_string_iff.mpr rfl,
        _, _, rfl, rfl, rfl⟩⟩

/-- A ciphertext as an object or a string. -/
def Ciphertext.parts : Ciphertext → Members ⊕ String
  | .recipients entries => .inl entries
  | .group body => .inr body

theorem Ciphertext.denotes_iff {v : Json} {c : Ciphertext} :
    Wire.Shape.objectOrString.Denotes v c.parts ↔ v = c.raw := by
  cases c <;> rfl

theorem EncryptedContent.ofJson?_eq_some_iff {v : Json} {c : EncryptedContent} :
    Wire.ofJson? v = some c ↔ c.Form v := by
  have hparts : Wire.toValue c = (c.algorithm, c.senderKey.value, c.ciphertext.parts, ()) := by
    obtain ⟨_, _, _ | _⟩ := c <;> rfl
  rw [Wire.ofJson?_eq_some_iff, hparts]
  constructor
  · rintro (⟨ms, rfl, ⟨_, halgorithm, rfl⟩, ⟨_, hkey, rfl⟩, ⟨_, hciphertext, hw⟩, -⟩ |
      ⟨_, rfl, _, _, rfl, rfl, _, _, rfl, rfl, _, _, rfl, hw, rfl⟩)
    · exact .object halgorithm hkey (Ciphertext.denotes_iff.mp hw ▸ hciphertext)
    · cases Ciphertext.denotes_iff.mp hw
      exact .listed
  · rintro (⟨halgorithm, hkey, hciphertext⟩ | _)
    · exact .inl ⟨_, rfl, ⟨_, halgorithm, rfl⟩, ⟨_, hkey, rfl⟩,
        ⟨_, hciphertext, Ciphertext.denotes_iff.mpr rfl⟩, trivial⟩
    · exact .inr ⟨_, rfl, _, _, rfl, rfl, _, _, rfl, rfl, _, _, rfl,
        Ciphertext.denotes_iff.mpr rfl, rfl⟩

theorem RecipientCiphertext.ofJson?_eq_some_iff {v : Json} {c : RecipientCiphertext} :
    Wire.ofJson? v = some c ↔ c.Form v := by
  rw [Wire.ofJson?_eq_some_iff]
  constructor
  · rintro (⟨ms, rfl, ⟨_, htype, rfl⟩, ⟨_, hbody, rfl⟩, -⟩ |
      ⟨_, rfl, _, _, rfl, rfl, _, _, rfl, rfl, rfl⟩)
    · exact .object htype hbody
    · exact .listed
  · rintro (⟨htype, hbody⟩ | _)
    · exact .inl ⟨_, rfl, ⟨_, htype, rfl⟩, ⟨_, hbody, rfl⟩, trivial⟩
    · exact .inr ⟨_, rfl, _, _, rfl, rfl, _, _, rfl, rfl, rfl⟩

/-- A signing key is denoted by its object or by a list of it alone. -/
theorem SigningKeys.denotes_iff {v : Json} {k : SigningKeys} :
    SigningKeys.shape.Denotes v (k.ed25519.value, ()) ↔ k.Form v := by
  constructor
  · rintro (⟨ms, rfl, ⟨_, hkey, rfl⟩, -⟩ | ⟨_, rfl, _, _, rfl, rfl, rfl⟩)
    · exact .object hkey
    · exact .listed
  · rintro (⟨hkey⟩ | _)
    · exact .inl ⟨_, rfl, ⟨_, hkey, rfl⟩, trivial⟩
    · exact .inr ⟨_, rfl, _, _, rfl, rfl, rfl⟩

theorem Payload.ofJson?_eq_some_iff {v : Json} {p : Payload} :
    Wire.ofJson? v = some p ↔ p.Form v := by
  rw [Wire.ofJson?_eq_some_iff]
  constructor
  · rintro (⟨ms, rfl, ⟨_, hsender, rfl⟩, ⟨_, hdevice, rfl⟩, ⟨_, hkeys, hk⟩, ⟨_, hrecipient, rfl⟩,
        ⟨_, hrecipientKeys, hk'⟩, ⟨_, htype, rfl⟩, ⟨_, hcontent, rfl⟩, -⟩ |
      ⟨_, rfl, _, _, rfl, rfl, _, _, rfl, rfl, _, _, rfl, hk, _, _, rfl, rfl, _, _, rfl, hk', _, _, rfl,
        rfl, _, _, rfl, rfl, rfl⟩)
    · exact .object hsender hdevice hkeys (SigningKeys.denotes_iff.mp hk) hrecipient hrecipientKeys
        (SigningKeys.denotes_iff.mp hk') htype hcontent
    · exact .listed (SigningKeys.denotes_iff.mp hk) (SigningKeys.denotes_iff.mp hk')
  · rintro (⟨hsender, hdevice, hkeys, hk, hrecipient, hrecipientKeys, hk', htype, hcontent⟩ |
      ⟨hk, hk'⟩)
    · exact .inl ⟨_, rfl, ⟨_, hsender, rfl⟩, ⟨_, hdevice, rfl⟩,
        ⟨_, hkeys, SigningKeys.denotes_iff.mpr hk⟩, ⟨_, hrecipient, rfl⟩,
        ⟨_, hrecipientKeys, SigningKeys.denotes_iff.mpr hk'⟩, ⟨_, htype, rfl⟩,
        ⟨_, hcontent, rfl⟩, trivial⟩
    · exact .inr ⟨_, rfl, _, _, rfl, rfl, _, _, rfl, rfl, _, _, rfl, SigningKeys.denotes_iff.mpr hk,
        _, _, rfl, rfl, _, _, rfl, SigningKeys.denotes_iff.mpr hk', _, _, rfl, rfl, _, _, rfl, rfl, rfl⟩

theorem EncryptedContent.algorithmOf?_eq_some_iff {v : Json} {tag : String} :
    algorithmOf? v = some tag ↔ TagForm tag v := by
  have hvalue : algorithmOf? v = some tag ↔
      (Wire.Shape.record (.required "algorithm" .string .done)).Denotes v (tag, ()) := by
    refine Iff.trans ?_ ((Wire.Shape.record (.required "algorithm" .string .done)).finds v (tag, ()))
    rw [algorithmOf?, Option.map_eq_some_iff]
    exact ⟨fun ⟨_, hread, heq⟩ => heq ▸ hread, fun hread => ⟨_, hread, rfl⟩⟩
  rw [hvalue]
  constructor
  · rintro (⟨ms, rfl, ⟨_, halgorithm, rfl⟩, -⟩ | ⟨_, rfl, _, _, rfl, rfl, rfl⟩)
    · exact .object halgorithm
    · exact .listed
  · rintro (⟨halgorithm⟩ | _)
    · exact .inl ⟨_, rfl, ⟨_, halgorithm, rfl⟩, trivial⟩
    · exact .inr ⟨_, rfl, _, _, rfl, rfl, rfl⟩

/-- Events, encrypted contents, their entries and payloads are read off exactly the values of their
forms, as what these hold; so is an algorithm tag read alone, and a name off a string. -/
theorem Wire.exact_grammar :
    (∀ (v : Json) (e : Event), Wire.ofJson? v = some e ↔ e.Form v) ∧
      (∀ (v : Json) (c : EncryptedContent), Wire.ofJson? v = some c ↔ c.Form v) ∧
      (∀ (v : Json) (c : RecipientCiphertext), Wire.ofJson? v = some c ↔ c.Form v) ∧
      (∀ (v : Json) (p : Payload), Wire.ofJson? v = some p ↔ p.Form v) ∧
      (∀ (v : Json) (k : SigningKeys), Wire.ofJson? v = some k ↔ k.Form v) ∧
      (∀ (v : Json) (tag : String),
        EncryptedContent.algorithmOf? v = some tag ↔ EncryptedContent.TagForm tag v) ∧
      ∀ (v : Json) (u : UserId), Wire.ofJson? v = some u ↔ v = .string u.value :=
  ⟨fun _ _ => Event.ofJson?_eq_some_iff, fun _ _ => EncryptedContent.ofJson?_eq_some_iff,
    fun _ _ => RecipientCiphertext.ofJson?_eq_some_iff, fun _ _ => Payload.ofJson?_eq_some_iff,
    fun _ _ => Wire.ofJson?_eq_some_iff.trans SigningKeys.denotes_iff,
    fun _ _ => EncryptedContent.algorithmOf?_eq_some_iff, fun _ _ => Wire.ofJson?_eq_some_iff⟩

/-- Content that names its sender key twice, each time in another way, is refused. -/
example : (Wire.ofJson? (.object [("algorithm", .string olmAlgorithm), ("ciphertext", .object []),
    ("senderKey", .string "K"), ("sender_key", .string "K")]) : Option EncryptedContent) = none :=
  rfl

end OlmReceiver
