import OlmReceiver.Proofs.AlikeTexts
import OlmReceiver.Proofs.Oblivious
import OlmReceiver.Proofs.OwnEntry
import OlmReceiver.Proofs.RoundTrip

/-!
# Unknown members are tolerated

Peers may put members into a payload and into its content that this version does not know. Wherever a
record stands they make no difference: neither to what is read, off a value or off a text, nor to how
a message is decrypted. Room messages alone hand them on.

Tolerance goes as far as the fields do. The content of a payload is kept as raw JSON until its type is
known, so what stands in it is no unknown member of the payload.
-/

namespace OlmReceiver

open Json (Members Fault)
open Ratchet (Message)

/-- Alike values, and the texts of alike values, are read as the same value of a format, or all
refused. -/
structure Wire.ReadAlike (α : Type) [Wire α] : Prop where
  of_value : ∀ v v', (Wire.shape α).Alike v v' → (Wire.ofJson? v' : Option α) = Wire.ofJson? v
  of_text : ∀ v v', (Wire.shape α).Alike v v' →
    (Wire.ofText v'.toText : Except Fault α) = Wire.ofText v.toText

/-- A format whose fields are told apart tolerates members that are no fields. -/
theorem Wire.readAlike_of_distinct {α : Type} [Wire α] (hd : (Wire.shape α).isDistinct = true) :
    Wire.ReadAlike α where
  of_value _ _ := Wire.ofJson?_alike hd
  of_text _ _ := Wire.ofText_alike

namespace RoomMessage

/-- Whether a member of this name is a field of room messages. -/
def isField (name : String) : Bool :=
  name = "msgtype" || name = "body"

/-- What a room message is read off but for the members that it keeps. -/
def fields : Wire.Fields :=
  .required "msgtype" .string (.required "body" .string .done)

theorem accept_fields : fields.accept = isField := by
  funext name
  simp [fields, isField, Wire.Fields.accept, Wire.FieldName.accepts]

/-- Off objects that have the same fields the same room message is read but for what it keeps, which
is all the rest of each object, or none off both. -/
theorem ofJson?_alike {ms ms' : Members}
    (h : Wire.MembersAlike isField (fun _ v v' => v = v') ms ms') :
    (Wire.ofJson? (.object ms') : Option RoomMessage) =
      (Wire.ofJson? (.object ms)).map fun c : RoomMessage =>
        { c with extra := ms'.filter fun m => !isField m.1 } := by
  rw [← accept_fields] at h ⊢
  have hread : (Wire.shape RoomMessage).ofJson? (.object ms') =
      ((Wire.shape RoomMessage).ofJson? (.object ms)).map fun x =>
        (x.1, ms'.filter fun m => !fields.accept m.1) :=
    Wire.Shape.ofJson?_openRecord_alike (by decide)
      (h.mono fun name v v' (hv : v = v') => hv ▸ fields.alikeAt_refl name v)
  rw [Wire.ofJson?, Wire.ofJson?, hread, Option.map_map, Option.map_map]
  rfl

end RoomMessage

namespace Receiver

/-- Plaintexts that are read as the same payload are accepted alike. -/
theorem accept_of_ofText {t t' : Text}
    (h : (Wire.ofText t' : Except Fault Payload) = Wire.ofText t) (r : Receiver) (e : Event)
    (senderKey : IdentityKey) : r.accept e senderKey t' = r.accept e senderKey t := by
  unfold accept
  rw [h]

/-- An event is decrypted as another one is: with the same answer, up to the event that it repeats,
the same receiver afterwards and the same reports. -/
structure DecryptsAs (r : Receiver) (e e' : Event) : Prop where
  answer : (r.decrypt e').answer = (r.decrypt e).answer.map fun d => { d with source := e' }
  receiver : (r.decrypt e').receiver = (r.decrypt e).receiver
  notices : (r.decrypt e').notices = (r.decrypt e).notices

/-- Messages that differ in nothing but plaintexts which are read as the same payload are decrypted
alike. -/
theorem decryptsAs_of_ofText (r : Receiver) (e : Event) {body body' : String} {m : Message}
    {x : String} (hbody : Message.decode body = .ok m)
    (hbody' : Message.decode body' = .ok { m with plaintext := x })
    (hread : (Wire.ofText (Text.ofString x) : Except Fault Payload) =
      Wire.ofText (Text.ofString m.plaintext)) :
    r.DecryptsAs (e.withOwnBody r.ownKey body) (e.withOwnBody r.ownKey body') := by
  have hsender : (e.withOwnBody r.ownKey body').sender = (e.withOwnBody r.ownKey body).sender := rfl
  suffices hall : (r.decrypt (e.withOwnBody r.ownKey body')).answer =
      (r.decrypt (e.withOwnBody r.ownKey body)).answer.map
        (fun d => { d with source := e.withOwnBody r.ownKey body' }) ∧
      (r.decrypt (e.withOwnBody r.ownKey body')).receiver =
        (r.decrypt (e.withOwnBody r.ownKey body)).receiver ∧
      (r.decrypt (e.withOwnBody r.ownKey body')).notices =
        (r.decrypt (e.withOwnBody r.ownKey body)).notices from ⟨hall.1, hall.2.1, hall.2.2⟩
  rw [decrypt_eq, decrypt_eq, hsender]
  rcases Envelope.ofContent_withOwnBody r.ownKey e.content with ⟨err, herr⟩ | ⟨key, type, hok⟩
  · have hopen (body : String) :
        Envelope.ofContent r.ownKey (e.withOwnBody r.ownKey body).content = .error err := herr body
    rw [hopen body, hopen body']
    exact ⟨rfl, rfl, rfl⟩
  · have hopen (body : String) :
        Envelope.ofContent r.ownKey (e.withOwnBody r.ownKey body).content = .ok ⟨key, type, body⟩ :=
      hok body
    have htwin : TwinBodies body body' x := ⟨m, hbody, hbody'⟩
    have hself : TwinBodies body body m.plaintext := ⟨m, hbody, hbody⟩
    rw [hopen body, hopen body']
    dsimp only
    rw [htwin.plaintext, hself.plaintext]
    rcases r.plaintext (e.withOwnBody r.ownKey body).sender ⟨key, type, body⟩ with
      ⟨err | t, r', notices⟩
    · exact ⟨rfl, rfl, rfl⟩
    · have haccept := (accept_of_sender hsender r' key (Text.ofString x)).trans
        (congrArg _ (accept_of_ofText hread r' (e.withOwnBody r.ownKey body) key))
      have hnotices := (congrArg acceptNotices haccept).trans (acceptNotices_map_source _ _)
      exact ⟨haccept, rfl,
        congrArg (fun ns => .began e.sender r.device.deviceId :: notices ++ ns) hnotices⟩

/-- Members that are no fields make no difference to what is read and decrypted; room messages alone
keep them. -/
structure ToleratesUnknownMembers : Prop where
  payload : Wire.ReadAlike Payload
  roomKey : Wire.ReadAlike RoomKey
  roomKeyRequest : Wire.ReadAlike RoomKeyRequest
  forwardedRoomKey : Wire.ReadAlike ForwardedRoomKey
  dummy : Wire.ReadAlike Dummy
  approval : Wire.ReadAlike Approval
  /-- Room messages are told apart by what they keep, and only by that. -/
  roomMessage : ∀ ms ms' : Members,
    Wire.MembersAlike RoomMessage.isField (fun _ v v' => v = v') ms ms' →
    (Wire.ofJson? (.object ms') : Option RoomMessage) =
      (Wire.ofJson? (.object ms)).map fun c : RoomMessage =>
        { c with extra := ms'.filter fun m => !RoomMessage.isField m.1 }
  /-- A message with the text of one payload is decrypted as the same message with the text of an
  alike one. -/
  decrypt : ∀ (r : Receiver) (e : Event) (body body' : String) (m : Message) (x : String)
    (v v' : Json),
    (Wire.shape Payload).Alike v v' → Text.ofString m.plaintext = v.toText →
    Text.ofString x = v'.toText → Message.decode body = .ok m →
    Message.decode body' = .ok { m with plaintext := x } →
    r.DecryptsAs (e.withOwnBody r.ownKey body) (e.withOwnBody r.ownKey body')

/-- Unknown members are tolerated in payloads and in all contents but room messages, which keep
them. -/
theorem tolerates_unknown_members : ToleratesUnknownMembers where
  payload := Wire.readAlike_of_distinct (by decide)
  roomKey := Wire.readAlike_of_distinct (by decide)
  roomKeyRequest := Wire.readAlike_of_distinct (by decide)
  forwardedRoomKey := Wire.readAlike_of_distinct (by decide)
  dummy := Wire.readAlike_of_distinct (by decide)
  approval := Wire.readAlike_of_distinct (by decide)
  roomMessage _ _ := RoomMessage.ofJson?_alike
  decrypt r e _ _ m x v v' halike hplain hplain' hbody hbody' := by
    refine r.decryptsAs_of_ofText e hbody hbody' ?_
    rw [hplain, hplain']
    exact Wire.ofText_alike halike

/-- A payload with the given keys of both parties, and with further members in front. -/
def payloadWith (keys recipientKeys more : Members) : Json :=
  .object (more ++ [("sender", .string "@alice:localhost"), ("sender_device", .string "ALICEDEVICE"),
    ("keys", .object keys), ("recipient", .string "@bob:localhost"),
    ("recipient_keys", .object recipientKeys), ("type", .string "m.greeting"),
    ("content", .object [("times", .number (.ofNat 4))])])

/-- A payload without unknown members. -/
def payloadToday : Json :=
  payloadWith [("ed25519", .string "ALICESIG")] [("ed25519", .string "BOBSIG")] []

/-- The same payload with members that nobody knows yet, in three places. -/
def payloadLater : Json :=
  payloadWith [("curve25519", .null), ("ed25519", .string "ALICESIG")]
    [("ed25519", .string "BOBSIG"), ("since", .number (.ofNat 5))] [("via", .array [.object []])]

theorem alike_payloadLater : (Wire.shape Payload).Alike payloadToday payloadLater := by
  have hkeys : SigningKeys.shape.Alike (.object [("ed25519", .string "ALICESIG")])
      (.object [("curve25519", .null), ("ed25519", .string "ALICESIG")]) :=
    Wire.Shape.alike_object_of_filter_eq rfl
  have hrecipientKeys : SigningKeys.shape.Alike (.object [("ed25519", .string "BOBSIG")])
      (.object [("ed25519", .string "BOBSIG"), ("since", .number (.ofNat 5))]) :=
    Wire.Shape.alike_object_of_filter_eq rfl
  exact .added rfl (.keep rfl (.keep rfl (.keep hkeys (.keep rfl (.keep hrecipientKeys
    (.keep rfl (.keep rfl .nil)))))))

/-- The later payload is read as that of today, and a message with it uses up the same key. -/
theorem tolerates_unknown_members_of_payloadLater :
    (Wire.ofJson? payloadLater : Option Payload).isSome = true ∧
      (Wire.ofJson? payloadLater : Option Payload) = Wire.ofJson? payloadToday ∧
      ∃ x x', Text.ofString x = payloadToday.toText ∧ Text.ofString x' = payloadLater.toText ∧
        withTwoKeys.DecryptsAs
          ((preKeyEvent "OTK7").withOwnBody ⟨"BOBKEY"⟩ (Message.encode ⟨"S7", some "OTK7", x⟩))
          ((preKeyEvent "OTK7").withOwnBody ⟨"BOBKEY"⟩ (Message.encode ⟨"S7", some "OTK7", x'⟩)) := by
  obtain ⟨x, hx⟩ := payloadToday.isUtf8_toText
  obtain ⟨x', hx'⟩ := payloadLater.isUtf8_toText
  exact ⟨rfl, tolerates_unknown_members.payload.of_value _ _ alike_payloadLater, x, x', hx, hx',
    tolerates_unknown_members.decrypt withTwoKeys (preKeyEvent "OTK7") _ _ ⟨"S7", some "OTK7", x⟩
      x' _ _ alike_payloadLater hx hx' (Message.decode_encode _) (Message.decode_encode _)⟩

end Receiver

end OlmReceiver
