import OlmReceiver.Identity

/-!
# Messages

Contents that devices exchange besides room keys: nothing at all, a message to a room, or a
decision. Only a room message keeps the members that its format does not name.
-/

namespace OlmReceiver

/-- Content without information, which only moves a ratchet on. -/
structure Dummy where
deriving DecidableEq

/-- A message to a room, with all further members of its content. -/
structure RoomMessage where
  msgtype : String
  body : String
  extra : Json.Members

/-- A decision with its reason and the answers chosen. -/
structure Approval where
  reason : String
  schemaType : String
  answers : List String
deriving DecidableEq

/-- The event type of dummy content. -/
def Dummy.eventType : String := "m.dummy"

instance : Wire Dummy where
  shape := .record .done
  ofValue _ := ⟨⟩
  toValue _ := ()

/-- The event type of room messages. -/
def RoomMessage.eventType : String := "m.room.message"

instance : Wire RoomMessage where
  shape := .openRecord (.required "msgtype" .string (.required "body" .string .done))
  ofValue | ((msgtype, body, ()), extra) => ⟨msgtype, body, extra⟩
  toValue c := ((c.msgtype, c.body, ()), c.extra)

/-- The event type of approvals. -/
def Approval.eventType : String := "m.approval"

instance : Wire Approval where
  shape := .record (.required "dealReason" .string (.required "schema_type" .string
    (.required "org.matrix.msc3381.poll.response"
      (.record (.required "answers" (.list .string) .done)) .done)))
  ofValue | (reason, schema, (answers, ()), ()) => ⟨reason, schema, answers⟩
  toValue c := (c.reason, c.schemaType, (c.answers, ()), ())

end OlmReceiver
