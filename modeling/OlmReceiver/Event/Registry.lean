import OlmReceiver.Event.Messages
import OlmReceiver.Event.RoomKeys

/-!
# Contents by event type

A registry names a parser for each event type that it knows. Content of any other type is no
failure: it is handed on as it came, so that newer event types still reach their reader.
-/

namespace OlmReceiver

/-- The content of a payload, as far as its type is known. -/
inductive EventContent where
  | roomKey (content : RoomKey)
  | roomKeyRequest (content : RoomKeyRequest)
  | forwardedRoomKey (content : ForwardedRoomKey)
  | dummy (content : Dummy)
  | roomMessage (content : RoomMessage)
  | approval (content : Approval)
  | unknown (raw : Json)

namespace EventContent

/-- Whether content was kept raw. -/
def isUnknown : EventContent → Bool
  | .unknown _ => true
  | _ => false

/-- Content as a value on the wire. -/
def toJson : EventContent → Json
  | .roomKey c => Wire.toJson c
  | .roomKeyRequest c => Wire.toJson c
  | .forwardedRoomKey c => Wire.toJson c
  | .dummy c => Wire.toJson c
  | .roomMessage c => Wire.toJson c
  | .approval c => Wire.toJson c
  | .unknown raw => raw

end EventContent

/-- Reads raw content of one event type. -/
abbrev ContentParser := Json → Except Json.Fault EventContent

namespace ContentParser

/-- The parser that reads a wire format; a value of another shape is refused. -/
def ofWire {α : Type} [Wire α] (wrap : α → EventContent) : ContentParser := fun raw =>
  match Wire.ofJson? raw with
  | some a => .ok (wrap a)
  | none => .error .shape

/-- The parser that keeps content raw. -/
def raw : ContentParser := fun v => .ok (.unknown v)

end ContentParser

/-- The parsers of the known event types. -/
structure ContentRegistry where
  parsers : Dictionary String ContentParser

namespace ContentRegistry

/-- The registry that knows no type. -/
def empty : ContentRegistry := ⟨[]⟩

/-- Makes a parser the one for an event type, in place of any earlier one. -/
def register (r : ContentRegistry) (eventType : String) (parser : ContentParser) :
    ContentRegistry :=
  ⟨Dictionary.insert eventType parser r.parsers⟩

/-- The parser for an event type. -/
def parser? (r : ContentRegistry) (eventType : String) : Option ContentParser :=
  Dictionary.get? eventType r.parsers

/-- Whether an event type is known. -/
def isRegistered (r : ContentRegistry) (eventType : String) : Bool :=
  (r.parser? eventType).isSome

/-- Reads content by the parser of its type, and keeps content of an unknown type raw. -/
def parse (r : ContentRegistry) (eventType : String) (content : Json) :
    Except Json.Fault EventContent :=
  match r.parser? eventType with
  | some parser => parser content
  | none => ContentParser.raw content

/-- The registry of the six known kinds of content. -/
def standard : ContentRegistry :=
  empty
    |>.register RoomKey.eventType (.ofWire .roomKey)
    |>.register RoomKeyRequest.eventType (.ofWire .roomKeyRequest)
    |>.register ForwardedRoomKey.eventType (.ofWire .forwardedRoomKey)
    |>.register Dummy.eventType (.ofWire .dummy)
    |>.register RoomMessage.eventType (.ofWire .roomMessage)
    |>.register Approval.eventType (.ofWire .approval)

/-- The last registration of a type decides. -/
theorem parser?_register (r : ContentRegistry) (t eventType : String) (p : ContentParser) :
    (r.register eventType p).parser? t = if t = eventType then some p else r.parser? t :=
  Dictionary.get?_insert t eventType p r.parsers

end ContentRegistry

end OlmReceiver
