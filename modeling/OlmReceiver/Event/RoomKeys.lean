import OlmReceiver.Identity

/-!
# Room keys

Devices exchange the keys of group sessions in events of three types: a key is shared, asked for,
or passed on. Each content has its wire format.
-/

namespace OlmReceiver

/-- A group session key shared with this device. -/
structure RoomKey where
  algorithm : String
  roomId : String
  sessionId : String
  sessionKey : String
deriving DecidableEq

/-- Names the group session whose key is requested. -/
structure RequestedKey where
  algorithm : String
  roomId : String
  senderKey : IdentityKey
  sessionId : String
deriving DecidableEq

/-- Another device asks for a group session key, or takes its request back, naming no key then. -/
structure RoomKeyRequest where
  action : String
  requestingDevice : DeviceId
  requestId : String
  body : Option RequestedKey
deriving DecidableEq

/-- A group session key passed on by another device, with the devices that it came through. -/
structure ForwardedRoomKey where
  algorithm : String
  roomId : String
  senderKey : IdentityKey
  sessionId : String
  sessionKey : String
  claimedEd25519 : String
  forwardingChain : List IdentityKey
deriving DecidableEq

/-- The event type of group session keys. -/
def RoomKey.eventType : String := "m.room_key"

instance : Wire RoomKey where
  shape := .record (.required "algorithm" .string (.required "room_id" .string
    (.required "session_id" .string (.required "session_key" .string .done))))
  ofValue | (algorithm, room, session, key, ()) => ⟨algorithm, room, session, key⟩
  toValue c := (c.algorithm, c.roomId, c.sessionId, c.sessionKey, ())

instance : Wire RequestedKey where
  shape := .record (.required "algorithm" .string (.required "room_id" .string
    (.required "sender_key" .string (.required "session_id" .string .done))))
  ofValue | (algorithm, room, sender, session, ()) => ⟨algorithm, room, ⟨sender⟩, session⟩
  toValue c := (c.algorithm, c.roomId, c.senderKey.value, c.sessionId, ())

/-- The event type of key requests. -/
def RoomKeyRequest.eventType : String := "m.room_key_request"

instance : Wire RoomKeyRequest where
  shape := .record (.required "action" .string (.required "requesting_device_id" .string
    (.required "request_id" .string (.optional "body" (Wire.shape RequestedKey) .done))))
  ofValue
    | (action, device, request, body, ()) =>
      ⟨action, ⟨device⟩, request, body.map Wire.ofValue⟩
  toValue c := (c.action, c.requestingDevice.value, c.requestId, c.body.map Wire.toValue, ())
  ofValue_toValue c := by obtain ⟨_, _, _, _ | _⟩ := c <;> rfl
  toValue_ofValue v := by obtain ⟨_, _, _, _ | _, _⟩ := v <;> rfl

/-- The event type of forwarded keys. -/
def ForwardedRoomKey.eventType : String := "m.forwarded_room_key"

instance : Wire ForwardedRoomKey where
  shape := .record (.required "algorithm" .string (.required "room_id" .string
    (.required "sender_key" .string (.required "session_id" .string
      (.required "session_key" .string (.required "sender_claimed_ed25519_key" .string
        (.repeated "forwarding_curve25519_key_chain" .string .done)))))))
  ofValue
    | (algorithm, room, sender, session, key, claimed, chain, ()) =>
      ⟨algorithm, room, ⟨sender⟩, session, key, claimed, chain.map .mk⟩
  toValue c :=
    (c.algorithm, c.roomId, c.senderKey.value, c.sessionId, c.sessionKey, c.claimedEd25519,
      c.forwardingChain.map IdentityKey.value, ())
  ofValue_toValue c := by
    have : IdentityKey.mk ∘ IdentityKey.value = id := rfl
    simp [this]
  toValue_ofValue v := by
    have : IdentityKey.value ∘ IdentityKey.mk = id := rfl
    simp [this]

end OlmReceiver
