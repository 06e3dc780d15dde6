import OlmReceiver.Wire.Basic

/-!
# Users, devices and keys

Identifiers and public keys are strings that are compared exactly and ordered by code points. Each
kind has a type of its own, so that none stands where another is meant.
-/

namespace OlmReceiver

/-- A user, named like `@alice:example.com`. -/
structure UserId where
  value : String
deriving DecidableEq

/-- One device of a user. -/
structure DeviceId where
  value : String
deriving DecidableEq

/--
The long-term Curve25519 key of a device. Ciphertexts are addressed to identity keys, and stored
sessions are grouped by the identity key of their sender.
-/
structure IdentityKey where
  value : String
deriving DecidableEq

/-- The long-term Ed25519 signing key of a device, by which an authenticated payload names it. -/
structure FingerprintKey where
  value : String
deriving DecidableEq

instance : LT IdentityKey := ⟨fun a b => a.value < b.value⟩

instance : DecidableLT IdentityKey := fun a b => inferInstanceAs (Decidable (a.value < b.value))

/-- The public keys of a device. -/
structure IdentityKeys where
  ed25519 : FingerprintKey
  curve25519 : IdentityKey
deriving DecidableEq

/-- The device that receives: payloads name its user as their recipient. -/
structure LocalDevice where
  userId : UserId
  deviceId : DeviceId
deriving DecidableEq

instance : Wire UserId where
  shape := .string
  ofValue x := ⟨x⟩
  toValue u := u.value

instance : Wire IdentityKeys where
  shape := .record (.required "ed25519" .string (.required "curve25519" .string .done))
  ofValue | (e, c, ()) => ⟨⟨e⟩, ⟨c⟩⟩
  toValue k := (k.ed25519.value, k.curve25519.value, ())

instance : Wire LocalDevice where
  shape := .record (.required "user_id" .string (.required "device_id" .string .done))
  ofValue | (u, d, ()) => ⟨⟨u⟩, ⟨d⟩⟩
  toValue d := (d.userId.value, d.deviceId.value, ())

end OlmReceiver
