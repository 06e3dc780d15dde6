import OlmReceiver.DecryptError
import OlmReceiver.Event.Encrypted

/-!
# Envelopes

The envelope of an event is what its content says before anything is decrypted: who holds the
session, and the ratchet message for our own identity key. Opening it looks at nothing but the
content and that key, and every refusal is an input error.
-/

namespace OlmReceiver

/-- The ratchet message for us, and the identity key that it was sent with. -/
structure Envelope where
  senderKey : IdentityKey
  type : MessageType
  body : String
deriving DecidableEq

namespace Envelope

/-- Reads a format from a value, refusing other shapes as invalid encrypted content. -/
def readContent {α : Type} [Wire α] (v : Json) : Except DecryptError α :=
  match Wire.ofJson? v with
  | some a => .ok a
  | none => .error (.invalidEncryptedContent .shape)

/-- The recipient map of Olm content, which is read in full only if its algorithm tag is Olm's. -/
def readOlm (content : Json) : Except DecryptError (IdentityKey × Json.Members) :=
  match EncryptedContent.algorithmOf? content with
  | none => .error (.invalidEncryptedContent .shape)
  | some algorithm =>
    if algorithm ≠ olmAlgorithm then .error (.unsupportedAlgorithm algorithm)
    else do
      let encrypted : EncryptedContent ← readContent content
      match encrypted.ciphertext with
      | .group _ => .error .incorrectEncryptedContentType
      | .recipients entries => .ok (encrypted.senderKey, entries)

/-- The entry of a recipient map for one identity key. -/
def readEntry (key : IdentityKey) (entries : Json.Members) :
    Except DecryptError (MessageType × String) :=
  match Dictionary.get? key.value entries with
  | none => .error .notEncryptedForMe
  | some entry => do
    let own : RecipientCiphertext ← readContent entry
    match MessageType.ofNumber? own.type with
    | none => .error (.unsupportedOlmMessageType own.type)
    | some type => .ok (type, own.body)

/-- Opens the content of an event for the holder of an identity key. -/
def ofContent (ownKey : IdentityKey) (content : Json) : Except DecryptError Envelope := do
  let (senderKey, entries) ← readOlm content
  let (type, body) ← readEntry ownKey entries
  .ok ⟨senderKey, type, body⟩

end Envelope

end OlmReceiver
