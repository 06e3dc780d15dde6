import OlmReceiver.Base64
import OlmReceiver.Identity

/-!
# Messages of the transparent ratchet

The ratchet of this library keeps no secrets: the body of a message is base64 of a small JSON text
that names the session able to decrypt it, the one-time key that a pre-key message was built from,
and the plaintext. Which session a message belongs to is thus decided by the message alone, and
every law about choosing sessions can be stated about it.
-/

namespace OlmReceiver.Ratchet

/-- Why a body is no message of this ratchet. -/
inductive Malformation where
  /-- The body is not base64. -/
  | base64 (fault : Base64.Fault)
  /-- The decoded bytes are not the wanted JSON. The words of the JSON reader are not kept. -/
  | json
  /-- A reason given in words. -/
  | other (reason : String)
deriving DecidableEq

/-- What a malformation says. -/
def Malformation.message : Malformation → String
  | .base64 fault => fault.message
  | .json => "json"
  | .other reason => reason

/-- Why a session or an account refuses a message. -/
inductive Error where
  | malformed (why : Malformation)
  | wrongSession (sessionId : String)
  | poisoned (sessionId : String)
  | unknownOneTimeKey (key : String)
  | notPreKey
  | persistFailed
deriving DecidableEq

/-- What a ratchet error says. -/
def Error.message : Error → String
  | .malformed why => "not a fake olm ciphertext: " ++ why.message
  | .wrongSession id => "session " ++ id ++ " cannot decrypt this message"
  | .poisoned id => "session " ++ id ++ " is poisoned"
  | .unknownOneTimeKey key => "unknown one-time key " ++ key
  | .notPreKey => "message is not a pre-key message"
  | .persistFailed => "account storage unavailable"

/-- What the body of a message stands for; only pre-key messages name a one-time key. -/
structure Message where
  sessionId : String
  oneTimeKey : Option String
  plaintext : String
deriving DecidableEq

instance : Wire Message where
  shape := .record (.required "session_id" .string (.optional "one_time_key" .string
    (.required "plaintext" .string .done)))
  ofValue | (session, key, plaintext, ()) => ⟨session, key, plaintext⟩
  toValue m := (m.sessionId, m.oneTimeKey, m.plaintext, ())

namespace Message

/-- The body that a message travels as. -/
def encode (m : Message) : String :=
  Text.ofAscii (Base64.encode (Wire.toText m))

/-- The message that a body stands for. -/
def decode (body : String) : Except Error Message :=
  match Base64.decode (Text.ofString body) with
  | .error fault => .error (.malformed (.base64 fault))
  | .ok t =>
    match Wire.ofText t with
    | .error _ => .error (.malformed .json)
    | .ok m => .ok m

end Message

end OlmReceiver.Ratchet
