import OlmReceiver.Base64
import OlmReceiver.DecryptError
import OlmReceiver.Event.Encrypted
import OlmReceiver.Event.Messages
import OlmReceiver.Event.Payload
import OlmReceiver.Event.Registry
import OlmReceiver.Event.RoomKeys
import OlmReceiver.Identity
import OlmReceiver.Json.Basic
import OlmReceiver.Json.Printer
import OlmReceiver.Json.Reader
import OlmReceiver.Json.Token
import OlmReceiver.Notice
import OlmReceiver.Number.Basic
import OlmReceiver.Number.Digits
import OlmReceiver.Number.Double
import OlmReceiver.Number.Literal
import OlmReceiver.Number.Power
import OlmReceiver.Number.Shortest
import OlmReceiver.Ordered.Dictionary
import OlmReceiver.Ordered.KeySet
import OlmReceiver.Ratchet.Account
import OlmReceiver.Ratchet.Message
import OlmReceiver.Ratchet.Session
import OlmReceiver.Receiver.Accept
import OlmReceiver.Receiver.Basic
import OlmReceiver.Receiver.Call
import OlmReceiver.Receiver.Decrypt
import OlmReceiver.Receiver.Envelope
import OlmReceiver.Receiver.Plaintext
import OlmReceiver.Receiver.Run
import OlmReceiver.Receiver.Script
import OlmReceiver.Receiver.Verdict
import OlmReceiver.Store.Basic
import OlmReceiver.Store.Faulty
import OlmReceiver.Store.Handles
import OlmReceiver.Text
import OlmReceiver.Unwedging
import OlmReceiver.Wire.Basic
import OlmReceiver.Wire.Shape
import OlmReceiver.Wire.Text
import OlmReceiver.Wire.Value
import OlmReceiver.Proofs.Call
import OlmReceiver.Proofs.Trial
import OlmReceiver.Proofs.Attempts
import OlmReceiver.Proofs.Course
import OlmReceiver.Proofs.Decryption
import OlmReceiver.Proofs.Envelope
import OlmReceiver.Proofs.Payload
import OlmReceiver.Proofs.Delivery
import OlmReceiver.Proofs.Desync
import OlmReceiver.Proofs.OneTimeKeys
import OlmReceiver.Proofs.Recording
import OlmReceiver.Proofs.Trust
import OlmReceiver.Proofs.Journal
import OlmReceiver.Proofs.Ending
import OlmReceiver.Proofs.PreKeyMessage
import OlmReceiver.Proofs.NormalMessage
import OlmReceiver.Proofs.Growth
import OlmReceiver.Proofs.Footprint
import OlmReceiver.Proofs.Resend
import OlmReceiver.Proofs.Interleaving
import OlmReceiver.Proofs.Confinement
import OlmReceiver.Proofs.Members
import OlmReceiver.Proofs.ContentFields
import OlmReceiver.Proofs.OwnEntry
import OlmReceiver.Proofs.Oblivious
import OlmReceiver.Proofs.Utf8
import OlmReceiver.Proofs.Base64
import OlmReceiver.Proofs.Numerals
import OlmReceiver.Proofs.JsonTokens
import OlmReceiver.Proofs.SkippedTokens
import OlmReceiver.Proofs.JsonText
import OlmReceiver.Proofs.WireText
import OlmReceiver.Proofs.RoundTrip
import OlmReceiver.Proofs.Queue
import OlmReceiver.Proofs.Dictionaries
import OlmReceiver.Proofs.SameState
import OlmReceiver.Proofs.FailedChecks
import OlmReceiver.Proofs.AlgorithmTag
import OlmReceiver.Proofs.FailedWrite
import OlmReceiver.Proofs.SinkChoice
import OlmReceiver.Proofs.StoreHistory
import OlmReceiver.Proofs.Sharing
import OlmReceiver.Proofs.LogSecrecy
import OlmReceiver.Proofs.WireValue
import OlmReceiver.Proofs.EventWire
import OlmReceiver.Proofs.Base64Canonical
import OlmReceiver.Proofs.RawText
import OlmReceiver.Proofs.KnownContents
import OlmReceiver.Proofs.SkippedText
import OlmReceiver.Proofs.FieldSlots
import OlmReceiver.Proofs.DirectReading
import OlmReceiver.Proofs.TextOfValue
import OlmReceiver.Proofs.ReadersAgree
import OlmReceiver.Proofs.ShapeGrammar
import OlmReceiver.Proofs.WireGrammar
import OlmReceiver.Proofs.Ladder
import OlmReceiver.Proofs.Objections
import OlmReceiver.Proofs.InputErrors
import OlmReceiver.Proofs.InjectedFaults
import OlmReceiver.Proofs.AuditTrail
import OlmReceiver.Proofs.Registration
import OlmReceiver.Proofs.Lossless
import OlmReceiver.Proofs.FiniteDoubles
import OlmReceiver.Proofs.Settling
import OlmReceiver.Proofs.UnknownMembers
import OlmReceiver.Proofs.AlikeTexts
import OlmReceiver.Proofs.Tolerance
import OlmReceiver.Proofs.CutNumerals
import OlmReceiver.Proofs.CutTexts
import OlmReceiver.Proofs.Truncation
