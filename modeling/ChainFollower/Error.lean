import ChainFollower.Attribute.Basic
import ChainFollower.Json.Print
import ChainFollower.Number.Decimal
import ChainFollower.Text.Quoted

/-!
# Errors

`Complaint` lists the causes for which this library itself refuses a payload, and
`Complaint.message` holds all their wordings.  A `DecodeError` is a complaint, or a payload that is
no document at all; a document reader may also pass a complaint of a part on.  `TransportError` is
what stops a session.
-/

namespace ChainFollower

/-! ## Payloads -/

/-- Why a datum is refused. -/
inductive DatumFault
  /-- The document holds something other than a text. -/
  | notText (found : Json)
  /-- The text is neither hexadecimal nor base64. -/
  | notEncoded
  /-- The attribute is neither a text nor bytes. -/
  | notStored

/-- Why a point record is refused. -/
inductive PointFault
  | notRecord
  | symbolNotText
  | both
  | neither
  /-- The attribute can be no point. -/
  | kind (found : Attribute.Kind)
  deriving DecidableEq

/-- Why an attribute is refused. -/
inductive AttributeFault
  | wrongKind (expected found : Attribute.Kind)
  | badNumber (text : String) (fault : Decimal.Fault)
  | datumsNotMap
  deriving DecidableEq

/-- A cause for which a payload is refused. -/
inductive Complaint
  | unknownMethod (name : String)
  | unrecognizedShape
  | invalidPoint (fault : PointFault)
  | invalidInteger (text : String) (fault : Decimal.Fault)
  | invalidDatum (key : String) (fault : DatumFault)
  | missingField (name : String)
  | attribute (fault : AttributeFault)
  /-- A floating-point number stands where an exact integer must. -/
  | inexact (x : Binary64)

/-- The wording of a datum's fault. -/
def DatumFault.message : DatumFault → String
  | .notText found => "expected a string, got " ++ found.compact
  | .notEncoded => "neither hex nor base64"
  | .notStored => "expected S or B"

/-- The wording of a point's fault. -/
def PointFault.message : PointFault → String
  | .notRecord => "expected a keyed record"
  | .symbolNotText => "symbolic point must be a text string"
  | .both => "record carries both a symbol and a struct"
  | .neither => "record carries neither a symbol nor a struct"
  | .kind found => "attribute " ++ found.name ++ " is neither a symbol nor a struct"

/-- The wording of an attribute's fault. -/
def AttributeFault.message : AttributeFault → String
  | .wrongKind expected found => "expected " ++ expected.name ++ ", got " ++ found.name
  | .badNumber text fault => "bad number " ++ Text.quoted text ++ ": " ++ fault.message
  | .datumsNotMap => "datums must be a map"

/-- The wording of a complaint. -/
def Complaint.message : Complaint → String
  | .unknownMethod name => "unknown method: '" ++ name ++ "'"
  | .unrecognizedShape => "payload matches neither the current nor the legacy shape"
  | .invalidPoint fault => "invalid point: " ++ fault.message
  | .invalidInteger text fault => "invalid integer: " ++ Text.quoted text ++ ": " ++ fault.message
  | .invalidDatum key fault => "invalid datum " ++ key ++ ": " ++ fault.message
  | .missingField name => "missing required field: " ++ name
  | .attribute fault => "attribute decode failed: " ++ fault.message
  | .inexact x =>
    "refusing to read float " ++ String.ofList (Shortest.text .message x) ++ " as an exact integer"

/-- Why a part of a payload cannot be read: a complaint, or merely that it does not fit. -/
abbrev Fault := Option Complaint

/-- The outcome of reading a part of a payload. -/
abbrev Reading (α : Type) := Except Fault α

/-- Why a payload is refused. -/
inductive DecodeError
  /-- The text is no document or does not fit, for the given cause if a part of it complained. -/
  | json (cause : Fault)
  /-- The bytes are no binary document or do not fit. -/
  | cbor
  /-- The document is in order, and refused. -/
  | refused (complaint : Complaint)

/-- The wording of an error. -/
def DecodeError.message : DecodeError → String
  | .json none => "JSON decode failed"
  | .json (some complaint) => "JSON decode failed: " ++ complaint.message
  | .cbor => "CBOR decode failed"
  | .refused complaint => complaint.message

/-- The fault that an error is when it strikes a part of a larger payload: only a complaint keeps
its cause. -/
def DecodeError.fault : DecodeError → Fault
  | .refused complaint => some complaint
  | _ => none

/-! ## Sessions -/

/-- What stops a session. -/
inductive TransportError
  /-- The endpoint could not be reached. -/
  | connection (url reason : String)
  /-- The configuration cannot be used. -/
  | config (reason : String)
  /-- Sending or receiving failed. -/
  | webSocket (reason : String)
  /-- The session, or a token above it, was cancelled. -/
  | cancelled
  /-- A request could not be written. -/
  | serialization (reason : String)
  /-- Anything else. -/
  | other (reason : String)
  deriving DecidableEq

namespace TransportError

/-- The wording of an error. -/
def message : TransportError → String
  | .connection url reason => "failed to connect to " ++ url ++ ": " ++ reason
  | .config reason => "invalid session config: " ++ reason
  | .webSocket reason => "WebSocket error: " ++ reason
  | .cancelled => "session cancelled"
  | .serialization reason => "Serialization error: " ++ reason
  | .other reason => reason

/-- Whether a caller may reasonably connect again. -/
def isRetryable : TransportError → Bool
  | .connection _ _ | .webSocket _ => true
  | _ => false

/-- Whether the error only reports cancellation. -/
def isCancelled : TransportError → Bool
  | .cancelled => true
  | _ => false

end TransportError

/-- What can go wrong between asking for a response and having it. -/
inductive ResponseError
  | transport (e : TransportError)
  | decode (e : DecodeError)

/-- The wording of an error. -/
def ResponseError.message : ResponseError → String
  | .transport e => e.message
  | .decode e => e.message

end ChainFollower
