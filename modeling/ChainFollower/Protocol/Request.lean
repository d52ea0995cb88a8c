import ChainFollower.Protocol.Legacy

/-!
# Requests

What is sent to a node, in the shape it speaks.  A request for an intersection without points asks
for the start of the chain.
-/

namespace ChainFollower

instance : Portable WireShape where
  toJson
    | .current => .text "current"
    | .legacy => .text "legacy"
  read := Reader.oneOf [("current", .current), ("legacy", .legacy)]

/-! ## Current shape -/

/-- What ties a response to its request. -/
inductive RequestId
  | number (n : UInt64)
  | text (s : String)
  | null
  deriving DecidableEq

/-- How an id is shown. -/
def RequestId.describe : RequestId → String
  | .number n => toString n.toNat
  | .text s => s
  | .null => "null"

/-- Reads a null. -/
def Reader.null : Reader Unit := fun _ item =>
  match item with
  | .null => .ok ()
  | _ => refuse

instance : Portable RequestId where
  toJson
    | .number n => toJson n
    | .text s => .text s
    | .null => .null
  read := Reader.firstOf [
    fun m item => (Reader.word64 m item).map .number,
    fun m item => (Reader.text m item).map .text,
    fun m item => (Reader.null m item).map fun _ => .null]

/-- A request in the current shape. -/
structure Request where
  jsonrpc : String
  method : String
  params : Option Json
  id : RequestId

/-- A request of the version in use. -/
def Request.ofParts (method : String) (params : Option Json) (id : RequestId) : Request :=
  ⟨"2.0", method, params, id⟩

instance : Portable Request where
  toJson r := .record
    [.always "jsonrpc" r.jsonrpc, .always "method" r.method, .ifSome "params" r.params,
     .always "id" r.id]
  read := Record.read [("jsonrpc", []), ("method", []), ("params", []), ("id", [])] fun r =>
    Request.mk <$> r.get "jsonrpc" <*> r.get "method" <*> r.getD "params" none <*> r.get "id"

/-! ## Legacy shape -/

/-- A request in the legacy shape. -/
structure Legacy.Request where
  kind : String
  version : String
  serviceName : String
  methodName : String
  args : Json
  mirror : Option Json

/-- A request of the version in use. -/
def Legacy.Request.ofParts (serviceName methodName : String) (args : Json)
    (mirror : Option Json) : Legacy.Request :=
  ⟨"jsonwsp/request", "1.0", serviceName, methodName, args, mirror⟩

instance : Portable Legacy.Request where
  toJson r := .record
    [.always "type" r.kind, .always "version" r.version, .always "servicename" r.serviceName,
     .always "methodname" r.methodName, .always "args" r.args, .ifSome "mirror" r.mirror]
  read := Record.read
    [("type", []), ("version", []), ("servicename", []), ("methodname", []), ("args", []),
     ("mirror", [])] fun r =>
    Legacy.Request.mk <$> r.get "type" <*> r.get "version" <*> r.get "servicename" <*>
      r.get "methodname" <*> r.get "args" <*> r.getD "mirror" none

/-! ## The two requests of a session -/

/-- The service that legacy requests name unless told otherwise. -/
def defaultServiceName : String := "ogmios"

/-- The points to ask for. -/
def pointsOrOrigin (points : List Point) : List Point :=
  if points.isEmpty then [.origin] else points

namespace Request

/-- The request for an intersection with points. -/
def findIntersection (points : List Point) : Request :=
  .ofParts Method.findIntersection.name
    (some (.object [("points", (toJson (pointsOrOrigin points)).sorted)]))
    (.text "findIntersection")

/-- The request for the next block. -/
def nextBlock : Request := .ofParts Method.nextBlock.name none (.text "nextBlock")

end Request

namespace Legacy.Request

/-- The request for an intersection with points; heights are not sent. -/
def findIntersect (serviceName : String) (points : List ChainFollower.Point) : Legacy.Request :=
  .ofParts serviceName "FindIntersect"
    (.object [("points", (toJson ((pointsOrOrigin points).map Legacy.Point.ofCurrent)).sorted)])
    (some (.object [("step", .text "INIT")]))

/-- The request for the next block. -/
def requestNext (serviceName : String) : Legacy.Request :=
  .ofParts serviceName "RequestNext" (.object []) none

end Legacy.Request

/-- The text of the request for an intersection. -/
def WireShape.findText (shape : WireShape) (serviceName : String) (points : List Point) : String :=
  match shape with
  | .current => (toJson (Request.findIntersection points)).compact
  | .legacy => (toJson (Legacy.Request.findIntersect serviceName points)).compact

/-- The text of the request for the next block. -/
def WireShape.nextText (shape : WireShape) (serviceName : String) : String :=
  match shape with
  | .current => (toJson Request.nextBlock).compact
  | .legacy => (toJson (Legacy.Request.requestNext serviceName)).compact

end ChainFollower
