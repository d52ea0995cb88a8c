import ChainFollower.Protocol.Request

/-!
# Session configuration

What a session needs to know before it starts.  Only the endpoint has no default.
-/

namespace ChainFollower.Session

/-- The configuration of a session. -/
structure Config where
  endpoint : String
  /-- How many requests for a next block are kept unanswered. -/
  pipeline : UInt64 := 50
  /-- How many frames wait for the consumer. -/
  frameCapacity : UInt64 := 8
  shape : WireShape := .current
  serviceName : String := defaultServiceName
  points : List Point := []

namespace Config

/-- Refuses settings with which no session can run; the first fault counts. -/
def validate (c : Config) : Except TransportError Unit :=
  if c.endpoint.isEmpty then .error (.config "endpoint must not be empty")
  else if c.pipeline = 0 then .error (.config "pipeline must be at least 1")
  else if c.frameCapacity = 0 then .error (.config "frame_capacity must be at least 1")
  else .ok ()

/-- The request that opens a session. -/
def openingText (c : Config) : String := c.shape.findText c.serviceName c.points

/-- The request for a next block. -/
def nextText (c : Config) : String := c.shape.nextText c.serviceName

end Config

instance : Portable Config where
  toJson c := .record
    [.always "endpoint" c.endpoint, .always "pipeline" c.pipeline,
     .always "frame_capacity" c.frameCapacity, .always "shape" c.shape,
     .always "service_name" c.serviceName, .always "points" c.points]
  read := Record.read
    [("endpoint", []), ("pipeline", []), ("frame_capacity", []), ("shape", []),
     ("service_name", []), ("points", [])] fun r =>
    Config.mk <$> r.get "endpoint" <*> r.getD "pipeline" 50 <*> r.getD "frame_capacity" 8 <*>
      r.getD "shape" .current <*> r.getD "service_name" defaultServiceName <*>
      r.getD "points" []

end ChainFollower.Session
