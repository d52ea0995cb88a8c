import ChainFollower.Protocol.Legacy

/-!
# Reading responses

A response comes in the current envelope, named by `method`, or in the legacy one, named by
`methodname`; the result inside the current envelope of an intersection may be of either shape.
-/

namespace ChainFollower

/-- Accepted only if it reads and has a tip: a result in the legacy shape also reads, as one without
anything in it. -/
def Intersection.current : Attempt Intersection := fun raw =>
  match Json.decodeValue raw with
  | .ok (i : Intersection) => .ok (if i.tip.isSome then some i else none)
  | .error _ => .ok none

/-- Reads a result of either shape. -/
def Intersection.ofJson (raw : Json) : Except DecodeError Intersection :=
  Attempt.resolve [Intersection.current, Legacy.intersection] raw

namespace Response

/-- The result that an envelope must have. -/
def missingResult {α : Type} : Except DecodeError α := .error (.refused (.missingField "result"))

/-- The method that an envelope in the current shape names. -/
def methodOf : Json → Except DecodeError Method
  | .text name => Method.parse name
  | other => .error (.refused (.unknownMethod other.compact))

/-- The attempt at the current envelope: an object with a member `method`. -/
def current : Attempt Response := fun raw =>
  match raw.member? "method" with
  | none => .ok none
  | some named => do
    let method ← methodOf named
    let jsonrpc := ((raw.member? "jsonrpc").bind Json.text?).getD "2.0"
    let id := raw.present? "id"
    let error : Option ResultError ← match raw.present? "error" with
      | some e => (Json.decodeValue e).map some
      | none => .ok none
    let result ← match method, raw.present? "result", error with
      | .findIntersection, some r, _ => (Intersection.ofJson r).map .intersection
      -- An error may take the place of the result, but only where an intersection was asked for.
      | .findIntersection, none, some e =>
        .ok (.intersection ⟨none, e.tip, some e, id⟩)
      | .nextBlock, some r, _ => (Json.decodeValue r).map .step
      | _, none, _ => missingResult
    return some ⟨jsonrpc, method, result, error, id⟩

/-- The attempt at the legacy envelope: an object with a member `methodname`. -/
def legacy : Attempt Response := fun raw =>
  match raw.member? "methodname" with
  | none => .ok none
  | some named => do
    -- What names the method without being a text names none that is known.
    let name := named.text?.getD ""
    let result : Except DecodeError Json := match raw.present? "result" with
      | some r => .ok r
      | none => missingResult
    let (method, answer) ←
      if name = "FindIntersect" then do
        let i ← Intersection.ofJson (← result)
        pure (Method.findIntersection, Answer.intersection i)
      else if name = "RequestNext" then do
        let s ← Legacy.step (← result)
        pure (Method.nextBlock, Answer.step s)
      else .error (.refused (.unknownMethod name))
    return some ⟨"2.0", method, answer, none, raw.present? "reflection"⟩

/-- Reads a response of either shape. -/
def ofJson (raw : Json) : Except DecodeError Response := Attempt.resolve [current, legacy] raw

/-- Reads a frame of either shape. -/
def decode (frame : Octets) : Except DecodeError Response := do
  let raw ← Json.decode frame
  ofJson raw

end Response

instance : Portable Response where
  toJson := Response.document
  read m item := do
    let raw ← Reader.json m item
    match Response.ofJson raw with
    | .ok r => .ok r
    | .error e => .error e.fault

end ChainFollower
