import ChainFollower.Proofs.Json.Writing
import ChainFollower.Proofs.Protocol.Records
import ChainFollower.Protocol.Envelope

/-!
# Content of frames

What a node says in a frame, written in the legacy shape and in the current one, and the texts of
the two.

Main definitions: `Content`, `Content.SpellsLegacy`, `Content.SpellsCurrent` and
`Content.response`.
-/

namespace ChainFollower

/-! ## Content and frames -/

/-- What a node says in a frame, points without heights and blocks without transactions. -/
inductive Content
  | found (point : Legacy.Point) (tip : Tip)
  | notFound (tip : Tip)
  | forward (era hash ancestor : String) (slot height : UInt64) (tip : Tip)
  | backward (point : Legacy.Point) (tip : Tip)

/-- How an older node writes that a block has no transactions: without a body, with an empty one, or
with the body of a block of the first era, which is no list.  The hash of such a block has a name of
its own. -/
inductive Legacy.Bodiless
  | absent
  | empty
  | firstEra

namespace Legacy.Bodiless

/-- The name of the hash. -/
def hashName : Bodiless → String
  | .firstEra => "hash"
  | _ => "headerHash"

/-- The member for the body, if there is one. -/
def body : Bodiless → List (String × Json)
  | .absent => []
  | .empty => [("body", .array [])]
  | .firstEra => [("body", .object [])]

end Legacy.Bodiless

/-- A tip as older nodes write it. -/
def Legacy.Tip.ofCurrent (t : ChainFollower.Tip) : Legacy.Tip := ⟨t.slot, t.id, t.height⟩

namespace Content

/-- The method. -/
def method : Content → Method
  | .found .. | .notFound .. => .findIntersection
  | .forward .. | .backward .. => .nextBlock

/-- The name of the method in the legacy shape. -/
def legacyMethod (c : Content) : String :=
  match c.method with
  | .findIntersection => "FindIntersect"
  | .nextBlock => "RequestNext"

/-- The result in the legacy shape. -/
def legacyResult (bodiless : Legacy.Bodiless) : Content → Json
  | .found point tip => .object [("IntersectionFound", .object
      [("point", toJson point), ("tip", toJson (Legacy.Tip.ofCurrent tip))])]
  | .notFound tip => .object [("IntersectionNotFound", .object
      [("tip", toJson (Legacy.Tip.ofCurrent tip))])]
  | .forward era hash ancestor slot height tip => .object [("RollForward", .object
      [("block", .object [(era, .object ([(bodiless.hashName, .text hash),
          ("header", .object [("slot", toJson slot), ("blockHeight", toJson height),
            ("prevHash", .text ancestor)])] ++ bodiless.body))]),
        ("tip", toJson (Legacy.Tip.ofCurrent tip))])]
  | .backward point tip => .object [("RollBackward", .object
      [("point", toJson point), ("tip", toJson (Legacy.Tip.ofCurrent tip))])]

/-- The members of a frame in the legacy shape, the id apart. -/
def legacyMembers (serviceName : String) (bodiless : Legacy.Bodiless) (c : Content) :
    List (String × Json) :=
  [("type", .text "jsonwsp/response"), ("version", .text "1.0"),
    ("servicename", .text serviceName), ("methodname", .text c.legacyMethod),
    ("result", c.legacyResult bodiless)]

/-- The result in the current shape; an empty list of transactions is `listed` or left out. -/
def currentResult (listed : Bool) : Content → Json
  | .found point tip => .object [("intersection", toJson point.current), ("tip", toJson tip)]
  | .notFound tip => .object [("tip", toJson tip), ("error", .object [("code", .int 1000),
      ("message", .text "Intersection not found"), ("data", toJson tip)])]
  | .forward era hash ancestor slot height tip => .object [("direction", .text "forward"),
      ("tip", toJson tip), ("block", .object ([("era", .text era), ("id", .text hash),
        ("ancestor", .text ancestor), ("height", toJson height), ("slot", toJson slot)] ++
          if listed then [("transactions", .array [])] else []))]
  | .backward point tip => .object [("direction", .text "backward"), ("tip", toJson tip),
      ("point", toJson point.current)]

/-- The members of a frame in the current shape, the id apart. -/
def currentMembers (listed : Bool) (c : Content) : List (String × Json) :=
  [("jsonrpc", .text "2.0"), ("method", .text c.method.name), ("result", c.currentResult listed)]

/-- The answer that carries the content. -/
def answer : Content → Answer
  | .found point tip => .intersection ⟨some point.current, some tip, none, none⟩
  | .notFound tip => .intersection ⟨none, some tip, some (.notFound (some tip)), none⟩
  | .forward era hash ancestor slot height tip => .step (.forward tip
      { era := era, id := hash, ancestor := ancestor, slot := slot, height := height })
  | .backward point tip => .step (.backward tip point.current)

/-- The response that carries the content, for a request of the given id. -/
def response (c : Content) (id : Json) : Response where
  jsonrpc := "2.0"
  method := c.method
  result := c.answer
  error := none
  id := (some id).filter fun j => !j.isNull

end Content

/-! ## Texts of frames -/

namespace Content

end Content

end ChainFollower
