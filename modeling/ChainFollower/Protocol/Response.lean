import ChainFollower.Ledger.Block
import ChainFollower.Protocol.Shape

/-!
# Responses

What a node answers: where its chain meets ours, or the next block to roll forward to or the point
to roll back to.  These are the types, their document forms in the current shape, and how they are
shown.
-/

namespace ChainFollower

/-! ## Methods -/

/-- What a node can be asked. -/
inductive Method
  | findIntersection
  | nextBlock
  deriving DecidableEq

namespace Method

/-- The name of a method in the current shape. -/
def name : Method → String
  | .findIntersection => "findIntersection"
  | .nextBlock => "nextBlock"

/-- The method of that name. -/
def parse (name : String) : Except DecodeError Method :=
  if name = Method.findIntersection.name then .ok .findIntersection
  else if name = Method.nextBlock.name then .ok .nextBlock
  else .error (.refused (.unknownMethod name))

end Method

instance : Portable Method where
  toJson method := .text method.name
  read := Reader.oneOf
    [(Method.findIntersection.name, .findIntersection), (Method.nextBlock.name, .nextBlock)]

/-! ## Errors of a node -/

/-- An error that a node reports. -/
structure ResultError where
  code : Int64
  message : String
  data : Option Json

instance : Portable ResultError where
  toJson e := .record [.always "code" e.code, .always "message" e.message, .ifSome "data" e.data]
  read := Record.read [("code", []), ("message", []), ("data", [])] fun r =>
    ResultError.mk <$> r.get "code" <*> r.getD "message" "" <*> r.getD "data" none

namespace ResultError

/-- The code of the error that none of the points asked for is on the chain. -/
def notFoundCode : Int64 := 1000

/-- The tip that data of an error holds, as its member `tip` or as the data itself. -/
def tipOfData (data : Json) : Option Tip :=
  let candidate := (data.member? "tip").getD data
  if candidate.isObject then (Json.decodeValue candidate).toOption else none

/-- The error that none of the points asked for is on the chain. -/
def notFound (tip : Option Tip) : ResultError where
  code := notFoundCode
  message := "Intersection not found"
  data := tip.map fun t => (toJson t).sorted

/-- The tip that a node reports with an error. -/
def tip (e : ResultError) : Option Tip := e.data.bind tipOfData

/-- How an error is shown. -/
def describe (e : ResultError) : String := "error " ++ toString e.code.toInt ++ ": " ++ e.message

end ResultError

/-! ## Intersections -/

/-- Where the chain of a node meets the points asked for. -/
structure Intersection where
  point : Option Point
  tip : Option Tip
  error : Option ResultError
  id : Option Json

instance : Portable Intersection where
  toJson i := .record
    [.ifSome "intersection" i.point, .ifSome "tip" i.tip, .ifSome "error" i.error,
     .ifSome "id" i.id]
  read := Record.read [("intersection", []), ("tip", []), ("error", []), ("id", [])] fun r =>
    Intersection.mk <$> r.getD "intersection" none <*> r.getD "tip" none <*>
      r.getD "error" none <*> r.getD "id" none

namespace Intersection

/-- Whether one of the points was found. -/
def isFound (i : Intersection) : Bool := i.error.isNone && i.point.isSome

/-- How an intersection is shown. -/
def describe (i : Intersection) : String :=
  (match i.point, i.error with
    | _, some e => "intersection not found (" ++ e.describe ++ ")"
    | some p, none => "intersection=" ++ p.describe
    | none, none => "intersection=none") ++
  match i.tip with
  | some t => " tip=[" ++ t.describe ++ "]"
  | none => ""

end Intersection

/-! ## Steps along the chain -/

/-- The next step along the chain of a node. -/
inductive ChainStep
  | forward (tip : Tip) (block : Block)
  | backward (tip : Tip) (point : Point)

namespace ChainStep

/-- The tip of the node. -/
def tip : ChainStep → Tip
  | .forward tip _ => tip
  | .backward tip _ => tip

/-- Where a follower is after the step. -/
def point : ChainStep → Point
  | .forward _ block => block.point
  | .backward _ point => point

/-- How a step is shown. -/
def describe : ChainStep → String
  | .forward tip block =>
    "forward " ++ block.point.describe ++ " txs=" ++ toString block.transactions.length ++
      " tip=[" ++ tip.describe ++ "]"
  | .backward tip point => "backward " ++ point.describe ++ " tip=[" ++ tip.describe ++ "]"

/-- The member that tells the direction of a step. -/
def directionName : String := "direction"

/-- The directions of a step. -/
inductive Direction
  | forward
  | backward
  deriving DecidableEq

/-- The direction that an item names; it stands alone, as a text. -/
def readDirection (m : Medium) (item : Item) : Reading Direction :=
  match Reader.name m item with
  | .ok (.name "forward") => .ok .forward
  | .ok (.name "backward") => .ok .backward
  | _ => Reader.refuse

/-- Whether a key is the name of the direction. -/
def isDirectionKey : Item → Bool
  | .text s | .streamedText s => s == directionName
  | .bytes b | .streamedBytes b => b == Octets.ofText directionName
  | _ => false

/-- Reads the fields of a step in the given direction. -/
def ofRecord : Direction → Record → Placed ChainStep
  | .forward, r => ChainStep.forward <$> r.get "tip" <*> r.get "block"
  | .backward, r => ChainStep.backward <$> r.get "tip" <*> r.get "point"

/-- The fields of a step in the given direction. -/
def fields : Direction → FieldNames
  | .forward => [("tip", []), ("block", [])]
  | .backward => [("tip", []), ("point", [])]

/-- Reads a step.  The direction may stand anywhere among the members, once, or first in an array;
the rest is held in memory until it is known. -/
def read : Reader ChainStep := fun m item =>
  match item with
  | .map entries | .streamedMap entries =>
    match entries.partition fun e => isDirectionKey e.1 with
    | ([(_, tag)], rest) => do
      let direction ← readDirection m tag
      if m.holds (.map rest) then
        Record.read (fields direction) (ofRecord direction) .document (.map rest)
      else Reader.refuse
    -- The direction is missing or comes twice.
    | _ => Reader.refuse
  | .array (tag :: rest) => do
    let direction ← readDirection m tag
    if m.holds (.array rest) then
      Record.read (fields direction) (ofRecord direction) .document (.array rest)
    else Reader.refuse
  | _ => Reader.refuse

end ChainStep

instance : Portable ChainStep where
  toJson
    | .forward tip block => .record
      [.always ChainStep.directionName "forward", .always "tip" tip, .always "block" block]
    | .backward tip point => .record
      [.always ChainStep.directionName "backward", .always "tip" tip, .always "point" point]
  read := ChainStep.read

/-! ## Whole responses -/

/-- What a response answers. -/
inductive Answer
  | intersection (i : Intersection)
  | step (s : ChainStep)

namespace Answer

/-- How an answer is shown. -/
def describe : Answer → String
  | .intersection i => i.describe
  | .step s => s.describe

/-- The document form of an answer. -/
def document : Answer → Json
  | .intersection i => toJson i
  | .step s => toJson s

end Answer

/-- A response to a request. -/
structure Response where
  jsonrpc : String
  method : Method
  result : Answer
  error : Option ResultError
  id : Option Json

/-- The complaint that an answer to one method was asked of a response to another. -/
structure WrongMethod where
  wanted : Method
  found : Method
  deriving DecidableEq

/-- The wording of the complaint. -/
def WrongMethod.message (w : WrongMethod) : String :=
  (match w.wanted with
    | .findIntersection => "must_find_intersection_result"
    | .nextBlock => "must_next_block_result") ++
  " called on a " ++ w.found.name ++ " response"

namespace Response

/-- The intersection of a response that must hold one. -/
def mustIntersection (r : Response) : Except WrongMethod Intersection :=
  match r.result with
  | .intersection i => .ok i
  | .step _ => .error ⟨.findIntersection, r.method⟩

/-- The step of a response that must hold one. -/
def mustStep (r : Response) : Except WrongMethod ChainStep :=
  match r.result with
  | .step s => .ok s
  | .intersection _ => .error ⟨.nextBlock, r.method⟩

/-- The tip that a response carries. -/
def tip (r : Response) : Option Tip :=
  match r.result with
  | .intersection i => i.tip
  | .step s => some s.tip

/-- The document form of a response, in the current shape. -/
def document (r : Response) : Json := .record
  [.always "jsonrpc" r.jsonrpc, .always "method" r.method, .always "result" r.result.document,
   .ifSome "error" r.error, .ifSome "id" r.id]

end Response

end ChainFollower
