import ChainFollower.Item.Record

/-!
# Points and tips

A point is a position on the chain: a symbol such as `origin`, or a block named by slot, header hash
and, where known, height.  A tip is the newest block a node knows.

The order of points puts the most recent first: blocks by falling slot, then all symbols, in falling
order.
-/

namespace ChainFollower

/-- A block named by its slot and header hash, with its height where that is known. -/
structure BlockRef where
  slot : UInt64
  id : String
  height : Option UInt64
  deriving DecidableEq

/-- A position on the chain. -/
inductive Point
  | symbol (name : String)
  | block (ref : BlockRef)
  deriving DecidableEq

/-- The newest block of a node. -/
structure Tip where
  slot : UInt64
  id : String
  height : UInt64
  deriving DecidableEq

instance : Inhabited Point := ⟨.symbol "origin"⟩

namespace BlockRef

/-- Slot and hash, and the height where known. -/
def describe (b : BlockRef) : String :=
  "slot=" ++ toString b.slot.toNat ++ " id=" ++ b.id ++
    match b.height with
    | some h => " block=" ++ toString h.toNat
    | none => ""

end BlockRef

namespace Point

/-- The start of the chain. -/
def origin : Point := .symbol "origin"

/-- Whether the point is the start of the chain. -/
def isOrigin (p : Point) : Bool := p = origin

/-- The symbol of a symbolic point. -/
def symbol? : Point → Option String
  | .symbol s => some s
  | .block _ => none

/-- The block of a point that is one. -/
def block? : Point → Option BlockRef
  | .symbol _ => none
  | .block b => some b

/-- How a point is shown. -/
def describe : Point → String
  | .symbol s => s
  | .block b => b.describe

/-- The order that puts the most recent point first. -/
def order : Point → Point → Ordering
  | .block a, .block b =>
    (compare b.slot a.slot).then ((compare a.id b.id).then (compare a.height b.height))
  | .block _, .symbol _ => .lt
  | .symbol _, .block _ => .gt
  | .symbol a, .symbol b => compare b a

/-- The points, most recent first. -/
def sort (points : List Point) : List Point :=
  points.mergeSort fun a b => (order a b).isLE

/-- How a list of points is shown. -/
def describeAll (points : List Point) : String :=
  String.intercalate ", " (points.map describe)

end Point

namespace Tip

/-- How a tip is shown. -/
def describe (t : Tip) : String :=
  "slot=" ++ toString t.slot.toNat ++ " id=" ++ t.id ++ " height=" ++ toString t.height.toNat

/-- The tip as a point. -/
def point (t : Tip) : Point := .block ⟨t.slot, t.id, some t.height⟩

end Tip

/-! ## Document form -/

instance : Portable BlockRef where
  toJson b := .record
    [.always "slot" b.slot, .always "id" b.id, .ifSome "blockNo" b.height]
  read := Record.read [("slot", []), ("id", []), ("blockNo", [])] fun r =>
    BlockRef.mk <$> r.get "slot" <*> r.get "id" <*> r.getD "blockNo" none

instance : Portable Point where
  toJson
    | .symbol s => .text s
    | .block b => toJson b
  read := Reader.firstOf [
    fun m item => (Reader.text m item).map .symbol,
    fun m item => (Portable.read m item).map .block]

instance : Portable Tip where
  toJson t := .record
    [.always "slot" t.slot, .always "id" t.id, .always "height" t.height]
  read := Record.read [("slot", []), ("id", []), ("height", [])] fun r =>
    Tip.mk <$> r.getD "slot" 0 <*> r.getD "id" "" <*> r.getD "height" 0

end ChainFollower
