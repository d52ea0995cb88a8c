import ChainFollower.Chain.Point

/-!
# Points as binary records

A stored point is a map of one entry: under key 1 the symbol, or under key 2 the block.  No bytes at
all, and a null, are no point.  Entries of other keys do not count; of several entries of one key
the last counts.
-/

namespace ChainFollower.PointRecord

/-- The key of a symbol. -/
def symbolKey : Nat := 1

/-- The key of a block. -/
def blockKey : Nat := 2

/-- The bytes of a point, none for no point. -/
def encode : Option Point → Octets
  | none => []
  | some (.symbol s) => Cbor.head 5 1 ++ Cbor.head 0 symbolKey ++ Cbor.text s
  | some (.block b) => Cbor.head 5 1 ++ Cbor.head 0 blockKey ++ Cbor.encodeValue b

mutual

/-- An item as it is held in memory: segments are joined, and an integer that a head could have held
is one, in whatever way it was sent. -/
def settle : Item → Item
  | .streamedText s => .text s
  | .streamedBytes b => .bytes b
  | .array items => .array (settleItems items)
  | .map entries => .map (settleEntries entries)
  | .streamedMap entries => .map (settleEntries entries)
  | .tagged tag content =>
    match content.taggedInt? tag with
    | some n =>
      if -0x10000000000000000 ≤ n ∧ n < 0x10000000000000000 then .int n
      else .tagged tag (settle content)
    | none => .tagged tag (settle content)
  | item => item

/-- `settle` on each item. -/
def settleItems : List Item → List Item
  | [] => []
  | i :: rest => settle i :: settleItems rest

/-- `settle` on each key and value. -/
def settleEntries : List (Item × Item) → List (Item × Item)
  | [] => []
  | (k, v) :: rest => (settle k, settle v) :: settleEntries rest

end

/-- Whether a key is that integer. -/
def isKey (key : Nat) : Item → Bool
  | .int n => n == key
  | _ => false

/-- The last value under an integer key. -/
def valueOf? (key : Nat) (entries : List (Item × Item)) : Option Item :=
  (entries.reverse.find? fun e => isKey key e.1).map (·.2)

/-- The point that a record's entries hold. -/
def ofEntries (entries : List (Item × Item)) : Except DecodeError Point :=
  match valueOf? symbolKey entries, valueOf? blockKey entries with
  | some (.text s), none => .ok (.symbol s)
  | some _, none => .error (.refused (.invalidPoint .symbolNotText))
  | none, some body =>
    match Portable.read .stored body with
    | .ok b => .ok (.block b)
    | .error _ => .error .cbor
  | some _, some _ => .error (.refused (.invalidPoint .both))
  | none, none => .error (.refused (.invalidPoint .neither))

/-- Reads a point record. -/
def decode : Octets → Except DecodeError (Option Point)
  | [] => .ok none
  | s =>
    let item := Cbor.read s
    if Medium.passes (.binary Cbor.maxLevels) item then
      match settle item with
      | .null => .ok none
      | .map entries => (ofEntries entries).map some
      | _ => .error (.refused (.invalidPoint .notRecord))
    else .error .cbor

end ChainFollower.PointRecord
