import ChainFollower.Protocol.Response

/-!
# The legacy shape

How older nodes write points, tips, blocks and transactions, and what these are in the current
model. A result is an object of one member that names its kind; a hash is called `hash`, a height
`blockNo`; blocks come under the name of their era.  Blocks of the first era have no list of
transactions in this shape and are taken for blocks without any.
-/

namespace ChainFollower.Legacy

/-! ## Points and tips -/

/-- A point: a symbol, or slot and hash of a block. -/
inductive Point
  | symbol (name : String)
  | block (slot : UInt64) (hash : String)
  deriving DecidableEq

/-- The point in the current model; its height is not known. -/
def Point.current : Point → ChainFollower.Point
  | .symbol s => .symbol s
  | .block slot hash => .block ⟨slot, hash, none⟩

/-- A point as older nodes write it; its height is dropped. -/
def Point.ofCurrent : ChainFollower.Point → Point
  | .symbol s => .symbol s
  | .block b => .block b.slot b.id

instance : Portable Point where
  toJson
    | .symbol s => .text s
    | .block slot hash => .record [.always "slot" slot, .always "hash" hash]
  read := Reader.firstOf [
    fun m item => (Reader.text m item).map .symbol,
    Record.readMap [("slot", []), ("hash", [])] fun r =>
      Point.block <$> r.get "slot" <*> r.get "hash"]

/-- A tip. -/
structure Tip where
  slot : UInt64
  hash : String
  height : UInt64
  deriving DecidableEq

/-- The tip in the current model. -/
def Tip.current (t : Tip) : ChainFollower.Tip := ⟨t.slot, t.hash, t.height⟩

instance : Portable Tip where
  toJson t := .record [.always "slot" t.slot, .always "hash" t.hash, .always "blockNo" t.height]
  read := Record.read [("slot", []), ("hash", []), ("blockNo", [])] fun r =>
    Tip.mk <$> r.getD "slot" 0 <*> r.getD "hash" "" <*> r.getD "blockNo" 0

/-! ## Intersections -/

/-- The names of a result to a request for an intersection. -/
def foundName : String := "IntersectionFound"

/-- See `foundName`. -/
def notFoundName : String := "IntersectionNotFound"

/-- Reads the intersection that a result of either name holds. -/
def readIntersection : Reader Intersection := fun m item => do
  match ← Reader.choice m item with
  | (name, some body) =>
    if name = foundName then
      Record.readMap [("point", ["Point"]), ("tip", ["Tip"])] (fun r =>
        (fun (point : Point) (tip : Tip) => ⟨some point.current, some tip.current, none, none⟩) <$>
          r.get "point" <*> r.get "tip") m body
    else if name = notFoundName then
      Record.readMap [("tip", ["Tip"])] (fun r =>
        (fun (tip : Tip) =>
          ⟨none, some tip.current, some (.notFound (some tip.current)), none⟩) <$>
          r.get "tip") m body
    else Reader.refuse
  | (_, none) => Reader.refuse

/-- The attempt at an intersection in the legacy shape: an object with a member of one of the names.
-/
def intersection : Attempt Intersection := fun raw =>
  if (raw.member? foundName).isSome ∨ (raw.member? notFoundName).isSome then
    -- By its name the result is one of this shape, so a fault in it is final.
    match readIntersection .document raw.item with
    | .ok i => .ok (some i)
    | .error cause => .error (.json cause)
  else .ok none

/-! ## Transactions -/

/-- What stands in the body of a transaction.  Fees and withdrawals are bare amounts of coins. -/
structure TransactionBody where
  inputs : List OutputRef := []
  collaterals : List OutputRef := []
  references : List OutputRef := []
  outputs : List Output := []
  collateralReturn : Option Output := none
  fee : Option Int := none
  totalCollateral : Option Int := none
  mint : Option Value := none
  withdrawals : Dict Int := ∅
  requiredSignatures : List String := []
  scriptIntegrityHash : Option String := none
  network : Option Json := none

/-- Reads a body; it is never written. -/
def readBody : Reader TransactionBody :=
  Record.read
    (["inputs", "collaterals", "references", "outputs", "collateralReturn", "fee",
      "totalCollateral", "mint", "withdrawals", "requiredExtraSignatures", "scriptIntegrityHash",
      "network"].map fun name => (name, [])) fun r =>
    TransactionBody.mk <$> r.getD "inputs" [] <*> r.getD "collaterals" [] <*>
      r.getD "references" [] <*> r.getD "outputs" [] <*> r.getD "collateralReturn" none <*>
      r.getD "fee" none <*> r.getD "totalCollateral" none <*> r.getD "mint" none <*>
      r.getD "withdrawals" ∅ <*> r.getD "requiredExtraSignatures" [] <*>
      r.getD "scriptIntegrityHash" none <*> r.getD "network" none

/-- The transaction of an id, a body and metadata. -/
def transaction (id : String) (body : TransactionBody) (metadata : Option Json) :
    Transaction where
  id := id
  inputs := body.inputs
  references := body.references
  collaterals := body.collaterals
  totalCollateral := body.totalCollateral.map Value.ofCoins
  collateralReturn := body.collateralReturn
  outputs := body.outputs
  withdrawals := body.withdrawals.map Value.ofCoins
  fee := body.fee.map Value.ofCoins
  mint := body.mint
  network := body.network
  scriptIntegrityHash := body.scriptIntegrityHash
  requiredSignatories := body.requiredSignatures
  metadata := metadata.filter fun j => !j.isNull

/-- Reads a transaction. -/
def readTransaction : Reader Transaction :=
  Record.read [("id", []), ("body", []), ("metadata", [])] fun r =>
    transaction <$> r.get "id" <*> r.getWith "body" readBody {} <*> r.getD "metadata" none

/-- The transactions of a block's body; a body that is no list holds none. -/
def transactions (body : Json) : Except DecodeError (List Transaction) :=
  if body.isArray then
    match Reader.list readTransaction .document body.item with
    | .ok ts => .ok ts
    | .error cause => .error (.json cause)
  else .ok []

/-! ## Blocks -/

/-- What a header tells. -/
structure Header where
  slot : UInt64 := 0
  height : UInt64 := 0
  previous : Option Json := none

/-- Reads a header. -/
def readHeader : Reader Header :=
  Record.read [("slot", []), ("blockHeight", []), ("prevHash", [])] fun r =>
    Header.mk <$> r.getD "slot" 0 <*> r.getD "blockHeight" 0 <*> r.getD "prevHash" none

/-- A block below the name of its era. -/
structure EraBlock where
  hash : String
  header : Header
  body : Json

/-- Reads a block; the hash of a block of the first era is called `hash`. -/
def readEraBlock : Reader EraBlock :=
  Record.read [("headerHash", ["hash"]), ("header", []), ("body", [])] fun r =>
    EraBlock.mk <$> r.getD "headerHash" "" <*> r.getWith "header" readHeader {} <*>
      r.getD "body" Json.null

/-- The block of an era in the current model. -/
def EraBlock.current (era : String) (b : EraBlock) : Except DecodeError Block := do
  let transactions ← transactions b.body
  return {
    era := era
    id := b.hash
    ancestor := (b.header.previous.bind Json.text?).getD ""
    height := b.header.height
    slot := b.header.slot
    transactions := transactions }

/-- A step along the chain as older nodes write it. -/
inductive Step
  | forward (blocks : Dict EraBlock) (tip : Tip)
  | backward (point : Point) (tip : Tip)

/-- Reads a step. -/
def readStep : Reader Step := fun m item => do
  match ← Reader.choice m item with
  | ("RollForward", some body) =>
    Record.readMap [("block", []), ("tip", [])] (fun r =>
      Step.forward <$>
        r.getRequired "block" (fun m item => (Reader.named readEraBlock m item).map Dict.ofList) <*>
        r.get "tip") m body
  | ("RollBackward", some body) =>
    Record.readMap [("point", []), ("tip", [])] (fun r =>
      Step.backward <$> r.get "point" <*> r.get "tip") m body
  | _ => Reader.refuse

/-- The step in the current model.  Of several eras the first in order counts. -/
def Step.current : Step → Except DecodeError ChainStep
  | .backward point tip => .ok (.backward tip.current point.current)
  | .forward blocks tip =>
    match blocks.entries with
    | [] => .error (.refused (.missingField "block"))
    | (era, b) :: _ => do
      let block ← b.current era
      return .forward tip.current block

/-- Reads the step of a result. -/
def step (raw : Json) : Except DecodeError ChainStep :=
  match readStep .document raw.item with
  | .ok s => s.current
  | .error cause => .error (.json cause)

end ChainFollower.Legacy
