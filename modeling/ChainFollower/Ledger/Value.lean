import ChainFollower.Item.Record
import ChainFollower.Ledger.Asset

/-!
# Values

An amount of coins with amounts of any number of assets.  Documents hold a value in one of two
shapes:

* grouped by policy, `"ada"` standing for the coins: `ada: lovelace: 2, policy: name: 5`;
* flat: `coins: 2, assets: policy.name: 5`.

Both are read, the first is written.
-/

namespace ChainFollower

/-- Coins and assets, the assets by the texts of their ids. -/
structure Value where
  coins : Int
  assets : Dict Int
  deriving DecidableEq

instance : Inhabited Value := ⟨⟨0, ∅⟩⟩

namespace Value

/-- A value of coins alone. -/
def ofCoins (coins : Int) : Value := ⟨coins, ∅⟩

/-- The value with the amount of one asset set. -/
def set (v : Value) (asset : AssetId) (amount : Int) : Value :=
  { v with assets := v.assets.insert asset.text amount }

/-- The amount of an asset, zero when absent. -/
def amount (v : Value) (asset : AssetId) : Int := v.assets.getD asset.text 0

/-- Whether nothing is held: coins and all amounts are zero. -/
def isZero (v : Value) : Bool := v.coins == 0 && v.assets.values.all (· == 0)

/-- Whether two values hold the same, an absent amount being zero. -/
def same (v w : Value) : Bool :=
  v.coins == w.coins &&
    (v.assets.keys ++ w.assets.keys).all fun k => v.assets.getD k 0 == w.assets.getD k 0

instance : BEq Value := ⟨same⟩

/-! ## Document form -/

/-- The name that stands for the coins in the shape grouped by policy. -/
def coinPolicy : String := "ada"

/-- The name of the amount of coins below it. -/
def coinName : String := "lovelace"

/-- The amounts of a value grouped by policy. -/
def byPolicy (assets : Dict Int) : Dict (Dict Int) :=
  assets.entries.foldl (fun groups (id, amount) =>
    let a : AssetId := ⟨id⟩
    groups.insert a.policy ((groups.getD a.policy ∅).insert a.name amount)) ∅

/-- Coins come first; a value of assets alone says nothing of coins. -/
def document (v : Value) : Json :=
  let groups := byPolicy v.assets
  let coins := if v.coins ≠ 0 ∨ groups.isEmpty then
      [(coinPolicy, Json.object [(coinName, toJson v.coins)])] else []
  .object (coins ++ groups.entries.map fun (policy, amounts) => (policy, toJson amounts))

/-- Reads the flat shape. -/
def readFlat : Reader Value :=
  Record.readMap [("coins", []), ("assets", [])] fun r =>
    Value.mk <$> r.get "coins" <*> r.getD "assets" ∅

/-- The value of amounts grouped by policy. -/
def ofGroups (groups : Dict (Dict Int)) : Value where
  coins := (groups.getD coinPolicy ∅).getD coinName 0
  assets := .ofList <| (groups.erase coinPolicy).entries.flatMap fun (policy, amounts) =>
    amounts.entries.map fun (name, amount) => ((AssetId.ofParts policy name).text, amount)

/-- Reads the shape grouped by policy. -/
def readGrouped : Reader Value := fun m item => (Portable.read m item).map ofGroups

end Value

instance : Portable Value where
  toJson := Value.document
  read := Reader.firstOf [Value.readFlat, Value.readGrouped]

end ChainFollower
