import ChainFollower.Ledger.Value

/-!
# Arithmetic of values

Sums and differences are taken amount by amount; the assets of the result are those of both
operands, and a difference may be negative.  `shortfall?` says what one value lacks to cover
another.
-/

namespace ChainFollower.Value

/-- Combines the amounts of the second map into the first, an absent amount being zero. -/
def combine (f : Int → Int → Int) (a b : Dict Int) : Dict Int :=
  b.entries.foldl (fun d (id, amount) => d.insert id (f (d.getD id 0) amount)) a

/-- The sum of two values. -/
def add (a b : Value) : Value := ⟨a.coins + b.coins, combine (· + ·) a.assets b.assets⟩

/-- The difference of two values. -/
def subtract (a b : Value) : Value := ⟨a.coins - b.coins, combine (· - ·) a.assets b.assets⟩

instance : Add Value := ⟨add⟩

instance : Sub Value := ⟨subtract⟩

/-! ## Coverage -/

/-- What is short: the coins or an asset, with the amount held and the amount wanted. -/
inductive Shortfall
  | coins (held wanted : Int)
  | asset (id : AssetId) (held wanted : Int)
  deriving DecidableEq

namespace Shortfall

/-- The asset that is short, none for coins. -/
def asset? : Shortfall → Option AssetId
  | .coins _ _ => none
  | .asset id _ _ => some id

/-- How much more is needed. -/
def missing : Shortfall → Int
  | .coins held wanted => wanted - held
  | .asset _ held wanted => wanted - held

/-- The wording of a shortfall. -/
def message : Shortfall → String
  | .coins held wanted => text "coins" held wanted
  | .asset id held wanted => text id.text held wanted
where
  /-- The sentence about one thing that is short. -/
  text (what : String) (held wanted : Int) : String :=
    "not enough " ++ what ++ " to meet demand (have " ++ toString held ++ ", want " ++
      toString wanted ++ ")"

end Shortfall

/-- The first thing of which less is held than wanted: coins, then assets in the order of their ids.
-/
def shortfall? (held wanted : Value) : Option Shortfall :=
  if held.coins < wanted.coins then some (.coins held.coins wanted.coins)
  else wanted.assets.entries.findSome? fun (id, amount) =>
    let there := held.assets.getD id 0
    if there < amount then some (.asset ⟨id⟩ there amount) else none

/-- Whether all that is wanted is held. -/
def covers (held wanted : Value) : Bool := (shortfall? held wanted).isNone

end ChainFollower.Value
