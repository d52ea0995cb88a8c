import ChainFollower.Item.Portable

/-!
# Assets

An asset is named by the policy that mints it and, unless that is empty, a name in hexadecimal
digits after a dot: `policy.name`.  A dot at the very start separates nothing.
-/

namespace ChainFollower

/-- The id of an asset. -/
structure AssetId where
  text : String
  deriving DecidableEq

namespace AssetId

/-- The length of a full policy id. -/
def policyLength : Nat := 56

/-- The id of a policy and a name. -/
def ofParts (policy name : String) : AssetId :=
  if name.isEmpty then ⟨policy⟩ else ⟨policy ++ "." ++ name⟩

/-- Policy and name of an id in characters: what stands before and after the first dot, unless that
dot comes first or is missing. -/
def splitChars (cs : List Char) : List Char × List Char :=
  match cs.takeWhile (· != '.'), cs.dropWhile (· != '.') with
  | [], _ => (cs, [])
  | _, [] => (cs, [])
  | policy, _ :: name => (policy, name)

/-- The policy part; the whole id when there is no name. -/
def policy (a : AssetId) : String := String.ofList (splitChars a.text.toList).1

/-- The name part, empty when there is none. -/
def name (a : AssetId) : String := String.ofList (splitChars a.text.toList).2

/-- The text whose UTF-8 bytes the name gives in hexadecimal digits. -/
def nameText? (a : AssetId) : Option String :=
  if a.name.isEmpty then none else (Hex.decode? a.name.toList).bind Octets.text?

/-- Whether a full policy id stands at the start of the id. -/
def hasPolicy (a : AssetId) (policy : String) : Bool :=
  policy.utf8ByteSize == policyLength && policy.toList.isPrefixOf a.text.toList

end AssetId

instance : Portable AssetId where
  toJson a := .text a.text
  read m item := (Reader.text m item).map AssetId.mk

end ChainFollower
