import ChainFollower.Attribute.Basic
import ChainFollower.Ledger.Value
import ChainFollower.Text.Base64

/-!
# Transactions

What a block tells of a transaction.  Parts that this library never looks into, such as scripts and
metadata, are passed on unread.
-/

namespace ChainFollower

/-! ## Inputs -/

/-- The text `hash#index` that names an output of a transaction. -/
structure OutputId where
  text : String
  deriving DecidableEq

namespace OutputId

/-- The name of an output by hash and index. -/
def ofParts (hash : String) (index : UInt32) : OutputId :=
  ⟨hash ++ "#" ++ toString index.toNat⟩

/-- What stands before and after the first `#`, if something stands before it. -/
def splitChars (cs : List Char) : Option (List Char × List Char) :=
  match cs.takeWhile (· != '#'), cs.dropWhile (· != '#') with
  | c :: hash, _ :: index => some (c :: hash, index)
  | _, _ => none

/-- The hash part, empty when there is none. -/
def hash (o : OutputId) : String :=
  match splitChars o.text.toList with
  | some (hash, _) => String.ofList hash
  | none => ""

/-- The index part, if it is a number. -/
def index? (o : OutputId) : Option UInt32 :=
  match splitChars o.text.toList with
  | some (_, index) => (Decimal.readWord 0x100000000 index).toOption.map UInt32.ofNat
  | none => none

end OutputId

/-- A transaction by its id. -/
structure TransactionRef where
  id : String
  deriving DecidableEq

/-- An output of a transaction that is spent or referred to. -/
structure OutputRef where
  transaction : TransactionRef
  index : UInt32
  deriving DecidableEq

namespace OutputRef

/-- The id of the transaction. -/
def hash (o : OutputRef) : String := o.transaction.id

/-- The output's name. -/
def outputId (o : OutputRef) : OutputId := .ofParts o.hash o.index

/-- How a reference is shown. -/
def describe (o : OutputRef) : String := o.hash ++ "#" ++ toString o.index.toNat

end OutputRef

instance : Portable OutputId where
  toJson o := .text o.text
  read m item := (Reader.text m item).map OutputId.mk

instance : Portable TransactionRef where
  toJson t := .record [.always "id" t.id]
  read := Record.read [("id", [])] fun r => TransactionRef.mk <$> r.get "id"

/-- Written with the transaction as an object; the flat form of older nodes, `txId` and `index`, is
read too. -/
instance : Portable OutputRef where
  toJson o := .record [.always "transaction" o.transaction, .always "index" o.index]
  read := Reader.firstOf [
    Record.readMap [("transaction", []), ("index", [])] fun r =>
      OutputRef.mk <$> r.get "transaction" <*> r.get "index",
    Record.readMap [("txId", []), ("index", [])] fun r =>
      (fun id index => OutputRef.mk ⟨id⟩ index) <$> r.get "txId" <*> r.get "index"]

/-! ## Outputs -/

/-- An output of a transaction. -/
structure Output where
  address : String
  datum : Option String
  datumHash : Option String
  value : Value
  script : Option Json

namespace Output

/-- The first output that has an entry for the asset, even one of zero. -/
def firstWith (asset : AssetId) (outputs : List Output) : Option Output :=
  outputs.find? fun o => o.value.assets.contains asset.text

end Output

instance : Portable Output where
  toJson o := .record
    [.always "address" o.address, .ifSome "datum" o.datum, .ifSome "datumHash" o.datumHash,
     .always "value" o.value, .ifSome "script" o.script]
  read := Record.read
    [("address", []), ("datum", []), ("datumHash", []), ("value", []), ("script", [])] fun r =>
    Output.mk <$> r.get "address" <*> r.getD "datum" none <*> r.getD "datumHash" none <*>
      r.getD "value" default <*> r.getD "script" none

/-! ## Validity and datums -/

/-- The slots between which a transaction is valid. -/
structure Validity where
  invalidBefore : Option UInt64
  invalidAfter : Option UInt64
  deriving DecidableEq

/-- Older nodes call the upper bound `invalidHereafter`. -/
instance : Portable Validity where
  toJson v := .record
    [.ifSome "invalidBefore" v.invalidBefore, .ifSome "invalidAfter" v.invalidAfter]
  read := Record.read [("invalidBefore", []), ("invalidAfter", ["invalidHereafter"])] fun r =>
    Validity.mk <$> r.getD "invalidBefore" none <*> r.getD "invalidAfter" none

/-- Datums in hexadecimal digits, by their hashes. -/
structure Datums where
  byHash : Dict String
  deriving DecidableEq

namespace Datums

instance : Inhabited Datums := ⟨⟨∅⟩⟩

/-- Whether there are none. -/
def isEmpty (d : Datums) : Bool := d.byHash.isEmpty

/-- The datum of that hash. -/
def get? (d : Datums) (hash : String) : Option String := d.byHash.get? hash

/-- A datum's text in hexadecimal digits: as it is if it has that form, else taken from base64. -/
def normalize? (raw : String) : Option String :=
  match Hex.decode? raw.toList with
  | some _ => some raw
  | none => (Base64.decode? raw.toList).map fun b => String.ofList (Hex.encode b)

/-- The datum that a document holds under a key. -/
def ofDocument (key : String) : Json → Reading String
  | .text raw =>
    match normalize? raw with
    | some hex => .ok hex
    | none => .error (some (.invalidDatum key .notEncoded))
  | found => .error (some (.invalidDatum key (.notText found)))

/-- Checks entries in the order of their keys. -/
def ofEntries : List (String × Json) → Reading (List (String × String))
  | [] => .ok []
  | (key, j) :: rest => do
    let hex ← ofDocument key j
    let datums ← ofEntries rest
    return (key, hex) :: datums

/-- Reads all entries first, then takes them for datums. -/
def read : Reader Datums := fun m item => do
  let raw : Dict Json ← Portable.read m item
  let datums ← ofEntries raw.entries
  return ⟨.ofList datums⟩

end Datums

instance : Portable Datums where
  toJson d := toJson d.byHash
  read := Datums.read

/-! ## Transactions -/

/-- A transaction. -/
structure Transaction where
  id : String
  spends : Option String := none
  inputs : List OutputRef := []
  references : List OutputRef := []
  collaterals : List OutputRef := []
  totalCollateral : Option Value := none
  collateralReturn : Option Output := none
  outputs : List Output := []
  certificates : List Json := []
  withdrawals : Dict Value := ∅
  fee : Option Value := none
  validity : Option Validity := none
  mint : Option Value := none
  network : Option Json := none
  scriptIntegrityHash : Option String := none
  requiredSignatories : List String := []
  requiredScripts : List String := []
  proposals : Option Json := none
  votes : Option Json := none
  metadata : Option Json := none
  signatories : List Json := []
  scripts : Option Json := none
  datums : Datums := ⟨∅⟩
  redeemers : Option Json := none
  cbor : Option String := none

namespace Transaction

/-- The fields of a transaction in the order in which they are written. -/
def fields : FieldNames :=
  ["id", "spends", "inputs", "references", "collaterals", "totalCollateral", "collateralReturn",
   "outputs", "certificates", "withdrawals", "fee", "validityInterval", "mint", "network",
   "scriptIntegrityHash", "requiredExtraSignatories", "requiredExtraScripts", "proposals", "votes",
   "metadata", "signatories", "scripts", "datums", "redeemers", "cbor"].map fun name => (name, [])

/-- The document form of a transaction; empty parts are left out. -/
def document (t : Transaction) : Json := .record
  [.always "id" t.id, .ifSome "spends" t.spends, .ifAny "inputs" t.inputs,
   .ifAny "references" t.references, .ifAny "collaterals" t.collaterals,
   .ifSome "totalCollateral" t.totalCollateral, .ifSome "collateralReturn" t.collateralReturn,
   .ifAny "outputs" t.outputs, .ifAny "certificates" t.certificates,
   .ifEntries "withdrawals" t.withdrawals, .ifSome "fee" t.fee,
   .ifSome "validityInterval" t.validity, .ifSome "mint" t.mint, .ifSome "network" t.network,
   .ifSome "scriptIntegrityHash" t.scriptIntegrityHash,
   .ifAny "requiredExtraSignatories" t.requiredSignatories,
   .ifAny "requiredExtraScripts" t.requiredScripts, .ifSome "proposals" t.proposals,
   .ifSome "votes" t.votes, .ifSome "metadata" t.metadata, .ifAny "signatories" t.signatories,
   .ifSome "scripts" t.scripts, .ifEntries "datums" t.datums.byHash,
   .ifSome "redeemers" t.redeemers, .ifSome "cbor" t.cbor]

/-- Reads the fields of a transaction. -/
def ofRecord (r : Record) : Placed Transaction :=
  Transaction.mk <$> r.get "id" <*> r.getD "spends" none <*> r.getD "inputs" [] <*>
    r.getD "references" [] <*> r.getD "collaterals" [] <*> r.getD "totalCollateral" none <*>
    r.getD "collateralReturn" none <*> r.getD "outputs" [] <*> r.getD "certificates" [] <*>
    r.getD "withdrawals" ∅ <*> r.getD "fee" none <*> r.getD "validityInterval" none <*>
    r.getD "mint" none <*> r.getD "network" none <*> r.getD "scriptIntegrityHash" none <*>
    r.getD "requiredExtraSignatories" [] <*> r.getD "requiredExtraScripts" [] <*>
    r.getD "proposals" none <*> r.getD "votes" none <*> r.getD "metadata" none <*>
    r.getD "signatories" [] <*> r.getD "scripts" none <*> r.getD "datums" ⟨∅⟩ <*>
    r.getD "redeemers" none <*> r.getD "cbor" none

end Transaction

instance : Portable Transaction where
  toJson := Transaction.document
  read := Record.read Transaction.fields Transaction.ofRecord

end ChainFollower
