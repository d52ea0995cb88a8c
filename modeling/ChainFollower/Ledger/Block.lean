import ChainFollower.Chain.Point
import ChainFollower.Ledger.Transaction

/-!
# Blocks

A block of the chain with what its header tells.  Every part but the position may be missing.
-/

namespace ChainFollower

/-- The randomness a header proves. -/
structure Nonce where
  output : String
  proof : String
  deriving DecidableEq

/-- The size of a block. -/
structure BlockSize where
  bytes : UInt64
  deriving DecidableEq

/-- A version of the ledger protocol. -/
structure ProtocolVersion where
  major : UInt32
  minor : UInt32
  patch : Option UInt32
  deriving DecidableEq

/-- The ledger protocol of a block. -/
structure LedgerProtocol where
  version : ProtocolVersion
  deriving DecidableEq

/-- A key-evolving signature. -/
structure Kes where
  period : UInt64 := 0
  verificationKey : String := ""
  deriving DecidableEq

/-- An operational certificate. -/
structure OperationalCertificate where
  count : UInt64 := 0
  kes : Kes := ⟨0, ""⟩
  deriving DecidableEq

/-- What made the issuer leader of the slot. -/
structure LeaderValue where
  proof : String := ""
  output : String := ""
  deriving DecidableEq

/-- The issuer of a block. -/
structure Issuer where
  verificationKey : String
  vrfVerificationKey : String
  certificate : OperationalCertificate
  leaderValue : LeaderValue
  deriving DecidableEq

/-- A block. -/
structure Block where
  kind : String := ""
  era : String := ""
  id : String := ""
  ancestor : String := ""
  nonce : Option Nonce := none
  height : UInt64 := 0
  size : Option BlockSize := none
  slot : UInt64 := 0
  transactions : List Transaction := []
  protocol : Option LedgerProtocol := none
  issuer : Option Issuer := none

/-- The position of a block, its height included. -/
def Block.point (b : Block) : Point := .block ⟨b.slot, b.id, some b.height⟩

/-! ## Document form -/

instance : Portable Nonce where
  toJson n := .record [.ifText "output" n.output, .ifText "proof" n.proof]
  read := Record.read [("output", []), ("proof", [])] fun r =>
    Nonce.mk <$> r.getD "output" "" <*> r.getD "proof" ""

instance : Portable BlockSize where
  toJson s := .record [.always "bytes" s.bytes]
  read := Record.read [("bytes", [])] fun r => BlockSize.mk <$> r.get "bytes"

instance : Portable ProtocolVersion where
  toJson v := .record
    [.always "major" v.major, .always "minor" v.minor, .ifSome "patch" v.patch]
  read := Record.read [("major", []), ("minor", []), ("patch", [])] fun r =>
    ProtocolVersion.mk <$> r.get "major" <*> r.get "minor" <*> r.getD "patch" none

instance : Portable LedgerProtocol where
  toJson p := .record [.always "version" p.version]
  read := Record.read [("version", [])] fun r => LedgerProtocol.mk <$> r.get "version"

instance : Portable Kes where
  toJson k := .record [.always "period" k.period, .always "verificationKey" k.verificationKey]
  read := Record.read [("period", []), ("verificationKey", [])] fun r =>
    Kes.mk <$> r.getD "period" 0 <*> r.getD "verificationKey" ""

instance : Portable OperationalCertificate where
  toJson c := .record [.always "count" c.count, .always "kes" c.kes]
  read := Record.read [("count", []), ("kes", [])] fun r =>
    OperationalCertificate.mk <$> r.getD "count" 0 <*> r.getD "kes" {}

instance : Portable LeaderValue where
  toJson v := .record [.ifText "proof" v.proof, .ifText "output" v.output]
  read := Record.read [("proof", []), ("output", [])] fun r =>
    LeaderValue.mk <$> r.getD "proof" "" <*> r.getD "output" ""

instance : Portable Issuer where
  toJson i := .record
    [.always "verificationKey" i.verificationKey,
     .always "vrfVerificationKey" i.vrfVerificationKey,
     .always "operationalCertificate" i.certificate, .always "leaderValue" i.leaderValue]
  read := Record.read
    [("verificationKey", []), ("vrfVerificationKey", []), ("operationalCertificate", []),
     ("leaderValue", [])] fun r =>
    Issuer.mk <$> r.getD "verificationKey" "" <*> r.getD "vrfVerificationKey" "" <*>
      r.getD "operationalCertificate" {} <*> r.getD "leaderValue" {}

namespace Block

/-- The fields of a block in the order in which they are written. -/
def fields : FieldNames :=
  ["type", "era", "id", "ancestor", "nonce", "height", "size", "slot", "transactions", "protocol",
   "issuer"].map fun name => (name, [])

/-- The document form of a block; empty parts are left out. -/
def document (b : Block) : Json := .record
  [.ifText "type" b.kind, .ifText "era" b.era, .always "id" b.id, .ifText "ancestor" b.ancestor,
   .ifSome "nonce" b.nonce, .always "height" b.height, .ifSome "size" b.size,
   .always "slot" b.slot, .ifAny "transactions" b.transactions, .ifSome "protocol" b.protocol,
   .ifSome "issuer" b.issuer]

/-- Reads the fields of a block. -/
def ofRecord (r : Record) : Placed Block :=
  Block.mk <$> r.getD "type" "" <*> r.getD "era" "" <*> r.getD "id" "" <*> r.getD "ancestor" "" <*>
    r.getD "nonce" none <*> r.getD "height" 0 <*> r.getD "size" none <*> r.getD "slot" 0 <*>
    r.getD "transactions" [] <*> r.getD "protocol" none <*> r.getD "issuer" none

end Block

instance : Portable Block where
  toJson := Block.document
  read := Record.read Block.fields Block.ofRecord

end ChainFollower
