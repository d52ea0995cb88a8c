import ChainFollower.Attribute.Storage
import ChainFollower.Chain.PointRecord
import ChainFollower.CommandLine.Command
import ChainFollower.Ledger.Arithmetic

/-!
# What commands come to

The printed text, the exit code and the complaint of each command, as functions of what they read.
-/

namespace ChainFollower.CommandLine

/-- What a command leaves behind. -/
structure Outcome where
  exitCode : UInt32 := 0
  printed : String := ""
  /-- What is told about a failure. -/
  complaint : Option String := none
  /-- Milliseconds that were waited, each time before connecting again. -/
  pauses : List Nat := []

namespace Outcome

/-- A command that did its work. -/
def done (printed : String) : Outcome := { printed := printed }

/-- A command that failed. -/
def failed (complaint : String) : Outcome := { exitCode := 1, complaint := some complaint }

/-- A command line that cannot be understood. -/
def misused : Outcome := { exitCode := 2 }

/-- The text of lines, each ended. -/
def lines (ls : List String) : String := String.join (ls.map (· ++ "\n"))

/-! ## Showing payloads -/

/-- The document of a response. -/
def ofResponse (payload : Octets) : Except String Json :=
  match Response.decode payload with
  | .ok r => .ok (toJson r)
  | .error _ => .error "not a chain-sync response"

/-- The document of a point record. -/
def ofPointRecord (payload : Octets) : Except String Json :=
  match PointRecord.decode payload with
  | .ok p => .ok (toJson p)
  | .error e => .error e.message

/-- The document of a point in an attribute. -/
def ofPointAttribute (payload : Octets) : Except String Json :=
  match Json.decodePlain payload with
  | .error _ => .error "not an attribute value"
  | .ok (item : Attribute) =>
    match Point.ofStored? (some item) with
    | .ok p => .ok (toJson p)
    | .error e => .error e.message

/-- The document of a payload. -/
def ofPayload : Format → Octets → Except String Json
  | .json => ofResponse
  | .cborPoint => ofPointRecord
  | .attributePoint => ofPointAttribute

/-- Shows a payload over several lines, all members sorted. -/
def decode (format : Format) (payload : Octets) : Outcome :=
  match ofPayload format payload with
  | .ok j => done (lines [j.sorted.pretty])
  | .error complaint => failed complaint

/-! ## Comparing values -/

/-- Tells whether one value covers another, and what is short. -/
def enough (held wanted : String) : Outcome :=
  match Json.decode (Octets.ofText held) with
  | .error _ => failed "invalid --have value"
  | .ok (held : Value) =>
    match Json.decode (Octets.ofText wanted) with
    | .error _ => failed "invalid --want value"
    | .ok (wanted : Value) =>
      match Value.shortfall? held wanted with
      | none => done (lines ["enough"])
      | some s =>
        { exitCode := 1
          printed := lines [s.message, "  missing: " ++ toString s.missing] }

/-! ## Following -/

/-- Follows an endpoint; `connect` opens a session. -/
def tail {σ : Type} [FrameSource σ] (connect : Session.Config → Except TransportError σ)
    (o : Tail.Options) : Outcome × List σ :=
  match o.startPoints? with
  | none => (failed "--points must be a JSON array of points", [])
  | some points =>
    let report := Tail.followAll connect o points o.retries.toNat 0 {}
    match report.failure with
    | none => ({ printed := lines report.lines, pauses := report.pauses }, report.sources)
    | some _ =>
      ({ exitCode := 1, printed := lines report.lines, pauses := report.pauses,
         complaint := some "chain-sync session failed" }, report.sources)

/-! ## Any command -/

/-- Carries a command out, with the files that can be read and a way to open sessions. -/
def ofCommand {σ : Type} [FrameSource σ] (contents : String → Option Octets)
    (connect : Session.Config → Except TransportError σ) : Option Command → Outcome
  | none => misused
  | some (.tail options) => (tail connect options).1
  | some (.decode file format) =>
    match contents file with
    | some payload => decode format payload
    | none => failed ("cannot read " ++ file)
  | some (.enough held wanted) => enough held wanted
  | some (.tell topic question) => done (lines (Help.answer topic question))

end Outcome

end ChainFollower.CommandLine
