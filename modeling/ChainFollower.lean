import ChainFollower.Attribute.Basic
import ChainFollower.Attribute.Binary
import ChainFollower.Attribute.Document
import ChainFollower.Attribute.Storage
import ChainFollower.Cbor.Parse
import ChainFollower.Cbor.Print
import ChainFollower.Chain.Point
import ChainFollower.Chain.PointRecord
import ChainFollower.CommandLine.Arguments
import ChainFollower.CommandLine.Command
import ChainFollower.CommandLine.Help
import ChainFollower.CommandLine.Outcome
import ChainFollower.CommandLine.Tail
import ChainFollower.Dict
import ChainFollower.Error
import ChainFollower.Item.Basic
import ChainFollower.Item.Portable
import ChainFollower.Item.Reader
import ChainFollower.Item.Record
import ChainFollower.Json.Basic
import ChainFollower.Json.Doc
import ChainFollower.Json.Literal
import ChainFollower.Json.Print
import ChainFollower.Json.Wide
import ChainFollower.Ledger.Arithmetic
import ChainFollower.Ledger.Asset
import ChainFollower.Ledger.Block
import ChainFollower.Ledger.Transaction
import ChainFollower.Ledger.Value
import ChainFollower.Main
import ChainFollower.Number.Binary64
import ChainFollower.Number.Decimal
import ChainFollower.Number.Power
import ChainFollower.Number.Shortest
import ChainFollower.Protocol.Envelope
import ChainFollower.Protocol.Legacy
import ChainFollower.Protocol.Peek
import ChainFollower.Protocol.Request
import ChainFollower.Protocol.Response
import ChainFollower.Protocol.Shape
import ChainFollower.Session.Config
import ChainFollower.Session.FrameSource
import ChainFollower.Session.Loopback
import ChainFollower.Session.State
import ChainFollower.Session.Token
import ChainFollower.Text.Base64
import ChainFollower.Text.Blank
import ChainFollower.Text.Invisible
import ChainFollower.Text.Octets
import ChainFollower.Text.Quoted
import ChainFollower.Proofs.Session.Credits
import ChainFollower.Proofs.Json.Grammar
import ChainFollower.Proofs.Json.Quoting
import ChainFollower.Proofs.Number.Decimal
import ChainFollower.Proofs.Number.Encodings
import ChainFollower.Proofs.Number.Literals
import ChainFollower.Proofs.Json.Printing
import ChainFollower.Proofs.Json.Reading
import ChainFollower.Proofs.Item.Records
import ChainFollower.Proofs.Protocol.Records
import ChainFollower.Proofs.Protocol.Translation
import ChainFollower.Proofs.Json.Settling
import ChainFollower.Proofs.Protocol.Sight
import ChainFollower.Proofs.Protocol.Peeking
import ChainFollower.Proofs.Json.Writing
import ChainFollower.Proofs.Session.Rules
import ChainFollower.Proofs.Session.Delivery
import ChainFollower.Proofs.Cbor.Rereading
import ChainFollower.Proofs.Json.Parts
import ChainFollower.Proofs.Json.Rereading
import ChainFollower.Proofs.Number.Shortest
import ChainFollower.Proofs.Item.Maps
import ChainFollower.Proofs.Ledger.Assets
import ChainFollower.Proofs.Ledger.Values
import ChainFollower.Proofs.Item.Members
import ChainFollower.Proofs.Json.Canonical
import ChainFollower.Proofs.Ledger.Records
import ChainFollower.Proofs.Ledger.Datums
import ChainFollower.Proofs.Ledger.Transactions
import ChainFollower.Proofs.Ledger.Blocks
import ChainFollower.Proofs.Protocol.Steps
import ChainFollower.Proofs.Protocol.Responses
import ChainFollower.Proofs.Json.Intact
import ChainFollower.Proofs.Protocol.Intersections
import ChainFollower.Proofs.Session.Failures
import ChainFollower.Proofs.Session.BackPressure
import ChainFollower.Proofs.Ledger.Sums
import ChainFollower.Proofs.Ledger.Coverage
import ChainFollower.Proofs.Ledger.Amounts
import ChainFollower.Proofs.Json.Admission
import ChainFollower.Proofs.Protocol.LegacyTransactions
import ChainFollower.Proofs.Ledger.Shapes
import ChainFollower.Proofs.Ledger.Groups
import ChainFollower.Proofs.Item.Quoted
import ChainFollower.Proofs.Protocol.Verbatim
import ChainFollower.Proofs.Json.Passing
import ChainFollower.Proofs.Protocol.Passthrough
import ChainFollower.Proofs.Text.Base64
import ChainFollower.Proofs.Text.Separators
import ChainFollower.Proofs.Attribute.Documents
import ChainFollower.Proofs.Attribute.Storage
import ChainFollower.Proofs.Chain.Points
import ChainFollower.Proofs.Protocol.Refusals
import ChainFollower.Proofs.Protocol.Pairing
import ChainFollower.Proofs.Protocol.Requests
import ChainFollower.Proofs.Session.Tips
import ChainFollower.Proofs.Session.CleanEnd
import ChainFollower.Proofs.Session.Schedules
import ChainFollower.Proofs.Session.Serving
import ChainFollower.Proofs.CommandLine.Following
import ChainFollower.Proofs.Ledger.DatumForms
import ChainFollower.Proofs.Protocol.ErrorTips
import ChainFollower.Proofs.Protocol.LegacyOmissions
import ChainFollower.Proofs.Ledger.Shortfalls
import ChainFollower.Proofs.Json.Paths
import ChainFollower.Proofs.Item.Skipping
import ChainFollower.Proofs.Protocol.SkippedBlocks
import ChainFollower.Proofs.Chain.Payloads
import ChainFollower.Proofs.Cbor.Grammar
import ChainFollower.Proofs.Chain.Order
import ChainFollower.Proofs.Session.Sends
import ChainFollower.Proofs.Json.Requoting
import ChainFollower.Proofs.Chain.StoredPoints
import ChainFollower.Proofs.Session.Tokens
import ChainFollower.Proofs.Ledger.AssetIds
import ChainFollower.Proofs.Ledger.OutputIds
