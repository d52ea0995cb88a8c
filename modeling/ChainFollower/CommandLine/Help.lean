import ChainFollower.CommandLine.Arguments

/-!
# Help

What the program tells about itself.  A summary has one entry a line, filled up to the width of a
page; details put the text of an entry below its flags.  Only where details say more than a summary
do the two differ, and only there does each point at the other.
-/

namespace ChainFollower.CommandLine.Help

/-- What can be asked about. -/
inductive Topic
  | program
  /-- Following an endpoint, which may have a default. -/
  | tail (endpoint : Option String)
  | decode
  | enough
  deriving DecidableEq

/-- A flag with what is told about it. -/
structure Entry where
  flags : String
  about : String
  /-- What holds for its value. -/
  notes : List String := []
  /-- The values that it may have, each with what it means. -/
  choices : List (String × String) := []

/-- The whole page about a topic. -/
structure Page where
  about : String
  /-- What is told in place of `about` where there is room. -/
  story : List String := []
  usage : String
  commands : List String := []
  entries : List Entry

/-! ## Pages -/

/-- The flag that every command takes for the level of its log. -/
def logLevel : Entry where
  flags := "      --log-level <LOG_LEVEL>"
  about := "Log filter, e.g. \"info\" or \"info,chainsync_ws=debug\""
  notes := ["[default: info]"]

/-- The flag that every command takes for the form of its log. -/
def jsonLogs : Entry := { flags := "      --json-logs", about := "Emit logs as JSON lines" }

/-- The page about the program. -/
def program : Page where
  about := "Chain-sync client: tail a node, decode saved frames, check values"
  story :=
    ["chainsync follows a chain-sync WebSocket endpoint, speaking either the",
     "current JSON-RPC protocol or the legacy JSON-WSP one, and prints every",
     "response in the current shape.",
     "",
     "ENVIRONMENT VARIABLES:",
     "  CHAINSYNC_URL   default endpoint for `tail --url`",
     "  RUST_LOG        overrides --log-level",
     ""]
  usage := "chainsync [OPTIONS] <COMMAND>"
  commands :=
    ["  tail    Stream responses from a chain-sync endpoint",
     "  decode  Decode a saved payload and print it in the current shape",
     "  enough  Check whether one value covers another",
     "  help    Print this message or the help of the given subcommand(s)"]
  entries := [logLevel, jsonLogs]

/-- The page about following an endpoint. -/
def tail (endpoint : Option String) : Page where
  about := "Stream responses from a chain-sync endpoint"
  usage := "chainsync tail [OPTIONS] --url <URL>"
  entries :=
    [logLevel,
     { flags := "      --url <URL>", about := "WebSocket endpoint"
       notes := ["[env: CHAINSYNC_URL=" ++ endpoint.getD "" ++ "]"] },
     jsonLogs,
     { flags := "      --pipeline <PIPELINE>", about := "Next-block requests kept in flight"
       notes := ["[default: 50]"] },
     { flags := "      --count <COUNT>", about := "Stop after this many responses" },
     { flags := "      --legacy", about := "Speak the legacy JSON-WSP protocol" },
     { flags := "      --points <POINTS>"
       about := "Intersection candidates as a JSON array, e.g. '[\"origin\"]'" },
     { flags := "      --retries <RETRIES>"
       about := "Reconnect this many times after a connection failure"
       notes := ["[default: 0]"] },
     { flags := "      --json", about := "Print each response as a JSON line" }]

/-- The page about showing a payload. -/
def decode : Page where
  about := "Decode a saved payload and print it in the current shape"
  usage := "chainsync decode [OPTIONS] --file <FILE>"
  entries :=
    [{ flags := "  -f, --file <FILE>", about := "Path to the payload" },
     logLevel,
     { flags := "      --format <FORMAT>", about := "Payload encoding"
       notes := ["[default: json]"]
       choices :=
         [("json", "A response frame (either protocol)"),
          ("cbor-point", "A CBOR-encoded point"),
          ("attribute-point", "An attribute-value point, as JSON")] },
     jsonLogs]

/-- The page about comparing values. -/
def enough : Page where
  about := "Check whether one value covers another"
  usage := "chainsync enough [OPTIONS] --have <HAVE> --want <WANT>"
  entries :=
    [{ flags := "      --have <HAVE>", about := "Value on hand, as JSON" },
     logLevel,
     jsonLogs,
     { flags := "      --want <WANT>", about := "Value required, as JSON" }]

/-- The page about a topic. -/
def page : Topic → Page
  | .program => program
  | .tail endpoint => tail endpoint
  | .decode => decode
  | .enough => enough

/-! ## Layout -/

/-- The characters in a line of a page. -/
def pageWidth : Nat := 100

/-- Where the text of an entry starts when it stands below. -/
def margin : String := String.ofList (List.replicate 10 ' ')

/-- The text `s` with blanks after it up to a column. -/
def padded (s : String) (column : Nat) : String :=
  s ++ String.ofList (List.replicate (column - s.length) ' ')

/-- Puts words after `line` as long as the page has room for them, and the others into lines of
their own from a column on. -/
def fill (column : Nat) (line : String) : List String → List String
  | [] => [line]
  | word :: words =>
    if line.length + 1 + word.length ≤ pageWidth then fill column (line ++ " " ++ word) words
    else line :: fill column (padded "" column ++ word) words

/-- The widest of some texts. -/
def widest (texts : List String) : Nat := (texts.map String.length).foldl max 0

/-- The values that an entry may have, in one note. -/
def Entry.choiceNote (e : Entry) : List String :=
  if e.choices.isEmpty then []
  else ["[possible values: " ++ ", ".intercalate (e.choices.map Prod.fst) ++ "]"]

/-- An entry with its text from a column on. -/
def Entry.beside (column : Nat) (e : Entry) : List String :=
  let words := (e.about :: e.notes ++ e.choiceNote).flatMap (·.splitOn " ")
  fill column (padded e.flags (column - 1)) words

/-- The values that an entry may have, each with its meaning. -/
def Entry.choiceLines (e : Entry) : List String :=
  if e.choices.isEmpty then []
  else
    let width := widest (e.choices.map Prod.fst) + 2
    ["", margin ++ "Possible values:"] ++ e.choices.map fun (name, meaning) =>
      margin ++ "- " ++ padded (name ++ ":") width ++ meaning

/-- An entry with its text below. -/
def Entry.below (e : Entry) : List String :=
  [e.flags, margin ++ e.about]
    ++ (if e.notes.isEmpty then [] else margin :: e.notes.map (margin ++ ·))
    ++ e.choiceLines

/-- Whether details say more than a summary. -/
def Page.hasDetails (p : Page) : Bool :=
  !p.story.isEmpty || p.entries.any fun e => !e.choices.isEmpty

/-- What can be asked, as entries of a page. -/
def Page.questions (p : Page) (atLength : Bool) : List Entry :=
  let hint :=
    if !p.hasDetails then ""
    else if atLength then " (see a summary with '-h')" else " (see more with '--help')"
  { flags := "  -h, --help", about := "Print help" ++ hint } ::
    if p.commands.isEmpty then []
    else [{ flags := "  -V, --version", about := "Print version" }]

/-- The lines of a page. -/
def Page.lines (p : Page) (atLength : Bool) : List String :=
  let atLength := atLength && p.hasDetails
  let entries := p.entries ++ p.questions atLength
  let column := widest (entries.map Entry.flags) + 2
  (if atLength && !p.story.isEmpty then p.story else [p.about])
    ++ ["", "Usage: " ++ p.usage, ""]
    ++ (if p.commands.isEmpty then [] else "Commands:" :: p.commands ++ [""])
    ++ ["Options:"]
    ++ (if atLength then [""].intercalate (entries.map Entry.below)
        else entries.flatMap (Entry.beside column))

/-- The answer to a question. -/
def answer (topic : Topic) : Question → List String
  | .summary => (page topic).lines false
  | .details => (page topic).lines true
  | .version => ["chainsync 0.1.0"]

end ChainFollower.CommandLine.Help
