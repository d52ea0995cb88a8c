import ChainFollower.CommandLine.Arguments
import ChainFollower.CommandLine.Help
import ChainFollower.CommandLine.Tail

/-!
# Commands

The three commands and their arguments: `tail` follows an endpoint, `decode` prints a saved payload
in the current shape, `enough` tells whether one value covers another.  A question about the program
or one of its commands is answered in place of any work.
-/

namespace ChainFollower.CommandLine

/-- The encodings of a saved payload. -/
inductive Format
  /-- A response. -/
  | json
  /-- A point as a binary record. -/
  | cborPoint
  /-- A point as an attribute. -/
  | attributePoint
  deriving DecidableEq

/-- A command with its arguments. -/
inductive Command
  | tail (options : Tail.Options)
  | decode (file : String) (format : Format)
  | enough (held wanted : String)
  | tell (topic : Help.Topic) (question : Question)

namespace Command

/-! ## Values -/

/-- A number that fits a word. -/
def word? (s : String) : Option UInt64 :=
  (Decimal.readWord 0x10000000000000000 s.toList).toOption.map UInt64.ofNat

/-- A number that fits half a word; zero may have a minus sign. -/
def halfWord? (s : String) : Option UInt32 :=
  match s.toList with
  | '-' :: '0' :: zeros => if zeros.all (· == '0') then some 0 else none
  | cs => (Decimal.readWord 0x100000000 cs).toOption.map UInt32.ofNat

/-- The encoding of that name. -/
def format? : String → Option Format
  | "json" => some .json
  | "cbor-point" => some .cborPoint
  | "attribute-point" => some .attributePoint
  | _ => none

/-- The value of a flag, if it is given. -/
def value? {α : Type} (given : Given) (name : String) (read : String → Option α) : Option α :=
  (given.lookup name).bind read

/-! ## Flags -/

/-- Flags that every command takes, and that may also stand before it.  They only concern the log.
-/
def commonFlags : List Flag := [{ name := "log-level" }, { name := "json-logs", valued := false }]

/-- The flags of `tail`. -/
def tailFlags : List Flag :=
  [{ name := "url" },
   { name := "pipeline", accepts := fun s => (word? s).isSome },
   { name := "count", accepts := fun s => (word? s).isSome },
   { name := "legacy", valued := false },
   { name := "points" },
   { name := "retries", accepts := fun s => (halfWord? s).isSome },
   { name := "json", valued := false }]

/-- The flags of `decode`. -/
def decodeFlags : List Flag :=
  [{ name := "file", letter := some 'f' },
   { name := "format", accepts := fun s => (format? s).isSome }]

/-- The flags of `enough`. -/
def enoughFlags : List Flag := [{ name := "have" }, { name := "want" }]

/-! ## Reading a command -/

/-- A flag that must be given. -/
def need (value : Option String) : Except Stop String :=
  match value with
  | some s => .ok s
  | none => .error .misused

/-- Reads the arguments of `tail`; the endpoint may have a default. -/
def readTail (endpoint : Option String) (args : List String) : Except Stop Command := do
  let given ← readAll (tailFlags ++ commonFlags) args
  let url ← need ((given.lookup "url").or endpoint)
  return .tail {
    url := url
    pipeline := (value? given "pipeline" word?).getD 50
    count := value? given "count" word?
    legacy := (given.lookup "legacy").isSome
    points := given.lookup "points"
    retries := (value? given "retries" halfWord?).getD 0
    asJson := (given.lookup "json").isSome }

/-- Reads the arguments of `decode`. -/
def readDecode (args : List String) : Except Stop Command := do
  let given ← readAll (decodeFlags ++ commonFlags) args
  let file ← need (given.lookup "file")
  return .decode file ((value? given "format" format?).getD .json)

/-- Reads the arguments of `enough`. -/
def readEnough (args : List String) : Except Stop Command := do
  let given ← readAll (enoughFlags ++ commonFlags) args
  return .enough (← need (given.lookup "have")) (← need (given.lookup "want"))

/-- The command that was read; a question is one about the topic. -/
def about (topic : Help.Topic) : Except Stop Command → Option Command
  | .ok command => some command
  | .error (.asked question) => some (.tell topic question)
  | .error .misused => none

/-- Reads the name of the command that is asked about. -/
def readHelp (endpoint : Option String) : List String → Option Command
  | [] => some (.tell .program .details)
  | ["tail"] => some (.tell (.tail endpoint) .details)
  | ["decode"] => some (.tell .decode .details)
  | ["enough"] => some (.tell .enough .details)
  | _ => none

/-- Reads a command line; nothing if it cannot be understood. -/
def read (endpoint : Option String) (args : List String) : Option Command :=
  match readFlags commonFlags Question.ofArgument? [] args with
  | .error (.asked question) => some (.tell .program question)
  | .ok (_, "tail" :: rest) => about (.tail endpoint) (readTail endpoint rest)
  | .ok (_, "decode" :: rest) => about .decode (readDecode rest)
  | .ok (_, "enough" :: rest) => about .enough (readEnough rest)
  | .ok (_, "help" :: rest) => readHelp endpoint rest
  | _ => none

end Command

end ChainFollower.CommandLine
