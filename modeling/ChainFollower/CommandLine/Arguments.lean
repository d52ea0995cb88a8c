/-!
# Arguments

Reading the arguments of a command: flags that stand alone, flags with a value, questions about the
command, and what is neither.  A value stands in the next argument, which must not look like a flag,
or behind an equals sign; a letter takes its value at once as well.  No flag may be given twice.
Arguments are judged one after the other, so a question is answered unless something before it is
wrong, whatever comes after it.
-/

namespace ChainFollower.CommandLine

/-- A flag by its name and, for some, by a letter. -/
structure Flag where
  name : String
  letter : Option Char := none
  /-- Whether a value goes with it. -/
  valued : Bool := true
  /-- Which values it may have. -/
  accepts : String → Bool := fun _ => true

/-- What an argument is. -/
inductive Argument
  /-- No flag at all. -/
  | plain
  | unknown
  /-- A flag without a value beside it. -/
  | bare (flag : Flag)
  | attached (flag : Flag) (value : String)

namespace Argument

/-- The argument of two dashes and a name. -/
def ofLong (flags : List Flag) (cs : List Char) : Argument :=
  let name := String.ofList (cs.takeWhile (· != '='))
  match flags.find? (·.name == name), cs.dropWhile (· != '=') with
  | none, _ => .unknown
  | some flag, [] => .bare flag
  | some flag, _ :: value => .attached flag (String.ofList value)

/-- The argument of one dash and a letter; an equals sign before the value is no part of it. -/
def ofShort (flags : List Flag) (letter : Char) (rest : List Char) : Argument :=
  match flags.find? (·.letter == some letter), rest with
  | none, _ => .unknown
  | some flag, [] => .bare flag
  | some flag, '=' :: value => .attached flag (String.ofList value)
  | some flag, value => .attached flag (String.ofList value)

/-- What an argument is.  One dash alone is no flag, two dashes alone end all flags. -/
def classify (flags : List Flag) (arg : String) : Argument :=
  match arg.toList with
  | ['-'] | ['-', '-'] => .plain
  | '-' :: '-' :: cs => ofLong flags cs
  | '-' :: letter :: rest => ofShort flags letter rest
  | _ => .plain

/-- Whether an argument cannot be the value of the flag before it. -/
def looksLikeFlag (arg : String) : Bool :=
  match arg.toList with
  | '-' :: _ :: _ => true
  | _ => false

end Argument

/-- What can be asked about a command. -/
inductive Question
  /-- How it is used, in short. -/
  | summary
  /-- How it is used, at length. -/
  | details
  | version
  deriving DecidableEq

/-- The question how a command is used.  After the letter for it nothing counts. -/
def Question.aboutUse? (arg : String) : Option Question :=
  match arg.toList with
  | '-' :: 'h' :: _ => some .summary
  | _ => if arg = "--help" then some .details else none

/-- The question how a command is used or which version it has. -/
def Question.ofArgument? (arg : String) : Option Question :=
  match arg.toList with
  | '-' :: 'V' :: _ => some .version
  | _ => if arg = "--version" then some .version else aboutUse? arg

/-- Why arguments give no values. -/
inductive Stop
  | misused
  | asked (question : Question)
  deriving DecidableEq

/-- Values by the names of their flags; a flag that stands alone has an empty one. -/
abbrev Given := List (String × String)

/-- Adds a flag, unless it is there already or cannot have the value. -/
def Given.add (given : Given) (flag : Flag) (value : String) : Except Stop Given :=
  if (given.lookup flag.name).isNone && flag.accepts value then .ok ((flag.name, value) :: given)
  else .error .misused

/-- Reads flags up to the first argument that is none. -/
def readFlags (flags : List Flag) (question? : String → Option Question) (given : Given) :
    List String → Except Stop (Given × List String)
  | [] => .ok (given, [])
  | arg :: rest =>
    match question? arg with
    | some question => .error (.asked question)
    | none =>
      match Argument.classify flags arg with
      | .plain => .ok (given, arg :: rest)
      | .unknown => .error .misused
      | .attached flag value =>
        if flag.valued then do readFlags flags question? (← given.add flag value) rest
        else .error .misused
      | .bare flag =>
        if flag.valued then
          match rest with
          | [] => .error .misused
          | value :: later =>
            if Argument.looksLikeFlag value then .error .misused
            else do readFlags flags question? (← given.add flag value) later
        else do readFlags flags question? (← given.add flag "") rest

/-- Reads the flags of a command, after which nothing may follow but the end of all flags. -/
def readAll (flags : List Flag) (args : List String) : Except Stop Given := do
  match ← readFlags flags Question.aboutUse? [] args with
  | (given, []) | (given, ["--"]) => return given
  | _ => throw .misused

example : (readAll [{ name := "file", letter := some 'f' }] ["-fx", "--"]).toOption =
    some [("file", "x")] := by
  decide +kernel
example : (readAll [{ name := "file" }] ["--file", "x", "--file=y"]).toOption = none := by
  decide +kernel
example : (readAll [{ name := "file" }, { name := "json", valued := false }]
    ["--file", "--json"]).toOption = none := by
  decide +kernel

end ChainFollower.CommandLine
