import ChainFollower.CommandLine.Outcome

/-!
# The command

Reads the arguments and the file that they name, carries the command out, and passes on what it
comes to.  No network is linked in: every endpoint is out of reach, as it is for a session whose
peer does not answer.
-/

namespace ChainFollower.CommandLine

/-- The file that a command reads, if it can be read. -/
def contentsOf (file : String) : IO (Option Octets) := do
  try
    let bytes ← IO.FS.readBinFile file
    return some bytes.toList
  catch _ => return none

/-- No endpoint is within reach. -/
def dial (_ : String) : Except String Session.Server := .error "no network"

end ChainFollower.CommandLine

open ChainFollower CommandLine

def main (args : List String) : IO UInt32 := do
  let command := Command.read (← IO.getEnv "CHAINSYNC_URL") args
  let contents ← match command with
    | some (.decode file _) => contentsOf file
    | _ => pure none
  let outcome := Outcome.ofCommand (fun _ => contents) (Session.connect dial) command
  for ms in outcome.pauses do
    IO.sleep ms.toUInt32
  IO.print outcome.printed
  match outcome.complaint with
  | some complaint => IO.eprintln ("Error: " ++ complaint)
  | none => pure ()
  return outcome.exitCode
