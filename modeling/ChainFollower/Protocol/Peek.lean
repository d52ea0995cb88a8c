import ChainFollower.Protocol.Legacy

/-!
# Peeking at the tip

The tip of a frame without the rest of it: members that can hold a tip are read, everything else is
skipped, so that a block of any size and content costs no more than finding its end.
-/

namespace ChainFollower.Peek

/-- Reads a record of a member `tip` alone. -/
def readHolder : Reader (Option Legacy.Tip) :=
  Record.read [("tip", [])] fun r => id <$> r.getD "tip" none

/-- The first tip of a result: its own, or one below the name of a legacy result. -/
def readResult : Reader (Option Tip) :=
  let holder := fun (r : Record) name =>
    Option.join <$> r.getWith name (Reader.option readHolder) none
  Record.read
    [("tip", []), ("IntersectionFound", []), ("IntersectionNotFound", []), ("RollForward", []),
     ("RollBackward", [])] fun r =>
    (fun (tip : Option Tip) found notFound forward backward =>
      tip.or (((found.or notFound).or (forward.or backward)).map Legacy.Tip.current)) <$>
      r.getD "tip" none <*> holder r "IntersectionFound" <*> holder r "IntersectionNotFound" <*>
      holder r "RollForward" <*> holder r "RollBackward"

/-- Reads the data of an error. -/
def readError : Reader (Option Json) :=
  Record.read [("data", [])] fun r => id <$> r.getD "data" none

/-- Reads the tip of a frame's result, or of its error's data. -/
def readFrame : Reader (Option Tip) :=
  Record.read [("result", []), ("error", [])] fun r =>
    (fun result error => Option.or (Option.join result)
      ((Option.join error).bind ResultError.tipOfData)) <$>
      r.getWith "result" (Reader.option readResult) none <*>
      r.getWith "error" (Reader.option readError) none

/-- The tip of a frame; nothing if the frame has none or cannot be read. -/
def tip? (frame : Octets) : Option Tip :=
  -- The document is read as it stands: wide integers are not quoted here.
  match Doc.read frame with
  | (doc, true) => ((readFrame .document (doc.item documentLevels)).toOption).join
  | (_, false) => none

end ChainFollower.Peek
