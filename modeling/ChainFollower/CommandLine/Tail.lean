import ChainFollower.Session.Loopback

/-!
# Following a chain

`chainsync tail` prints every response of an endpoint, one a line.  A frame that cannot be read is
passed over and not counted.  A session never connects again by itself: after a failure that may
pass, the command opens a new one from the last point it printed, and waits longer each time.
-/

namespace ChainFollower.Tail

/-- How far the printing has come, over all sessions. -/
structure Progress where
  printed : Nat := 0
  lastPoint : Option Point := none

namespace Progress

/-- Whether as many responses have been printed as were asked for. -/
def isDone (p : Progress) (limit : Option UInt64) : Bool :=
  match limit with
  | some n => n.toNat ≤ p.printed
  | none => false

/-- One response more. -/
def record (p : Progress) (r : Response) : Progress where
  printed := p.printed + 1
  lastPoint :=
    match r.result with
    | .step s => some s.point
    | .intersection _ => p.lastPoint

/-- The points with which the next session starts. -/
def resumePoints (p : Progress) (initial : List Point) : List Point :=
  match p.lastPoint with
  | some point => [point]
  | none => initial

end Progress

/-- How a response is printed. -/
def line (asJson : Bool) (r : Response) : String :=
  if asJson then (toJson r).compact else r.result.describe

/-! ## One session -/

/-- What following has come to: the lines printed, the progress, and how it ended. -/
structure Followed where
  lines : List String
  progress : Progress
  outcome : Except TransportError Unit

/-- One more line in front. -/
def Followed.prepend (line : String) (f : Followed) : Followed :=
  { f with lines := line :: f.lines }

variable {σ : Type} [FrameSource σ]

/-- Reads responses until enough have been printed, the stream ends or the source fails, of at most
`n` frames. -/
def readFrames (limit : Option UInt64) (asJson : Bool) : Nat → Progress → σ → Followed × σ
  | 0, progress, source => (⟨[], progress, .ok ()⟩, source)
  | n + 1, progress, source =>
    if progress.isDone limit then (⟨[], progress, .ok ()⟩, source)
    else match FrameSource.nextResponse source with
    | (.ok (some r), source) =>
      let (followed, source) := readFrames limit asJson n (progress.record r) source
      (followed.prepend (line asJson r), source)
    | (.ok none, source) => (⟨[], progress, .ok ()⟩, source)
    -- A frame that cannot be decoded is passed over.
    | (.error (.decode _), source) => readFrames limit asJson n progress source
    | (.error (.transport e), source) => (⟨[], progress, .error e⟩, source)

/-- Follows a source and closes it.  Closing can only add a failure that struck after the end. -/
def follow (limit : Option UInt64) (asJson : Bool) (progress : Progress) (source : σ) :
    Followed × σ :=
  let (followed, source) := readFrames limit asJson (FrameSource.bound source + 1) progress source
  let (closed, source) := FrameSource.close source
  ({ followed with outcome := followed.outcome.bind fun _ => closed }, source)

/-! ## Several sessions -/

/-- What the command is asked for. -/
structure Options where
  url : String
  pipeline : UInt64 := 50
  /-- How many responses to print at most. -/
  count : Option UInt64 := none
  legacy : Bool := false
  /-- The points to start from, as a document. -/
  points : Option String := none
  /-- How often to connect again. -/
  retries : UInt32 := 0
  asJson : Bool := false

/-- The points to start from, unless the text is no list of points. -/
def Options.startPoints? (o : Options) : Option (List Point) :=
  match o.points with
  | none => some []
  | some s => (Json.decodePlain (Octets.ofText s)).toOption

/-- The configuration of the next session. -/
def Options.config (o : Options) (points : List Point) : Session.Config where
  endpoint := o.url
  pipeline := o.pipeline
  shape := if o.legacy then .legacy else .current
  points := points

/-- Milliseconds to wait before connecting again: twice as long each time, up to half a minute. -/
def pause (attempt : Nat) : Nat := min (500 * pow2 (min attempt 16)) 30000

/-- One session: what following it has come to, and the source as it was left, if one was reached.
-/
def session (connect : Session.Config → Except TransportError σ) (o : Options)
    (points : List Point) (progress : Progress) : Followed × Option σ :=
  match connect (o.config points) with
  | .error e => (⟨[], progress, .error e⟩, none)
  | .ok source =>
    let (followed, source) := follow o.count o.asJson progress source
    (followed, some source)

/-- What the command has come to. -/
structure Report (σ : Type) where
  lines : List String
  /-- The pauses made before connecting again. -/
  pauses : List Nat
  /-- The sources that were followed, as they were left. -/
  sources : List σ
  /-- The failure that ended the command. -/
  failure : Option TransportError

/-- The report of a session after which no other follows. -/
def Report.last (followed : Followed) (source : Option σ) (failure : Option TransportError) :
    Report σ :=
  ⟨followed.lines, [], source.toList, failure⟩

/-- The report of a session, a pause, and the sessions after it. -/
def Report.after (followed : Followed) (source : Option σ) (pause : Nat) (later : Report σ) :
    Report σ :=
  ⟨followed.lines ++ later.lines, pause :: later.pauses, source.toList ++ later.sources,
    later.failure⟩

/-- Follows sessions one after the other with a number of retries left, `attempt` of them made. -/
def followAll (connect : Session.Config → Except TransportError σ) (o : Options)
    (initial : List Point) (left attempt : Nat) (progress : Progress) : Report σ :=
  let (followed, source) := session connect o (progress.resumePoints initial) progress
  match followed.outcome with
  | .ok () => .last followed source none
  | .error e =>
    -- Being cancelled is no failure of the command.
    if e.isCancelled then .last followed source none
    else if e.isRetryable then
      match left with
      | 0 => .last followed source (some e)
      | left + 1 =>
        .after followed source (pause attempt)
          (followAll connect o initial left (attempt + 1) followed.progress)
    else .last followed source (some e)

end ChainFollower.Tail
