import ChainFollower.Protocol.Peek

/-!
# Sessions as a state machine

A session follows a chain over one connection.  It runs two tasks.  The writer sends the request
that opens the session and then one request for a next block per credit; the reader hands every
frame to the consumer and refills one credit per answered request.  They share three bounded queues,
the tip last seen, a slot for the first failure, and the signal that cancels the session.

Every task moves in steps that nothing interrupts, one task at a time.  `step?` gives the outcome of
one step; which task moves next, what the connection brings and how a send turns out are the
`Action`, so that all interleavings are runs of this one function.  Each step also tells the
`Event`s by which it shows.
-/

namespace ChainFollower.Session

/-! ## States -/

/-- What the connection brings. -/
inductive Incoming
  /-- A frame, sent as text or as bytes. -/
  | data (frame : Octets)
  | ping (payload : Octets)
  /-- A message that asks for nothing. -/
  | other
  /-- The peer has closed the connection in order. -/
  | closed
  | failed (reason : String)
  deriving DecidableEq

/-- How a send turns out. -/
inductive Sent
  | done
  /-- The connection was closed before. -/
  | closed
  | failed (reason : String)
  deriving DecidableEq

/-- What the writer is at. -/
inductive WriterTask
  /-- Sending the request that opens the session. -/
  | opening
  | idle
  /-- Sending the answer to a ping. -/
  | pong (payload : Octets)
  /-- Sending a request for a next block, with the credit for it taken. -/
  | request
  /-- Closing the connection. -/
  | closing
  /-- About to put a failure on record. -/
  | failing (e : TransportError)
  | ended
  deriving DecidableEq

/-- What the reader is at. -/
inductive ReaderTask
  | waiting
  /-- Putting a frame into the queue. -/
  | delivering (frame : Octets)
  /-- About to put a failure on record. -/
  | failing (e : TransportError)
  | ended
  deriving DecidableEq

/-- The call that the consumer is waiting for. -/
inductive Call
  /-- For none. -/
  | idle
  /-- For the next frame. -/
  | next
  /-- For the next frame of a session that is cancelled: asking why. -/
  | ending
  /-- For the end of both tasks. -/
  | joining
  /-- For the failure that no call has told yet. -/
  | draining
  deriving DecidableEq

/-- The state of a session. -/
structure State where
  /-- How many requests for a next block are kept unanswered. -/
  pipeline : Nat
  /-- How many frames the queue holds. -/
  frameCapacity : Nat
  writer : WriterTask := .opening
  reader : ReaderTask := .waiting
  call : Call := .idle
  /-- Credits in their queue, which is full at the start. -/
  credits : Nat := pipeline
  /-- Pings that wait for their answers. -/
  pongs : List Octets := []
  /-- Frames that wait for the consumer. -/
  frames : List Octets := []
  /-- The tip last seen. -/
  tip : Option Tip := none
  /-- Whether the reader has had the answer to the opening request, for which no credit is refilled.
  -/
  answered : Bool := false
  /-- Whether the writer still looks for pings to answer. -/
  pongsOpen : Bool := true
  cancelled : Bool := false
  /-- The first failure that no call has told. -/
  failure : Option TransportError := none
  /-- Whether some call has waited for the tasks. -/
  joined : Bool := false
  deriving DecidableEq

/-- How many pings may wait for their answers; further ones are dropped. -/
def pongCapacity : Nat := 4

/-! ## Actions and events -/

/-- One step of a task, of the consumer, or of what surrounds a session. -/
inductive Action
  /-- The session or a token above it is cancelled; letting go of a session does the same. -/
  | cancel
  /-- The reader takes what the connection brings. -/
  | receive (message : Incoming)
  /-- The reader goes on otherwise. -/
  | reader
  /-- The writer's send comes to an end. -/
  | sent (outcome : Sent)
  /-- The writer goes on otherwise. -/
  | writer
  /-- The consumer asks for the next frame. -/
  | next
  /-- The consumer closes the session. -/
  | close
  /-- The consumer gives a pending call up. -/
  | abandon
  /-- The pending call goes on. -/
  | consumer
  deriving DecidableEq

/-- What a step shows. -/
inductive Event
  | openingSent
  | requestSent
  | pongSent (payload : Octets)
  | frameRead (frame : Octets)
  | pingRead (payload : Octets)
  /-- Watchers of the tip are told of another one. -/
  | tipChanged (tip : Tip)
  /-- A failure is put on record. -/
  | recorded (e : TransportError)
  /-- A call for the next frame returns one. -/
  | frameReturned (frame : Octets)
  /-- A call for the next frame returns the end of the stream. -/
  | endReturned
  | errorReturned (e : TransportError)
  /-- A call to close returns, with the failure that it tells. -/
  | closeReturned (failure : Option TransportError)
  deriving DecidableEq

/-- The outcome of a step: the state after it, and what it shows. -/
abbrev Move := State × List Event

namespace State

/-! ## The reader -/

/-- One credit more, unless the queue is full or the frame answers the opening request. -/
def refill (s : State) : State :=
  if s.answered then { s with credits := min (s.credits + 1) s.pipeline }
  else { s with answered := true }

/-- Keeps the tip of a frame, if it has one. -/
def post (s : State) (tip : Option Tip) : State := { s with tip := tip.or s.tip }

/-- Tells of the tip of a frame if it is another than the one that is known. -/
def tipEvents (s : State) : Option Tip → List Event
  | some t => if s.tip = some t then [] else [.tipChanged t]
  | none => []

/-- Puts a failure on record, if it is the first, and cancels the session. -/
def report (s : State) (e : TransportError) : Move :=
  match s.failure with
  | some _ => ({ s with cancelled := true }, [])
  | none => ({ s with cancelled := true, failure := some e }, [.recorded e])

/-- The reader takes a message. -/
def receive (s : State) (message : Incoming) : Option Move :=
  if s.cancelled then none
  else match s.reader, message with
  -- The tip is told of before the frame has found room in the queue.
  | .waiting, .data frame =>
    some ({ s.refill.post (Peek.tip? frame) with reader := .delivering frame },
      .frameRead frame :: s.tipEvents (Peek.tip? frame))
  -- A ping for which there is no room is dropped: the reader never waits for the writer.
  | .waiting, .ping payload =>
    some (if s.pongs.length < pongCapacity then { s with pongs := s.pongs ++ [payload] } else s,
      [.pingRead payload])
  | .waiting, .other => some (s, [])
  | .waiting, .closed => some ({ s with reader := .ended }, [])
  | .waiting, .failed reason => some ({ s with reader := .failing (.webSocket reason) }, [])
  | _, _ => none

/-- The reader stops when the session is cancelled, puts its frame into the queue when there is
room, and puts its failure on record before it ends. -/
def readerMove (s : State) : Option Move :=
  match s.reader with
  | .waiting => if s.cancelled then some ({ s with reader := .ended }, []) else none
  | .delivering frame =>
    -- The frame that has found no room is lost with the session.
    if s.cancelled then some ({ s with reader := .ended }, [])
    else if s.frames.length < s.frameCapacity then
      some ({ s with reader := .waiting, frames := s.frames ++ [frame] }, [])
    else none
  | .failing e => some ({ s with reader := .ended }.report e)
  | .ended => none

/-- Whether the reader takes nothing more, so that its credits and pings have come to an end.  The
queue of frames ends later, with the task itself. -/
def readerStopped (s : State) : Bool :=
  match s.reader with
  | .waiting | .delivering _ => false
  | .failing _ | .ended => true

/-! ## The writer -/

/-- What a finished send shows. -/
def sentEvent? : WriterTask → Option Event
  | .opening => some .openingSent
  | .pong payload => some (.pongSent payload)
  | .request => some .requestSent
  | _ => none

/-- A send of the writer comes to an end; none does once the session is cancelled. -/
def sent (s : State) (outcome : Sent) : Option Move :=
  if s.cancelled then none
  else match sentEvent? s.writer, outcome with
  | some event, .done => some ({ s with writer := .idle }, [event])
  -- A connection that has been closed ends the writer without a failure.
  | some _, .closed => some ({ s with writer := .ended }, [])
  | some _, .failed reason => some ({ s with writer := .failing (.webSocket reason) }, [])
  | none, _ => none

/-- The writer's choice of what to do next: close when the session is cancelled, else answer a ping,
else use a credit, else close when neither can come any more. -/
def writerTurn (s : State) : Option State :=
  if s.cancelled then some { s with writer := .closing }
  else match s.pongsOpen, s.pongs, s.readerStopped with
  | true, payload :: rest, _ => some { s with writer := .pong payload, pongs := rest }
  | true, [], true => some { s with pongsOpen := false }
  -- No ping waits, so a credit is used; without one the writer stops as soon as none can come.
  | _, _, stopped =>
    if 0 < s.credits then some { s with writer := .request, credits := s.credits - 1 }
    else if stopped then some { s with writer := .closing }
    else none

/-- The writer leaves a send when the session is cancelled, and puts its failure on record before it
ends. -/
def writerMove (s : State) : Option Move :=
  match s.writer with
  | .opening | .pong _ | .request =>
    if s.cancelled then some ({ s with writer := .ended }, []) else none
  | .idle => s.writerTurn.map fun s => (s, [])
  | .closing => some ({ s with writer := .ended }, [])
  | .failing e => some ({ s with writer := .ended }.report e)
  | .ended => none

/-! ## The consumer -/

/-- The consumer asks for the next frame. -/
def next (s : State) : Option Move :=
  match s.call with
  | .idle => some ({ s with call := if s.cancelled then .ending else .next }, [])
  | _ => none

/-- The consumer closes the session; only the first such call waits for the tasks. -/
def close (s : State) : Option Move :=
  match s.call with
  | .idle =>
    some ({ s with
      cancelled := true, joined := true, call := if s.joined then .draining else .joining }, [])
  | _ => none

/-- The consumer gives a pending call up. -/
def abandon (s : State) : Option Move :=
  match s.call with
  | .idle => none
  | _ => some ({ s with call := .idle }, [])

/-- The pending call goes on.  A cancelled session hands out no frame any more, only the reason: the
failure that no call has told yet, or else that it was cancelled. -/
def consumerMove (s : State) : Option Move :=
  match s.call with
  | .idle => none
  | .next =>
    if s.cancelled then some ({ s with call := .ending }, [])
    else match s.frames, s.reader with
    -- Frames that came before the reader ended are handed out first.
    | frame :: rest, _ =>
      some ({ s with call := .idle, frames := rest }, [.frameReturned frame])
    | [], .ended => some ({ s with call := .idle }, [.endReturned])
    | [], _ => none
  | .ending =>
    some ({ s with call := .idle, failure := none }, [.errorReturned (s.failure.getD .cancelled)])
  | .joining =>
    if s.reader = .ended ∧ s.writer = .ended then some ({ s with call := .draining }, []) else none
  | .draining =>
    some ({ s with call := .idle, failure := none }, [.closeReturned s.failure])

/-! ## Runs -/

/-- The outcome of an action, if it can happen. -/
def step? (s : State) : Action → Option Move
  | .cancel => some ({ s with cancelled := true }, [])
  | .receive message => s.receive message
  | .reader => s.readerMove
  | .sent outcome => s.sent outcome
  | .writer => s.writerMove
  | .next => s.next
  | .close => s.close
  | .abandon => s.abandon
  | .consumer => s.consumerMove

/-- The outcome of several actions one after the other, if each can happen. -/
def run? (s : State) : List Action → Option Move
  | [] => some (s, [])
  | action :: rest =>
    match s.step? action with
    | none => none
    | some (s', events) => (s'.run? rest).map fun (t, later) => (t, events ++ later)

end State

end ChainFollower.Session
