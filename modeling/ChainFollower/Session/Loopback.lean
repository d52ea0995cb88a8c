import ChainFollower.Session.Config
import ChainFollower.Session.FrameSource
import ChainFollower.Session.State

/-!
# Sessions in memory

A session together with the server at the other end of its connection.  The tasks take turns in a
fixed order, each going on until it has to wait, so that every run has one outcome.
-/

namespace ChainFollower.Session

/-- A server that answers requests. -/
structure Server where
  /-- The frames with which the requests to come are answered, one each. -/
  answers : List Octets := []
  /-- After how many more requests the server closes the connection, if it does. -/
  closesAfter : Option Nat := none

/-- A session and its server. -/
structure Loopback where
  config : Config
  state : State
  server : Server
  /-- What the server has sent and the reader has not taken yet. -/
  inbox : List Incoming := []
  /-- The requests that the server has had, in order. -/
  requests : List String := []
  /-- The answers to pings that the server has had, in order. -/
  pongs : List Octets := []
  /-- How often watchers of the tip have been told of another one. -/
  tipChanges : Nat := 0

/-- Dials the endpoint of a configuration that can be used.  `dial` gives the server that is
reached, or the reason why none is. -/
def connect (dial : String → Except String Server) (c : Config) :
    Except TransportError Loopback := do
  c.validate
  match dial c.endpoint with
  | .error reason => throw (.connection c.endpoint reason)
  | .ok server => return {
      config := c
      state := { pipeline := c.pipeline.toNat, frameCapacity := c.frameCapacity.toNat }
      server := server
      inbox := if server.closesAfter = some 0 then [.closed] else [] }

/-- What the server sends when a request reaches it, and the server after that. -/
def Server.answer (server : Server) : List Incoming × Server :=
  let answer := (server.answers.take 1).map Incoming.data
  let ending := if server.closesAfter = some 1 then [Incoming.closed] else []
  (answer ++ ending, ⟨server.answers.drop 1, server.closesAfter.map (· - 1)⟩)

namespace Loopback

/-- A request reaches the server. -/
def hear (l : Loopback) (request : String) : Loopback :=
  let (sent, server) := l.server.answer
  { l with requests := l.requests ++ [request], inbox := l.inbox ++ sent, server := server }

/-- What a step shows reaches the server, or those who watch the tip. -/
def observe (l : Loopback) : Event → Loopback
  | .openingSent => l.hear l.config.openingText
  | .requestSent => l.hear l.config.nextText
  | .pongSent payload => { l with pongs := l.pongs ++ [payload] }
  | .tipChanged _ => { l with tipChanges := l.tipChanges + 1 }
  | _ => l

/-- The session after an action, if it can happen, and what that showed. -/
def act? (l : Loopback) (action : Action) : Option (Loopback × List Event) :=
  (l.state.step? action).map fun (state, events) =>
    (events.foldl observe { l with state := state }, events)

/-- The reader's turn. -/
def readerTurn (l : Loopback) : Option Loopback :=
  match l.act? .reader, l.inbox with
  | some (l, _), _ => some l
  | none, [] => none
  -- The reader has nothing else to do, so it takes the next message.
  | none, message :: rest => (act? { l with inbox := rest } (.receive message)).map (·.1)

/-- The writer's turn; after the connection has ended it can no longer be written to. -/
def writerTurn (l : Loopback) : Option Loopback :=
  match l.act? .writer with
  | some (l, _) => some l
  | none => (l.act? (.sent (if l.state.readerStopped then .closed else .done))).map (·.1)

/-- Lets the tasks go on for a number of turns, or until both have to wait. -/
def turns : Nat → Loopback → Loopback
  | 0, l => l
  | n + 1, l =>
    match l.readerTurn.or l.writerTurn with
    | some l => turns n l
    | none => l

/-- Enough turns for all that is there to be sent and read: two for a message, a request and an
answer to a ping, and a few to end. -/
def enough (l : Loopback) : Nat :=
  10 * (l.inbox.length + l.server.answers.length + l.state.credits + l.state.pongs.length + 2)

/-- Lets the tasks go on until both have to wait. -/
def settle (l : Loopback) : Loopback := turns l.enough l

/-- The server sends a message. -/
def send (l : Loopback) (message : Incoming) : Loopback :=
  settle { l with inbox := l.inbox ++ [message] }

/-- The session, or a token above it, is cancelled. -/
def cancel (l : Loopback) : Loopback :=
  settle { l with state := { l.state with cancelled := true } }

/-- Goes on with a pending call for a number of steps, until it returns. -/
def await : Nat → Loopback → List Event × Loopback
  | 0, l => ([], l)
  | n + 1, l =>
    match l.settle.act? .consumer with
    | none => ([], l.settle)
    | some (l, []) => await n l
    | some (l, events) => (events, l.settle)

/-- Makes a call and waits for what it returns. -/
def call (l : Loopback) (action : Action) : List Event × Loopback :=
  match l.settle.act? action with
  | none => ([], l)
  -- A call goes through three states at most.
  | some (l, _) => await 3 l

/-- The error of a call that nothing can bring to an end. -/
def stuck : TransportError := .other "the server has fallen silent"

instance : FrameSource Loopback where
  nextFrame l :=
    match l.call .next with
    | ([.frameReturned frame], l) => (.ok (some frame), l)
    | ([.endReturned], l) => (.ok none, l)
    | ([.errorReturned e], l) => (.error e, l)
    | (_, l) => (.error stuck, l)
  close l :=
    match l.call .close with
    | ([.closeReturned none], l) => (.ok (), l)
    | ([.closeReturned (some e)], l) => (.error e, l)
    | (_, l) => (.error stuck, l)
  url l := l.config.endpoint
  bound l := l.state.frames.length + l.inbox.length + l.server.answers.length + 1

end Loopback

end ChainFollower.Session
