import ChainFollower.Session.State

/-!
# A session and the server at the other end

`Exchange` puts a session and a server at the two ends of one connection.  The server answers every
request that reaches it with exactly one data frame, in the order of the requests, and may send
pings in between.  Both directions of the connection keep their order and take any time.  A `Turn`
belongs to one of the parties, so that all interleavings are the runs of `Exchange.run?`.

Main definitions: `Exchange.turn?`, `Exchange.backlog`, the requests whose answers the reader has
not read, and `Turn.ends`, the turns that cancel the session or stop one of its tasks.
-/

namespace ChainFollower.Session

/-! ## What is on the wire -/

/-- A request on its way. -/
inductive Asked
  | intersection
  | nextBlock
  deriving DecidableEq

/-- The request that an event puts on the wire. -/
def Event.asked? : Event → Option Asked
  | .openingSent => some .intersection
  | .requestSent => some .nextBlock
  | _ => none

/-- What the server has sent. -/
inductive Arriving
  /-- The data frame that answers a request. -/
  | answer (request : Asked) (frame : Octets)
  | ping (payload : Octets)
  deriving DecidableEq

/-- The request that is answered. -/
def Arriving.request? : Arriving → Option Asked
  | .answer request _ => some request
  | .ping _ => none

/-- What is left on the wire when the reader takes a message: a frame or a ping must come first
there, while the connection may end or fail at any time. -/
def Incoming.takenFrom : Incoming → List Arriving → Option (List Arriving)
  | .data frame, .answer _ sent :: rest => if frame = sent then some rest else none
  | .ping payload, .ping sent :: rest => if payload = sent then some rest else none
  | .data _, _ | .ping _, _ => none
  | .other, queue | .closed, queue | .failed _, queue => some queue

/-! ## The two ends -/

/-- A session, the requests and answers on the wire, and what the server has still to answer; the
oldest comes first in every list. -/
structure Exchange where
  state : State
  /-- Requests that have not reached the server. -/
  outgoing : List Asked := []
  /-- Requests that have reached the server and are not answered. -/
  pending : List Asked := []
  /-- What the server has sent and the reader has not taken. -/
  incoming : List Arriving := []

/-- A turn of one of the parties. -/
inductive Turn
  /-- A task of the session, its consumer, or whoever may cancel it. -/
  | client (action : Action)
  /-- The oldest request on the wire reaches the server. -/
  | hear
  /-- The server answers the oldest request that it has not answered. -/
  | answer (frame : Octets)
  /-- The server sends a ping. -/
  | ping (payload : Octets)

namespace Exchange

/-- A session that has just been connected. -/
def start (pipeline frameCapacity : Nat) : Exchange where
  state := { pipeline := pipeline, frameCapacity := frameCapacity }

/-- What is left on the wire when the session acts. -/
def leftBy (x : Exchange) : Action → Option (List Arriving)
  | .receive message => message.takenFrom x.incoming
  -- Only the reader takes anything off the wire.
  | _ => some x.incoming

/-- The exchange after a turn, if it can happen. -/
def turn? (x : Exchange) : Turn → Option Exchange
  | .client action =>
    match x.leftBy action, x.state.step? action with
    | some incoming, some (state, events) => some { x with
        state := state
        outgoing := x.outgoing ++ events.filterMap Event.asked?
        incoming := incoming }
    | _, _ => none
  | .hear =>
    match x.outgoing with
    | [] => none
    | request :: rest => some { x with outgoing := rest, pending := x.pending ++ [request] }
  | .answer frame =>
    match x.pending with
    | [] => none
    | request :: rest => some { x with
        pending := rest, incoming := x.incoming ++ [.answer request frame] }
  | .ping payload => some { x with incoming := x.incoming ++ [.ping payload] }

/-- The exchange after several turns one after the other, if each can happen. -/
def run? (x : Exchange) : List Turn → Option Exchange
  | [] => some x
  | turn :: rest => (x.turn? turn).bind fun y => y.run? rest

/-- The requests that were sent and whose answers the reader has not read. -/
def backlog (x : Exchange) : List Asked :=
  x.incoming.filterMap Arriving.request? ++ x.pending ++ x.outgoing

/-- How many requests for a next block were sent whose answers the reader has not read. -/
def unanswered (x : Exchange) : Nat := x.backlog.count .nextBlock

end Exchange

/-- An action by which the session is cancelled, the stream ends, or a task fails. -/
def Action.ends : Action → Bool
  | .cancel | .close => true
  | .receive .closed | .receive (.failed _) => true
  | .sent .closed | .sent (.failed _) => true
  | _ => false

/-- A turn by which the session is cancelled, the stream ends, or a task fails. -/
def Turn.ends : Turn → Bool
  | .client action => action.ends
  | _ => false

/-! ## Invariants of runs -/

namespace Exchange

/-- What every turn of some kind keeps holds after every run of such turns. -/
theorem run?_preserves {Inv : Exchange → Prop} {allowed : Turn → Prop}
    (keep : ∀ x y turn, Inv x → allowed turn → x.turn? turn = some y → Inv y)
    {x y : Exchange} {turns : List Turn} (inv : Inv x) (all : ∀ t ∈ turns, allowed t)
    (run : x.run? turns = some y) : Inv y := by
  -- Turn by turn: the invariant holds of every exchange that the run comes through.
  induction turns generalizing x with
  | nil =>
    obtain rfl : x = y := by simpa [run?] using run
    exact inv
  | cons turn rest ih =>
    obtain ⟨z, hz, hrest⟩ := Option.bind_eq_some_iff.1 run
    exact ih (keep x z turn inv (all turn (by simp)) hz) (fun t ht => all t (by simp [ht])) hrest

/-- A turn of the session is an action together with the message that it takes off the wire. -/
theorem turn?_client {x y : Exchange} {action : Action} (h : x.turn? (.client action) = some y) :
    ∃ events, x.leftBy action = some y.incoming ∧
      x.state.step? action = some (y.state, events) ∧
      y.pending = x.pending ∧ y.outgoing = x.outgoing ++ events.filterMap Event.asked? := by
  simp only [turn?] at h
  split at h
  · next incoming state events hleft hstep =>
    cases h
    exact ⟨events, hleft, hstep, rfl, rfl⟩
  · cases h

/-- The server moves requests and answers along without adding or losing any. -/
theorem backlog_server {x y : Exchange} {turn : Turn} (h : x.turn? turn = some y)
    (server : ∀ action, turn ≠ .client action) : y.state = x.state ∧ y.backlog = x.backlog := by
  cases turn with
  | client action => exact absurd rfl (server action)
  | hear =>
    -- The request goes from the head of `outgoing` to the end of `pending`, next to it.
    simp only [turn?] at h
    split at h
    · cases h
    · next request rest hout =>
      cases h
      exact ⟨rfl, by simp [backlog, hout]⟩
  | answer frame =>
    -- The answer stands for the request in the backlog.
    simp only [turn?] at h
    split at h
    · cases h
    · next request rest hpending =>
      cases h
      exact ⟨rfl, by simp [backlog, hpending, Arriving.request?]⟩
  | ping payload =>
    cases h
    exact ⟨rfl, by simp [backlog, Arriving.request?]⟩

end Exchange

end ChainFollower.Session
