import ChainFollower.Session.Config
import ChainFollower.Session.FrameSource
import ChainFollower.Proofs.Session.Delivery
import ChainFollower.Proofs.Session.Failures

/-!
# Sessions under any schedule

A `Scheduled` session is a source of frames: a session, what the server has sent, and who takes the
turns to come, with the outcome of every send.  A call goes on from turn to turn until it returns,
so that all interleavings of reader, writer and consumer are schedules.  A schedule that ends before
a call has returned is completed by turns of those for whom the call waits.

Main definition: `Scheduled`, with its instance of `FrameSource`.  `turned` gives the rule that each
turn follows, and `advance_of_turned` what holds of a call for as long as it holds of every turn.
-/

namespace ChainFollower.Session

/-! ## Schedules -/

/-- One of those who take turns. -/
inductive Mover
  | reader
  /-- The writer, and how the send that it may be at comes to an end. -/
  | writer (outcome : Sent)
  | consumer
  deriving DecidableEq

/-- A session on its connection. -/
structure Live where
  url : String
  state : State
  /-- What the server has sent and the reader has not taken yet. -/
  inbox : List Incoming
  /-- What the steps have shown so far. -/
  log : List Event := []

/-- A session on its connection, and who takes the next turns. -/
structure Scheduled extends Live where
  schedule : List Mover

/-- Whether more can follow a message. -/
def Incoming.goesOn : Incoming → Bool
  | .closed | .failed _ => false
  | _ => true

/-- Whether a call returns with an event. -/
def Event.isReturn : Event → Bool
  | .frameReturned _ | .endReturned | .errorReturned _ | .closeReturned _ => true
  | _ => false

namespace Live

/-- The session after an action, if it can happen, and what that shows. -/
def act? (l : Live) (action : Action) : Option (Live × List Event) :=
  (l.state.step? action).map fun (state, shown) =>
    ({ l with state := state, log := l.log ++ shown }, shown)

/-- The session after the reader has taken the next message, if it can. -/
def take? (l : Live) : Option (Live × List Event) :=
  match l.inbox with
  | [] => none
  | message :: rest => act? { l with inbox := rest } (.receive message)

/-- The session after a turn in a call, and what that shows, if there is anything to do.  The reader
takes a message if it has nothing else to do, the writer's send comes to an end if it waits for one,
and the consumer makes the call before it goes on with it. -/
def turn? (call : Action) (l : Live) : Mover → Option (Live × List Event)
  | .reader => (l.act? .reader).or l.take?
  | .writer outcome => (l.act? .writer).or (l.act? (.sent outcome))
  | .consumer => l.act? (if l.state.call = .idle then call else .consumer)

/-- The session after a turn, and what that shows. -/
def turn (call : Action) (l : Live) (mover : Mover) : Live × List Event :=
  (l.turn? call mover).getD (l, [])

/-- Goes on with a call until it returns or nobody has a turn any more: the event by which it
returns, the turns that are left, and the session after it. -/
def advance (call : Action) : List Mover → Live → Option Event × List Mover × Live
  | [], l => (none, [], l)
  | mover :: rest, l =>
    match (l.turn call mover).2.find? Event.isReturn with
    | some event => (some event, rest, (l.turn call mover).1)
    | none => advance call rest (l.turn call mover).1

/-- Turns after which a call has returned.  A frame takes two turns of the reader from the
connection into the queue, and each task of a session that is closed ends within two turns. -/
def completion (l : Live) : Action → List Mover
  | .close => [.consumer, .reader, .writer .done, .writer .done, .consumer, .consumer]
  | _ => List.replicate (2 * l.inbox.length + 2) .reader ++ [.consumer, .consumer]

end Live

namespace Scheduled

/-- Makes a call and goes on until it returns. -/
def await (call : Action) (l : Scheduled) : Option Event × Scheduled :=
  match l.toLive.advance call l.schedule with
  | (some event, rest, live) => (some event, ⟨live, rest⟩)
  | (none, _, live) =>
    let later := live.advance call (live.completion call)
    (later.1, ⟨later.2.2, later.2.1⟩)

/-- The error of a call that never returns. -/
def stuck : TransportError := .other "the call does not return"

/-- What a call for the next frame comes to. -/
def frameOf : Option Event → Except TransportError (Option Octets)
  | some (.frameReturned frame) => .ok (some frame)
  | some .endReturned => .ok none
  | some (.errorReturned e) => .error e
  | _ => .error stuck

/-- What a call to close comes to. -/
def closingOf : Option Event → Except TransportError Unit
  | some (.closeReturned none) => .ok ()
  | some (.closeReturned (some e)) => .error e
  | _ => .error stuck

instance : FrameSource Scheduled where
  nextFrame l := ((frameOf (l.await .next).1), (l.await .next).2)
  close l := ((closingOf (l.await .close).1), (l.await .close).2)
  url l := l.url
  bound l := l.state.underway.length + l.inbox.length

/-- Connects to a server that sends these messages and closes, with a configuration that can be
used. -/
def connect (messages : List Incoming) (schedule : List Mover) (c : Config) :
    Except TransportError Scheduled := do
  c.validate
  return {
    url := c.endpoint
    state := { pipeline := c.pipeline.toNat, frameCapacity := c.frameCapacity.toNat }
    inbox := messages ++ [.closed]
    schedule := schedule }

end Scheduled

/-! ## Turns -/

namespace Live

variable {l m : Live} {call action : Action} {shown : List Event}

theorem act?_eq_some_iff {moved : Live × List Event} : l.act? action = some moved ↔
    ∃ t shown, State.Rule l.state action t shown ∧
      moved = ({ l with state := t, log := l.log ++ shown }, shown) := by
  simp only [act?, Option.map_eq_some_iff, Prod.exists, State.step?_eq_some_iff]
  exact exists₂_congr fun t shown => and_congr_right fun _ => eq_comm

/-- What a turn comes to, by the rule that it follows. -/
inductive Turned (l : Live) (call : Action) : Mover → Live → List Event → Prop
  /-- The reader has nothing to do. -/
  | readerRests (unable : ∀ t shown, ¬ State.Rule l.state .reader t shown)
      (unread : ∀ message rest, l.inbox = message :: rest →
        ∀ t shown, ¬ State.Rule l.state (.receive message) t shown) :
      Turned l call .reader l []
  | reads {t : State} {shown : List Event} (rule : State.Rule l.state .reader t shown) :
      Turned l call .reader { l with state := t, log := l.log ++ shown } shown
  | takes {message : Incoming} {rest : List Incoming} {t : State} {shown : List Event}
      (first : l.inbox = message :: rest) (rule : State.Rule l.state (.receive message) t shown) :
      Turned l call .reader { l with state := t, inbox := rest, log := l.log ++ shown } shown
  /-- The writer has nothing to do. -/
  | writerRests {outcome : Sent} (unable : ∀ t shown, ¬ State.Rule l.state .writer t shown) :
      Turned l call (.writer outcome) l []
  | writes {outcome : Sent} {t : State} {shown : List Event}
      (rule : State.Rule l.state .writer t shown) :
      Turned l call (.writer outcome) { l with state := t, log := l.log ++ shown } shown
  | sends {outcome : Sent} {t : State} {shown : List Event}
      (rule : State.Rule l.state (.sent outcome) t shown) :
      Turned l call (.writer outcome) { l with state := t, log := l.log ++ shown } shown
  /-- The consumer has to wait. -/
  | consumerRests (unable : ∀ t shown,
        ¬ State.Rule l.state (if l.state.call = .idle then call else .consumer) t shown) :
      Turned l call .consumer l []
  | calls {t : State} {shown : List Event} (idle : l.state.call = .idle)
      (rule : State.Rule l.state call t shown) :
      Turned l call .consumer { l with state := t, log := l.log ++ shown } shown
  | goesOn {t : State} {shown : List Event} (pending : l.state.call ≠ .idle)
      (rule : State.Rule l.state .consumer t shown) :
      Turned l call .consumer { l with state := t, log := l.log ++ shown } shown

theorem not_rule_of_act? (nothing : l.act? action = none) (t : State) (shown : List Event) :
    ¬ State.Rule l.state action t shown := fun rule =>
  absurd (nothing.symm.trans (act?_eq_some_iff.2 ⟨t, shown, rule, rfl⟩)) nofun

theorem turned_reader (l : Live) (call : Action) :
    Turned l call .reader (l.turn call .reader).1 (l.turn call .reader).2 := by
  simp only [turn, turn?]
  -- The task moves if it can, and takes a message only if it cannot.
  cases moves : l.act? .reader with
  | some moved =>
    obtain ⟨t, shown, rule, rfl⟩ := act?_eq_some_iff.1 moves
    exact .reads rule
  | none =>
    rw [Option.none_or, take?]
    split
    · next empty =>
      -- Nothing has come, so the reader rests.
      exact .readerRests (not_rule_of_act? moves) fun _ _ first => nomatch empty.symm.trans first
    · next message rest first =>
      cases takes : act? { l with inbox := rest } (.receive message) with
      | some moved =>
        obtain ⟨t, shown, rule, rfl⟩ := act?_eq_some_iff.1 takes
        exact .takes first rule
      | none =>
        refine .readerRests (not_rule_of_act? moves) fun _ _ same => ?_
        cases first.symm.trans same
        exact (not_rule_of_act? takes :)

theorem turned (l : Live) (call : Action) (mover : Mover) :
    Turned l call mover (l.turn call mover).1 (l.turn call mover).2 := by
  cases mover with
  | reader => exact turned_reader l call
  -- The writer moves by itself, or sending ends as the schedule says.
  | writer outcome =>
    simp only [turn, turn?]
    cases moves : l.act? .writer with
    | some moved =>
      obtain ⟨t, shown, rule, rfl⟩ := act?_eq_some_iff.1 moves
      exact .writes rule
    | none =>
      rw [Option.none_or]
      cases ends : l.act? (.sent outcome) with
      | some moved =>
        obtain ⟨t, shown, rule, rfl⟩ := act?_eq_some_iff.1 ends
        exact .sends rule
      | none => exact .writerRests (not_rule_of_act? moves)
  -- The consumer begins the call, or goes on with it.
  | consumer =>
    simp only [turn, turn?]
    cases goes : l.act? (if l.state.call = .idle then call else .consumer) with
    | none => exact .consumerRests (not_rule_of_act? goes)
    | some moved =>
      obtain ⟨t, shown, rule, rfl⟩ := act?_eq_some_iff.1 goes
      by_cases idle : l.state.call = .idle
      · rw [if_pos idle] at rule
        exact .calls idle rule
      · rw [if_neg idle] at rule
        exact .goesOn idle rule

/-- No call returns in the writer's turn. -/
theorem Turned.writer_pending {outcome : Sent}
    (turned : Turned l call (.writer outcome) m shown) : shown.find? Event.isReturn = none := by
  cases turned with
  | writerRests => rfl
  | writes rule => cases rule <;> rfl
  | sends rule =>
    cases rule with
    | sends _ before =>
      rcases State.sentEvent?_cases before with ⟨-, rfl⟩ | ⟨payload, -, rfl⟩ | ⟨-, rfl⟩ <;> rfl
    | _ => rfl

/-! ## Calls -/

/-- Whether no failure has been put on record. -/
def Sound (l : Live) : Prop := failuresRecorded l.log = []

/-- Nothing is taken back of what the steps have shown. -/
theorem Turned.log {mover : Mover} (turned : Turned l call mover m shown) :
    m.log = l.log ++ shown := by
  cases turned with
  | readerRests => exact (List.append_nil _).symm
  | writerRests => exact (List.append_nil _).symm
  | consumerRests => exact (List.append_nil _).symm
  | _ => rfl

theorem Sound.of_turned {mover : Mover} (sound : m.Sound) (turned : Turned l call mover m shown) :
    l.Sound ∧ failuresRecorded shown = [] := by
  rw [Sound, turned.log, failuresRecorded_append] at sound
  exact List.append_eq_nil_iff.1 sound

theorem Sound.of_advance {movers : List Mover} (sound : (l.advance call movers).2.2.Sound) :
    l.Sound := by
  induction movers generalizing l with
  | nil => exact sound
  | cons mover rest ih =>
    rw [advance] at sound
    split at sound
    · exact (sound.of_turned (turned l call mover)).1
    · exact ((ih sound).of_turned (turned l call mover)).1

/-- What every turn makes of a call that has not returned, without a failure being put on record, a
number of turns makes of it. -/
theorem advance_of_turned (Outcome : Live → Option Event → Prop)
    (step : ∀ {l m mover shown}, Outcome l none → Turned l call mover m shown → m.Sound →
      Outcome m (shown.find? Event.isReturn))
    {movers : List Mover} (before : Outcome l none)
    (sound : (l.advance call movers).2.2.Sound) :
    Outcome (l.advance call movers).2.2 (l.advance call movers).1 := by
  -- Over the schedule, up to the turn in which the call returns.
  induction movers generalizing l with
  | nil => exact before
  | cons mover rest ih =>
    have after := step before (turned l call mover)
    rw [advance] at sound ⊢
    cases returned : (l.turn call mover).2.find? Event.isReturn with
    | some event =>
      rw [returned] at sound after
      -- The call has returned, and the rest of the schedule is left.
      exact after sound
    | none =>
      rw [returned] at sound after
      exact ih (after sound.of_advance) sound

theorem advance_cons_of_pending {mover : Mover} {movers : List Mover}
    (pending : (l.turn call mover).2.find? Event.isReturn = none) :
    l.advance call (mover :: movers) = (l.turn call mover).1.advance call movers := by
  rw [advance, pending]

theorem isSome_advance_of_returned {mover : Mover} {movers : List Mover} {event : Event}
    (returned : (l.turn call mover).2.find? Event.isReturn = some event) :
    (l.advance call (mover :: movers)).1.isSome = true := by
  rw [advance, returned]
  rfl

theorem advance_append {movers more : List Mover} (pending : (l.advance call movers).1 = none) :
    l.advance call (movers ++ more) = (l.advance call movers).2.2.advance call more := by
  induction movers generalizing l with
  | nil => rfl
  | cons mover rest ih =>
    -- A turn that returns would have ended the first part, which is pending.
    cases returned : (l.turn call mover).2.find? Event.isReturn with
    | some event =>
      rw [advance, returned] at pending
      cases pending
    | none =>
      rw [advance_cons_of_pending returned] at pending ⊢
      rw [List.cons_append, advance_cons_of_pending returned, ih pending]

end Live

end ChainFollower.Session
