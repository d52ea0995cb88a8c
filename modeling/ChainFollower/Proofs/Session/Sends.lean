import ChainFollower.Proofs.Session.BackPressure
import ChainFollower.Proofs.Session.Failures

/-!
# What the writer sends

The writer speaks a simple language.  It opens with the request that asks for the intersection, and
from then on it asks for blocks, a credit for each, and answers pings.  What it may still send
depends on where it stands (`WriterTask.MayAsk`), and every answer that it sends was held by it, or
waited in the queue of pings, or came in with a ping that the reader has read since
(`State.answering`).

A send is dropped by a closed connection, by a failure and by cancellation, and a ping for which
there is no room is not answered; none of these adds anything to what is sent.

Main statement: `State.sends_by_turns`, for all interleavings of credits, pings, cancellation and
outcomes of sends.
-/

namespace ChainFollower.Session

/-! ## What is seen of the writer -/

/-- The payload of a ping that is answered. -/
def Event.answered? : Event → Option Octets
  | .pongSent payload => some payload
  | _ => none

/-- The payload of a ping that the reader takes. -/
def Event.pinged? : Event → Option Octets
  | .pingRead payload => some payload
  | _ => none

/-- The requests that the writer has sent, in order. -/
def requestsSent (events : List Event) : List Asked := events.filterMap Event.asked?

/-- The payloads of the answers to pings that the writer has sent, in order. -/
def pongsSent (events : List Event) : List Octets := events.filterMap Event.answered?

/-- The payloads of the pings that the reader has taken, in order. -/
def pingsRead (events : List Event) : List Octets := events.filterMap Event.pinged?

theorem requestsSent_append (before after : List Event) :
    requestsSent (before ++ after) = requestsSent before ++ requestsSent after :=
  List.filterMap_append

theorem pongsSent_append (before after : List Event) :
    pongsSent (before ++ after) = pongsSent before ++ pongsSent after :=
  List.filterMap_append

theorem pingsRead_append (before after : List Event) :
    pingsRead (before ++ after) = pingsRead before ++ pingsRead after :=
  List.filterMap_append

/-- Requests for a next block are told of one by one. -/
theorem count_nextBlock (events : List Event) :
    (requestsSent events).count .nextBlock = events.count .requestSent := by
  rw [requestsSent, List.count_filterMap, List.count]
  refine List.countP_congr fun event _ => ?_
  cases event <;> simp [Event.asked?]

/-- The requests that a writer may still send, from where it stands. -/
def WriterTask.MayAsk : WriterTask → List Asked → Prop
  | .opening, asked => asked = [] ∨ ∃ n, asked = .intersection :: List.replicate n .nextBlock
  | .idle, asked | .pong _, asked | .request, asked => ∃ n, asked = List.replicate n .nextBlock
  | .closing, asked | .failing _, asked | .ended, asked => asked = []

/-- The answer that a writer is about to send. -/
def WriterTask.holds : WriterTask → List Octets
  | .pong payload => [payload]
  | _ => []

namespace State

/-- The pings that are still to be answered, the oldest first. -/
def answering (s : State) : List Octets := s.writer.holds ++ s.pongs

/-- How many credits a run puts into the queue, beside those that are there before it. -/
def creditsPut (s : State) : List Action → Nat
  | [] => 0
  | action :: rest =>
    match s.step? action with
    | some (t, _) => (t.credits - s.credits) + t.creditsPut rest
    | none => 0

variable {s t : State} {action : Action} {actions : List Action} {events later : List Event}

/-! ## Requests -/

/-- A writer may stop wherever it stands. -/
theorem mayAsk_nil (writer : WriterTask) : writer.MayAsk [] := by
  cases writer with
  | opening => exact .inl rfl
  | idle => exact ⟨0, rfl⟩
  | pong payload => exact ⟨0, rfl⟩
  | request => exact ⟨0, rfl⟩
  | closing => rfl
  | failing e => rfl
  | ended => rfl

/-- What a step sends and what may be sent after it may be sent from before it. -/
theorem Rule.mayAsk (rule : Rule s action t events) {asked : List Asked}
    (after : t.writer.MayAsk asked) : s.writer.MayAsk (requestsSent events ++ asked) := by
  -- A writer that stops with this step asks for nothing any more.
  have stopping (shown : requestsSent events = []) (nothing : asked = []) :
      s.writer.MayAsk (requestsSent events ++ asked) := by
    rw [shown, nothing]
    exact mayAsk_nil s.writer
  cases rule with
  | @takes frame =>
    have quiet : requestsSent (.frameRead frame :: s.tipEvents (Peek.tip? frame)) = [] :=
      filterMap_tipEvents (fun _ => rfl) s _
    rw [refill_eq] at after
    rw [quiet]
    exact after
  | sends running before =>
    obtain ⟨n, rfl⟩ := after
    rcases sentEvent?_cases before with ⟨writer, rfl⟩ | ⟨payload, writer, rfl⟩ | ⟨writer, rfl⟩
    · rw [writer]
      exact .inr ⟨n, rfl⟩
    · rw [writer]
      exact ⟨n, rfl⟩
    · rw [writer]
      exact ⟨n + 1, rfl⟩
  | meetsEnd => exact stopping rfl after
  | sendFails => exact stopping rfl after
  | leaves => exact stopping rfl after
  | shuts => exact stopping rfl after
  | hasShut => exact stopping rfl after
  | writerRecords => exact stopping rfl after
  | writerYields => exact stopping rfl after
  | answers running before =>
    rw [before]
    exact after
  | spends running before =>
    rw [before]
    exact after
  -- No other rule moves the writer or sends a request.
  | _ => exact after

theorem mayAsk_run (run : s.run? actions = some (t, events)) :
    s.writer.MayAsk (requestsSent events) := by
  refine run?_relates (fun s _ events => s.writer.MayAsk (requestsSent events))
    (fun s => mayAsk_nil s.writer) (fun rule rest => ?_) run
  rw [requestsSent_append]
  exact rule.mayAsk rest

/-! ## Credits -/

/-- A step puts a credit into the queue, or takes one out, or leaves all where they are; and a
request is sent with a credit that was taken. -/
theorem Rule.credited (rule : Rule s action t events) :
    events.count .requestSent + t.taken + t.credits ≤
      s.taken + s.credits + (t.credits - s.credits) := by
  cases rule with
  | @takes frame =>
    have held : State.taken { s.refill.post (Peek.tip? frame) with reader := .delivering frame } =
        s.taken := by
      rw [refill_eq]
      rfl
    rw [count_takes, held]
    omega
  | sends running before =>
    rcases sentEvent?_cases before with ⟨writer, rfl⟩ | ⟨payload, writer, rfl⟩ | ⟨writer, rfl⟩
    all_goals simp [taken, writer]
  | spends running before quiet credit =>
    simp [taken, before]
    omega
  -- No other rule sends a request or changes the credits, though one that is held may be lost.
  | _ => grind [taken]

theorem spent_run (run : s.run? actions = some (t, events)) :
    events.count .requestSent + t.taken + t.credits ≤
      s.taken + s.credits + s.creditsPut actions := by
  -- Action by action: the credits that each step puts into the queue are added up.
  induction actions generalizing s events with
  | nil =>
    cases run
    simp
  | cons action rest ih =>
    obtain ⟨u, shown, later, hstep, hrun, rfl⟩ := run?_cons run
    have first := (rule_of_step? hstep).credited
    have after := ih hrun
    have put : s.creditsPut (action :: rest) = (u.credits - s.credits) + u.creditsPut rest := by
      rw [creditsPut, hstep]
    rw [List.count_append, put]
    omega

/-! ## Answers to pings -/

/-- What a step answers, and what is still to be answered after it, was to be answered before or has
come in with it. -/
theorem Rule.answering (rule : Rule s action t events) :
    (pongsSent events ++ t.answering).Sublist (s.answering ++ pingsRead events) := by
  -- Most rules leave the writer and the pings alone,
  have same (pongs : pongsSent events = []) (pings : pingsRead events = [])
      (waiting : t.answering.Sublist s.answering) :
      (pongsSent events ++ t.answering).Sublist (s.answering ++ pingsRead events) := by
    rw [pongs, pings, List.append_nil]
    exact waiting
  -- and a writer that moves on may leave an answer behind.
  have behind : s.pongs.Sublist s.answering := List.sublist_append_right _ _
  cases rule with
  | @takes frame =>
    refine same (filterMap_tipEvents (fun _ => rfl) s _) (filterMap_tipEvents (fun _ => rfl) s _) ?_
    rw [refill_eq]
    exact List.Sublist.refl _
  | @hears payload =>
    have joins : State.answering { s with pongs := s.pongs ++ [payload] } =
        s.answering ++ [payload] := (List.append_assoc _ _ _).symm
    rw [joins]
    exact List.Sublist.refl _
  | drops => exact List.sublist_append_left _ _
  | sends running before =>
    rcases sentEvent?_cases before with ⟨writer, rfl⟩ | ⟨payload, writer, rfl⟩ | ⟨writer, rfl⟩
    · exact same rfl rfl behind
    · -- The answer that was held is the first of all.
      have held : s.answering = payload :: s.pongs := by rw [State.answering, writer]; rfl
      rw [held]
      exact List.sublist_append_left _ _
    · exact same rfl rfl behind
  | answers running before listening pending =>
    -- The ping goes from the queue to the writer.
    have waiting : s.answering = s.pongs := by rw [State.answering, before]; rfl
    refine same rfl rfl ?_
    rw [waiting, pending]
    exact List.Sublist.refl _
  | meetsEnd => exact same rfl rfl behind
  | sendFails => exact same rfl rfl behind
  | leaves => exact same rfl rfl behind
  | spends => exact same rfl rfl behind
  | shuts => exact same rfl rfl behind
  | hasShut => exact same rfl rfl behind
  | writerRecords => exact same rfl rfl behind
  | writerYields => exact same rfl rfl behind
  | _ => exact same rfl rfl (List.Sublist.refl _)

theorem answering_run (run : s.run? actions = some (t, events)) :
    (pongsSent events ++ t.answering).Sublist (s.answering ++ pingsRead events) := by
  refine run?_relates
    (fun s t events => (pongsSent events ++ t.answering).Sublist (s.answering ++ pingsRead events))
    (fun s => ?_) (fun {s u t action shown later} rule rest => ?_) run
  · exact List.sublist_append_left _ _
  · -- What the first step leaves to be answered is what the others start from.
    rw [pongsSent_append, pingsRead_append]
    calc (pongsSent shown ++ pongsSent later ++ t.answering).Sublist
          (pongsSent shown ++ (u.answering ++ pingsRead later)) := by
            rw [List.append_assoc]
            exact rest.append_left _
      List.Sublist _ (s.answering ++ pingsRead shown ++ pingsRead later) := by
            rw [← List.append_assoc]
            exact rule.answering.append_right _
      _ = _ := List.append_assoc _ _ _

/-! ## Cancelled sessions -/

theorem Rule.sends_nothing (rule : Rule s action t events) (stopped : s.cancelled = true) :
    requestsSent events = [] ∧ pongsSent events = [] := by
  cases rule with
  | takes running => exact absurd (stopped.symm.trans running) nofun
  | sends running => exact absurd (stopped.symm.trans running) nofun
  | _ => exact ⟨rfl, rfl⟩

/-- A cancelled session stays so, and sends neither a request nor an answer any more. -/
theorem cancelled_run (run : s.run? actions = some (t, events)) (stopped : s.cancelled = true) :
    requestsSent events = [] ∧ pongsSent events = [] := by
  refine run?_relates
    (fun s _ events => s.cancelled = true → requestsSent events = [] ∧ pongsSent events = [])
    (fun _ _ => ⟨rfl, rfl⟩) (fun rule rest stopped => ?_) run stopped
  obtain ⟨requests, pongs⟩ := rule.sends_nothing stopped
  obtain ⟨requests', pongs'⟩ := rest (rule.cancelled (.inl stopped))
  rw [requestsSent_append, pongsSent_append, requests, pongs, requests', pongs']
  exact ⟨rfl, rfl⟩

/-! ## All sends -/

/-- The requests that have been sent are none, or the one for the intersection and then only such
for a next block, no more than there were credits in the queue at the start and have been put into
it since; a credit that waits, or that the writer has taken, is counted as well.  The answers to
pings are some of the pings that the reader has taken, each once at most and in their order.  A
session that is cancelled sends neither any more. -/
theorem sends_by_turns {pipeline frameCapacity : Nat}
    (run : { pipeline, frameCapacity : State }.run? actions = some (s, events)) :
    (requestsSent events = [] ∨
      ∃ n, requestsSent events = .intersection :: List.replicate n .nextBlock ∧
        n + s.taken + s.credits ≤
          pipeline + { pipeline, frameCapacity : State }.creditsPut actions) ∧
    (pongsSent events).Sublist (pingsRead events) ∧
    (s.cancelled = true → ∀ actions t later, s.run? actions = some (t, later) →
      requestsSent later = [] ∧ pongsSent later = []) := by
  -- The opening is the first request, and pongs answer pings in their order.
  have asked : requestsSent events = [] ∨
      ∃ n, requestsSent events = .intersection :: List.replicate n .nextBlock := mayAsk_run run
  have answers : (pongsSent events ++ s.answering).Sublist (pingsRead events) := answering_run run
  refine ⟨asked.imp_right ?_, (List.sublist_append_left _ _).trans answers, ?_⟩
  · rintro ⟨n, asked⟩
    -- Each request after the opening has taken a credit.
    have blocks : events.count .requestSent = n := by
      rw [← count_nextBlock, asked]
      simp
    have spent : events.count .requestSent + s.taken + s.credits ≤
        0 + pipeline + { pipeline, frameCapacity : State }.creditsPut actions := spent_run run
    rw [blocks, Nat.zero_add] at spent
    exact ⟨n, asked, spent⟩
  · exact fun stopped actions t later run => cancelled_run run stopped

/-- Two pings come before the first frame and one after it, the second frame brings a credit, and
the session is cancelled when the writer is about to send the request for it. -/
def interruptedActions : List Action :=
  [.sent .done, .receive (.ping [1]), .receive (.ping [2]), .writer, .sent .done,
    .receive (.data [97]), .writer, .sent .done, .writer, .sent .done, .reader,
    .receive (.data [98]), .writer, .reader, .receive (.ping [3]), .cancel]

/-- The second request and the third answer are not sent, though there were a credit and a ping for
them. -/
theorem sends_by_turns_interrupted :
    ∃ s t events later,
      { pipeline := 1, frameCapacity := 2 : State }.run? interruptedActions = some (s, events) ∧
        s.cancelled = true ∧ s.run? [.writer, .reader] = some (t, later) ∧
        { pipeline := 1, frameCapacity := 2 : State }.creditsPut interruptedActions = 1 ∧
        requestsSent events = [.intersection, .nextBlock] ∧ pongsSent events = [[1], [2]] ∧
        pingsRead events = [[1], [2], [3]] ∧ (pongsSent events).Sublist (pingsRead events) ∧
        requestsSent later = [] ∧ pongsSent later = [] := by
  -- The session is cancelled with a ping to answer and a credit to spend.
  obtain ⟨s, t, events, later, run, stopped, after, put, asked, pongs, pings⟩ :
      ∃ s t events later,
        { pipeline := 1, frameCapacity := 2 : State }.run? interruptedActions = some (s, events) ∧
          s.cancelled = true ∧ s.run? [.writer, .reader] = some (t, later) ∧
          { pipeline := 1, frameCapacity := 2 : State }.creditsPut interruptedActions = 1 ∧
          requestsSent events = [.intersection, .nextBlock] ∧ pongsSent events = [[1], [2]] ∧
          pingsRead events = [[1], [2], [3]] :=
    ⟨_, _, _, _, rfl, rfl, rfl, rfl, rfl, rfl, rfl⟩
  obtain ⟨-, inOrder, silent⟩ := sends_by_turns run
  obtain ⟨noRequest, noPong⟩ := silent stopped _ t later after
  exact ⟨s, t, events, later, run, stopped, after, put, asked, pongs, pings, inOrder, noRequest,
    noPong⟩

end State

end ChainFollower.Session
