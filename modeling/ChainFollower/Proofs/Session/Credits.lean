import ChainFollower.Proofs.Session.Exchange
import ChainFollower.Proofs.Session.Rules

/-!
# Credits are conserved

While a session runs, every credit is in one of three places: in the queue, with the writer that is
about to spend it, or on the wire as a request whose answer the reader has not read.  The answer to
the opening request is told apart by its place alone: it is the first data frame.

Main statement: `credits_conserved`, for all interleavings of writer, reader, consumer and server.
-/

namespace ChainFollower.Session

/-! ## Running sessions -/

/-- Whether the writer has not begun to stop. -/
def WriterTask.isWriting : WriterTask → Bool
  | .opening | .idle | .pong _ | .request => true
  | .closing | .failing _ | .ended => false

namespace State

/-- Neither cancelled, nor has one of the tasks begun to stop. -/
structure Running (s : State) : Prop where
  uncancelled : s.cancelled = false
  reading : s.readerStopped = false
  writing : s.writer.isWriting = true

theorem Running.not_cancelled {s : State} (running : s.Running) : ¬ s.cancelled = true := by
  simp [running.uncancelled]

/-- The credit that the writer has taken and not sent, as a number. -/
def taken (s : State) : Nat := if s.writer = .request then 1 else 0

/-- The opening request, as long as it is on its way or being answered. -/
def openingAsked (s : State) : List Asked :=
  if s.writer = .opening ∨ s.answered then [] else [.intersection]

/-- What a step other than the receipt of a frame does to the credits, by the requests that it
sends. -/
inductive Spends (s s' : State) : List Asked → Prop
  /-- A credit may pass from the queue to the writer. -/
  | nothing (sum : s'.credits + s'.taken = s.credits + s.taken)
      (writer : s'.writer = .opening ↔ s.writer = .opening) : Spends s s' []
  | opening (sum : s'.credits + s'.taken = s.credits + s.taken) (before : s.writer = .opening)
      (after : s'.writer ≠ .opening) : Spends s s' [.intersection]
  | request (sum : s'.credits + s'.taken + 1 = s.credits + s.taken) (before : s.writer ≠ .opening)
      (after : s'.writer ≠ .opening) : Spends s s' [.nextBlock]

/-! ## One step of a session -/

variable {s s' : State} {action : Action} {events : List Event}

/-- The receipt of a frame leaves the writer alone and refills a credit, unless the frame answers
the opening request. -/
theorem Rule.takes_frame {frame : Octets} (rule : Rule s (.receive (.data frame)) s' events)
    (running : s.Running) :
    s'.Running ∧ s'.pipeline = s.pipeline ∧ s'.writer = s.writer ∧ s'.answered = true ∧
      s'.credits = (if s.answered then min (s.credits + 1) s.pipeline else s.credits) ∧
      events.filterMap Event.asked? = [] := by
  cases rule with
  | takes =>
    rw [refill_eq]
    exact ⟨⟨running.uncancelled, rfl, running.writing⟩, rfl, rfl, rfl, rfl,
      filterMap_tipEvents (fun _ => rfl) s _⟩

/-- What every step of a running session keeps that ends nothing and receives no frame. -/
structure Steady (s s' : State) (events : List Event) : Prop where
  running : s'.Running
  pipeline : s'.pipeline = s.pipeline
  answered : s'.answered = s.answered
  spends : Spends s s' (events.filterMap Event.asked?)

/-- A step that moves neither the writer nor a credit. -/
theorem Steady.of_same (running : s.Running) (uncancelled : s'.cancelled = s.cancelled)
    (reading : s'.readerStopped = false) (writer : s'.writer = s.writer)
    (credits : s'.credits = s.credits) (pipeline : s'.pipeline = s.pipeline)
    (answered : s'.answered = s.answered) (asked : events.filterMap Event.asked? = []) :
    Steady s s' events where
  running := ⟨uncancelled.trans running.uncancelled, reading, writer ▸ running.writing⟩
  pipeline := pipeline
  answered := answered
  spends := asked ▸ .nothing (by simp [taken, credits, writer]) (by simp [writer])

/-- A send that has come off leaves the writer idle, and the credit for a request is spent. -/
theorem steady_sends (running : s.Running) {event : Event}
    (before : sentEvent? s.writer = some event) :
    Steady s { s with writer := .idle } [event] := by
  have running' : ({ s with writer := .idle } : State).Running :=
    ⟨running.uncancelled, running.reading, rfl⟩
  rcases sentEvent?_cases before with ⟨writer, rfl⟩ | ⟨payload, writer, rfl⟩ | ⟨writer, rfl⟩
  · exact ⟨running', rfl, rfl, .opening (by simp [taken, writer]) writer nofun⟩
  · exact ⟨running', rfl, rfl, .nothing (by simp [taken, writer]) (by simp [writer])⟩
  · exact ⟨running', rfl, rfl, .request (by simp [taken, writer]) (by simp [writer]) nofun⟩

/-- A step of a running session that ends nothing and receives no frame is steady. -/
theorem Rule.steady (rule : Rule s action s' events) (running : s.Running)
    (quiet : action.ends = false) (noData : ∀ frame, action ≠ .receive (.data frame)) :
    Steady s s' events := by
  obtain ⟨uncancelled, reading, writing⟩ := id running
  cases rule with
  | takes => exact absurd rfl (noData _)
  | sends _ before => exact steady_sends running before
  | answers _ before =>
    exact ⟨⟨uncancelled, reading, rfl⟩, rfl, rfl,
      .nothing (by simp [taken, before]) (by simp [before])⟩
  | spends _ before _ credit =>
    refine ⟨⟨uncancelled, reading, rfl⟩, rfl, rfl, .nothing ?_ (by simp [before])⟩
    -- The credit has changed hands.
    simp only [taken, before, reduceCtorEq, if_true, if_false]
    omega
  | queues => exact .of_same running rfl rfl rfl rfl rfl rfl rfl
  -- These rules belong to a session that is cancelled, or end it,
  | cancels => cases quiet
  | closes => cases quiet
  | breaks => cases quiet
  | meetsEnd => cases quiet
  | sendFails => cases quiet
  | ends => cases quiet
  | stops stopped => exact absurd stopped running.not_cancelled
  | leaves stopped => exact absurd stopped running.not_cancelled
  | wakes stopped => exact absurd stopped running.not_cancelled
  -- or to a task that has begun to stop,
  | readerRecords before => simp [readerStopped, before] at reading
  | readerYields before => simp [readerStopped, before] at reading
  | forgetsPings _ _ _ _ stopped => cases reading.symm.trans stopped
  | shuts _ finished =>
    rcases finished with stopped | ⟨-, -, stopped⟩
    · exact absurd stopped running.not_cancelled
    · cases reading.symm.trans stopped
  | hasShut before => simp [WriterTask.isWriting, before] at writing
  | writerRecords before => simp [WriterTask.isWriting, before] at writing
  | writerYields before => simp [WriterTask.isWriting, before] at writing
  -- and the others have to do with pings and with the consumer alone.
  | _ => exact .of_same running rfl reading rfl rfl rfl rfl rfl

end State

/-! ## Every turn of an exchange -/

namespace Exchange

variable {n : Nat} {x y : Exchange}

/-- A running session whose credits are all accounted for.  The backlog holds the opening request as
long as that is unanswered, and behind it nothing but requests for a next block. -/
structure Conserved (n : Nat) (x : Exchange) : Prop where
  running : x.state.Running
  pipeline : x.state.pipeline = n
  unopened : x.state.writer = .opening → x.state.answered = false ∧ x.unanswered = 0
  backlog : x.backlog = x.state.openingAsked ++ List.replicate x.unanswered .nextBlock
  balance : x.state.credits + x.state.taken + x.unanswered = n

theorem conserved_start (n frameCapacity : Nat) : Conserved n (start n frameCapacity) where
  running := ⟨rfl, rfl, rfl⟩
  pipeline := rfl
  unopened _ := ⟨rfl, rfl⟩
  backlog := rfl
  balance := rfl

/-- What the session takes off the wire, other than a frame, answers no request. -/
theorem requests_leftBy {action : Action} {incoming : List Arriving}
    (noData : ∀ frame, action ≠ .receive (.data frame))
    (h : x.leftBy action = some incoming) :
    incoming.filterMap Arriving.request? = x.incoming.filterMap Arriving.request? := by
  cases action with
  | receive message =>
    simp only [leftBy] at h
    cases message with
    | data frame => exact absurd rfl (noData frame)
    -- A ping answers no request, so taking one leaves them.
    | ping payload =>
      cases hin : x.incoming with
      | nil => simp [hin, Incoming.takenFrom] at h
      | cons first rest =>
        cases first with
        | answer _ _ => simp [hin, Incoming.takenFrom] at h
        | ping sent =>
          simp only [hin, Incoming.takenFrom] at h
          split at h <;> simp only [reduceCtorEq, Option.some.injEq] at h
          rw [h, List.filterMap_cons_none rfl]
    | other | closed | failed _ => simp_all [Incoming.takenFrom]
  | _ => simp_all [leftBy]

/-- A frame that the session takes off the wire answers the oldest request. -/
theorem leftBy_data {frame : Octets} {incoming : List Arriving}
    (h : x.leftBy (.receive (.data frame)) = some incoming) :
    ∃ request, x.incoming = .answer request frame :: incoming := by
  simp only [leftBy] at h
  -- The frame is the first thing on the wire, and answers a request.
  cases hin : x.incoming with
  | nil => simp [hin, Incoming.takenFrom] at h
  | cons first rest =>
    cases first with
    | ping _ => simp [hin, Incoming.takenFrom] at h
    | answer request sent =>
      simp only [hin, Incoming.takenFrom] at h
      split at h <;> simp only [reduceCtorEq, Option.some.injEq] at h
      next hsent => exact ⟨request, by rw [hsent, h]⟩

/-- The receipt of a frame uses up one answer, and what it refills has room in the queue. -/
theorem conserved_data (inv : Conserved n x) {frame : Octets}
    (h : x.turn? (.client (.receive (.data frame))) = some y) :
    Conserved n y ∧ (x.state.answered = true →
      x.state.credits < n ∧ y.state.credits = x.state.credits + 1) := by
  obtain ⟨events, hleft, hstep, hpending, houtgoing⟩ := turn?_client h
  obtain ⟨request, hin⟩ := leftBy_data hleft
  obtain ⟨running, pipeline, writer, answered, credits, asked⟩ :=
    (State.rule_of_step? hstep).takes_frame inv.running
  have hbacklog : x.backlog = request :: y.backlog := by
    simp [backlog, hin, hpending, houtgoing, asked, Arriving.request?]
  have noOpening : y.state.openingAsked = [] := by simp [State.openingAsked, answered]
  have taken : y.state.taken = x.state.taken := by simp [State.taken, writer]
  -- Nothing is asked before the opening request is sent, so nothing could have been answered.
  have opened : x.state.writer ≠ .opening := by
    intro hopening
    have hempty := inv.backlog
    rw [(inv.unopened hopening).2, hbacklog] at hempty
    simp [State.openingAsked, hopening] at hempty
  have hshape := inv.backlog
  have hbalance := inv.balance
  rw [hbacklog] at hshape
  cases hanswered : x.state.answered with
  | true =>
    have hopening : x.state.openingAsked = [] := by simp [State.openingAsked, hanswered]
    rw [hopening, List.nil_append] at hshape
    -- The oldest answer is one to a request for a next block, so fewer than `n` credits are left.
    obtain ⟨k, hk⟩ : ∃ k, x.unanswered = k + 1 := by
      cases hu : x.unanswered with
      | zero => simp [hu] at hshape
      | succ k => exact ⟨k, rfl⟩
    rw [hk, List.replicate_succ, List.cons.injEq] at hshape
    have hy' : y.unanswered = k := by simp [unanswered, hshape.2]
    rw [if_pos hanswered, inv.pipeline] at credits
    have room : x.state.credits < n := by omega
    refine ⟨⟨running, pipeline.trans inv.pipeline, fun hw => absurd (writer ▸ hw) opened, ?_, ?_⟩,
      fun _ => ⟨room, by omega⟩⟩
    · rw [hy', hshape.2, noOpening, List.nil_append]
    · rw [hy', taken, credits]
      omega
  | false =>
    have hopening : x.state.openingAsked = [.intersection] := by
      simp [State.openingAsked, hanswered, opened]
    rw [hopening, List.singleton_append, List.cons.injEq] at hshape
    have hy' : y.unanswered = x.unanswered := by
      rw [unanswered, hshape.2, List.count_replicate_self]
    refine ⟨⟨running, pipeline.trans inv.pipeline, fun hw => absurd (writer ▸ hw) opened, ?_, ?_⟩,
      fun h => by cases h⟩
    · rw [hy', hshape.2, noOpening, List.nil_append]
    · rw [hy', taken, credits, if_neg (by simp [hanswered])]
      exact hbalance

/-- Every other turn of the session that ends nothing keeps the credits accounted for. -/
theorem conserved_steady (inv : Conserved n x) {action : Action} (quiet : action.ends = false)
    (noData : ∀ frame, action ≠ .receive (.data frame))
    (h : x.turn? (.client action) = some y) : Conserved n y := by
  obtain ⟨events, hleft, hstep, hpending, houtgoing⟩ := turn?_client h
  have hin := requests_leftBy noData hleft
  obtain ⟨running, pipeline, answered, spends⟩ :=
    (State.rule_of_step? hstep).steady inv.running quiet noData
  have hbacklog : y.backlog = x.backlog ++ events.filterMap Event.asked? := by
    simp [backlog, hin, hpending, houtgoing]
  have hshape := inv.backlog
  have hbalance := inv.balance
  -- The requests that the step sends join the end of the backlog.
  generalize hasked : events.filterMap Event.asked? = asked at spends hbacklog
  cases spends with
  | nothing sum writer =>
    rw [List.append_nil] at hbacklog
    have hy' : y.unanswered = x.unanswered := by rw [unanswered, hbacklog, unanswered]
    refine ⟨running, pipeline.trans inv.pipeline, fun hw => ?_, ?_, ?_⟩
    · obtain ⟨hanswered, hzero⟩ := inv.unopened (writer.1 hw)
      exact ⟨answered.trans hanswered, hy'.trans hzero⟩
    · rw [hbacklog, hy', hshape]
      simp [State.openingAsked, writer, answered]
    · rw [hy', ← hbalance, ← sum]
  | opening sum before after =>
    obtain ⟨hanswered, hzero⟩ := inv.unopened before
    rw [hshape, hzero] at hbacklog
    have hb : y.backlog = [.intersection] := by
      simpa [State.openingAsked, before] using hbacklog
    have hy' : y.unanswered = 0 := by rw [unanswered, hb]; rfl
    refine ⟨running, pipeline.trans inv.pipeline, fun hw => absurd hw after, ?_, ?_⟩
    · rw [hb, hy']
      simp [State.openingAsked, after, answered, hanswered]
    · rw [hy', ← hbalance, ← sum, hzero]
  | request sum before after =>
    have hy' : y.unanswered = x.unanswered + 1 := by
      rw [unanswered, hbacklog, List.count_append, unanswered]; rfl
    refine ⟨running, pipeline.trans inv.pipeline, fun hw => absurd hw after, ?_, ?_⟩
    · rw [hbacklog, hy', hshape, List.replicate_succ', List.append_assoc]
      simp [State.openingAsked, before, after, answered]
    · rw [hy', ← hbalance, ← sum]
      omega

/-- Every turn that ends nothing keeps the credits accounted for. -/
theorem conserved_turn (inv : Conserved n x) {turn : Turn} (quiet : turn.ends = false)
    (h : x.turn? turn = some y) : Conserved n y := by
  by_cases client : ∃ action, turn = .client action
  · obtain ⟨action, rfl⟩ := client
    by_cases data : ∃ frame, action = .receive (.data frame)
    · obtain ⟨frame, rfl⟩ := data
      exact (conserved_data inv h).1
    · exact conserved_steady inv quiet (fun frame hf => data ⟨frame, hf⟩) h
  · -- The server changes neither the session nor the backlog.
    obtain ⟨hstate, hbacklog⟩ := backlog_server h fun action ha => client ⟨action, ha⟩
    have hunanswered : y.unanswered = x.unanswered := by rw [unanswered, hbacklog, unanswered]
    refine ⟨?_, ?_, ?_, ?_, ?_⟩ <;> rw [hstate]
    · exact inv.running
    · exact inv.pipeline
    · rw [hunanswered]
      exact inv.unopened
    · rw [hbacklog, hunanswered]
      exact inv.backlog
    · rw [hunanswered]
      exact inv.balance

/-! ## Conservation -/

/-- As long as nothing ends the session, the credits in the queue, the credit that the writer has
taken and the requests whose answers the reader has not read add up to the depth of the pipeline;
and a credit that the reader refills always finds room. -/
theorem credits_conserved {n frameCapacity : Nat} {turns : List Turn} {x : Exchange}
    (run : (start n frameCapacity).run? turns = some x) (quiet : ∀ t ∈ turns, t.ends = false) :
    x.state.credits + x.state.taken + x.unanswered = n ∧ x.unanswered ≤ n ∧
      ∀ frame y, x.turn? (.client (.receive (.data frame))) = some y →
        x.state.answered = true →
          x.state.credits < x.state.pipeline ∧ y.state.credits = x.state.credits + 1 := by
  -- The balance holds at the start, and no turn changes it.
  have inv : Conserved n x :=
    run?_preserves (fun _ _ _ hx hquiet hy => conserved_turn hx hquiet hy)
      (conserved_start n frameCapacity) quiet run
  refine ⟨inv.balance, ?_, ?_⟩
  · have := inv.balance
    omega
  · intro frame y hy hanswered
    rw [inv.pipeline]
    exact (conserved_data inv hy).2 hanswered

/-- The session asks for the intersection and two blocks, a ping comes in between, and the answer to
the first of the two requests is the next message on the wire. -/
def busyTurns : List Turn :=
  [.client (.sent .done), .hear, .client .writer, .answer [], .client (.receive (.data [])),
    .client (.sent .done), .ping [1], .hear, .client .reader, .client (.receive (.ping [1])),
    .client .writer, .client (.sent .done), .client .writer, .client (.sent .done),
    .answer []]

/-- With both credits on the wire the next frame refills one, for which there is room. -/
theorem credits_conserved_busy :
    ∃ x y, (start 2 1).run? busyTurns = some x ∧ (∀ t ∈ busyTurns, t.ends = false) ∧
      x.turn? (.client (.receive (.data []))) = some y ∧ x.state.answered = true ∧
      x.unanswered = 2 ∧ x.state.credits + x.state.taken + x.unanswered = 2 ∧
      x.state.credits < x.state.pipeline ∧ y.state.credits = x.state.credits + 1 := by
  have hquiet : ∀ t ∈ busyTurns, t.ends = false := by decide
  obtain ⟨x, y, hx, hy, hanswered, hunanswered⟩ : ∃ x y, (start 2 1).run? busyTurns = some x ∧
      x.turn? (.client (.receive (.data []))) = some y ∧ x.state.answered = true ∧
      x.unanswered = 2 := ⟨_, _, rfl, rfl, rfl, rfl⟩
  obtain ⟨hsum, -, hroom⟩ := credits_conserved hx hquiet
  exact ⟨x, y, hx, hquiet, hy, hanswered, hunanswered, hsum, hroom [] y hy hanswered⟩

end Exchange

end ChainFollower.Session
