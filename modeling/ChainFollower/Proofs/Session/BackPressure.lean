import ChainFollower.Proofs.Session.Credits
import ChainFollower.Proofs.Session.Delivery

/-!
# A slow consumer holds the server back

A server may send frames for which nobody has asked, and as fast as it likes.  The reader takes one
only when it has put the one before into the queue, and a request is paid for with a credit that was
there at the start or came with a frame.  So the frames that the consumer takes out of the queue
bound both what the reader takes and what the writer sends.

Each frame is counted where it waits (`stock`), and each credit where it is spent (`Flow.spent`), a
request on its way included.  Main statement: `reads_and_requests_le`, for all messages and all
interleavings of reader, writer and consumer.
-/

namespace ChainFollower.Session

namespace State

/-- The frames that wait for the consumer, and one more for a reader that takes none now. -/
def stock (s : State) : Nat := s.frames.length + if s.reader = .waiting then 0 else 1

/-- The first frame, once it has been read: it comes without a credit. -/
def exempt (s : State) : Nat := if s.answered then 1 else 0

/-- What a number of steps do to the frames and to the credits. -/
structure Flow (s t : State) (events : List Event) : Prop where
  frameCapacity : t.frameCapacity = s.frameCapacity
  room : s.frames.length ≤ s.frameCapacity → t.frames.length ≤ t.frameCapacity
  /-- A frame that is read goes into the stock, where only the consumer takes one out. -/
  stock : (framesRead events).length + s.stock ≤ (framesReturned events).length + t.stock
  /-- A request takes a credit, and only a frame brings one. -/
  spent : events.count .requestSent + t.taken + (t.credits + t.exempt) ≤
    (framesRead events).length + s.taken + (s.credits + s.exempt)
  first : t.answered = false → s.answered = false ∧ framesRead events = []

variable {s t u : State} {action : Action} {actions : List Action} {events later : List Event}

/-! ## One step -/

/-- With a frame and its tip no request is sent. -/
theorem count_takes (s : State) (frame : Octets) (tip : Option Tip) :
    (Event.frameRead frame :: s.tipEvents tip).count .requestSent = 0 := by
  rw [List.count_cons_of_ne (by simp)]
  refine List.count_eq_zero.2 fun mem => ?_
  obtain ⟨t, changed⟩ := exists_of_mem_tipEvents mem
  cases changed

/-- A frame that is read adds one to the stock, and brings a credit or is the first. -/
theorem flow_takes {frame : Octets} (before : s.reader = .waiting) :
    Flow s { s.refill.post (Peek.tip? frame) with reader := .delivering frame }
      (.frameRead frame :: s.tipEvents (Peek.tip? frame)) := by
  constructor
  case frameCapacity => rw [refill_eq]; rfl
  case room => rw [refill_eq]; exact id
  -- The frame is counted as read, and is the one that the reader holds.
  case stock =>
    rw [framesRead_takes, framesReturned_takes, refill_eq]
    simp [State.stock, post, before, Nat.add_comm]
  -- The first frame gives no credit, and each later one gives one.
  case spent =>
    rw [framesRead_takes, count_takes, refill_eq]
    cases answered : s.answered with
    | false => simp [post, taken, exempt, answered]; omega
    | true => simp [post, taken, exempt, answered]; omega
  case first => rw [refill_eq]; exact fun unanswered => Bool.noConfusion unanswered

/-- What a send shows is at most one request, for which the writer had taken a credit. -/
theorem flow_sends {event : Event} (before : sentEvent? s.writer = some event) :
    Flow s { s with writer := .idle } [event] := by
  rcases sentEvent?_cases before with ⟨writer, rfl⟩ | ⟨payload, writer, rfl⟩ | ⟨writer, rfl⟩
  all_goals exact ⟨rfl, id, Nat.le_refl _, by simp [taken, exempt, writer], fun none => ⟨none, rfl⟩⟩

theorem Rule.flow (h : Rule s action t events) : Flow s t events := by
  cases h with
  | takes running before => exact flow_takes before
  | sends running before => exact flow_sends before
  | queues running before room =>
    refine ⟨rfl, fun _ => ?_, ?_, ?_, fun none => ⟨none, rfl⟩⟩
    · simpa using Nat.succ_le_of_lt room
    · simp [State.stock, before, framesRead, framesReturned]
    · simp [taken, exempt]
  | returns running before frames =>
    refine ⟨rfl, ?_, ?_, ?_, fun none => ⟨none, rfl⟩⟩
    · rw [frames]
      exact Nat.le_of_succ_le
    · grind [State.stock, framesRead, framesReturned, Event.read?, Event.returned?]
    · simp [taken, exempt]
  | spends running before quiet credit =>
    refine ⟨rfl, id, ?_, ?_, fun none => ⟨none, rfl⟩⟩
    · exact Nat.le_refl _
    · simp [taken, exempt, before]
      omega
  -- No other rule moves a frame or brings a credit, though a reader that stops counts as one more.
  | _ =>
    refine ⟨rfl, id, ?_, ?_, fun none => ⟨none, rfl⟩⟩
    · grind [State.stock, framesRead, framesReturned, Event.read?, Event.returned?]
    · grind [taken, exempt]

/-! ## Many steps -/

theorem Flow.trans (before : Flow s t events) (after : Flow t u later) :
    Flow s u (events ++ later) where
  frameCapacity := after.frameCapacity.trans before.frameCapacity
  room := after.room ∘ before.room
  -- The balances of both parts add up.
  stock := by
    have h₁ := before.stock
    have h₂ := after.stock
    rw [framesRead_append, framesReturned_append, List.length_append, List.length_append]
    omega
  spent := by
    have h₁ := before.spent
    have h₂ := after.spent
    rw [framesRead_append, List.length_append, List.count_append]
    omega
  first unanswered := by
    obtain ⟨unanswered, none⟩ := after.first unanswered
    obtain ⟨unanswered, none'⟩ := before.first unanswered
    rw [framesRead_append, none, none']
    exact ⟨unanswered, rfl⟩

theorem Flow.refl (s : State) : Flow s s [] :=
  ⟨rfl, id, Nat.le_refl _, Nat.le_refl _, fun none => ⟨none, rfl⟩⟩

theorem flow_run (run : s.run? actions = some (t, events)) :
    Flow s t events :=
  run?_relates Flow .refl (fun rule rest => rule.flow.trans rest) run

/-- The reader takes the frames that it receives, and no more of them than the consumer has been
handed, those that the queue holds, and one.  The writer sends no more requests than there were credits at the start, and frames that
the consumer has been handed or that the queue holds, even if the one that it may be sending is
counted as well. -/
theorem reads_and_requests_le {pipeline frameCapacity : Nat}
    (run : { pipeline, frameCapacity : State }.run? actions = some (s, events)) :
    framesRead events = framesReceived actions ∧
      (framesRead events).length ≤ (framesReturned events).length + frameCapacity + 1 ∧
      events.count .requestSent + s.taken ≤
        pipeline + (framesReturned events).length + frameCapacity := by
  have flow := flow_run run
  have capacity : s.frameCapacity = frameCapacity := flow.frameCapacity
  have queued : s.frames.length ≤ s.frameCapacity := flow.room (Nat.zero_le _)
  -- Every frame that has been read has been handed out, or waits in the queue or with the reader.
  have read : (framesRead events).length ≤ (framesReturned events).length + frameCapacity + 1 := by
    have stock := flow.stock
    have held : s.stock ≤ s.frames.length + 1 := by
      unfold State.stock
      split <;> omega
    have none : { pipeline, frameCapacity : State }.stock = 0 := rfl
    omega
  refine ⟨framesRead_run run, read, ?_⟩
  have spent : events.count .requestSent + s.taken + (s.credits + s.exempt) ≤
      (framesRead events).length + pipeline := by
    simpa [taken, exempt] using flow.spent
  -- The first frame has brought no credit, and before it nothing has been read.
  cases answered : s.answered with
  | true =>
    have first : s.exempt = 1 := by rw [exempt, answered]; rfl
    omega
  | false =>
    rw [(flow.first answered).2] at spent
    simp only [List.length_nil] at spent
    omega

/-- A server that waits for no request: the writer spends every credit at once, and the consumer
takes one frame. -/
def floodedActions : List Action :=
  [.sent .done, .writer, .sent .done, .receive (.data [97]), .reader, .next, .consumer,
    .receive (.data [98]), .writer, .sent .done, .reader, .receive (.data [99]), .writer,
    .sent .done]

/-- Both bounds are reached. -/
theorem reads_and_requests_le_flooded :
    ∃ s events,
      { pipeline := 1, frameCapacity := 1 : State }.run? floodedActions = some (s, events) ∧
        framesReceived floodedActions = [[97], [98], [99]] ∧
        framesReturned events = [[97]] ∧ events.count .requestSent = 3 ∧
        framesRead events = framesReceived floodedActions ∧
        (framesRead events).length ≤ (framesReturned events).length + 1 + 1 ∧
        events.count .requestSent + s.taken ≤ 1 + (framesReturned events).length + 1 := by
  -- The consumer stops asking, and the server does not.
  obtain ⟨s, events, run, returned, sent⟩ : ∃ s events,
      { pipeline := 1, frameCapacity := 1 : State }.run? floodedActions = some (s, events) ∧
        framesReturned events = [[97]] ∧ events.count .requestSent = 3 :=
    ⟨_, _, rfl, rfl, rfl⟩
  exact ⟨s, events, run, rfl, returned, sent, reads_and_requests_le run⟩

end State

end ChainFollower.Session
