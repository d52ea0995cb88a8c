import ChainFollower.Session.State

/-!
# The rules of a session

`Rule` says once what a session can do: one rule for each thing that can happen, with all that has
to hold for it, the whole state afterwards and what it shows.  `step?` follows these rules and no
others, so that what they all keep is kept by every run.

Main statements: `step?_eq_some_iff`, and `run?_relates` for runs of any length.
-/

namespace ChainFollower.Session

namespace State

/-- What happens by an action, the state after it, and what it shows. -/
inductive Rule (s : State) : Action → State → List Event → Prop
  /-- The session or a token above it is cancelled. -/
  | cancels : Rule s .cancel { s with cancelled := true } []
  /-- The reader takes a frame, refills a credit and tells of the tip. -/
  | takes {frame : Octets} (running : s.cancelled = false) (before : s.reader = .waiting) :
      Rule s (.receive (.data frame))
        { s.refill.post (Peek.tip? frame) with reader := .delivering frame }
        (.frameRead frame :: s.tipEvents (Peek.tip? frame))
  /-- The reader hands a ping on to the writer. -/
  | hears {payload : Octets} (running : s.cancelled = false) (before : s.reader = .waiting)
      (room : s.pongs.length < pongCapacity) :
      Rule s (.receive (.ping payload)) { s with pongs := s.pongs ++ [payload] } [.pingRead payload]
  /-- The reader drops a ping for which there is no room. -/
  | drops {payload : Octets} (running : s.cancelled = false) (before : s.reader = .waiting)
      (full : pongCapacity ≤ s.pongs.length) :
      Rule s (.receive (.ping payload)) s [.pingRead payload]
  | skips (running : s.cancelled = false) (before : s.reader = .waiting) :
      Rule s (.receive .other) s []
  /-- The reader comes to the end of the stream. -/
  | closes (running : s.cancelled = false) (before : s.reader = .waiting) :
      Rule s (.receive .closed) { s with reader := .ended } []
  /-- The reader comes to a failure. -/
  | breaks {reason : String} (running : s.cancelled = false) (before : s.reader = .waiting) :
      Rule s (.receive (.failed reason)) { s with reader := .failing (.webSocket reason) } []
  /-- The reader puts its frame into the queue. -/
  | queues {frame : Octets} (running : s.cancelled = false) (before : s.reader = .delivering frame)
      (room : s.frames.length < s.frameCapacity) :
      Rule s .reader { s with reader := .waiting, frames := s.frames ++ [frame] } []
  /-- The reader of a cancelled session stops, with whatever it held. -/
  | stops (stopped : s.cancelled = true) (before : s.readerStopped = false) :
      Rule s .reader { s with reader := .ended } []
  /-- The reader puts the first failure on record. -/
  | readerRecords {e : TransportError} (before : s.reader = .failing e) (empty : s.failure = none) :
      Rule s .reader { s with reader := .ended, cancelled := true, failure := some e } [.recorded e]
  /-- The reader finds another failure on record, and drops its own. -/
  | readerYields {e : TransportError} (before : s.reader = .failing e) (full : s.failure ≠ none) :
      Rule s .reader { s with reader := .ended, cancelled := true } []
  /-- What the writer holds has been sent. -/
  | sends {event : Event} (running : s.cancelled = false)
      (before : sentEvent? s.writer = some event) :
      Rule s (.sent .done) { s with writer := .idle } [event]
  /-- The connection has been closed before the writer could send. -/
  | meetsEnd (running : s.cancelled = false) (before : (sentEvent? s.writer).isSome = true) :
      Rule s (.sent .closed) { s with writer := .ended } []
  /-- A send of the writer fails. -/
  | sendFails {reason : String} (running : s.cancelled = false)
      (before : (sentEvent? s.writer).isSome = true) :
      Rule s (.sent (.failed reason)) { s with writer := .failing (.webSocket reason) } []
  /-- The writer of a cancelled session leaves a send. -/
  | leaves (stopped : s.cancelled = true) (before : (sentEvent? s.writer).isSome = true) :
      Rule s .writer { s with writer := .ended } []
  /-- The writer turns to the first ping that waits. -/
  | answers {payload : Octets} {rest : List Octets} (running : s.cancelled = false)
      (before : s.writer = .idle) (listening : s.pongsOpen = true)
      (pending : s.pongs = payload :: rest) :
      Rule s .writer { s with writer := .pong payload, pongs := rest } []
  /-- The writer no longer looks for pings, since none can come any more. -/
  | forgetsPings (running : s.cancelled = false) (before : s.writer = .idle)
      (listening : s.pongsOpen = true) (answered : s.pongs = [])
      (stopped : s.readerStopped = true) : Rule s .writer { s with pongsOpen := false } []
  /-- The writer takes a credit for a request, no ping being there to be answered. -/
  | spends (running : s.cancelled = false) (before : s.writer = .idle)
      (quiet : s.pongsOpen = true → s.pongs = [] ∧ s.readerStopped = false)
      (credit : 0 < s.credits) :
      Rule s .writer { s with writer := .request, credits := s.credits - 1 } []
  /-- The writer begins to close the connection: the session is cancelled, or neither a ping nor a
  credit is left and none can come. -/
  | shuts (before : s.writer = .idle)
      (finished : s.cancelled = true ∨
        s.pongsOpen = false ∧ s.credits = 0 ∧ s.readerStopped = true) :
      Rule s .writer { s with writer := .closing } []
  /-- The writer has closed the connection. -/
  | hasShut (before : s.writer = .closing) : Rule s .writer { s with writer := .ended } []
  /-- The writer puts the first failure on record. -/
  | writerRecords {e : TransportError} (before : s.writer = .failing e) (empty : s.failure = none) :
      Rule s .writer { s with writer := .ended, cancelled := true, failure := some e } [.recorded e]
  /-- The writer finds another failure on record, and drops its own. -/
  | writerYields {e : TransportError} (before : s.writer = .failing e) (full : s.failure ≠ none) :
      Rule s .writer { s with writer := .ended, cancelled := true } []
  /-- The consumer asks for the next frame. -/
  | asks (before : s.call = .idle) :
      Rule s .next { s with call := if s.cancelled then .ending else .next } []
  /-- The consumer closes the session. -/
  | ends (before : s.call = .idle) :
      Rule s .close
        { s with
          cancelled := true, joined := true, call := if s.joined then .draining else .joining } []
  /-- The consumer gives a pending call up. -/
  | abandons (before : s.call ≠ .idle) : Rule s .abandon { s with call := .idle } []
  /-- A call for the next frame finds the session cancelled. -/
  | wakes (stopped : s.cancelled = true) (before : s.call = .next) :
      Rule s .consumer { s with call := .ending } []
  /-- The consumer is handed the oldest frame of the queue. -/
  | returns {frame : Octets} {rest : List Octets} (running : s.cancelled = false)
      (before : s.call = .next) (frames : s.frames = frame :: rest) :
      Rule s .consumer { s with call := .idle, frames := rest } [.frameReturned frame]
  /-- The consumer is told that the stream has ended. -/
  | tellsEnd (running : s.cancelled = false) (before : s.call = .next) (empty : s.frames = [])
      (reader : s.reader = .ended) : Rule s .consumer { s with call := .idle } [.endReturned]
  /-- A call for the next frame of a cancelled session is told why. -/
  | tells (before : s.call = .ending) :
      Rule s .consumer { s with call := .idle, failure := none }
        [.errorReturned (s.failure.getD .cancelled)]
  /-- A call to close has waited for both tasks. -/
  | joins (before : s.call = .joining) (reader : s.reader = .ended) (writer : s.writer = .ended) :
      Rule s .consumer { s with call := .draining } []
  /-- A call to close tells the failure on record, if there is one. -/
  | drains (before : s.call = .draining) :
      Rule s .consumer { s with call := .idle, failure := none } [.closeReturned s.failure]

variable {s t : State} {events : List Event}

/-! ## What a rule shows and changes -/

/-- The refill of a credit touches nothing but the credits and the mark of the first answer. -/
theorem refill_eq (s : State) : s.refill = { s with
    credits := if s.answered then min (s.credits + 1) s.pipeline else s.credits
    answered := true } := by
  unfold refill
  split
  · next answered =>
    obtain ⟨_, _, _, _, _, _, _, _, _, _, _, _, _, _⟩ := s
    cases answered
    rfl
  · rfl

/-- Telling of a tip shows that the tip has changed, and nothing else. -/
theorem exists_of_mem_tipEvents {tip : Option Tip} {event : Event}
    (mem : event ∈ s.tipEvents tip) : ∃ t, event = .tipChanged t := by
  unfold tipEvents at mem
  split at mem
  · split at mem
    · cases mem
    · exact ⟨_, List.mem_singleton.1 mem⟩
  · cases mem

/-- What overlooks changes of the tip sees nothing of them. -/
theorem filterMap_tipEvents {α : Type} {see : Event → Option α}
    (overlooks : ∀ t, see (.tipChanged t) = none) (s : State) (tip : Option Tip) :
    (s.tipEvents tip).filterMap see = [] :=
  List.filterMap_eq_nil_iff.2 fun event mem => by
    obtain ⟨t, rfl⟩ := exists_of_mem_tipEvents mem
    exact overlooks t

/-- What the writer sends is the opening request, the answer to a ping, or a request. -/
theorem sentEvent?_cases {writer : WriterTask} {event : Event}
    (h : sentEvent? writer = some event) :
    (writer = .opening ∧ event = .openingSent) ∨
      (∃ payload, writer = .pong payload ∧ event = .pongSent payload) ∨
      (writer = .request ∧ event = .requestSent) := by
  -- Three states of the writer have something to send.
  cases writer with
  | opening => exact .inl ⟨rfl, (Option.some.inj h).symm⟩
  | pong payload => exact .inr (.inl ⟨payload, rfl, (Option.some.inj h).symm⟩)
  | request => exact .inr (.inr ⟨rfl, (Option.some.inj h).symm⟩)
  | idle => cases h
  | closing => cases h
  | failing _ => cases h
  | ended => cases h

/-! ## Every step goes by a rule -/

theorem rule_of_receive {message : Incoming} (h : s.receive message = some (t, events)) :
    Rule s (.receive message) t events := by
  unfold receive at h
  split at h
  -- After cancellation nothing is received.
  · cases h
  · next cancelled =>
    have running : s.cancelled = false := Bool.eq_false_iff.2 cancelled
    split at h
    · next frame waiting =>
      cases h
      exact .takes running waiting
    · next payload waiting =>
      -- A ping is kept as long as there is room for its answer.
      by_cases room : s.pongs.length < pongCapacity
      · rw [if_pos room] at h
        cases h
        exact .hears running waiting room
      · rw [if_neg room] at h
        cases h
        exact .drops running waiting (Nat.le_of_not_lt room)
    · next waiting =>
      cases h
      exact .skips running waiting
    · next waiting =>
      cases h
      exact .closes running waiting
    · next reason waiting =>
      cases h
      exact .breaks running waiting
    · cases h

/-- A failure is put on record if there is none yet; the session is cancelled either way. -/
theorem report_cases {e : TransportError} (h : s.report e = (t, events)) :
    (s.failure = none ∧ t = { s with cancelled := true, failure := some e } ∧
      events = [.recorded e]) ∨
    (s.failure ≠ none ∧ t = { s with cancelled := true } ∧ events = []) := by
  unfold report at h
  -- The first failure is kept, and later ones only cancel.
  split at h
  · next full =>
    cases h
    exact .inr ⟨by simp [full], rfl, rfl⟩
  · next empty =>
    cases h
    exact .inl ⟨empty, rfl, rfl⟩

theorem rule_of_readerMove (h : s.readerMove = some (t, events)) : Rule s .reader t events := by
  unfold readerMove at h
  split at h
  -- A reader that waits can only be stopped.
  · next waiting =>
    split at h
    · next stopped =>
      cases h
      exact .stops stopped (by simp [readerStopped, waiting])
    · cases h
  -- One that holds a frame is stopped, or queues it if there is room.
  · next frame delivering =>
    split at h
    · next stopped =>
      cases h
      exact .stops stopped (by simp [readerStopped, delivering])
    · next cancelled =>
      split at h
      · next room =>
        cases h
        exact .queues (Bool.eq_false_iff.2 cancelled) delivering room
      · cases h
  -- One that has failed reports it.
  · next e failing =>
    obtain ⟨empty, rfl, rfl⟩ | ⟨full, rfl, rfl⟩ := report_cases (Option.some.inj h)
    · exact .readerRecords failing empty
    · exact .readerYields failing full
  · cases h

theorem rule_of_sent {outcome : Sent} (h : s.sent outcome = some (t, events)) :
    Rule s (.sent outcome) t events := by
  unfold sent at h
  split at h
  · cases h
  · next cancelled =>
    -- Sending ends well, at the end of the stream, or with a failure.
    have running : s.cancelled = false := Bool.eq_false_iff.2 cancelled
    split at h
    · next event sends =>
      cases h
      exact .sends running sends
    · next event sends =>
      cases h
      exact .meetsEnd running (by simp [sends])
    · next event reason sends =>
      cases h
      exact .sendFails running (by simp [sends])
    · cases h

/-- What an idle writer turns to. -/
theorem rule_of_writerTurn (idle : s.writer = .idle) (h : s.writerTurn = some t) :
    Rule s .writer t [] := by
  unfold writerTurn at h
  split at h
  · next stopped =>
    cases h
    exact .shuts idle (.inl stopped)
  · next cancelled =>
    have running : s.cancelled = false := Bool.eq_false_iff.2 cancelled
    split at h
    · next payload rest listening pending =>
      cases h
      exact .answers running idle listening pending
    · next listening answered stopped =>
      cases h
      exact .forgetsPings running idle listening answered stopped
    · next someWait noneCome =>
      -- The writer looks for pings no more, or none waits for it now.
      have quiet : s.pongsOpen = true → s.pongs = [] ∧ s.readerStopped = false := fun listening =>
        match pongs : s.pongs, stopped : s.readerStopped with
        | payload :: rest, _ => absurd pongs (someWait payload rest listening)
        | [], true => absurd stopped (noneCome listening pongs)
        | [], false => ⟨rfl, rfl⟩
      split at h
      · next credit =>
        cases h
        exact .spends running idle quiet credit
      · next credit =>
        split at h
        · next stopped =>
          cases h
          refine .shuts idle (.inr ⟨Bool.eq_false_iff.2 fun listening => ?_,
            Nat.eq_zero_of_not_pos credit, stopped⟩)
          exact absurd ((quiet listening).2.symm.trans stopped) nofun
        · cases h

theorem rule_of_writerMove (h : s.writerMove = some (t, events)) : Rule s .writer t events := by
  unfold writerMove at h
  split at h
  -- Three sends that may be left,
  iterate 3
    · next holds =>
      split at h
      · next stopped =>
        cases h
        exact .leaves stopped (by simp [holds, sentEvent?])
      · cases h
  -- and the writer between two of them, or at its end.
  · next idle =>
    obtain ⟨u, turn, heq⟩ := Option.map_eq_some_iff.1 h
    cases heq
    exact rule_of_writerTurn idle turn
  · next closing =>
    cases h
    exact .hasShut closing
  · next e failing =>
    obtain ⟨empty, rfl, rfl⟩ | ⟨full, rfl, rfl⟩ := report_cases (Option.some.inj h)
    · exact .writerRecords failing empty
    · exact .writerYields failing full
  · cases h

theorem rule_of_consumerMove (h : s.consumerMove = some (t, events)) :
    Rule s .consumer t events := by
  unfold consumerMove at h
  split at h
  · cases h
  -- A call for the next frame is woken, answered, told the end, or waits on.
  · next asking =>
    split at h
    · next stopped =>
      cases h
      exact .wakes stopped asking
    · next cancelled =>
      have running : s.cancelled = false := Bool.eq_false_iff.2 cancelled
      split at h
      · next frames =>
        cases h
        exact .returns running asking frames
      · next empty ended =>
        cases h
        exact .tellsEnd running asking empty ended
      · cases h
  · next ending =>
    cases h
    exact .tells ending
  -- Closing waits for both tasks, and tells the failure on record after that.
  · next joining =>
    split at h
    · next ended =>
      cases h
      exact .joins joining ended.1 ended.2
    · cases h
  · next draining =>
    cases h
    exact .drains draining

/-- A session moves by its rules alone. -/
theorem rule_of_step? {action : Action} (h : s.step? action = some (t, events)) :
    Rule s action t events := by
  cases action with
  | cancel =>
    cases h
    exact .cancels
  | receive message => exact rule_of_receive h
  | reader => exact rule_of_readerMove h
  | sent outcome => exact rule_of_sent h
  | writer => exact rule_of_writerMove h
  | next =>
    simp only [step?, next] at h
    split at h
    · next idle =>
      cases h
      exact .asks idle
    · cases h
  | close =>
    simp only [step?, close] at h
    split at h
    · next idle =>
      cases h
      exact .ends idle
    · cases h
  | abandon =>
    simp only [step?, abandon] at h
    split at h
    · cases h
    · next pending =>
      cases h
      exact .abandons pending
  | consumer => exact rule_of_consumerMove h

/-- Whatever a rule allows can happen. -/
theorem step?_of_rule {action : Action} (h : Rule s action t events) :
    s.step? action = some (t, events) := by
  cases h with
  | cancels => rfl
  | takes running before => simp [step?, receive, running, before]
  | hears running before room => simp [step?, receive, running, before, room]
  | drops running before full => simp [step?, receive, running, before, Nat.not_lt.2 full]
  | skips running before => simp [step?, receive, running, before]
  | closes running before => simp [step?, receive, running, before]
  | breaks running before => simp [step?, receive, running, before]
  | queues running before room => simp [step?, readerMove, running, before, room]
  | stops stopped before =>
    -- A reader that takes more is waiting, or delivering a frame.
    cases reader : s.reader <;> simp_all [step?, readerMove, readerStopped]
  | readerRecords before empty => simp [step?, readerMove, before, report, empty]
  | readerYields before full =>
    obtain ⟨told, full⟩ := Option.ne_none_iff_exists'.1 full
    simp [step?, readerMove, before, report, full]
  | sends running before => simp [step?, sent, running, before]
  | meetsEnd running before =>
    obtain ⟨event, before⟩ := Option.isSome_iff_exists.1 before
    simp [step?, sent, running, before]
  | sendFails running before =>
    obtain ⟨event, before⟩ := Option.isSome_iff_exists.1 before
    simp [step?, sent, running, before]
  | leaves stopped before =>
    -- A writer with something to send is at one of three sends.
    cases writer : s.writer <;> simp_all [step?, writerMove, sentEvent?]
  | answers running before listening pending =>
    simp [step?, writerMove, writerTurn, running, before, listening, pending]
  | forgetsPings running before listening answered stopped =>
    simp [step?, writerMove, writerTurn, running, before, listening, answered, stopped]
  | spends running before quiet credit =>
    cases listening : s.pongsOpen with
    | false => simp [step?, writerMove, writerTurn, running, before, listening, credit]
    | true =>
      obtain ⟨answered, goesOn⟩ := quiet listening
      simp [step?, writerMove, writerTurn, running, before, listening, answered, goesOn, credit]
  | shuts before finished =>
    cases cancelled : s.cancelled with
    | true => simp [step?, writerMove, writerTurn, before, cancelled]
    | false =>
      obtain ⟨deaf, noCredit, stopped⟩ := finished.resolve_left (Bool.eq_false_iff.1 cancelled)
      simp [step?, writerMove, writerTurn, before, cancelled, deaf, noCredit, stopped]
  | hasShut before => simp [step?, writerMove, before]
  | writerRecords before empty => simp [step?, writerMove, before, report, empty]
  | writerYields before full =>
    obtain ⟨told, full⟩ := Option.ne_none_iff_exists'.1 full
    simp [step?, writerMove, before, report, full]
  | asks before => simp [step?, next, before]
  | ends before => simp [step?, close, before]
  | abandons before => simp [step?, abandon]
  | wakes stopped before => simp [step?, consumerMove, before, stopped]
  | returns running before frames => simp [step?, consumerMove, running, before, frames]
  | tellsEnd running before empty reader =>
    simp [step?, consumerMove, running, before, empty, reader]
  | tells before => simp [step?, consumerMove, before]
  | joins before reader writer => simp [step?, consumerMove, before, reader, writer]
  | drains before => simp [step?, consumerMove, before]

/-- The steps of a session are those that its rules allow. -/
theorem step?_eq_some_iff {action : Action} :
    s.step? action = some (t, events) ↔ Rule s action t events :=
  ⟨rule_of_step?, step?_of_rule⟩

/-! ## Runs -/

/-- A run may begin with any rule, -/
theorem run?_cons_of_rule {u : State} {action : Action} {actions : List Action} {later : List Event}
    (first : Rule s action t events) (rest : t.run? actions = some (u, later)) :
    s.run? (action :: actions) = some (u, events ++ later) := by
  simp only [run?, step?_of_rule first, rest, Option.map_some]

/-- and end after it. -/
theorem run?_of_rule {action : Action} (only : Rule s action t events) :
    s.run? [action] = some (t, events) := by
  rw [run?_cons_of_rule only rfl, List.append_nil]

/-- A run is a first step and the run from there. -/
theorem run?_cons {action : Action} {actions : List Action}
    (run : s.run? (action :: actions) = some (t, events)) :
    ∃ u shown later, s.step? action = some (u, shown) ∧ u.run? actions = some (t, later) ∧
      events = shown ++ later := by
  rw [run?] at run
  split at run
  · cases run
  · next u shown hstep =>
    obtain ⟨⟨v, later⟩, hrun, heq⟩ := Option.map_eq_some_iff.1 run
    cases heq
    exact ⟨u, shown, later, hstep, hrun, rfl⟩

/-- A run may go on where another one ends. -/
theorem run?_append {u : State} {actions more : List Action} {later : List Event}
    (first : s.run? actions = some (t, events)) (second : t.run? more = some (u, later)) :
    s.run? (actions ++ more) = some (u, events ++ later) := by
  induction actions generalizing s events with
  | nil =>
    cases first
    exact second
  | cons action actions ih =>
    obtain ⟨v, shown, between, hstep, hrun, rfl⟩ := run?_cons first
    rw [List.cons_append, run?_cons_of_rule (rule_of_step? hstep) (ih hrun), List.append_assoc]

/-- What holds of no step, and of an allowed step before anything of which it holds, holds of every
run of allowed steps. -/
theorem run?_relates_of_allowed (allowed : Action → Prop)
    (Related : State → State → List Event → Prop) (rest : ∀ s, Related s s [])
    (first : ∀ {s t u action shown later}, allowed action → Rule s action t shown →
      Related t u later → Related s u (shown ++ later))
    {actions : List Action} (run : s.run? actions = some (t, events))
    (all : ∀ action ∈ actions, allowed action) : Related s t events := by
  -- Action by action, each one by the rule that it follows.
  induction actions generalizing s events with
  | nil =>
    cases run
    exact rest _
  | cons action actions ih =>
    obtain ⟨u, shown, later, hstep, hrun, rfl⟩ := run?_cons run
    obtain ⟨now, after⟩ := List.forall_mem_cons.1 all
    exact first now (rule_of_step? hstep) (ih hrun after)

/-- What holds of no step, and of a step before anything of which it holds, holds of every run. -/
theorem run?_relates (Related : State → State → List Event → Prop)
    (rest : ∀ s, Related s s [])
    (first : ∀ {s t u action shown later}, Rule s action t shown → Related t u later →
      Related s u (shown ++ later))
    {actions : List Action} (run : s.run? actions = some (t, events)) : Related s t events :=
  run?_relates_of_allowed (fun _ => True) Related rest (fun _ => first) run fun _ _ => trivial

end State

end ChainFollower.Session
