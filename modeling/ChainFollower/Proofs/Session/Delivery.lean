import ChainFollower.Proofs.Session.Rules

/-!
# Frames reach the consumer in order

Between the connection and the consumer a frame is held by the reader and then waits in the queue.
No step changes the order of these frames, and a frame is lost only with a session that is
cancelled, which takes no further frame and hands none out.  A failure of the reader cancels the
session in the step in which the reader ends, so that the consumer cannot take it for the end of the
stream.

`FrameTurn` sums up what the rules do to the frames and to the reader, and `Rule.frameTurn` is the
one look at the rules from which the rest follows.  Main statement: `frames_in_order`, for all
messages and all interleavings of reader, writer and consumer.
-/

namespace ChainFollower.Session

/-! ## Frames on their way -/

/-- The frame that a message brings. -/
def Incoming.frame? : Incoming → Option Octets
  | .data frame => some frame
  | _ => none

/-- The frame that the reader is brought by an action. -/
def Action.frame? : Action → Option Octets
  | .receive message => message.frame?
  | _ => none

/-- The frame that the reader takes. -/
def Event.read? : Event → Option Octets
  | .frameRead frame => some frame
  | _ => none

/-- The frame that the consumer is handed. -/
def Event.returned? : Event → Option Octets
  | .frameReturned frame => some frame
  | _ => none

/-- Whether an event tells neither of a frame nor of the end of the stream. -/
def Event.isApart : Event → Bool
  | .frameRead _ | .frameReturned _ | .endReturned => false
  | _ => true

/-- Whether the reader takes an action for the last of the stream. -/
def Action.isLast : Action → Bool
  | .receive .closed | .receive (.failed _) => true
  | _ => false

/-- Whether a failure is about to be put on record. -/
def ReaderTask.isFailing : ReaderTask → Bool
  | .failing _ => true
  | _ => false

/-- The frame that the reader has taken and that has found no room in the queue yet. -/
def ReaderTask.held : ReaderTask → List Octets
  | .delivering frame => [frame]
  | _ => []

/-- The frames that messages bring, in order. -/
def framesOf (messages : List Incoming) : List Octets := messages.filterMap Incoming.frame?

/-- The frames that the reader receives by a number of actions, in order. -/
def framesReceived (actions : List Action) : List Octets := actions.filterMap Action.frame?

/-- The frames that a reader has taken, in order. -/
def framesRead (events : List Event) : List Octets := events.filterMap Event.read?

/-- The frames that the consumer has been handed, in order. -/
def framesReturned (events : List Event) : List Octets := events.filterMap Event.returned?

theorem framesRead_append (before after : List Event) :
    framesRead (before ++ after) = framesRead before ++ framesRead after :=
  List.filterMap_append

theorem framesReturned_append (before after : List Event) :
    framesReturned (before ++ after) = framesReturned before ++ framesReturned after :=
  List.filterMap_append

theorem framesRead_of_apart {events : List Event} (apart : events.all Event.isApart = true) :
    framesRead events = [] :=
  List.filterMap_eq_nil_iff.2 fun event h => by
    have := List.all_eq_true.1 apart event h
    cases event <;> first | rfl | cases this

theorem framesReturned_of_apart {events : List Event} (apart : events.all Event.isApart = true) :
    framesReturned events = [] :=
  List.filterMap_eq_nil_iff.2 fun event h => by
    have := List.all_eq_true.1 apart event h
    cases event <;> first | rfl | cases this

namespace State

/-- The frames between the connection and the consumer, the oldest first. -/
def underway (s : State) : List Octets := s.frames ++ s.reader.held

/-- A reader that has ended holds none. -/
theorem underway_of_ended {s : State} (ended : s.reader = .ended) : s.underway = s.frames := by
  rw [underway, ended]
  exact List.append_nil _

/-! ## What a step can do -/

/-- What a step does to the frames, to the reader and to the signal. -/
inductive FrameTurn (s t : State) : Action → List Event → Prop
  /-- Most steps have to do with none of the frames. -/
  | apart {action : Action} {events : List Event} (frames : t.frames = s.frames)
      (reader : t.reader = s.reader) (cancelled : s.cancelled = true → t.cancelled = true)
      (goesOn : action.isLast = false) (events_apart : events.all Event.isApart = true) :
      FrameTurn s t action events
  /-- The reader takes a frame. -/
  | takes {frame : Octets} {later : List Event} (before : s.reader = .waiting)
      (running : s.cancelled = false) (frames : t.frames = s.frames)
      (reader : t.reader = .delivering frame) (cancelled : t.cancelled = s.cancelled)
      (later_apart : later.all Event.isApart = true) :
      FrameTurn s t (.receive (.data frame)) (.frameRead frame :: later)
  /-- The reader comes to the end of the stream. -/
  | closes (before : s.reader = .waiting) (running : s.cancelled = false)
      (frames : t.frames = s.frames) (reader : t.reader = .ended)
      (cancelled : t.cancelled = s.cancelled) : FrameTurn s t (.receive .closed) []
  /-- The reader comes to a failure. -/
  | fails {reason : String} (before : s.reader = .waiting) (running : s.cancelled = false)
      (frames : t.frames = s.frames) (reader : t.reader = .failing (.webSocket reason))
      (cancelled : t.cancelled = s.cancelled) : FrameTurn s t (.receive (.failed reason)) []
  /-- The reader puts its frame into the queue. -/
  | queues {frame : Octets} (before : s.reader = .delivering frame)
      (frames : t.frames = s.frames ++ [frame]) (reader : t.reader = .waiting)
      (cancelled : t.cancelled = s.cancelled) : FrameTurn s t .reader []
  /-- The reader of a cancelled session stops, and a frame that has found no room is lost. -/
  | stops (stopped : s.cancelled = true) (frames : t.frames = s.frames) (reader : t.reader = .ended)
      (cancelled : t.cancelled = true) : FrameTurn s t .reader []
  /-- The reader puts its failure on record, which cancels the session. -/
  | reports {events : List Event} {e : TransportError} (before : s.reader = .failing e)
      (frames : t.frames = s.frames) (reader : t.reader = .ended) (cancelled : t.cancelled = true)
      (events_apart : events.all Event.isApart = true) : FrameTurn s t .reader events
  /-- The consumer is handed the oldest frame of the queue. -/
  | returns {frame : Octets} (frames : s.frames = frame :: t.frames) (reader : t.reader = s.reader)
      (cancelled : t.cancelled = s.cancelled) : FrameTurn s t .consumer [.frameReturned frame]
  /-- The consumer is told that the stream has ended. -/
  | tells (running : s.cancelled = false) (before : s.reader = .ended) (empty : s.frames = [])
      (frames : t.frames = s.frames) (reader : t.reader = s.reader)
      (cancelled : t.cancelled = s.cancelled) : FrameTurn s t .consumer [.endReturned]

variable {s t : State} {action : Action} {actions : List Action} {events : List Event}

/-- A change of the tip is no matter of frames. -/
theorem tipEvents_apart (s : State) (tip : Option Tip) :
    (s.tipEvents tip).all Event.isApart = true :=
  List.all_eq_true.2 fun event mem => by
    obtain ⟨t, rfl⟩ := exists_of_mem_tipEvents mem
    rfl

/-- What the writer sends is no frame. -/
theorem sentEvent?_apart {writer : WriterTask} {event : Event}
    (h : sentEvent? writer = some event) : [event].all Event.isApart = true := by
  rcases sentEvent?_cases h with ⟨-, rfl⟩ | ⟨payload, -, rfl⟩ | ⟨-, rfl⟩ <;> rfl

/-- With a frame and its tip the reader reads that one frame, -/
theorem framesRead_takes (s : State) (frame : Octets) (tip : Option Tip) :
    framesRead (.frameRead frame :: s.tipEvents tip) = [frame] :=
  congrArg (frame :: ·) (framesRead_of_apart (tipEvents_apart s tip))

/-- and the consumer is handed none. -/
theorem framesReturned_takes (s : State) (frame : Octets) (tip : Option Tip) :
    framesReturned (.frameRead frame :: s.tipEvents tip) = [] :=
  (framesReturned_of_apart (tipEvents_apart s tip) : framesReturned (s.tipEvents tip) = [])

/-- The rules of a session move its frames by these turns. -/
theorem Rule.frameTurn (rule : Rule s action t events) : FrameTurn s t action events := by
  cases rule with
  | takes running before =>
    rw [refill_eq]
    exact .takes before running rfl rfl rfl (tipEvents_apart s _)
  | closes running before => exact .closes before running rfl rfl rfl
  | breaks running before => exact .fails before running rfl rfl rfl
  | queues running before => exact .queues before rfl rfl rfl
  | stops stopped => exact .stops stopped rfl rfl stopped
  | readerRecords before => exact .reports before rfl rfl rfl rfl
  | readerYields before => exact .reports before rfl rfl rfl rfl
  | returns running before frames => exact .returns frames rfl rfl
  | tellsEnd running before empty reader => exact .tells running reader empty rfl rfl rfl
  | sends running before => exact .apart rfl rfl id rfl (sentEvent?_apart before)
  -- Four rules cancel the session without a look at its frames,
  | cancels => exact .apart rfl rfl (fun _ => rfl) rfl rfl
  | ends => exact .apart rfl rfl (fun _ => rfl) rfl rfl
  | writerRecords => exact .apart rfl rfl (fun _ => rfl) rfl rfl
  | writerYields => exact .apart rfl rfl (fun _ => rfl) rfl rfl
  -- and the others leave the signal alone as well.
  | _ => exact .apart rfl rfl id rfl rfl

/-! ## What the reader reads -/

/-- By a rule the reader reads the frame that it is brought, and no other. -/
theorem Rule.framesRead_eq (rule : Rule s action t events) :
    framesRead events = framesReceived [action] := by
  cases rule with
  | takes => exact framesRead_takes s _ _
  | sends running before => exact framesRead_of_apart (sentEvent?_apart before)
  | _ => rfl

/-- The frames that the reader reads in a run are those that the messages bring which it receives.
-/
theorem framesRead_run (run : s.run? actions = some (t, events)) :
    framesRead events = framesReceived actions := by
  -- Action by action, each with what its rule reads.
  induction actions generalizing s events with
  | nil =>
    cases run
    rfl
  | cons action rest ih =>
    obtain ⟨u, shown, later, hstep, hrun, rfl⟩ := run?_cons run
    have first := (rule_of_step? hstep).framesRead_eq
    rw [framesRead_append, first, ih hrun]
    exact (List.filterMap_append (l := [action])).symm

/-! ## The order of the frames -/

/-- What a number of steps do to the frames that are underway: new ones join at the end, and those
that are handed out leave from the front. -/
structure Flows (s t : State) (events : List Event) : Prop where
  onward : framesReturned events ++ t.underway <+: s.underway ++ framesRead events
  /-- Nothing is lost before the session is cancelled. -/
  kept : t.cancelled = false →
    framesReturned events ++ t.underway = s.underway ++ framesRead events
  /-- A cancelled session stays so, and takes no frame. -/
  stopped : s.cancelled = true → t.cancelled = true ∧ framesRead events = []

/-- A step by which no frame is lost. -/
theorem Flows.of_kept
    (kept : framesReturned events ++ t.underway = s.underway ++ framesRead events)
    (stopped : s.cancelled = true → t.cancelled = true ∧ framesRead events = []) :
    Flows s t events :=
  ⟨kept ▸ List.prefix_refl _, fun _ => kept, stopped⟩

theorem FrameTurn.flows (turn : FrameTurn s t action events) : Flows s t events := by
  cases turn with
  | apart frames reader cancelled _ apart =>
    refine .of_kept ?_ fun stopped => ⟨cancelled stopped, framesRead_of_apart apart⟩
    rw [framesRead_of_apart apart, framesReturned_of_apart apart, underway, underway, frames,
      reader, List.nil_append, List.append_nil]
  | @takes frame later before running frames reader cancelled apart =>
    -- The frame joins the others at their end, in the hands of the reader.
    refine .of_kept ?_ fun stopped => absurd (stopped.symm.trans running) nofun
    have read : framesRead (.frameRead frame :: later) = [frame] :=
      congrArg (frame :: ·) (framesRead_of_apart apart)
    have returned : framesReturned (.frameRead frame :: later) = [] :=
      (framesReturned_of_apart apart : framesReturned later = [])
    rw [read, returned, underway, underway, frames, reader, before]
    simp [ReaderTask.held]
  | closes before running frames reader cancelled =>
    refine .of_kept ?_ fun stopped => ⟨cancelled ▸ stopped, rfl⟩
    simp [underway, frames, reader, before, ReaderTask.held, framesRead, framesReturned]
  | fails before running frames reader cancelled =>
    refine .of_kept ?_ fun stopped => ⟨cancelled ▸ stopped, rfl⟩
    simp [underway, frames, reader, before, ReaderTask.held, framesRead, framesReturned]
  | queues before frames reader cancelled =>
    -- What the reader held is now the last of the queue: nothing has moved.
    refine .of_kept ?_ fun stopped => ⟨cancelled ▸ stopped, rfl⟩
    simp [underway, frames, reader, before, ReaderTask.held, framesRead, framesReturned]
  | stops stopped frames reader cancelled =>
    -- The frame in the hands of the reader is lost.  It was the last one, so a prefix is left.
    refine ⟨?_, fun running => absurd (cancelled.symm.trans running) nofun,
      fun _ => ⟨cancelled, rfl⟩⟩
    simp [underway, frames, reader, ReaderTask.held, framesRead, framesReturned]
  | reports before frames reader cancelled apart =>
    refine .of_kept ?_ fun stopped => ⟨cancelled, framesRead_of_apart apart⟩
    rw [framesRead_of_apart apart, framesReturned_of_apart apart, underway, underway, frames,
      reader, before]
    simp [ReaderTask.held]
  | returns frames reader cancelled =>
    -- The first of the frames changes sides.
    refine .of_kept ?_ fun stopped => ⟨cancelled ▸ stopped, rfl⟩
    simp [underway, frames, reader, framesRead, framesReturned, Event.read?, Event.returned?]
  | tells running before empty frames reader cancelled =>
    refine .of_kept ?_ fun stopped => ⟨cancelled ▸ stopped, rfl⟩
    rw [underway, underway, frames, reader]
    exact (List.append_nil _).symm

theorem Flows.trans {u : State} {later : List Event} (first : Flows s t events)
    (second : Flows t u later) : Flows s u (events ++ later) := by
  refine ⟨?_, fun running => ?_, fun stopped => ?_⟩
  · rw [framesRead_append, framesReturned_append, List.append_assoc, ← List.append_assoc s.underway]
    -- What was lost in the first steps was the last of their frames: no other comes after it.
    cases cancelled : t.cancelled with
    | false =>
      rw [← first.kept cancelled, List.append_assoc]
      exact (List.prefix_append_right_inj _).2 second.onward
    | true =>
      have onward := second.onward
      rw [(second.stopped cancelled).2, List.append_nil] at onward ⊢
      exact ((List.prefix_append_right_inj _).2 onward).trans first.onward
  · have before : t.cancelled = false := by
      cases cancelled : t.cancelled with
      | false => rfl
      | true => exact absurd ((second.stopped cancelled).1.symm.trans running) nofun
    rw [framesRead_append, framesReturned_append, List.append_assoc, second.kept running,
      ← List.append_assoc, first.kept before, List.append_assoc]
  · obtain ⟨between, hfirst⟩ := first.stopped stopped
    obtain ⟨after, hsecond⟩ := second.stopped between
    exact ⟨after, by rw [framesRead_append, hfirst, hsecond, List.append_nil]⟩

/-- No run changes the order of the frames. -/
theorem flows_run (run : s.run? actions = some (t, events)) : Flows s t events :=
  run?_relates Flows (fun _ => .of_kept (List.append_nil _).symm fun stopped => ⟨stopped, rfl⟩)
    (fun rule rest => rule.frameTurn.flows.trans rest) run

/-! ## How a reader ends -/

/-- What a number of actions do to the reader. -/
structure Reads (s t : State) (actions : List Action) : Prop where
  /-- It ends where the stream does. -/
  ends : t.reader = .ended → s.reader = .ended ∨ .receive .closed ∈ actions
  /-- A failure is not got over. -/
  fails : s.reader.isFailing = true ∨ (∃ reason, .receive (.failed reason) ∈ actions) →
    t.reader.isFailing = true

theorem FrameTurn.reads (turn : FrameTurn s t action events) (running : t.cancelled = false) :
    Reads s t [action] := by
  cases turn with
  | apart _ reader _ goesOn _ =>
    refine ⟨fun h => .inl (reader ▸ h), fun h => ?_⟩
    rw [reader]
    refine h.resolve_right fun ⟨reason, last⟩ => ?_
    rw [← List.mem_singleton.1 last] at goesOn
    cases goesOn
  | takes before _ _ reader => exact ⟨by simp [reader], by simp [before, ReaderTask.isFailing]⟩
  | closes before =>
    exact ⟨fun _ => .inr (List.mem_singleton_self _), by simp [before, ReaderTask.isFailing]⟩
  | fails before _ _ reader => exact ⟨by simp [reader], by simp [reader, ReaderTask.isFailing]⟩
  | queues before _ reader => exact ⟨by simp [reader], by simp [before, ReaderTask.isFailing]⟩
  -- The other two ways to end leave a session that is cancelled.
  | stops _ _ _ cancelled => exact absurd (cancelled.symm.trans running) nofun
  | reports _ _ _ cancelled => exact absurd (cancelled.symm.trans running) nofun
  | returns _ reader => exact ⟨fun h => .inl (reader ▸ h), by simp [reader]⟩
  | tells _ _ _ _ reader => exact ⟨fun h => .inl (reader ▸ h), by simp [reader]⟩

theorem Reads.trans {u : State} {first second : List Action} (before : Reads s t first)
    (after : Reads t u second) : Reads s u (first ++ second) where
  -- What the second part does not account for the first part does.
  ends h := (after.ends h).elim
    (fun h => (before.ends h).imp_right (List.mem_append_left _))
    fun h => .inr (List.mem_append_right _ h)
  fails h := by
    refine after.fails ?_
    rcases h with h | ⟨reason, h⟩
    · exact .inl (before.fails (.inl h))
    · rcases List.mem_append.1 h with h | h
      · exact .inl (before.fails (.inr ⟨reason, h⟩))
      · exact .inr ⟨reason, h⟩

/-- A session that is not cancelled has not been, so that its reader has ended with the stream if at
all. -/
theorem reads_run (run : s.run? actions = some (t, events)) (running : t.cancelled = false) :
    Reads s t actions := by
  -- The signal is followed backwards: it is off now, so it was off after every step.
  induction actions generalizing s events with
  | nil =>
    cases run
    exact ⟨.inl, fun h => h.resolve_right fun ⟨_, h⟩ => absurd h List.not_mem_nil⟩
  | cons action rest ih =>
    obtain ⟨u, shown, later, hstep, hrun, -⟩ := run?_cons run
    have between : u.cancelled = false := by
      cases cancelled : u.cancelled with
      | false => rfl
      | true => exact absurd (((flows_run hrun).stopped cancelled).1.symm.trans running) nofun
    exact ((rule_of_step? hstep).frameTurn.reads between).trans (ih hrun)

/-! ## What the consumer sees -/

/-- The consumer is told of the end where nothing is underway any more, in a session that is not
cancelled. -/
theorem FrameTurn.nothing_underway (turn : FrameTurn s t action events)
    (told : .endReturned ∈ events) :
    s.cancelled = false ∧ s.reader = .ended ∧ s.underway = [] := by
  -- An event apart from frames tells no end.
  have notApart {events : List Event} (apart : events.all Event.isApart = true) :
      .endReturned ∉ events := fun told => nomatch List.all_eq_true.1 apart _ told
  cases turn with
  | apart _ _ _ _ apart => exact absurd told (notApart apart)
  | takes _ _ _ _ _ apart =>
    rcases List.mem_cons.1 told with told | told
    · cases told
    · exact absurd told (notApart apart)
  | closes => cases told
  | fails => cases told
  | queues => cases told
  | stops => cases told
  | reports _ _ _ _ apart => exact absurd told (notApart apart)
  | returns => cases List.mem_singleton.1 told
  -- The end is told in one way, behind an empty queue.
  | tells running ended empty =>
    exact ⟨running, ended, by simp [underway, empty, ended, ReaderTask.held]⟩

/-- The reader reads the frames that it receives, in their order.  The frames that the consumer has
been handed are the first ones of these, in the same order.  The consumer is told of the end of the
stream only when it has been handed them all, by a reader that has come to the end of the stream and
to no failure. -/
theorem frames_in_order {pipeline frameCapacity : Nat}
    (run : { pipeline, frameCapacity : State }.run? actions = some (s, events)) :
    framesRead events = framesReceived actions ∧
      framesReturned events <+: framesRead events ∧
      ∀ action t shown, s.step? action = some (t, shown) → .endReturned ∈ shown →
        s.reader = .ended ∧ .receive .closed ∈ actions ∧
          (∀ reason, .receive (.failed reason) ∉ actions) ∧
          framesReturned events = framesRead events := by
  have flows := flows_run run
  refine ⟨framesRead_run run, (List.prefix_append _ _).trans flows.onward,
    fun action t shown hstep told => ?_⟩
  -- When the end is told nothing is underway, so all frames have been returned.
  obtain ⟨running, ended, empty⟩ := (rule_of_step? hstep).frameTurn.nothing_underway told
  have reads := reads_run run running
  refine ⟨ended, (reads.ends ended).resolve_left nofun, fun reason failed => ?_, ?_⟩
  · have failing := reads.fails (.inr ⟨reason, failed⟩)
    rw [ended] at failing
    cases failing
  · have kept := flows.kept running
    rw [empty, List.append_nil] at kept
    exact kept

/-- Two frames come to a queue with room for one, the consumer gives up a call while it waits for
the first of them, and the peer closes. -/
def busyActions : List Action :=
  [.next, .receive (.data [97]), .abandon, .reader, .receive (.data [98]), .next, .consumer,
    .reader, .receive .closed, .next, .consumer, .next]

/-- Both frames are handed out, in order, before the consumer is told of the end. -/
theorem frames_in_order_busy :
    ∃ s t events, { pipeline := 1, frameCapacity := 1 : State }.run? busyActions = some (s, events) ∧
      s.step? .consumer = some (t, [.endReturned]) ∧
      framesReceived busyActions = [[97], [98]] ∧
      framesRead events = framesReceived busyActions ∧
      framesReturned events <+: framesRead events ∧ s.reader = .ended ∧
      .receive .closed ∈ busyActions ∧ (∀ reason, .receive (.failed reason) ∉ busyActions) ∧
      framesReturned events = framesRead events := by
  obtain ⟨s, t, events, run, told⟩ : ∃ s t events,
      { pipeline := 1, frameCapacity := 1 : State }.run? busyActions = some (s, events) ∧
        s.step? .consumer = some (t, [.endReturned]) := ⟨_, _, _, rfl, rfl⟩
  obtain ⟨read, inOrder, ends⟩ := frames_in_order run
  exact ⟨s, t, events, run, told, rfl, read, inOrder,
    ends .consumer t [.endReturned] told (List.mem_singleton_self _)⟩

end State

end ChainFollower.Session
