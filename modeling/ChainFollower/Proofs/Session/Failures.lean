import ChainFollower.Proofs.Session.Rules

/-!
# Which failures are told

A task that fails puts its failure on record, unless there is one already, and cancels the session;
a call that tells the failure takes it off the record.  So what is on record is told once, the first
failure first.

Both tasks may have failed before either puts its failure on record.  A call that comes between
leaves the record empty for the second, and then two failures are told.  This is the only way to it:
once a failure has been told, more can follow exactly as long as a task is still failing.

Main statements: `failures_told_in_order`, and `two_failures_told` for a schedule with two.
-/

namespace ChainFollower.Session

/-! ## What is recorded and told -/

/-- The failure that a task puts on record. -/
def Event.recorded? : Event → Option TransportError
  | .recorded e => some e
  | _ => none

/-- The failure of a task that a call tells. -/
def Event.told? : Event → Option TransportError
  | .errorReturned e => if e = .cancelled then none else some e
  | .closeReturned failure => failure
  | _ => none

/-- Whether an event is none by which a call returns, or the return of a call that has nothing to
tell: the next frame is refused as cancelled, and closing succeeds. -/
def Event.isQuiet : Event → Bool
  | .frameReturned _ | .endReturned => false
  | .errorReturned e => e = .cancelled
  | .closeReturned failure => failure.isNone
  | _ => true

/-- The failures put on record, in order. -/
def failuresRecorded (events : List Event) : List TransportError :=
  events.filterMap Event.recorded?

/-- The failures told, in order. -/
def failuresTold (events : List Event) : List TransportError := events.filterMap Event.told?

theorem failuresRecorded_append (before after : List Event) :
    failuresRecorded (before ++ after) = failuresRecorded before ++ failuresRecorded after :=
  List.filterMap_append

theorem failuresTold_append (before after : List Event) :
    failuresTold (before ++ after) = failuresTold before ++ failuresTold after :=
  List.filterMap_append

namespace State

/-- Whether a task is about to put a failure on record. -/
def Failing (s : State) (e : TransportError) : Prop :=
  s.reader = .failing e ∨ s.writer = .failing e

/-- All failures come from the connection, so that none can be taken for a cancellation. -/
def Genuine (s : State) : Prop :=
  ∀ e, s.failure = some e ∨ s.Failing e → ∃ reason, e = .webSocket reason

/-- How many tasks have not ended. -/
def live (s : State) : Nat :=
  (if s.reader = .ended then 0 else 1) + (if s.writer = .ended then 0 else 1)

/-- A cancelled session without a failure on record or on the way there. -/
structure Spent (s : State) : Prop where
  cancelled : s.cancelled = true
  failure : s.failure = none
  failing : ∀ e, ¬ s.Failing e

/-- No call tells a failure, whatever happens. -/
def Silent (s : State) : Prop :=
  ∀ actions t events, s.run? actions = some (t, events) → failuresTold events = []

/-- No call has anything to tell any more, whatever happens. -/
def Settled (s : State) : Prop :=
  ∀ actions t events, s.run? actions = some (t, events) → ∀ event ∈ events, event.isQuiet = true

variable {s t u : State} {action : Action} {events later : List Event}

/-! ## What a rule does to failures -/

/-- Only a session that is not cancelled brings a task to fail, and only by the connection. -/
theorem Rule.failing (h : Rule s action t events) {e : TransportError} (failing : t.Failing e) :
    s.Failing e ∨ s.cancelled = false ∧ ∃ reason, e = .webSocket reason := by
  cases h with
  | breaks running before =>
    rcases failing with reader | writer
    · cases reader
      exact .inr ⟨running, _, rfl⟩
    · exact .inl (.inr writer)
  | sendFails running before =>
    rcases failing with reader | writer
    · exact .inl (.inl reader)
    · cases writer
      exact .inr ⟨running, _, rfl⟩
  -- By any other rule a task that fails has failed before.
  | _ => left; grind [Failing, refill_eq, post]

theorem Rule.failure (h : Rule s action t events) :
    t.failure = s.failure ∨ t.failure = none ∨ ∃ e, s.Failing e ∧ t.failure = some e := by
  cases h with
  | readerRecords before empty => exact .inr (.inr ⟨_, .inl before, rfl⟩)
  | writerRecords before empty => exact .inr (.inr ⟨_, .inr before, rfl⟩)
  | tells before => exact .inr (.inl rfl)
  | drains before => exact .inr (.inl rfl)
  | takes => left; simp [refill_eq, post]
  | _ => exact .inl rfl

/-- A change of the tip is no failure put on record. -/
theorem failuresRecorded_tipEvents (s : State) (tip : Option Tip) :
    failuresRecorded (s.tipEvents tip) = [] :=
  filterMap_tipEvents (fun _ => rfl) s tip

/-- A send tells of no failure. -/
theorem failures_sentEvent? {writer : WriterTask} {event : Event}
    (h : sentEvent? writer = some event) :
    failuresTold [event] = [] ∧ failuresRecorded [event] = [] := by
  rcases sentEvent?_cases h with ⟨-, rfl⟩ | ⟨payload, -, rfl⟩ | ⟨-, rfl⟩ <;> exact ⟨rfl, rfl⟩

/-- What has been told, followed by what is on record, is what was on record, followed by what has
been recorded. -/
theorem Rule.told_append (h : Rule s action t events) (genuine : s.Genuine) :
    failuresTold events ++ t.failure.toList = s.failure.toList ++ failuresRecorded events := by
  cases h with
  | @takes frame =>
    have told : failuresTold (s.tipEvents (Peek.tip? frame)) = [] :=
      filterMap_tipEvents (fun _ => rfl) s _
    show failuresTold (s.tipEvents _) ++ s.refill.failure.toList =
      s.failure.toList ++ failuresRecorded (s.tipEvents _)
    rw [told, failuresRecorded_tipEvents, refill_eq]
    exact (List.append_nil _).symm
  | sends running before =>
    rw [(failures_sentEvent? before).1, (failures_sentEvent? before).2]
    exact (List.append_nil _).symm
  | readerRecords before empty =>
    rw [empty]
    rfl
  | writerRecords before empty =>
    rw [empty]
    rfl
  | tells before =>
    -- What is on record is told, and is not taken for a cancellation.
    cases failure : s.failure with
    | none => rfl
    | some e =>
      obtain ⟨reason, rfl⟩ := genuine e (.inl failure)
      rfl
  | drains before => cases s.failure <;> rfl
  | _ => exact (List.append_nil _).symm

/-- A writer with something to send has not ended. -/
theorem ne_ended_of_sentEvent? {writer : WriterTask} (h : (sentEvent? writer).isSome = true) :
    writer ≠ .ended := by
  rintro rfl
  cases h

/-- A task puts one failure on record at most, since it ends with that. -/
theorem Rule.recorded_live (h : Rule s action t events) :
    (failuresRecorded events).length + t.live ≤ s.live := by
  cases h with
  | @takes frame running before =>
    show (failuresRecorded (s.tipEvents _)).length + _ ≤ _
    rw [failuresRecorded_tipEvents]
    simp [live, refill_eq, post, before]
  | sends running before =>
    have writing := ne_ended_of_sentEvent? (Option.isSome_of_eq_some before)
    rw [(failures_sentEvent? before).2]
    simp [live, writing]
  | meetsEnd running before => simp [live, failuresRecorded]
  | sendFails running before =>
    have writing := ne_ended_of_sentEvent? before
    simp [live, failuresRecorded, writing]
  -- A task that records ends; by every other rule both tasks go on, or one ends without a record.
  | _ => grind [live, failuresRecorded, Event.recorded?]

/-- A failure on record cancels the session, and a cancelled session stays so. -/
theorem Rule.cancelled (h : Rule s action t events)
    (stopped : s.cancelled = true ∨ failuresRecorded events ≠ []) : t.cancelled = true := by
  cases h with
  -- A frame is taken from a session that runs, and records no failure.
  | @takes frame running before =>
    have recorded : failuresRecorded (s.tipEvents _) ≠ [] :=
      stopped.resolve_left (by simp [running])
    exact absurd (failuresRecorded_tipEvents s _) recorded
  | sends running before =>
    exact stopped.resolve_right fun recorded => recorded (failures_sentEvent? before).2
  | readerRecords => rfl
  | writerRecords => rfl
  | readerYields => rfl
  | writerYields => rfl
  | cancels => rfl
  | ends => rfl
  | _ => exact stopped.resolve_right fun recorded => recorded rfl

/-- Where nothing is left to tell, nothing will be told. -/
theorem Rule.spent (h : Rule s action t events) (spent : s.Spent) :
    t.Spent ∧ ∀ event ∈ events, event.isQuiet = true := by
  -- Cancelled, with no failure left and no task about to fail: nothing of it changes.
  obtain ⟨cancelled, failure, failing⟩ := id spent
  refine ⟨⟨h.cancelled (.inl cancelled), ?_, ?_⟩, ?_⟩
  · rcases h.failure with kept | told | ⟨e, fails, -⟩
    · exact kept.trans failure
    · exact told
    · exact absurd fails (failing e)
  · intro e fails
    rcases h.failing fails with fails | ⟨running, -⟩
    · exact failing e fails
    · exact absurd (running.symm.trans cancelled) nofun
  · cases h with
    -- The turns that tell something need a session that runs.
    | takes running => exact absurd (running.symm.trans cancelled) nofun
    | returns running => exact absurd (running.symm.trans cancelled) nofun
    | tellsEnd running => exact absurd (running.symm.trans cancelled) nofun
    | sends running => exact absurd (running.symm.trans cancelled) nofun
    | tells before => simp [failure, Event.isQuiet]
    | drains before => simp [failure, Event.isQuiet]
    | _ => simp [Event.isQuiet]

theorem Rule.genuine (h : Rule s action t events) (genuine : s.Genuine) : t.Genuine := by
  rintro e (recorded | failing)
  · rcases h.failure with kept | told | ⟨e', failing, fresh⟩
    · exact genuine e (.inl (kept.symm.trans recorded))
    · exact absurd (told.symm.trans recorded) nofun
    · cases fresh.symm.trans recorded
      exact genuine e (.inr failing)
  · rcases h.failing failing with failing | ⟨-, broken⟩
    · exact genuine e (.inr failing)
    · exact broken

/-! ## What a run does to failures -/

/-- What a run does to failures, where all of them come from the connection. -/
structure Accounts (s t : State) (events : List Event) : Prop where
  genuine : t.Genuine
  told : failuresTold events ++ t.failure.toList = s.failure.toList ++ failuresRecorded events
  live : (failuresRecorded events).length + t.live ≤ s.live
  cancelled : s.cancelled = true ∨ failuresRecorded events ≠ [] → t.cancelled = true

theorem Rule.accounts (h : Rule s action t events) (genuine : s.Genuine) : Accounts s t events :=
  ⟨h.genuine genuine, h.told_append genuine, h.recorded_live, h.cancelled⟩

theorem Accounts.trans (first : Accounts s t events) (rest : Accounts t u later) :
    Accounts s u (events ++ later) where
  genuine := rest.genuine
  told := by
    rw [failuresTold_append, failuresRecorded_append, List.append_assoc, rest.told,
      ← List.append_assoc, first.told, List.append_assoc]
  live := by
    have h₁ := first.live
    have h₂ := rest.live
    rw [failuresRecorded_append, List.length_append]
    omega
  cancelled stopped := by
    -- Either it was cancelled before, or one of the two parts has recorded something.
    rw [failuresRecorded_append, Ne, List.append_eq_nil_iff, Decidable.not_and_iff_or_not,
      ← or_assoc] at stopped
    exact rest.cancelled (stopped.imp_left first.cancelled)

theorem accounts_run {actions : List Action} (run : s.run? actions = some (t, events))
    (genuine : s.Genuine) : Accounts s t events := by
  refine run?_relates (fun s t events => s.Genuine → Accounts s t events)
    (fun s genuine => ⟨genuine, (List.append_nil _).symm, ?_, ?_⟩)
    (fun rule rest genuine => ?_) run genuine
  · exact Nat.le_of_eq (Nat.zero_add _)
  · exact fun stopped => stopped.resolve_right (· rfl)
  · have first := rule.accounts genuine
    exact first.trans (rest first.genuine)

/-! ## When everything has been told -/

theorem Spent.settled (spent : s.Spent) : s.Settled := by
  intro actions t events run
  refine run?_relates (fun s _ events => s.Spent → ∀ event ∈ events, event.isQuiet = true)
    (fun _ _ => nofun) (fun rule rest spent event mem => ?_) run spent
  obtain ⟨spent, quiet⟩ := rule.spent spent
  exact (List.mem_append.1 mem).elim (quiet event) (rest spent event)

theorem Silent.after (silent : s.Silent) (rule : Rule s action t events) : t.Silent := by
  intro actions u later run
  have told := silent (action :: actions) u _ (run?_cons_of_rule rule run)
  rw [failuresTold_append] at told
  exact (List.append_eq_nil_iff.1 told).2

/-- What is on record in a cancelled session is told by the next call for a frame. -/
theorem Silent.failure_eq_none (silent : s.Silent) (cancelled : s.cancelled = true)
    (genuine : s.Genuine) : s.failure = none := by
  -- A pending call is given up first.
  obtain ⟨u, silent, idle, cancelled, failure⟩ : ∃ u : State, u.Silent ∧ u.call = .idle ∧
      u.cancelled = true ∧ u.failure = s.failure := by
    by_cases idle : s.call = .idle
    · exact ⟨s, silent, idle, cancelled, rfl⟩
    · exact ⟨_, silent.after (.abandons idle), rfl, cancelled, rfl⟩
  have told := silent.after (.asks idle) [.consumer] _ _ (run?_of_rule (.tells (if_pos cancelled)))
  cases recorded : s.failure with
  | none => rfl
  | some e =>
    obtain ⟨reason, rfl⟩ := genuine e (.inl recorded)
    simp [failure, recorded, failuresTold, Event.told?] at told

/-- A task that fails puts its failure on record, where nothing is on record. -/
theorem Silent.not_failing (silent : s.Silent) (empty : s.failure = none) (genuine : s.Genuine)
    (e : TransportError) : ¬ s.Failing e := by
  rintro (reader | writer)
  · have rule := Rule.readerRecords reader empty
    exact absurd ((silent.after rule).failure_eq_none rfl (rule.genuine genuine)) nofun
  · have rule := Rule.writerRecords writer empty
    exact absurd ((silent.after rule).failure_eq_none rfl (rule.genuine genuine)) nofun

/-- A call that has nothing to tell tells no failure. -/
theorem Settled.silent (settled : s.Settled) : s.Silent := fun actions t events run =>
  List.filterMap_eq_nil_iff.2 fun event mem => by
    have quiet := settled actions t events run event mem
    cases event with
    | errorReturned e => exact if_pos (of_decide_eq_true quiet)
    | closeReturned failure => exact Option.isNone_iff_eq_none.1 quiet
    | _ => rfl

theorem Settled.failure_eq_none (settled : s.Settled) (cancelled : s.cancelled = true)
    (genuine : s.Genuine) : s.failure = none :=
  settled.silent.failure_eq_none cancelled genuine

theorem Settled.not_failing (settled : s.Settled) (empty : s.failure = none) (genuine : s.Genuine)
    (e : TransportError) : ¬ s.Failing e :=
  settled.silent.not_failing empty genuine e

/-- The failures that calls have told, followed by the one on record, are those that the tasks have
put on record, in the same order, and there are no more than two of them.  Once a call has told one,
nothing is left to be told exactly if none is on record and no task is still failing. -/
theorem failures_told_in_order {pipeline frameCapacity : Nat} {actions : List Action}
    (run : { pipeline, frameCapacity : State }.run? actions = some (s, events)) :
    failuresTold events ++ s.failure.toList = failuresRecorded events ∧
      (failuresRecorded events).length ≤ 2 ∧
      (failuresTold events ≠ [] → (s.Settled ↔ s.failure = none ∧ ∀ e, ¬ s.Failing e)) := by
  have start : { pipeline, frameCapacity : State }.Genuine := by
    rintro e (recorded | reader | writer) <;> contradiction
  have accounts := accounts_run run start
  have recorded : failuresTold events ++ s.failure.toList = failuresRecorded events :=
    accounts.told
  refine ⟨recorded, Nat.le_of_add_right_le accounts.live, fun told => ?_⟩
  -- What has been told has been recorded, which has cancelled the session.
  have cancelled : s.cancelled = true := accounts.cancelled (.inr fun none => told (by
    rw [none] at recorded
    exact (List.append_eq_nil_iff.1 recorded).1))
  constructor
  · intro settled
    have empty := settled.failure_eq_none cancelled accounts.genuine
    exact ⟨empty, settled.not_failing empty accounts.genuine⟩
  · rintro ⟨empty, failing⟩
    exact Spent.settled ⟨cancelled, empty, failing⟩

/-- Both tasks fail, and the consumer is told of the reader's failure before the writer puts its own
on record. -/
def racingActions : List Action :=
  [.receive (.failed "reset"), .sent (.failed "broken pipe"), .reader, .next, .consumer]

/-- At this moment one failure has been told, and one more can be. -/
theorem failures_told_in_order_racing :
    ∃ s events,
      { pipeline := 1, frameCapacity := 1 : State }.run? racingActions = some (s, events) ∧
        failuresTold events = [.webSocket "reset"] ∧ ¬ s.Settled := by
  obtain ⟨s, events, run, told, failing⟩ : ∃ s events,
      { pipeline := 1, frameCapacity := 1 : State }.run? racingActions = some (s, events) ∧
        failuresTold events = [.webSocket "reset"] ∧ s.Failing (.webSocket "broken pipe") :=
    ⟨_, _, rfl, rfl, .inr rfl⟩
  obtain ⟨-, -, settled⟩ := failures_told_in_order run
  exact ⟨s, events, run, told, fun quiet => ((settled (by simp [told])).1 quiet).2 _ failing⟩

/-- The writer goes on to put its failure on record, and the next call tells that one too. -/
theorem two_failures_told :
    ∃ s events,
      { pipeline := 1, frameCapacity := 1 : State }.run?
          (racingActions ++ [.writer, .next, .consumer]) = some (s, events) ∧
        failuresTold events = [.webSocket "reset", .webSocket "broken pipe"] :=
  ⟨_, _, rfl, rfl⟩

end State

end ChainFollower.Session
