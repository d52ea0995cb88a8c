import ChainFollower.Proofs.Session.Delivery
import ChainFollower.Proofs.Session.Failures

/-!
# After a clean end of the stream

When the peer has closed the connection in order, the reader ends and the frames in the queue are
still there for the consumer.  The writer goes on: it spends the credits that are left and answers
the pings that wait.  A send that finds the connection closed ends the writer in silence, and then
the consumer is handed every frame, is told of the end, and closes without a failure.  A send that
fails otherwise is put on record like any failure.  It cancels the session, takes the frames that
wait from the consumer, and is told instead of the end.

Main statements: `clean_end_told_iff`, which says for which states the end stays clean whatever
happens, and `clean_end_told_as_failure` for a schedule in which it does not.
-/

namespace ChainFollower.Session

/-- Whether a send of the writer fails. -/
def Action.failsToSend : Action → Bool
  | .sent (.failed _) => true
  | _ => false

/-- Whether the session is given up, by the consumer or by whoever else may cancel it. -/
def Action.givesUp : Action → Bool
  | .cancel | .close => true
  | _ => false

namespace State

/-! ## Clean ends -/

/-- The reader has ended, and no failure is on record or on the way there. -/
structure CleanlyEnded (s : State) : Prop where
  reader : s.reader = .ended
  failure : s.failure = none
  writer : ∀ e, s.writer ≠ .failing e

/-- Calls wait for frames, as long as the session is not cancelled. -/
def WaitsForFrames (s : State) : Prop := s.cancelled = false → s.call = .idle ∨ s.call = .next

/-- The writer has nothing left to send, if nothing comes to it. -/
def HasSentAll (s : State) : Prop :=
  s.writer = .ended ∨ s.writer = .closing ∨
    s.writer = .idle ∧ s.credits = 0 ∧ (s.pongsOpen = true → s.pongs = [])

/-- What a call for the next frame is answered when no frame can come any more. -/
def finalAnswer (s : State) : Event :=
  match s.frames with
  | frame :: _ => .frameReturned frame
  | [] => .endReturned

/-- How a session should go on after a clean end. -/
structure EndsCleanly (s t : State) (actions : List Action) (events : List Event) : Prop where
  /-- The frames that waited are handed out in order, and none else. -/
  frames : framesReturned events <+: s.frames
  /-- No call tells a failure. -/
  told : failuresTold events = []
  /-- Unless the session is given up, no frame is lost, no call is refused, and a call for the next
  frame is answered with that frame, or with the end after the last. -/
  delivers : (∀ action ∈ actions, action.givesUp = false) →
    framesReturned events ++ t.frames = s.frames ∧ (∀ e, .errorReturned e ∉ events) ∧
      (t.call = .next → ∃ u, t.step? .consumer = some (u, [t.finalAnswer]))
  /-- A call to close returns without a failure, after two more steps of the writer at most. -/
  closes : t.call = .joining ∨ t.call = .draining → ∃ n ≤ 2, ∃ m ≤ 2, ∃ u,
    t.run? (List.replicate n .writer ++ List.replicate m .consumer) =
      some (u, [.closeReturned none])

variable {s t u : State} {action : Action} {actions : List Action} {events later : List Event}

/-! ## Steps after a clean end -/

/-- The end stays clean, if no send fails. -/
theorem Rule.cleanlyEnded (rule : Rule s action t events) (clean : s.CleanlyEnded)
    (sound : action.failsToSend = false) :
    t.CleanlyEnded ∧ failuresTold events = [] ∧ framesRead events = [] := by
  obtain ⟨reader, failure, writer⟩ := clean
  cases rule with
  | takes _ before => cases reader.symm.trans before
  | breaks _ before => cases reader.symm.trans before
  | queues _ before => cases reader.symm.trans before
  | readerRecords before => cases reader.symm.trans before
  | readerYields before => cases reader.symm.trans before
  | sendFails => cases sound
  | writerRecords before => exact absurd before (writer _)
  | writerYields before => exact absurd before (writer _)
  | sends running before =>
    refine ⟨⟨reader, failure, nofun⟩, (failures_sentEvent? before).1, ?_⟩
    exact framesRead_of_apart (by simpa using sentEvent?_apart before)
  | tells before =>
    refine ⟨⟨reader, rfl, writer⟩, ?_, rfl⟩
    rw [failure]
    rfl
  | drains before =>
    refine ⟨⟨reader, rfl, writer⟩, ?_, rfl⟩
    rw [failure]
    rfl
  | closes => exact ⟨⟨rfl, failure, writer⟩, rfl, rfl⟩
  | stops => exact ⟨⟨rfl, failure, writer⟩, rfl, rfl⟩
  | meetsEnd => exact ⟨⟨reader, failure, nofun⟩, rfl, rfl⟩
  | leaves => exact ⟨⟨reader, failure, nofun⟩, rfl, rfl⟩
  | answers => exact ⟨⟨reader, failure, nofun⟩, rfl, rfl⟩
  | spends => exact ⟨⟨reader, failure, nofun⟩, rfl, rfl⟩
  | shuts => exact ⟨⟨reader, failure, nofun⟩, rfl, rfl⟩
  | hasShut => exact ⟨⟨reader, failure, nofun⟩, rfl, rfl⟩
  -- No other rule has to do with the tasks or with the record.
  | _ => exact ⟨⟨reader, failure, writer⟩, rfl, rfl⟩

/-- Nothing but a failure cancels a session that is not given up. -/
theorem Rule.running (rule : Rule s action t events) (clean : s.CleanlyEnded)
    (goesOn : action.givesUp = false) (running : s.cancelled = false) : t.cancelled = false := by
  cases rule with
  | cancels => cases goesOn
  | ends => cases goesOn
  | takes _ before => cases clean.reader.symm.trans before
  | readerRecords before => cases clean.reader.symm.trans before
  | readerYields before => cases clean.reader.symm.trans before
  | writerRecords before => exact absurd before (clean.writer _)
  | writerYields before => exact absurd before (clean.writer _)
  | _ => exact running

theorem WaitsForFrames.cancelled (waits : s.WaitsForFrames) (idle : s.call ≠ .idle)
    (next : s.call ≠ .next) : s.cancelled = true := by
  cases cancelled : s.cancelled with
  | true => rfl
  | false => exact absurd (waits cancelled) (not_or.2 ⟨idle, next⟩)

theorem Rule.waitsForFrames (rule : Rule s action t events) (waits : s.WaitsForFrames) :
    t.WaitsForFrames := by
  cases rule with
  | takes => rwa [WaitsForFrames, refill_eq]
  -- A call that is woken at once was made on a cancelled session.
  | asks =>
    intro running
    exact .inr (if_neg (Bool.eq_false_iff.1 running))
  -- Tasks are joined only after the session has been cancelled.
  | joins before =>
    have stopped : s.cancelled = true := waits.cancelled (by simp [before]) (by simp [before])
    exact fun running => absurd (stopped.symm.trans running) nofun
  | wakes stopped => exact fun running => absurd (stopped.symm.trans running) nofun
  | abandons => exact fun _ => .inl rfl
  | returns => exact fun _ => .inl rfl
  | tellsEnd => exact fun _ => .inl rfl
  | tells => exact fun _ => .inl rfl
  | drains => exact fun _ => .inl rfl
  | cancels => exact nofun
  | ends => exact nofun
  | readerRecords => exact nofun
  | readerYields => exact nofun
  | writerRecords => exact nofun
  | writerYields => exact nofun
  | _ => exact waits

/-- Only a cancelled session refuses a call. -/
theorem Rule.errorReturned_notMem (rule : Rule s action t events) (waits : s.WaitsForFrames)
    (running : s.cancelled = false) (e : TransportError) : .errorReturned e ∉ events := by
  cases rule with
  | takes =>
    refine List.not_mem_cons_of_ne_of_not_mem nofun fun mem => ?_
    obtain ⟨tip, changed⟩ := exists_of_mem_tipEvents mem
    cases changed
  | sends _ before =>
    rcases sentEvent?_cases before with ⟨-, rfl⟩ | ⟨payload, -, rfl⟩ | ⟨-, rfl⟩ <;> simp
  | tells before =>
    have stopped : s.cancelled = true := waits.cancelled (by simp [before]) (by simp [before])
    exact absurd (stopped.symm.trans running) nofun
  | _ => simp

/-- A writer that has nothing left to send sends nothing. -/
theorem Rule.hasSentAll (rule : Rule s action t events) (ended : s.reader = .ended)
    (done : s.HasSentAll) :
    t.HasSentAll ∧ t.reader = .ended ∧ action.failsToSend = false := by
  have holds : sentEvent? s.writer = none := by
    rcases done with writer | writer | ⟨writer, -⟩ <;> rw [writer] <;> rfl
  have sound (e) : s.writer ≠ .failing e := by
    rcases done with writer | writer | ⟨writer, -⟩ <;> rw [writer] <;> nofun
  cases rule with
  | takes _ before => cases ended.symm.trans before
  | hears _ before => cases ended.symm.trans before
  | queues _ before => cases ended.symm.trans before
  | breaks _ before => cases ended.symm.trans before
  | readerRecords before => cases ended.symm.trans before
  | readerYields before => cases ended.symm.trans before
  | sends _ before => cases holds.symm.trans before
  | sendFails _ before => simp [holds] at before
  | meetsEnd _ before => simp [holds] at before
  | leaves _ before => simp [holds] at before
  | writerRecords before => exact absurd before (sound _)
  | writerYields before => exact absurd before (sound _)
  | answers _ before listening pending =>
    rcases done with writer | writer | ⟨-, -, answered⟩
    · cases writer.symm.trans before
    · cases writer.symm.trans before
    · cases (answered listening).symm.trans pending
  | spends _ before _ credit =>
    rcases done with writer | writer | ⟨-, noCredit, -⟩
    · cases writer.symm.trans before
    · cases writer.symm.trans before
    · exact absurd noCredit (Nat.pos_iff_ne_zero.1 credit)
  | forgetsPings =>
    refine ⟨?_, ended, rfl⟩
    exact done.imp_right (.imp_right fun ⟨writer, noCredit, _⟩ => ⟨writer, noCredit, nofun⟩)
  | shuts => exact ⟨.inr (.inl rfl), ended, rfl⟩
  | hasShut => exact ⟨.inl rfl, ended, rfl⟩
  | closes => exact ⟨done, rfl, rfl⟩
  | stops => exact ⟨done, rfl, rfl⟩
  | _ => exact ⟨done, ended, rfl⟩

/-! ## Runs after a clean end -/

theorem cleanlyEnded_run (run : s.run? actions = some (t, events)) (clean : s.CleanlyEnded)
    (sound : ∀ action ∈ actions, action.failsToSend = false) :
    t.CleanlyEnded ∧ failuresTold events = [] ∧ framesRead events = [] := by
  refine run?_relates_of_allowed (fun action => action.failsToSend = false)
    (fun s t events => s.CleanlyEnded →
      t.CleanlyEnded ∧ failuresTold events = [] ∧ framesRead events = [])
    (fun _ clean => ⟨clean, rfl, rfl⟩) (fun sound rule rest clean => ?_) run sound clean
  obtain ⟨clean, told, read⟩ := rule.cleanlyEnded clean sound
  obtain ⟨clean, told', read'⟩ := rest clean
  rw [failuresTold_append, framesRead_append, told, told', read, read']
  exact ⟨clean, rfl, rfl⟩

theorem waitsForFrames_run (run : s.run? actions = some (t, events)) (waits : s.WaitsForFrames) :
    t.WaitsForFrames :=
  run?_relates (fun s t _ => s.WaitsForFrames → t.WaitsForFrames) (fun _ => id)
    (fun rule rest waits => rest (rule.waitsForFrames waits)) run waits

/-- A session that ends cleanly and is not given up goes on, and refuses no call. -/
theorem running_run (run : s.run? actions = some (t, events)) (clean : s.CleanlyEnded)
    (waits : s.WaitsForFrames) (running : s.cancelled = false)
    (sound : ∀ action ∈ actions, action.failsToSend = false)
    (goesOn : ∀ action ∈ actions, action.givesUp = false) :
    t.cancelled = false ∧ ∀ e, .errorReturned e ∉ events := by
  -- Turn by turn; neither a failure to send nor a call to give up is allowed.
  refine run?_relates_of_allowed
    (fun action => action.failsToSend = false ∧ action.givesUp = false)
    (fun s t events => s.CleanlyEnded → s.WaitsForFrames → s.cancelled = false →
      t.cancelled = false ∧ ∀ e, .errorReturned e ∉ events)
    (fun _ _ _ running => ⟨running, fun _ => nofun⟩)
    (fun allowed rule rest clean waits running => ?_) run
    (fun action mem => ⟨sound action mem, goesOn action mem⟩) clean waits running
  obtain ⟨after, accepted⟩ := rest (rule.cleanlyEnded clean allowed.1).1
    (rule.waitsForFrames waits) (rule.running clean allowed.2 running)
  refine ⟨after, fun e mem => ?_⟩
  exact (List.mem_append.1 mem).elim (rule.errorReturned_notMem waits running e) (accepted e)

/-- Of a writer that has nothing left to send, no send fails. -/
theorem HasSentAll.sound_run (done : s.HasSentAll) (ended : s.reader = .ended)
    (run : s.run? actions = some (t, events)) :
    ∀ action ∈ actions, action.failsToSend = false := by
  induction actions generalizing s events with
  | nil => exact nofun
  | cons action rest ih =>
    obtain ⟨u, shown, later, hstep, hrun, -⟩ := run?_cons run
    obtain ⟨done, ended, sound⟩ := (rule_of_step? hstep).hasSentAll ended done
    exact List.forall_mem_cons.2 ⟨sound, ih done ended hrun⟩

/-! ## Calls after a clean end -/

/-- A call for the next frame is answered at once. -/
theorem CleanlyEnded.answers (clean : s.CleanlyEnded) (running : s.cancelled = false)
    (asking : s.call = .next) : ∃ u, s.step? .consumer = some (u, [s.finalAnswer]) := by
  unfold finalAnswer
  cases frames : s.frames with
  | nil => exact ⟨_, step?_of_rule (.tellsEnd running asking frames clean.reader)⟩
  | cons frame rest => exact ⟨_, step?_of_rule (.returns running asking frames)⟩

/-- The writer of a cancelled session ends, in two steps at most. -/
theorem CleanlyEnded.writer_ends (clean : s.CleanlyEnded) (cancelled : s.cancelled = true) :
    ∃ n ≤ 2, s.run? (List.replicate n .writer) = some ({ s with writer := .ended }, []) := by
  have leaves (sends : (sentEvent? s.writer).isSome = true) :
      ∃ n ≤ 2, s.run? (List.replicate n .writer) = some ({ s with writer := .ended }, []) :=
    ⟨1, by decide, run?_of_rule (.leaves cancelled sends)⟩
  -- A writer that has something to send leaves it; one without shuts the sink first.
  cases writer : s.writer with
  | opening => exact leaves (by rw [writer]; rfl)
  | pong payload => exact leaves (by rw [writer]; rfl)
  | request => exact leaves (by rw [writer]; rfl)
  | idle =>
    have shuts : Rule s .writer { s with writer := .closing } [] := .shuts writer (.inl cancelled)
    exact ⟨2, Nat.le_refl _, run?_cons_of_rule shuts (run?_of_rule (.hasShut rfl))⟩
  | closing => exact ⟨1, by decide, run?_of_rule (.hasShut writer)⟩
  | failing e => exact absurd writer (clean.writer e)
  | ended =>
    refine ⟨0, by decide, ?_⟩
    rw [← writer]
    rfl

theorem CleanlyEnded.drains (clean : s.CleanlyEnded) (draining : s.call = .draining) :
    ∃ u, s.run? [.consumer] = some (u, [.closeReturned none]) := by
  have drains := run?_of_rule (.drains draining)
  rw [clean.failure] at drains
  exact ⟨_, drains⟩

/-- A call to close returns without a failure. -/
theorem CleanlyEnded.closes (clean : s.CleanlyEnded) (waits : s.WaitsForFrames)
    (pending : s.call = .joining ∨ s.call = .draining) : ∃ n ≤ 2, ∃ m ≤ 2, ∃ u,
    s.run? (List.replicate n .writer ++ List.replicate m .consumer) =
      some (u, [.closeReturned none]) := by
  rcases pending with joining | draining
  · have cancelled : s.cancelled = true := waits.cancelled (by simp [joining]) (by simp [joining])
    obtain ⟨n, hn, ends⟩ := clean.writer_ends cancelled
    -- Both tasks have ended, so that the call goes on to ask for a failure.
    have joins : Rule { s with writer := .ended } .consumer
        { s with writer := .ended, call := .draining } [] := .joins joining clean.reader rfl
    have after : { s with writer := .ended, call := .draining : State }.CleanlyEnded :=
      ⟨clean.reader, clean.failure, nofun⟩
    obtain ⟨u, drains⟩ := after.drains rfl
    exact ⟨n, hn, 2, Nat.le_refl _, u, run?_append ends (run?_cons_of_rule joins drains)⟩
  · obtain ⟨u, drains⟩ := clean.drains draining
    exact ⟨0, by decide, 1, by decide, u, drains⟩

/-- A clean end is seen as one, if no send fails. -/
theorem CleanlyEnded.endsCleanly (clean : s.CleanlyEnded) (waits : s.WaitsForFrames)
    (running : s.cancelled = false) (run : s.run? actions = some (t, events))
    (sound : ∀ action ∈ actions, action.failsToSend = false) : EndsCleanly s t actions events := by
  obtain ⟨after, told, read⟩ := cleanlyEnded_run run clean sound
  have flows := flows_run run
  refine ⟨?_, told, fun goesOn => ?_, after.closes (waitsForFrames_run run waits)⟩
  -- The reader is done, so the frames that are returned are those that were queued.
  · have onward := (List.prefix_append _ _).trans flows.onward
    rwa [underway_of_ended clean.reader, read, List.append_nil] at onward
  · obtain ⟨still, accepted⟩ := running_run run clean waits running sound goesOn
    refine ⟨?_, accepted, after.answers still⟩
    have kept := flows.kept still
    rwa [underway_of_ended clean.reader, underway_of_ended after.reader, read, List.append_nil]
      at kept

/-! ## When nothing can be told -/

/-- Where no call will tell a failure, the writer is at no send: it could fail. -/
theorem Silent.sentEvent?_eq_none (silent : s.Silent) (genuine : s.Genuine)
    (running : s.cancelled = false) (empty : s.failure = none) : sentEvent? s.writer = none := by
  cases sends : sentEvent? s.writer with
  | none => rfl
  | some event =>
    have rule : Rule s (.sent (.failed "broken pipe")) _ _ :=
      .sendFails running (Option.isSome_of_eq_some sends)
    exact absurd (.inr rfl) ((silent.after rule).not_failing empty (rule.genuine genuine) _)

/-- Nor will it come to one. -/
theorem Silent.credits_eq_zero (silent : s.Silent) (genuine : s.Genuine)
    (running : s.cancelled = false) (empty : s.failure = none) (idle : s.writer = .idle)
    (deaf : s.pongsOpen = false) : s.credits = 0 := by
  refine Nat.eq_zero_of_not_pos fun credit => ?_
  have rule := Rule.spends running idle
    (fun listening => absurd (deaf.symm.trans listening) nofun) credit
  have none := (silent.after rule).sentEvent?_eq_none (rule.genuine genuine) running empty
  cases none

theorem Silent.hasSentAll (silent : s.Silent) (genuine : s.Genuine) (running : s.cancelled = false)
    (clean : s.CleanlyEnded) : s.HasSentAll := by
  have none := silent.sentEvent?_eq_none genuine running clean.failure
  cases writer : s.writer with
  | opening => cases writer ▸ none
  | pong payload => cases writer ▸ none
  | request => cases writer ▸ none
  | failing e => exact absurd writer (clean.writer e)
  | closing => exact .inr (.inl writer)
  | ended => exact .inl writer
  | idle =>
    refine .inr (.inr ⟨writer, ?_⟩)
    cases listening : s.pongsOpen with
    | false => exact ⟨silent.credits_eq_zero genuine running clean.failure writer listening, nofun⟩
    | true =>
      cases pending : s.pongs with
      | cons payload rest =>
        have rule := Rule.answers running writer listening pending
        have none := (silent.after rule).sentEvent?_eq_none (rule.genuine genuine) running
          clean.failure
        cases none
      | nil =>
        -- The writer looks for pings no more, and then uses its credits.
        have stopped : s.readerStopped = true := by rw [readerStopped, clean.reader]
        have rule := Rule.forgetsPings running writer listening pending stopped
        exact ⟨(silent.after rule).credits_eq_zero (rule.genuine genuine) running clean.failure
          writer rfl, fun _ => rfl⟩

/-! ## The end of the stream, as the consumer sees it -/

/-- A session that is not cancelled has no failure on record. -/
theorem failure_eq_none_of_running {pipeline frameCapacity : Nat}
    (run : { pipeline, frameCapacity : State }.run? actions = some (s, events))
    (running : s.cancelled = false) : s.failure = none ∧ s.Genuine := by
  have start : { pipeline, frameCapacity : State }.Genuine := by
    rintro e (recorded | reader | writer) <;> contradiction
  have accounts := accounts_run run start
  refine ⟨?_, accounts.genuine⟩
  -- A failure that was recorded would have cancelled the session.
  have none : failuresRecorded events = [] := Decidable.byContradiction fun recorded =>
    absurd ((accounts.cancelled (.inr recorded)).symm.trans running) nofun
  have told := accounts.told
  rw [none] at told
  exact Option.toList_eq_nil_iff.1 (List.append_eq_nil_iff.1 told).2

/-- The reader has ended, and neither a cancellation nor a failure has come before.  Then the frames
that wait, the end of the stream and a close without failure are what the consumer is given for as
long as no send fails; and this holds whatever happens exactly if the writer has nothing left to
send. -/
theorem clean_end_told_iff {pipeline frameCapacity : Nat}
    (run : { pipeline, frameCapacity : State }.run? actions = some (s, events))
    (ended : s.reader = .ended) (running : s.cancelled = false)
    (sound : ∀ e, s.writer ≠ .failing e) :
    (∀ more t shown, s.run? more = some (t, shown) →
      (∀ action ∈ more, action.failsToSend = false) → EndsCleanly s t more shown) ∧
    ((∀ more t shown, s.run? more = some (t, shown) → EndsCleanly s t more shown) ↔
      s.HasSentAll) := by
  obtain ⟨empty, genuine⟩ := failure_eq_none_of_running run running
  -- The reader is done, nothing has failed, and the writer is not about to.
  have clean : s.CleanlyEnded := ⟨ended, empty, sound⟩
  have waits : s.WaitsForFrames := waitsForFrames_run run fun _ => .inl rfl
  refine ⟨fun more t shown later => clean.endsCleanly waits running later, fun always => ?_,
    fun done more t shown later => ?_⟩
  -- If every way on ends cleanly, no failure is told in any of them.
  · have silent : s.Silent := fun more t shown later => (always more t shown later).told
    exact silent.hasSentAll genuine running clean
  · exact clean.endsCleanly waits running later (done.sound_run ended later)

/-- The peer sends a frame and closes, before the writer has used its credit. -/
def closedActions : List Action :=
  [.sent .done, .receive (.data [97]), .reader, .receive .closed]

/-- The writer finds the connection closed.  The consumer is handed the frame, told of the end, and
closes; but all this is not certain, since a credit is left. -/
theorem clean_end_told_iff_credited :
    ∃ s t events shown,
      { pipeline := 1, frameCapacity := 1 : State }.run? closedActions = some (s, events) ∧
        s.run? [.writer, .writer, .sent .closed, .next, .consumer, .next, .consumer, .close] =
          some (t, shown) ∧
        shown = [.frameReturned [97], .endReturned] ∧
        EndsCleanly s t
          [.writer, .writer, .sent .closed, .next, .consumer, .next, .consumer, .close] shown ∧
        ¬ ∀ more t shown, s.run? more = some (t, shown) → EndsCleanly s t more shown := by
  obtain ⟨s, t, events, shown, run, later, told, ended, running, writer, credit⟩ :
      ∃ s t events shown,
        { pipeline := 1, frameCapacity := 1 : State }.run? closedActions = some (s, events) ∧
          s.run? [.writer, .writer, .sent .closed, .next, .consumer, .next, .consumer, .close] =
            some (t, shown) ∧
          shown = [.frameReturned [97], .endReturned] ∧ s.reader = .ended ∧
          s.cancelled = false ∧ s.writer = .idle ∧ s.credits = 1 :=
    ⟨_, _, _, _, rfl, rfl, rfl, rfl, rfl, rfl, rfl⟩
  obtain ⟨clean, always⟩ := clean_end_told_iff run ended running (by simp [writer])
  refine ⟨s, t, events, shown, run, later, told, clean _ _ _ later (by decide), fun promise => ?_⟩
  -- The credit that is left is what stands in the way.
  have done := always.1 promise
  simp [HasSentAll, writer, credit] at done

/-- The writer uses the credit, and its send fails. -/
def brokenActions : List Action :=
  [.writer, .writer, .sent (.failed "broken pipe"), .writer, .next, .consumer]

/-- The peer has closed in order and a frame waits; but the consumer is told of a failure, and the
frame is lost. -/
theorem clean_end_told_as_failure :
    ∃ s t events shown,
      { pipeline := 1, frameCapacity := 1 : State }.run? closedActions = some (s, events) ∧
        .receive .closed ∈ closedActions ∧ s.reader = .ended ∧ s.cancelled = false ∧
        (∀ e, s.writer ≠ .failing e) ∧ s.frames = [[97]] ∧
        s.run? brokenActions = some (t, shown) ∧
        (∀ action ∈ brokenActions, action.givesUp = false) ∧ framesReturned shown = [] ∧
        failuresTold shown = [.webSocket "broken pipe"] ∧
        ¬ EndsCleanly s t brokenActions shown := by
  refine ⟨_, _, _, _, rfl, by decide, rfl, rfl, nofun, rfl, rfl, by decide, rfl, rfl, fun clean => ?_⟩
  cases clean.told

end State

end ChainFollower.Session
