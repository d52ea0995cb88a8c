import ChainFollower.Proofs.Session.Schedules

/-!
# A session serves the frames of its server

The server sends frames, pings and other messages, and closes in order.  Under any schedule a
session that puts no failure on record hands out the frames one after the other, tells the end, and
closes without a failure at any time; and each of these calls returns.

`Follows` is the state of such a session between two calls, `Awaits` and `Shuts` what turns make of
a call for the next frame and of a call to close.  Main statement: `Scheduled.serves`.
-/

namespace ChainFollower

namespace Session

namespace Live

variable {l m : Live} {call action : Action} {frames : List Octets} {t : State}
  {shown log : List Event}

/-! ## A session that follows its server -/

/-- What a server sends that closes in order. -/
inductive EndsInOrder : List Incoming → Prop
  | closed : EndsInOrder [.closed]
  | message {message : Incoming} {rest : List Incoming} (goesOn : message.goesOn = true)
      (later : EndsInOrder rest) : EndsInOrder (message :: rest)

theorem endsInOrder_append {messages : List Incoming}
    (goesOn : ∀ message ∈ messages, message.goesOn = true) :
    EndsInOrder (messages ++ [.closed]) := by
  induction messages with
  | nil => exact .closed
  | cons message rest ih =>
    obtain ⟨first, later⟩ := List.forall_mem_cons.1 goesOn
    exact .message first (ih later)

/-- A session that has neither been cancelled nor failed, with these frames still to come. -/
structure Follows (l : Live) (frames : List Octets) : Prop where
  running : l.state.cancelled = false
  room : 0 < l.state.frameCapacity
  failure : l.state.failure = none
  /-- The reader ends with the last message. -/
  ends : l.state.reader = .ended ∧ l.inbox = [] ∨
    l.state.readerStopped = false ∧ EndsInOrder l.inbox
  frames : l.state.underway ++ framesOf l.inbox = frames

theorem Follows.writes (follows : Follows l frames) (rule : State.Rule l.state .writer t shown)
    (sound : failuresRecorded shown = []) :
    Follows { l with state := t, log := log } frames ∧ t.call = l.state.call := by
  obtain ⟨running, room, failure, ends, frames⟩ := follows
  cases rule with
  | writerRecords => cases sound
  | writerYields _ full => exact absurd failure full
  | _ => exact ⟨⟨running, room, failure, ends, frames⟩, rfl⟩

theorem Follows.sends {outcome : Sent} (follows : Follows l frames)
    (rule : State.Rule l.state (.sent outcome) t shown) :
    Follows { l with state := t, log := log } frames ∧ t.call = l.state.call := by
  obtain ⟨running, room, failure, ends, frames⟩ := follows
  cases rule <;> exact ⟨⟨running, room, failure, ends, frames⟩, rfl⟩

theorem Follows.reads (follows : Follows l frames) (rule : State.Rule l.state .reader t shown) :
    Follows { l with state := t, log := log } frames ∧ t.call = l.state.call ∧ shown = [] := by
  obtain ⟨running, room, failure, ends, frames⟩ := follows
  cases rule with
  | queues _ before =>
    -- The frame is now the last of the queue, with those of the inbox after it as before.
    refine ⟨⟨running, room, failure, ?_, ?_⟩, rfl, rfl⟩
    · rcases ends with ⟨ended, -⟩ | ⟨-, inOrder⟩
      · cases ended.symm.trans before
      · exact .inr ⟨rfl, inOrder⟩
    · rw [← frames]
      simp [State.underway, before, ReaderTask.held]
  | stops stopped => cases running.symm.trans stopped
  | readerRecords before => simp [before, State.readerStopped] at ends
  | readerYields _ full => exact absurd failure full

theorem Follows.takes {message : Incoming} {rest : List Incoming} (follows : Follows l frames)
    (first : l.inbox = message :: rest)
    (rule : State.Rule l.state (.receive message) t shown) :
    Follows { l with state := t, inbox := rest, log := log } frames ∧
      t.call = l.state.call ∧ shown.find? Event.isReturn = none := by
  obtain ⟨running, room, failure, ends, frames⟩ := follows
  rw [first] at ends frames
  have inOrder : EndsInOrder (message :: rest) := by
    rcases ends with ⟨-, none⟩ | ⟨-, inOrder⟩
    · cases none
    · exact inOrder
  have waits (before : l.state.reader = .waiting) (goesOn : message.goesOn = true) :
      l.state.readerStopped = false ∧ EndsInOrder rest := by
    refine ⟨by rw [State.readerStopped, before], ?_⟩
    cases inOrder with
    | closed => cases goesOn
    | message _ later => exact later
  cases rule with
  | @takes frame _ before =>
    rw [State.refill_eq]
    refine ⟨⟨running, room, failure, .inr ⟨rfl, (waits before rfl).2⟩, ?_⟩, rfl, ?_⟩
    · rw [← frames]
      simp [State.underway, State.post, before, ReaderTask.held, framesOf, Incoming.frame?]
    · -- No call returns with what the reader shows of the frame.
      refine List.find?_eq_none.2
        (List.forall_mem_cons.2 ⟨Bool.false_ne_true, fun event mem => ?_⟩)
      obtain ⟨tip, rfl⟩ := State.exists_of_mem_tipEvents mem
      exact Bool.false_ne_true
  | hears _ before =>
    exact ⟨⟨running, room, failure, .inr (waits before rfl), frames⟩, rfl, rfl⟩
  | drops _ before =>
    exact ⟨⟨running, room, failure, .inr (waits before rfl), frames⟩, rfl, rfl⟩
  | skips _ before =>
    exact ⟨⟨running, room, failure, .inr (waits before rfl), frames⟩, rfl, rfl⟩
  | closes _ before =>
    cases inOrder with
    | closed =>
      refine ⟨⟨running, room, failure, .inl ⟨rfl, rfl⟩, ?_⟩, rfl, rfl⟩
      rw [← frames]
      simp [State.underway, before, ReaderTask.held, framesOf, Incoming.frame?]
    | message goesOn => cases goesOn
  | breaks =>
    cases inOrder with
    | message goesOn => cases goesOn

theorem Follows.reader_turned (follows : Follows l frames)
    (turned : Turned l call .reader m shown) :
    Follows m frames ∧ m.state.call = l.state.call ∧ shown.find? Event.isReturn = none := by
  cases turned with
  | readerRests => exact ⟨follows, rfl, rfl⟩
  | reads rule =>
    obtain ⟨after, same, rfl⟩ := follows.reads rule
    exact ⟨after, same, rfl⟩
  | takes first rule => exact follows.takes first rule

theorem Follows.writer_turned {outcome : Sent} (follows : Follows l frames)
    (turned : Turned l call (.writer outcome) m shown) (sound : m.Sound) :
    Follows m frames ∧ m.state.call = l.state.call := by
  obtain ⟨-, quiet⟩ := sound.of_turned turned
  cases turned with
  | writerRests => exact ⟨follows, rfl⟩
  | writes rule => exact follows.writes rule quiet
  | sends rule => exact follows.sends rule

/-! ## Calls for the next frame -/

/-- What turns come to in a call for the next one of these frames. -/
inductive Awaits (m : Live) : List Octets → Option Event → Prop
  /-- The call goes on, or has not been made yet. -/
  | pending {frames : List Octets} (follows : Follows m frames)
      (waits : m.state.call = .idle ∨ m.state.call = .next) : Awaits m frames none
  | frame {frame : Octets} {rest : List Octets} (follows : Follows m rest)
      (idle : m.state.call = .idle) : Awaits m (frame :: rest) (some (.frameReturned frame))
  | ends (follows : Follows m []) (idle : m.state.call = .idle) : Awaits m [] (some .endReturned)

/-- The consumer goes on with its call for the next frame. -/
theorem Follows.returns (follows : Follows l frames) (asking : l.state.call = .next)
    (rule : State.Rule l.state .consumer t shown) :
    Awaits { l with state := t, log := log } frames (shown.find? Event.isReturn) := by
  obtain ⟨running, room, failure, ends, come⟩ := follows
  cases rule with
  -- Nobody has cancelled, so the call is not woken.
  | wakes stopped => cases running.symm.trans stopped
  | @returns frame rest _ _ queued =>
    rw [State.underway, queued] at come
    rw [← come]
    exact .frame ⟨running, room, failure, ends, rfl⟩ rfl
  -- The end is told once the reader is done, and then nothing is underway.
  | tellsEnd _ _ empty ended =>
    obtain ⟨-, none⟩ := ends.resolve_right (by simp [State.readerStopped, ended])
    have nothing : frames = [] := by
      rw [← come, State.underway_of_ended ended, empty, none]
      rfl
    rw [nothing] at come ⊢
    exact .ends ⟨running, room, failure, ends, come⟩ rfl
  | tells before => cases asking.symm.trans before
  | joins before => cases asking.symm.trans before
  | drains before => cases asking.symm.trans before

theorem Awaits.after_turn {mover : Mover} (awaits : Awaits l frames none)
    (turned : Turned l .next mover m shown) (sound : m.Sound) :
    Awaits m frames (shown.find? Event.isReturn) := by
  obtain ⟨follows, waits⟩ := awaits
  -- The tasks do not answer the call; the consumer begins it or answers it.
  cases mover with
  | reader =>
    obtain ⟨after, same, pending⟩ := follows.reader_turned turned
    rw [pending]
    exact .pending after (same ▸ waits)
  | writer outcome =>
    obtain ⟨after, same⟩ := follows.writer_turned turned sound
    rw [turned.writer_pending]
    exact .pending after (same ▸ waits)
  | consumer =>
    cases turned with
    | consumerRests => exact .pending follows waits
    | calls _ rule =>
      cases rule with
      | asks =>
        obtain ⟨running, room, failure, ends, frames⟩ := follows
        exact .pending ⟨running, room, failure, ends, frames⟩ (.inr (if_neg (by simp [running])))
    | goesOn busy rule => exact follows.returns (waits.resolve_left busy) rule

theorem Awaits.advance {movers : List Mover} (awaits : Awaits l frames none)
    (sound : (l.advance .next movers).2.2.Sound) :
    Awaits (l.advance .next movers).2.2 frames (l.advance .next movers).1 :=
  advance_of_turned (Awaits · frames ·) Awaits.after_turn awaits sound

/-! ## Calls for the next frame return -/

/-- There is a frame for the consumer, or none will come. -/
def HasAnswer (l : Live) : Prop := l.state.frames ≠ [] ∨ l.state.reader = .ended

/-- How many turns the reader takes at most until it has put all frames into the queue, if there is
room for them. -/
def work (l : Live) : Nat := 2 * l.inbox.length + if l.state.reader = .waiting then 0 else 1

/-- A reader that waits takes whatever comes. -/
theorem exists_rule_of_waiting {s : State} (running : s.cancelled = false)
    (waiting : s.reader = .waiting) (message : Incoming) :
    ∃ t shown, State.Rule s (.receive message) t shown := by
  cases message with
  | data frame => exact ⟨_, _, .takes running waiting⟩
  | ping payload =>
    by_cases room : s.pongs.length < pongCapacity
    · exact ⟨_, _, .hears running waiting room⟩
    · exact ⟨_, _, .drops running waiting (Nat.le_of_not_lt room)⟩
  | other => exact ⟨_, _, .skips running waiting⟩
  | closed => exact ⟨_, _, .closes running waiting⟩
  | failed reason => exact ⟨_, _, .breaks running waiting⟩

/-- A reader without anything to do has an answer for the consumer. -/
theorem Follows.hasAnswer_of_rests (follows : Follows l frames)
    (unable : ∀ t shown, ¬ State.Rule l.state .reader t shown)
    (unread : ∀ message rest, l.inbox = message :: rest →
      ∀ t shown, ¬ State.Rule l.state (.receive message) t shown) : l.HasAnswer := by
  cases reader : l.state.reader with
  | ended => exact .inr reader
  | waiting =>
    -- The inbox is not empty before its last message is taken.
    rcases follows.ends with ⟨ended, -⟩ | ⟨-, inOrder⟩
    · cases ended.symm.trans reader
    · cases inbox : l.inbox with
      | nil =>
        rw [inbox] at inOrder
        cases inOrder
      | cons message rest =>
        obtain ⟨t, shown, rule⟩ := exists_rule_of_waiting follows.running reader message
        exact absurd rule (unread message rest inbox t shown)
  | delivering frame =>
    refine .inl fun empty => unable _ _ (.queues follows.running reader ?_)
    rw [empty]
    exact follows.room
  | failing e =>
    rcases follows.ends with ⟨ended, -⟩ | ⟨goesOn, -⟩
    · cases ended.symm.trans reader
    · rw [State.readerStopped, reader] at goesOn
      cases goesOn

/-- The reader keeps an answer for the consumer, or comes nearer to one. -/
theorem Follows.reader_progress (follows : Follows l frames)
    (turned : Turned l call .reader m shown) :
    (l.HasAnswer → m.HasAnswer) ∧ (m.HasAnswer ∨ m.work < l.work) := by
  have running := follows.running
  cases turned with
  | readerRests unable unread => exact ⟨id, .inl (follows.hasAnswer_of_rests unable unread)⟩
  | reads rule =>
    cases rule with
    -- A frame in the queue is an answer, and so is the end.
    | queues => exact ⟨fun _ => .inl (by simp), .inl (.inl (by simp))⟩
    | stops => exact ⟨fun _ => .inr rfl, .inl (.inr rfl)⟩
    | readerRecords => exact ⟨fun _ => .inr rfl, .inl (.inr rfl)⟩
    | readerYields => exact ⟨fun _ => .inr rfl, .inl (.inr rfl)⟩
  -- A message that is taken is work that is done, whatever it brings.
  | takes first rule =>
    cases rule with
    | takes _ before =>
      rw [State.refill_eq]
      simp [HasAnswer, work, State.post, first, before]
      omega
    | hears _ before => simp [HasAnswer, work, first, before]
    | drops _ before => simp [HasAnswer, work, first, before]
    | skips _ before => simp [HasAnswer, work, first, before]
    | closes => exact ⟨fun _ => .inr rfl, .inl (.inr rfl)⟩
    | breaks _ before =>
      simp [HasAnswer, work, first, before]
      omega

/-- After enough turns the reader has an answer for the consumer. -/
theorem Follows.readers (follows : Follows l frames) (n : Nat)
    (enough : l.HasAnswer ∨ l.work < n) :
    (l.advance call (List.replicate n .reader)).1 = none ∧
      Follows (l.advance call (List.replicate n .reader)).2.2 frames ∧
      (l.advance call (List.replicate n .reader)).2.2.state.call = l.state.call ∧
      (l.advance call (List.replicate n .reader)).2.2.HasAnswer := by
  -- Each turn keeps the answer, or leaves less to do than there are turns to come.
  induction n generalizing l with
  | zero => exact ⟨rfl, follows, rfl, enough.resolve_right (Nat.not_lt_zero _)⟩
  | succ n ih =>
    have turned := turned l call .reader
    obtain ⟨after, same, pending⟩ := follows.reader_turned turned
    obtain ⟨keeps, nears⟩ := follows.reader_progress turned
    rw [List.replicate_succ, advance_cons_of_pending pending, ← same]
    refine ih after ?_
    rcases enough with has | few
    · exact .inl (keeps has)
    · exact nears.imp_right fun less => Nat.lt_of_lt_of_le less (Nat.le_of_lt_succ few)

/-- The consumer is given the answer that there is. -/
theorem Follows.consumer_returns (follows : Follows l frames) (asking : l.state.call = .next)
    (has : l.HasAnswer) (turned : Turned l .next .consumer m shown) :
    (shown.find? Event.isReturn).isSome = true := by
  cases turned with
  -- With an answer there is a rule, so the consumer cannot rest.
  | consumerRests unable =>
    rw [if_neg (by simp [asking])] at unable
    cases queued : l.state.frames with
    | nil =>
      have ended := has.resolve_left (fun some => some queued)
      exact absurd (.tellsEnd follows.running asking queued ended) (unable _ _)
    | cons frame rest => exact absurd (.returns follows.running asking queued) (unable _ _)
  | calls idle => cases idle.symm.trans asking
  | goesOn _ rule =>
    cases rule with
    -- The other rules need a cancelled session, or another call.
    | wakes stopped => cases follows.running.symm.trans stopped
    | returns => rfl
    | tellsEnd => rfl
    | tells before => cases asking.symm.trans before
    | joins before => cases asking.symm.trans before
    | drains before => cases asking.symm.trans before

/-- The consumer makes its call. -/
theorem Follows.consumer_asks (follows : Follows l frames) (idle : l.state.call = .idle)
    (has : l.HasAnswer) (turned : Turned l .next .consumer m shown) :
    Follows m frames ∧ m.HasAnswer ∧ m.state.call = .next ∧
      shown.find? Event.isReturn = none := by
  obtain ⟨running, room, failure, ends, come⟩ := follows
  cases turned with
  -- An idle consumer can always ask.
  | consumerRests unable =>
    rw [if_pos idle] at unable
    exact absurd (.asks idle) (unable _ _)
  | calls _ rule =>
    cases rule with
    | asks => exact ⟨⟨running, room, failure, ends, come⟩, has, if_neg (by simp [running]), rfl⟩
  | goesOn busy => exact absurd idle busy

theorem Follows.asking_returns {movers : List Mover} (follows : Follows l frames)
    (has : l.HasAnswer) (asking : l.state.call = .next) :
    (l.advance .next (.consumer :: movers)).1.isSome = true := by
  obtain ⟨event, returned⟩ := Option.isSome_iff_exists.1
    (follows.consumer_returns asking has (turned l .next .consumer))
  exact isSome_advance_of_returned returned

/-- With an answer there, the consumer is given it once it has made its call. -/
theorem Follows.consumer_advance (follows : Follows l frames) (has : l.HasAnswer)
    (waits : l.state.call = .idle ∨ l.state.call = .next) :
    (l.advance .next [.consumer, .consumer]).1.isSome = true := by
  rcases waits with idle | asking
  · obtain ⟨after, has, asking, pending⟩ :=
      follows.consumer_asks idle has (turned l .next .consumer)
    rw [advance_cons_of_pending pending]
    exact after.asking_returns has asking
  · exact follows.asking_returns has asking

/-- A call for the next frame returns, whether it has been made yet or not. -/
theorem Awaits.returns (awaits : Awaits l frames none) :
    (l.advance .next (l.completion .next)).1.isSome = true := by
  obtain ⟨follows, waits⟩ := awaits
  have enough : l.work < 2 * l.inbox.length + 2 := by
    unfold work
    split <;> omega
  obtain ⟨pending, after, same, has⟩ := follows.readers (2 * l.inbox.length + 2) (.inr enough)
  show (l.advance .next (List.replicate (2 * l.inbox.length + 2) .reader ++
    [.consumer, .consumer])).1.isSome = true
  rw [advance_append pending]
  exact after.consumer_advance has (same ▸ waits)

/-! ## Calls to close -/

/-- A session that is being closed, without a failure so far. -/
structure Closing (l : Live) : Prop where
  cancelled : l.state.cancelled = true
  failure : l.state.failure = none
  reader : l.state.reader = .ended ∨ l.state.readerStopped = false
  call : l.state.call = .joining ∨ l.state.call = .draining

/-- Only a session that is not cancelled takes a message or finishes a send. -/
theorem running_of_exchange {s : State}
    (exchange : (∃ message, action = .receive message) ∨ ∃ outcome, action = .sent outcome)
    (rule : State.Rule s action t shown) : s.cancelled = false := by
  rcases exchange with ⟨message, rfl⟩ | ⟨outcome, rfl⟩ <;> cases rule <;> assumption

/-- The consumer makes its call. -/
theorem Follows.consumer_closes (follows : Follows l frames) (idle : l.state.call = .idle)
    (turned : Turned l .close .consumer m shown) :
    Closing m ∧ shown.find? Event.isReturn = none := by
  cases turned with
  | consumerRests unable =>
    rw [if_pos idle] at unable
    exact absurd (.ends idle) (unable _ _)
  | calls _ rule =>
    cases rule with
    | ends =>
      refine ⟨⟨rfl, follows.failure, follows.ends.imp And.left And.left, ?_⟩, rfl⟩
      -- Tasks that have been joined are not waited for again.
      cases joined : l.state.joined with
      | true => exact .inr rfl
      | false => exact .inl rfl
  | goesOn busy => exact absurd idle busy

/-- The reader of a session that is being closed ends. -/
theorem Closing.reader_turned (closing : Closing l) (turned : Turned l .close .reader m shown) :
    Closing m ∧ m.state.reader = .ended ∧ shown.find? Event.isReturn = none := by
  obtain ⟨cancelled, failure, reader, call⟩ := closing
  cases turned with
  -- A reader that goes on would stop, since the session is cancelled.
  | readerRests unable =>
    have ended := reader.resolve_right fun goesOn => unable _ _ (.stops cancelled goesOn)
    exact ⟨⟨cancelled, failure, reader, call⟩, ended, rfl⟩
  | reads rule =>
    cases rule with
    | queues running => cases running.symm.trans cancelled
    | stops => exact ⟨⟨cancelled, failure, .inl rfl, call⟩, rfl, rfl⟩
    | readerRecords before => simp [before, State.readerStopped] at reader
    | readerYields _ full => exact absurd failure full
  -- Nothing is taken from the wire any more.
  | takes _ rule =>
    cases (running_of_exchange (.inl ⟨_, rfl⟩) rule).symm.trans cancelled

/-- The writer of a session that is being closed closes the connection, and ends. -/
theorem Closing.writer_turned {outcome : Sent} (closing : Closing l)
    (turned : Turned l .close (.writer outcome) m shown) (sound : m.Sound) :
    Closing m ∧ m.state.reader = l.state.reader ∧
      (m.state.writer = .ended ∨ l.state.writer = .idle ∧ m.state.writer = .closing) := by
  obtain ⟨-, quiet⟩ := sound.of_turned turned
  obtain ⟨cancelled, failure, reader, call⟩ := closing
  cases turned with
  | writerRests unable =>
    refine ⟨⟨cancelled, failure, reader, call⟩, rfl, .inl ?_⟩
    -- Every other writer has something to do.
    cases writer : l.state.writer with
    | opening => exact absurd (.leaves cancelled (by rw [writer]; rfl)) (unable _ _)
    | pong payload => exact absurd (.leaves cancelled (by rw [writer]; rfl)) (unable _ _)
    | request => exact absurd (.leaves cancelled (by rw [writer]; rfl)) (unable _ _)
    | idle => exact absurd (.shuts writer (.inl cancelled)) (unable _ _)
    | closing => exact absurd (.hasShut writer) (unable _ _)
    | failing e => exact absurd (.writerRecords writer failure) (unable _ _)
    | ended => rfl
  | writes rule =>
    cases rule with
    | leaves => exact ⟨⟨cancelled, failure, reader, call⟩, rfl, .inl rfl⟩
    | shuts before => exact ⟨⟨cancelled, failure, reader, call⟩, rfl, .inr ⟨before, rfl⟩⟩
    | hasShut => exact ⟨⟨cancelled, failure, reader, call⟩, rfl, .inl rfl⟩
    | answers running => cases running.symm.trans cancelled
    | forgetsPings running => cases running.symm.trans cancelled
    | spends running => cases running.symm.trans cancelled
    | writerRecords => cases quiet
    | writerYields _ full => exact absurd failure full
  | sends rule =>
    cases (running_of_exchange (.inr ⟨_, rfl⟩) rule).symm.trans cancelled

/-- The call goes on until both tasks have ended, and returns without a failure. -/
theorem Closing.consumer_turned (closing : Closing l)
    (turned : Turned l .close .consumer m shown) :
    shown.find? Event.isReturn = some (.closeReturned none) ∨
      Closing m ∧ shown.find? Event.isReturn = none ∧ l.state.call = .joining ∧
        (l.state.reader = .ended → l.state.writer = .ended → m.state.call = .draining) := by
  obtain ⟨cancelled, failure, reader, call⟩ := closing
  have busy : l.state.call ≠ .idle := by rcases call with call | call <;> simp [call]
  cases turned with
  | consumerRests unable =>
    rw [if_neg busy] at unable
    -- Waiting for the tasks it can rest, and after that it cannot.
    rcases call with joining | draining
    · refine .inr ⟨⟨cancelled, failure, reader, .inl joining⟩, rfl, joining, ?_⟩
      exact fun ended ended' => absurd (.joins joining ended ended') (unable _ _)
    · exact absurd (.drains draining) (unable _ _)
  | calls idle => exact absurd idle busy
  | goesOn _ rule =>
    cases rule with
    | wakes _ before => simp [before] at call
    | returns _ before => simp [before] at call
    | tellsEnd _ before => simp [before] at call
    | tells before => simp [before] at call
    | joins before =>
      exact .inr ⟨⟨cancelled, failure, reader, .inr rfl⟩, rfl, before, fun _ _ => rfl⟩
    | drains before =>
      left
      rw [failure]
      rfl

/-- What turns come to in a call to close. -/
inductive Shuts (m : Live) : Option Event → Prop
  /-- The call has not been made yet. -/
  | before {frames : List Octets} (follows : Follows m frames) (idle : m.state.call = .idle) :
      Shuts m none
  | closing (closing : Closing m) : Shuts m none
  | closed : Shuts m (some (.closeReturned none))

theorem Shuts.eq_of_isSome {returned : Option Event} (shuts : Shuts m returned)
    (isSome : returned.isSome = true) : returned = some (.closeReturned none) := by
  cases shuts with
  | before => cases isSome
  | closing => cases isSome
  | closed => rfl

theorem Shuts.after_turn {mover : Mover} (shuts : Shuts l none)
    (turned : Turned l .close mover m shown) (sound : m.Sound) :
    Shuts m (shown.find? Event.isReturn) := by
  cases shuts with
  -- The call has not begun, and the tasks go on as before.
  | before follows idle =>
    cases mover with
    | reader =>
      obtain ⟨after, same, pending⟩ := follows.reader_turned turned
      rw [pending]
      exact .before after (same.trans idle)
    | writer outcome =>
      obtain ⟨after, same⟩ := follows.writer_turned turned sound
      rw [turned.writer_pending]
      exact .before after (same.trans idle)
    | consumer =>
      obtain ⟨after, pending⟩ := follows.consumer_closes idle turned
      rw [pending]
      exact .closing after
  -- The call has begun, and the consumer may return.
  | closing closing =>
    cases mover with
    | reader =>
      obtain ⟨after, -, pending⟩ := closing.reader_turned turned
      rw [pending]
      exact .closing after
    | writer outcome =>
      rw [turned.writer_pending]
      exact .closing (closing.writer_turned turned sound).1
    | consumer =>
      obtain returned | ⟨after, pending, -⟩ := closing.consumer_turned turned
      · rw [returned]
        exact .closed
      · rw [pending]
        exact .closing after

theorem Shuts.advance {movers : List Mover} (shuts : Shuts l none)
    (sound : (l.advance .close movers).2.2.Sound) :
    Shuts (l.advance .close movers).2.2 (l.advance .close movers).1 :=
  advance_of_turned Shuts Shuts.after_turn shuts sound

/-! ## Calls to close return -/

theorem Closing.draining_returns {movers : List Mover} (closing : Closing l)
    (draining : l.state.call = .draining) :
    (l.advance .close (.consumer :: movers)).1.isSome = true := by
  obtain returned | ⟨-, -, joining, -⟩ := closing.consumer_turned (turned l .close .consumer)
  · exact isSome_advance_of_returned returned
  · cases draining.symm.trans joining

/-- With both tasks at their ends, the call comes to its own. -/
theorem Closing.joining_returns (closing : Closing l) (reader : l.state.reader = .ended)
    (writer : l.state.writer = .ended) :
    (l.advance .close [.consumer, .consumer]).1.isSome = true := by
  obtain returned | ⟨after, pending, -, drains⟩ :=
    closing.consumer_turned (turned l .close .consumer)
  · exact isSome_advance_of_returned returned
  · rw [advance_cons_of_pending pending]
    exact after.draining_returns (drains reader writer)

/-- The writer ends in two turns. -/
theorem Closing.writer_returns (closing : Closing l) (reader : l.state.reader = .ended)
    (sound : (l.advance .close [.writer .done, .writer .done, .consumer, .consumer]).2.2.Sound) :
    (l.advance .close [.writer .done, .writer .done, .consumer, .consumer]).1.isSome = true := by
  -- The first turn either ends the writer or begins to close the connection, which the second ends.
  have first := turned l .close (.writer .done)
  rw [advance_cons_of_pending first.writer_pending] at sound ⊢
  obtain ⟨closing, same, shut⟩ := closing.writer_turned first sound.of_advance
  generalize (l.turn .close (.writer .done)).1 = between at *
  have second := turned between .close (.writer .done)
  rw [advance_cons_of_pending second.writer_pending] at sound ⊢
  obtain ⟨closing, same', ended⟩ := closing.writer_turned second sound.of_advance
  refine closing.joining_returns (same'.trans (same.trans reader)) (ended.resolve_right ?_)
  rintro ⟨idle, -⟩
  rcases shut with ended | ⟨-, closing⟩
  · cases idle.symm.trans ended
  · cases idle.symm.trans closing

/-- Both tasks end, and then the call. -/
theorem Closing.tasks_return (closing : Closing l)
    (sound : (l.advance .close
      [.reader, .writer .done, .writer .done, .consumer, .consumer]).2.2.Sound) :
    (l.advance .close
      [.reader, .writer .done, .writer .done, .consumer, .consumer]).1.isSome = true := by
  obtain ⟨closing, ended, pending⟩ := closing.reader_turned (turned l .close .reader)
  rw [advance_cons_of_pending pending] at sound ⊢
  exact closing.writer_returns ended sound

/-- A call to close returns, whether it has been made yet or not. -/
theorem Shuts.returns (shuts : Shuts l none)
    (sound : (l.advance .close (l.completion .close)).2.2.Sound) :
    (l.advance .close (l.completion .close)).1.isSome = true := by
  rw [completion] at sound ⊢
  -- One turn begins the call, if it has not begun, and then the tasks end.
  cases shuts with
  | before follows idle =>
    obtain ⟨closing, pending⟩ := follows.consumer_closes idle (turned l .close .consumer)
    rw [advance_cons_of_pending pending] at sound ⊢
    exact closing.tasks_return sound
  | closing closing =>
    obtain returned | ⟨closing, pending, -⟩ := closing.consumer_turned (turned l .close .consumer)
    · exact isSome_advance_of_returned returned
    · rw [advance_cons_of_pending pending] at sound ⊢
      exact closing.tasks_return sound

end Live

end Session

/-! ## Sources that serve frames -/

/-- A source serves frames as long as it is sound: with `Holds frames`, these are handed out one
after the other, then the end is told, and closing succeeds at any time. -/
structure FrameSource.Serves (σ : Type) [FrameSource σ] (Sound : σ → Prop)
    (Holds : List Octets → σ → Prop) : Prop where
  /-- What is sound after a call was so before it. -/
  before_next {source : σ} : Sound (nextFrame source).2 → Sound source
  before_close {source : σ} : Sound (close source).2 → Sound source
  next {frames : List Octets} {source : σ} : Holds frames source → Sound (nextFrame source).2 →
    (nextFrame source).1 = .ok frames.head? ∧ Holds frames.tail (nextFrame source).2
  close {frames : List Octets} {source : σ} : Holds frames source → Sound (close source).2 →
    (close source).1 = .ok ()
  bound {frames : List Octets} {source : σ} : Holds frames source → frames.length ≤ bound source

namespace Session.Scheduled

variable {l : Scheduled} {frames : List Octets}

/-- A session between two calls that has these frames still to hand out. -/
structure Holds (frames : List Octets) (l : Scheduled) : Prop where
  follows : l.toLive.Follows frames
  idle : l.state.call = .idle

theorem await_next (holds : Holds frames l) (sound : (l.await .next).2.toLive.Sound) :
    (l.await .next).1.isSome = true ∧
      (l.await .next).2.toLive.Awaits frames (l.await .next).1 := by
  -- The schedule may answer the call; if it does not, the turns behind it do.
  have first (sound : (l.toLive.advance .next l.schedule).2.2.Sound) :=
    (Live.Awaits.pending holds.follows (.inl holds.idle)).advance sound
  unfold await at sound ⊢
  split at sound
  · next event rest live goes =>
    rw [goes] at first
    exact ⟨rfl, first sound⟩
  · next rest live goes =>
    rw [goes] at first
    have awaits := first sound.of_advance
    exact ⟨awaits.returns, awaits.advance sound⟩

theorem await_close (holds : Holds frames l) (sound : (l.await .close).2.toLive.Sound) :
    (l.await .close).1 = some (.closeReturned none) := by
  -- As for frames: the call returns in the schedule or in the turns behind it.
  have first (sound : (l.toLive.advance .close l.schedule).2.2.Sound) :=
    (Live.Shuts.before holds.follows holds.idle).advance sound
  unfold await at sound ⊢
  split at sound
  · next event rest live goes =>
    rw [goes] at first
    exact (first sound).eq_of_isSome rfl
  · next rest live goes =>
    rw [goes] at first
    have shuts := first sound.of_advance
    exact (shuts.advance sound).eq_of_isSome (shuts.returns sound)

theorem sound_of_await {call : Action} (sound : (l.await call).2.toLive.Sound) :
    l.toLive.Sound := by
  -- A run that is sound to its end was sound at its beginning.
  have before (sound : (l.toLive.advance call l.schedule).2.2.Sound) : l.toLive.Sound :=
    sound.of_advance
  unfold await at sound
  split at sound
  · next event rest live goes =>
    rw [goes] at before
    exact before sound
  · next rest live goes =>
    rw [goes] at before
    exact before sound.of_advance

/-- A session serves the frames that its server sends, unless it fails. -/
theorem serves : FrameSource.Serves Scheduled (·.toLive.Sound) Holds where
  before_next := sound_of_await
  before_close := sound_of_await
  -- What is returned is the next frame, or the end if there is none.
  next {frames l} holds sound := by
    obtain ⟨returns, awaits⟩ := await_next holds sound
    show frameOf (l.await .next).1 = _ ∧ Holds frames.tail (l.await .next).2
    generalize (l.await .next).1 = returned at *
    cases awaits with
    | pending => cases returns
    | frame follows idle => exact ⟨rfl, follows, idle⟩
    | ends follows idle => exact ⟨rfl, follows, idle⟩
  close {frames l} holds sound := by
    show closingOf (l.await .close).1 = _
    rw [await_close holds sound]
    rfl
  bound {frames l} holds := by
    show frames.length ≤ l.state.underway.length + l.inbox.length
    rw [← holds.follows.frames, List.length_append]
    exact Nat.add_le_add_left (List.length_filterMap_le _ _) _

/-- A configuration that can be used leaves room for a frame. -/
theorem frameCapacity_pos_of_validate {c : Config} (valid : c.validate = .ok ()) :
    0 < c.frameCapacity.toNat := by
  unfold Config.validate at valid
  split at valid
  · cases valid
  · split at valid
    · cases valid
    · split at valid
      · cases valid
      · next capacity =>
        exact Nat.pos_of_ne_zero fun none => capacity (UInt64.toNat_inj.1 none)

/-- A session that has connected has all frames of its server to hand out. -/
theorem holds_of_connect {messages : List Incoming} {c : Config} (schedule : List Mover)
    (goesOn : ∀ message ∈ messages, message.goesOn = true) (valid : c.validate = .ok ()) :
    ∃ l, connect messages schedule c = .ok l ∧ Holds (framesOf messages) l := by
  refine ⟨_, by rw [connect, valid]; rfl, ⟨rfl, ?_, rfl, .inr ⟨rfl, ?_⟩, ?_⟩, rfl⟩
  · exact frameCapacity_pos_of_validate valid
  · exact Live.endsInOrder_append goesOn
  · show framesOf (messages ++ [.closed]) = framesOf messages
    rw [framesOf, List.filterMap_append]
    exact List.append_nil _

end Session.Scheduled

end ChainFollower
