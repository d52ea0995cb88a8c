import ChainFollower.CommandLine.Outcome
import ChainFollower.Proofs.Session.Serving

/-!
# What following prints

`readFrames` is shown to print the responses that can be read from the frames of a source, each one
in its turn, until as many have been printed as were asked for.  This needs nothing of the source
but that it serves its frames; a session does so under any schedule, unless it fails.

Main statement: `tail_prints_responses`, for all frames, limits, ways of printing and schedules.
-/

namespace ChainFollower.Tail

/-! ## What there is to print -/

/-- The responses that can be read from frames, in order. -/
def responses (frames : List Octets) : List Response :=
  frames.filterMap fun frame => (Response.decode frame).toOption

/-- The first elements of a list, as many as are asked for. -/
def cut {α : Type} (limit : Option Nat) (l : List α) : List α :=
  match limit with
  | none => l
  | some n => l.take n

/-- How many responses are still to be printed, if there is a limit. -/
def Progress.left (p : Progress) (limit : Option UInt64) : Option Nat :=
  limit.map fun n => n.toNat - p.printed

variable {progress : Progress} {limit : Option UInt64} {asJson : Bool} {frames : List Octets}

theorem cut_of_isDone {α : Type} (done : progress.isDone limit = true) (l : List α) :
    cut (progress.left limit) l = [] := by
  cases limit with
  | none => cases done
  | some n =>
    have enough : n.toNat ≤ progress.printed := of_decide_eq_true done
    show l.take (n.toNat - progress.printed) = []
    rw [Nat.sub_eq_zero_of_le enough, List.take_zero]

theorem cut_nil {α : Type} (limit : Option Nat) : cut limit ([] : List α) = [] := by
  cases limit with
  | none => rfl
  | some n => exact List.take_nil

/-- With one response more printed, one less is left. -/
theorem cut_cons {α : Type} (more : progress.isDone limit = false) (r : Response) (x : α)
    (l : List α) :
    cut (progress.left limit) (x :: l) = x :: cut ((progress.record r).left limit) l := by
  cases limit with
  | none => rfl
  | some n =>
    have few : ¬ n.toNat ≤ progress.printed := of_decide_eq_false more
    show (x :: l).take (n.toNat - progress.printed) =
      x :: l.take (n.toNat - (progress.printed + 1))
    rw [show n.toNat - progress.printed = n.toNat - (progress.printed + 1) + 1 by omega,
      List.take_succ_cons]

theorem responses_cons_ok {frame : Octets} {r : Response} (decoded : Response.decode frame = .ok r) :
    responses (frame :: frames) = r :: responses frames :=
  List.filterMap_cons_some (by rw [decoded]; rfl)

theorem responses_cons_error {frame : Octets} {e : DecodeError}
    (refused : Response.decode frame = .error e) :
    responses (frame :: frames) = responses frames :=
  List.filterMap_cons_none (by rw [refused]; rfl)

/-! ## Reading the frames of a source -/

variable {σ : Type} [FrameSource σ] {Sound : σ → Prop} {Holds : List Octets → σ → Prop}
  {source : σ}

theorem nextResponse_of_end {rest : σ} (came : FrameSource.nextFrame source = (.ok none, rest)) :
    FrameSource.nextResponse source = (.ok none, rest) := by
  rw [FrameSource.nextResponse, came]

theorem nextResponse_of_ok {frame : Octets} {r : Response} {rest : σ}
    (came : FrameSource.nextFrame source = (.ok (some frame), rest))
    (decoded : Response.decode frame = .ok r) :
    FrameSource.nextResponse source = (.ok (some r), rest) := by
  rw [FrameSource.nextResponse, came]
  dsimp only
  rw [decoded]

theorem nextResponse_of_error {frame : Octets} {e : DecodeError} {rest : σ}
    (came : FrameSource.nextFrame source = (.ok (some frame), rest))
    (refused : Response.decode frame = .error e) :
    FrameSource.nextResponse source = (.error (.decode e), rest) := by
  rw [FrameSource.nextResponse, came]
  dsimp only
  rw [refused]

/-- Reading a frame as a response changes the source as reading the frame does. -/
theorem nextResponse_snd (source : σ) :
    (FrameSource.nextResponse source).2 = (FrameSource.nextFrame source).2 := by
  unfold FrameSource.nextResponse
  split
  · next h => rw [h]
  · next h => rw [h]
  · next h =>
    rw [h]
    split <;> rfl

section Steps

variable {n : Nat} {rest : σ} (more : progress.isDone limit = false)
include more

theorem readFrames_end (next : FrameSource.nextResponse source = (.ok none, rest)) :
    readFrames limit asJson (n + 1) progress source = (⟨[], progress, .ok ()⟩, rest) := by
  rw [readFrames, more, if_neg Bool.false_ne_true, next]

theorem readFrames_response {r : Response}
    (next : FrameSource.nextResponse source = (.ok (some r), rest)) :
    readFrames limit asJson (n + 1) progress source =
      ((readFrames limit asJson n (progress.record r) rest).1.prepend (line asJson r),
        (readFrames limit asJson n (progress.record r) rest).2) := by
  rw [readFrames, more, if_neg Bool.false_ne_true, next]

theorem readFrames_undecodable {e : DecodeError}
    (next : FrameSource.nextResponse source = (.error (.decode e), rest)) :
    readFrames limit asJson (n + 1) progress source = readFrames limit asJson n progress rest := by
  rw [readFrames, more, if_neg Bool.false_ne_true, next]

theorem readFrames_failure {e : TransportError}
    (next : FrameSource.nextResponse source = (.error (.transport e), rest)) :
    readFrames limit asJson (n + 1) progress source = (⟨[], progress, .error e⟩, rest) := by
  rw [readFrames, more, if_neg Bool.false_ne_true, next]

/-- Whatever the next frame is, reading goes on from the source after it, or stops there. -/
theorem exists_readFrames_snd (asJson : Bool) (source : σ) : ∃ m ≤ n, ∃ progress',
    (readFrames limit asJson (n + 1) progress source).2 =
      (readFrames limit asJson m progress' (FrameSource.nextFrame source).2).2 := by
  rw [← nextResponse_snd]
  -- Responses and frames that cannot be decoded go on, an end and a failure do not.
  match next : FrameSource.nextResponse source with
  | (.ok none, rest) => exact ⟨0, Nat.zero_le _, progress, by rw [readFrames_end more next]; rfl⟩
  | (.ok (some r), rest) =>
    exact ⟨n, Nat.le_refl _, progress.record r, by rw [readFrames_response more next]⟩
  | (.error (.decode e), rest) =>
    exact ⟨n, Nat.le_refl _, progress, by rw [readFrames_undecodable more next]⟩
  | (.error (.transport e), rest) =>
    exact ⟨0, Nat.zero_le _, progress, by rw [readFrames_failure more next]; rfl⟩

end Steps

/-- A source that is sound after it has been read was sound before, -/
theorem sound_of_readFrames (serves : FrameSource.Serves σ Sound Holds) {n : Nat}
    (sound : Sound (readFrames limit asJson n progress source).2) : Sound source := by
  -- Strong induction, since what is read after a frame may be all the rest or nothing.
  induction n using Nat.strongRecOn generalizing progress source with
  | ind n ih =>
    match n with
    | 0 => exact sound
    | n + 1 =>
      cases more : progress.isDone limit with
      | true =>
        rw [readFrames, if_pos more] at sound
        exact sound
      | false =>
        obtain ⟨m, fewer, progress', same⟩ := exists_readFrames_snd more asJson source
        exact serves.before_next (ih m (Nat.lt_succ_of_le fewer) (same ▸ sound))

/-- and after its first frame. -/
theorem sound_next_of_readFrames (serves : FrameSource.Serves σ Sound Holds) {n : Nat}
    (more : progress.isDone limit = false)
    (sound : Sound (readFrames limit asJson (n + 1) progress source).2) :
    Sound (FrameSource.nextFrame source).2 := by
  obtain ⟨m, -, progress', same⟩ := exists_readFrames_snd more asJson source
  exact sound_of_readFrames serves (same ▸ sound)

/-- What reading comes to: the lines are those of the first responses, and the source is left with
the frames that were not read. -/
structure Prints (limit : Option UInt64) (asJson : Bool) (progress : Progress)
    (frames : List Octets) (Holds : List Octets → σ → Prop) (read : Followed × σ) : Prop where
  lines : read.1.lines = (cut (progress.left limit) (responses frames)).map (line asJson)
  outcome : read.1.outcome = .ok ()
  left : ∃ rest, Holds rest read.2

theorem prints_of_serves (serves : FrameSource.Serves σ Sound Holds) {n : Nat}
    (holds : Holds frames source) (enough : frames.length < n)
    (sound : Sound (readFrames limit asJson n progress source).2) :
    Prints limit asJson progress frames Holds (readFrames limit asJson n progress source) := by
  -- Frame by frame, each with one of the steps that reading takes.
  induction n generalizing progress frames source with
  | zero => exact absurd enough (Nat.not_lt_zero _)
  | succ n ih =>
    cases more : progress.isDone limit with
    | true =>
      rw [readFrames, if_pos more]
      refine ⟨?_, rfl, frames, holds⟩
      rw [cut_of_isDone more]
      rfl
    | false =>
      obtain ⟨answer, holds⟩ := serves.next holds (sound_next_of_readFrames serves more sound)
      have came : FrameSource.nextFrame source =
          (.ok frames.head?, (FrameSource.nextFrame source).2) := Prod.ext answer rfl
      cases frames with
      | nil =>
        rw [readFrames_end more (nextResponse_of_end came)]
        refine ⟨?_, rfl, [], holds⟩
        show [] = (cut _ []).map _
        rw [cut_nil]
        rfl
      | cons frame rest =>
        have fewer : rest.length < n := Nat.lt_of_succ_lt_succ enough
        cases decoded : Response.decode frame with
        | ok r =>
          rw [readFrames_response more (nextResponse_of_ok came decoded)] at sound ⊢
          obtain ⟨lines, outcome, left⟩ := ih holds fewer sound
          refine ⟨?_, outcome, left⟩
          rw [responses_cons_ok decoded, cut_cons more, List.map_cons]
          exact congrArg (line asJson r :: ·) lines
        | error e =>
          rw [readFrames_undecodable more (nextResponse_of_error came decoded)] at sound ⊢
          obtain ⟨lines, outcome, left⟩ := ih holds fewer sound
          refine ⟨?_, outcome, left⟩
          rw [responses_cons_error decoded]
          exact lines

/-! ## Following a source to its end -/

theorem follow_prints (serves : FrameSource.Serves σ Sound Holds) (holds : Holds frames source)
    (sound : Sound (follow limit asJson progress source).2) :
    (follow limit asJson progress source).1.lines =
        (cut (progress.left limit) (responses frames)).map (line asJson) ∧
      (follow limit asJson progress source).1.outcome = .ok () := by
  -- The bound of the source is one round too many, so the loop sees the end.
  have enough : frames.length < FrameSource.bound source + 1 :=
    Nat.lt_succ_of_le (serves.bound holds)
  have read : Prints limit asJson progress frames Holds
      (readFrames limit asJson (FrameSource.bound source + 1) progress source) :=
    prints_of_serves serves holds enough (serves.before_close sound)
  obtain ⟨lines, outcome, rest, left⟩ := read
  refine ⟨lines, ?_⟩
  simp only [follow]
  rw [outcome]
  -- What is left once the lines are printed is to close the source.
  exact serves.close left sound

variable {connect : Session.Config → Except TransportError σ} {o : Options} {points : List Point}
  {initial : List Point} {left attempt : Nat}

/-- Connecting opens the source that is followed. -/
theorem session_of_connect (connected : connect (o.config points) = .ok source) :
    session connect o points progress =
      ((follow o.count o.asJson progress source).1,
        some (follow o.count o.asJson progress source).2) := by
  rw [session, connected]

/-- The source that is followed first is among those of the report, whatever comes of it. -/
theorem mem_sources_of_connect
    (connected : connect (o.config (progress.resumePoints initial)) = .ok source) :
    (follow o.count o.asJson progress source).2 ∈
      (followAll connect o initial left attempt progress).sources := by
  unfold followAll
  rw [session_of_connect connected]
  dsimp only
  -- Whether it is tried again or not, the session that was opened is the first.
  split
  · exact List.mem_singleton_self _
  · split
    · exact List.mem_singleton_self _
    · split
      · split
        · exact List.mem_singleton_self _
        · exact List.mem_cons_self
      · exact List.mem_singleton_self _

/-- A source that serves its frames and stays sound is followed to its end, and no other after it.
-/
theorem followAll_prints (serves : FrameSource.Serves σ Sound Holds)
    (connected : connect (o.config (progress.resumePoints initial)) = .ok source)
    (holds : Holds frames source)
    (sound : ∀ s ∈ (followAll connect o initial left attempt progress).sources, Sound s) :
    followAll connect o initial left attempt progress =
      ⟨(cut (progress.left o.count) (responses frames)).map (line o.asJson), [],
        [(follow o.count o.asJson progress source).2], none⟩ := by
  obtain ⟨lines, outcome⟩ :=
    follow_prints serves holds (sound _ (mem_sources_of_connect connected))
  unfold followAll
  rw [session_of_connect connected]
  simp only [outcome, Report.last, lines]
  rfl

end ChainFollower.Tail

namespace ChainFollower.CommandLine.Outcome

open Session Tail

/-- Whether the command fails or not, it leaves the sources that it has followed. -/
theorem tail_snd {σ : Type} [FrameSource σ] {connect : Config → Except TransportError σ}
    {o : Options} {points : List Point} (start : o.startPoints? = some points) :
    (tail connect o).2 = (followAll connect o points o.retries.toNat 0 {}).sources := by
  simp only [tail, start]
  split <;> rfl

/-- The server sends frames, pings and other messages, and closes in order.  Under any schedule of
reader, writer and consumer, if the session puts no failure on record, following it prints the
responses that can be read from the frames, each on a line of its own: as a document without blanks,
or else as the text that tells of its intersection or of its step.  The lines stand in the order of
the frames, no more of them than were asked for, and the command succeeds. -/
theorem tail_prints_responses {o : Options} {points : List Point} {messages : List Incoming}
    {schedule : List Mover} (start : o.startPoints? = some points)
    (valid : (o.config points).validate = .ok ())
    (goesOn : ∀ message ∈ messages, message.goesOn = true)
    (sound : ∀ session ∈ (tail (Scheduled.connect messages schedule) o).2,
      failuresRecorded session.log = []) :
    (tail (Scheduled.connect messages schedule) o).1 = {
      exitCode := 0
      printed := String.join
        ((cut (o.count.map UInt64.toNat) (responses (framesOf messages))).map fun r =>
          (if o.asJson then (toJson r).compact
            else match r.result with
              | .intersection i => i.describe
              | .step s => s.describe) ++ "\n")
      complaint := none
      pauses := [] } := by
  obtain ⟨l, connected, holds⟩ := Scheduled.holds_of_connect schedule goesOn valid
  rw [tail_snd start] at sound
  have report := followAll_prints Scheduled.serves connected holds sound
  -- Nothing has been printed yet, so all of the count is left.
  have whole : ({} : Progress).left o.count = o.count.map UInt64.toNat := by
    cases o.count <;> rfl
  simp only [tail, start, report, whole, lines, List.map_map]
  rfl

/-- An object as a frame. -/
def objectFrame (members : List (String × Json)) : Incoming := .data (Json.object members).octets

/-- A tip in an answer of an older node. -/
def olderTip (slot : Nat) : Json :=
  .object [("slot", .int slot), ("hash", .text "t"), ("blockNo", .int 3)]

/-- A tip in an answer of a newer node. -/
def newerTip (slot : Nat) : Json :=
  .object [("slot", .int slot), ("id", .text "t"), ("height", .int 3)]

/-- Answers of both kinds of nodes: an intersection, a step forward and two backward, and that there
is no intersection.  A frame that is no document and one that is no response stand between them. -/
def mixedMessages : List Incoming :=
  -- An intersection of the legacy shape, a frame that is no document, and a ping.
  [objectFrame [("methodname", .text "FindIntersect"), ("result", .object
      [("IntersectionFound", .object [("point", .text "origin"), ("tip", olderTip 7)])])],
    .data [33], .ping [],
    objectFrame [("method", .text "nextBlock"), ("result", .object
      [("direction", .text "forward"), ("tip", newerTip 7), ("block", .object
        [("id", .text "b"), ("height", .int 2), ("slot", .int 5),
          ("transactions", .array [.object [("id", .text "x")]])])])],
    objectFrame [("method", .text "nextBlock")],
    objectFrame [("methodname", .text "RequestNext"), ("result", .object
      [("RollBackward", .object [("point", .object [("slot", .int 4), ("hash", .text "a")]),
        ("tip", olderTip 8)])])],
    objectFrame [("method", .text "findIntersection"), ("error", .object
      [("code", .int 1000), ("message", .text "Intersection not found")])],
    objectFrame [("method", .text "nextBlock"), ("result", .object
      [("direction", .text "backward"), ("tip", newerTip 9), ("point", .text "origin")])]]

/-- The consumer asks before anything has come, and the connection is closed while the writer still
has something to send. -/
def mixedSchedule : List Mover :=
  [.consumer, .writer .done, .reader, .reader, .consumer, .reader, .writer .closed, .consumer]

/-- Follows the server for four responses. -/
def mixedTail (asJson : Bool) : Outcome × List Scheduled :=
  tail (Scheduled.connect mixedMessages mixedSchedule)
    { url := "ws://localhost:1337", count := some 4, asJson := asJson }

/-- Both ways of printing leave out the two frames that are no responses, and the fifth response. -/
theorem tail_prints_responses_mixed :
    (∀ asJson, ∀ session ∈ (mixedTail asJson).2, failuresRecorded session.log = []) ∧
      (mixedTail false).1 = {
        exitCode := 0
        printed := "intersection=origin tip=[slot=7 id=t height=3]\n" ++
          "forward slot=5 id=b block=2 txs=1 tip=[slot=7 id=t height=3]\n" ++
          "backward slot=4 id=a tip=[slot=8 id=t height=3]\n" ++
          "intersection not found (error 1000: Intersection not found)\n"
        complaint := none
        pauses := [] } ∧
      (mixedTail true).1 = {
        exitCode := 0
        printed :=
          "\x7b\"jsonrpc\":\"2.0\",\"method\":\"findIntersection\",\"result\":" ++
            "\x7b\"intersection\":\"origin\",\"tip\":" ++
            "\x7b\"slot\":7,\"id\":\"t\",\"height\":3\x7d\x7d\x7d\n" ++
          "\x7b\"jsonrpc\":\"2.0\",\"method\":\"nextBlock\",\"result\":" ++
            "\x7b\"direction\":\"forward\",\"tip\":" ++
            "\x7b\"slot\":7,\"id\":\"t\",\"height\":3\x7d,\"block\":" ++
            "\x7b\"id\":\"b\",\"height\":2,\"slot\":5,\"transactions\":" ++
            "[\x7b\"id\":\"x\"\x7d]\x7d\x7d\x7d\n" ++
          "\x7b\"jsonrpc\":\"2.0\",\"method\":\"nextBlock\",\"result\":" ++
            "\x7b\"direction\":\"backward\",\"tip\":" ++
            "\x7b\"slot\":8,\"id\":\"t\",\"height\":3\x7d,\"point\":" ++
            "\x7b\"slot\":4,\"id\":\"a\"\x7d\x7d\x7d\n" ++
          "\x7b\"jsonrpc\":\"2.0\",\"method\":\"findIntersection\",\"result\":" ++
            "\x7b\"error\":\x7b\"code\":1000,\"message\":\"Intersection not found\"\x7d\x7d," ++
            "\"error\":\x7b\"code\":1000,\"message\":\"Intersection not found\"\x7d\x7d\n"
        complaint := none
        pauses := [] } := by
  have sound : ∀ asJson, ∀ session ∈ (mixedTail asJson).2, failuresRecorded session.log = [] := by
    decide +kernel
  -- Both modes follow the same session, and only the lines differ.
  refine ⟨sound, (tail_prints_responses rfl rfl (by decide) (sound false)).trans ?_,
    (tail_prints_responses rfl rfl (by decide) (sound true)).trans ?_⟩
  · rw [Outcome.mk.injEq]
    decide +kernel
  · rw [Outcome.mk.injEq]
    decide +kernel

end ChainFollower.CommandLine.Outcome
