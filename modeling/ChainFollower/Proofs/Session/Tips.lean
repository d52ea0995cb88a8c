import Mathlib.Data.List.Destutter
import ChainFollower.Proofs.Session.Delivery

/-!
# The tip is never behind the frames

The reader keeps the tip of a frame before it looks for room for the frame in the queue.  So the tip
is that of the last frame with one that the reader has taken, and the consumer is handed no frame
that the tip does not account for.  Watchers are told of a tip in the step that changes it and in no
other: they are told of the tips of the frames, with the repeated ones left out.

`tipTurn_of_rule` says once what a step can do to the tip.  Main statement: `tip_follows_frames`,
for frames of all kinds and all interleavings.
-/

namespace ChainFollower.Session

/-! ## Tips -/

/-- The tip that watchers are told of. -/
def Event.tip? : Event → Option Tip
  | .tipChanged tip => some tip
  | _ => none

/-- The tips that watchers are told of, in order. -/
def tipsTold (events : List Event) : List Tip := events.filterMap Event.tip?

/-- The tips of the frames that have one, in order. -/
def tipsOf (frames : List Octets) : List Tip := frames.filterMap Peek.tip?

theorem tipsTold_append (before after : List Event) :
    tipsTold (before ++ after) = tipsTold before ++ tipsTold after :=
  List.filterMap_append

theorem tipsOf_append (before after : List Octets) :
    tipsOf (before ++ after) = tipsOf before ++ tipsOf after :=
  List.filterMap_append

theorem tipsOf_singleton (frame : Octets) : tipsOf [frame] = (Peek.tip? frame).toList := by
  cases peeked : Peek.tip? frame with
  | none => exact List.filterMap_cons_none peeked
  | some tip => exact List.filterMap_cons_some peeked

namespace State

/-! ## What a step can do -/

/-- What a step does to the tip, by the frame that the reader takes in it. -/
inductive TipTurn (s t : State) (events : List Event) : Prop
  /-- Most steps take no frame. -/
  | apart (read : framesRead events = []) (kept : t.tip = s.tip) (told : tipsTold events = [])
  /-- The frame has no tip. -/
  | bare {frame : Octets} (read : framesRead events = [frame]) (none : Peek.tip? frame = none)
      (kept : t.tip = s.tip) (told : tipsTold events = [])
  /-- The frame repeats the tip that is known. -/
  | repeats {frame : Octets} {tip : Tip} (read : framesRead events = [frame])
      (peeked : Peek.tip? frame = some tip) (known : s.tip = some tip) (kept : t.tip = some tip)
      (told : tipsTold events = [])
  /-- The frame has another tip, of which watchers are told once. -/
  | changes {frame : Octets} {tip : Tip} (read : framesRead events = [frame])
      (peeked : Peek.tip? frame = some tip) (another : s.tip ≠ some tip) (kept : t.tip = some tip)
      (told : tipsTold events = [tip])

variable {s t u : State} {action : Action} {actions : List Action} {events later : List Event}

/-- Taking a frame keeps its tip, and tells of it if it is another one. -/
theorem tipTurn_of_takes {frame : Octets} (kept : t.tip = (Peek.tip? frame).or s.tip) :
    TipTurn s t (.frameRead frame :: s.tipEvents (Peek.tip? frame)) := by
  have read := framesRead_takes s frame (Peek.tip? frame)
  -- A frame tells no tip, the tip that is known, or another one.
  cases peeked : Peek.tip? frame with
  | none =>
    rw [peeked] at kept read
    exact .bare read peeked kept rfl
  | some tip =>
    rw [peeked] at kept read
    by_cases known : s.tip = some tip
    · refine .repeats read peeked known kept ?_
      show tipsTold (s.tipEvents (some tip)) = []
      rw [tipEvents, if_pos known]
      rfl
    · refine .changes read peeked known kept ?_
      show tipsTold (s.tipEvents (some tip)) = [tip]
      rw [tipEvents, if_neg known]
      rfl

theorem tipTurn_of_rule (rule : Rule s action t events) : TipTurn s t events := by
  cases rule with
  | takes =>
    refine tipTurn_of_takes ?_
    rw [refill_eq]
    rfl
  | sends running before =>
    rcases sentEvent?_cases before with ⟨-, rfl⟩ | ⟨payload, -, rfl⟩ | ⟨-, rfl⟩ <;>
      exact .apart rfl rfl rfl
  | _ => exact .apart rfl rfl rfl

/-! ## What a run does -/

/-- What a run does to the tip. -/
structure FollowsTip (s t : State) (events : List Event) : Prop where
  /-- The tip is the last one of the frames that have been taken, if there is any. -/
  tip : t.tip = (tipsOf (framesRead events)).getLast?.or s.tip
  /-- After the tip that was known before, the tips told are those of the frames, each once for as
  long as it stays the same. -/
  told : s.tip.toList ++ tipsTold events =
    (s.tip.toList ++ tipsOf (framesRead events)).destutter (· ≠ ·)

/-- A step without a tip leaves what follows as it is. -/
theorem FollowsTip.after_none (seen : tipsOf (framesRead events) = []) (kept : t.tip = s.tip)
    (told : tipsTold events = []) (rest : FollowsTip t u later) :
    FollowsTip s u (events ++ later) := by
  have tips : tipsOf (framesRead (events ++ later)) = tipsOf (framesRead later) := by
    rw [framesRead_append, tipsOf_append, seen, List.nil_append]
  refine ⟨?_, ?_⟩
  · rw [tips, ← kept]
    exact rest.tip
  · rw [tips, tipsTold_append, told, ← kept]
    exact rest.told

/-- After a step with a tip, that one is known to what follows. -/
theorem FollowsTip.after_some {tip : Tip} (seen : tipsOf (framesRead events) = [tip])
    (kept : t.tip = some tip)
    (told : tipsTold events = if s.tip = some tip then [] else [tip])
    (rest : FollowsTip t u later) : FollowsTip s u (events ++ later) := by
  obtain ⟨htip, htold⟩ := rest
  rw [kept] at htip htold
  have tips : tipsOf (framesRead (events ++ later)) = tip :: tipsOf (framesRead later) := by
    rw [framesRead_append, tipsOf_append, seen, List.singleton_append]
  refine ⟨?_, ?_⟩
  · rw [tips, htip]
    simp [List.getLast?_cons]
  · rw [tips, tipsTold_append, told]
    cases before : s.tip with
    | none => simpa using htold
    | some old =>
      -- The tip at the head of the list is left out if it stands before the list already.
      rw [Option.toList_some, List.singleton_append, List.singleton_append,
        List.destutter_cons'] at htold
      by_cases same : old = tip <;> simpa [List.destutter_cons', same] using htold

theorem TipTurn.followsTip (first : TipTurn s t events) (rest : FollowsTip t u later) :
    FollowsTip s u (events ++ later) := by
  -- Only a frame with another tip adds to what is told.
  cases first with
  | apart read kept told =>
    refine rest.after_none ?_ kept told
    rw [read]
    rfl
  | bare read none kept told =>
    refine rest.after_none ?_ kept told
    rw [read, tipsOf_singleton, none]
    rfl
  | repeats read peeked known kept told =>
    refine rest.after_some ?_ kept (told.trans (if_pos known).symm)
    rw [read, tipsOf_singleton, peeked]
    rfl
  | changes read peeked another kept told =>
    refine rest.after_some ?_ kept (told.trans (if_neg another).symm)
    rw [read, tipsOf_singleton, peeked]
    rfl

theorem followsTip_run (run : s.run? actions = some (t, events)) :
    FollowsTip s t events :=
  run?_relates FollowsTip
    (fun s => ⟨rfl, by cases s.tip <;> rfl⟩)
    (fun rule rest => (tipTurn_of_rule rule).followsTip rest) run

/-- The tip is that of the last frame with one among those that the reader has received.  Watchers
have been told of the tips of all these frames in order, without immediate repetitions.  The frames
that the consumer has been handed are among them, as the first ones; and whatever step comes next
tells of a tip exactly if it takes a frame whose tip is another than the one known. -/
theorem tip_follows_frames {pipeline frameCapacity : Nat}
    (run : { pipeline, frameCapacity : State }.run? actions = some (s, events)) :
    framesRead events = framesReceived actions ∧
      s.tip = (tipsOf (framesRead events)).getLast? ∧
      tipsTold events = (tipsOf (framesRead events)).destutter (· ≠ ·) ∧
      framesReturned events <+: framesRead events ∧
      ∀ action t shown, s.step? action = some (t, shown) → TipTurn s t shown := by
  have follows := followsTip_run run
  refine ⟨framesRead_run run, ?_, follows.told, (List.prefix_append _ _).trans (flows_run run).onward,
    fun action t shown hstep => tipTurn_of_rule (rule_of_step? hstep)⟩
  -- No tip is known at the start.
  rw [follows.tip]
  exact Option.or_none

/-- A frame with a tip in this slot. -/
def frameWithTip (slot : String) : Octets :=
  Octets.ofText ("\x7b\"result\":\x7b\"tip\":\x7b\"slot\":" ++ slot ++
    ",\"id\":\"a\",\"height\":2\x7d\x7d\x7d")

/-- A frame that is no document comes between two with the same tip, and one with another tip waits
for room in the queue. -/
def tippedActions : List Action :=
  [.receive (.data (frameWithTip "1")), .reader, .next, .consumer, .receive (.data [33]), .reader,
    .next, .consumer, .receive (.data (frameWithTip "1")), .reader,
    .receive (.data (frameWithTip "3"))]

/-- Two frames have been handed out, and watchers have been told of the tip of the fourth. -/
theorem tip_follows_frames_waiting :
    ∃ s events,
      { pipeline := 1, frameCapacity := 1 : State }.run? tippedActions = some (s, events) ∧
        framesRead events = framesReceived tippedActions ∧
        s.reader = .delivering (frameWithTip "3") ∧
        framesReturned events = [frameWithTip "1", [33]] ∧ s.tip = some ⟨3, "a", 2⟩ ∧
        s.tip = (tipsOf (framesRead events)).getLast? ∧
        tipsTold events = [⟨1, "a", 2⟩, ⟨3, "a", 2⟩] ∧
        tipsTold events = (tipsOf (framesRead events)).destutter (· ≠ ·) ∧
        framesReturned events <+: framesRead events := by
  obtain ⟨s, events, run, reader, returned, tip, told⟩ : ∃ s events,
      { pipeline := 1, frameCapacity := 1 : State }.run? tippedActions = some (s, events) ∧
        s.reader = .delivering (frameWithTip "3") ∧
        framesReturned events = [frameWithTip "1", [33]] ∧ s.tip = some ⟨3, "a", 2⟩ ∧
        tipsTold events = [⟨1, "a", 2⟩, ⟨3, "a", 2⟩] := by
    refine ⟨{
        pipeline := 1, frameCapacity := 1, reader := .delivering (frameWithTip "3"),
        frames := [frameWithTip "1"], tip := some ⟨3, "a", 2⟩, answered := true },
      [.frameRead (frameWithTip "1"), .tipChanged ⟨1, "a", 2⟩, .frameReturned (frameWithTip "1"),
        .frameRead [33], .frameReturned [33], .frameRead (frameWithTip "1"),
        .frameRead (frameWithTip "3"), .tipChanged ⟨3, "a", 2⟩], ?_, rfl, rfl, rfl, rfl⟩
    decide +kernel
  obtain ⟨read, last, changes, inOrder, -⟩ := tip_follows_frames run
  exact ⟨s, events, run, read, reader, returned, tip, last, told, changes, inOrder⟩

end State

end ChainFollower.Session
