import ChainFollower.Protocol.Envelope

/-!
# Sources of frames

What consumers of frames need of whatever brings them: a session, or frames that were saved.
-/

namespace ChainFollower

/-- A source of frames, read one after the other. -/
class FrameSource (σ : Type) where
  /-- The next frame, or nothing once the stream has ended in order; and the source after that. -/
  nextFrame : σ → Except TransportError (Option Octets) × σ
  /-- Stops the source. -/
  close : σ → Except TransportError Unit × σ
  /-- The endpoint that is read. -/
  url : σ → String
  /-- The source hands out no more frames than this. -/
  bound : σ → Nat

namespace FrameSource

variable {σ : Type} [FrameSource σ]

/-- The next frame, read as a response. -/
def nextResponse (source : σ) : Except ResponseError (Option Response) × σ :=
  match nextFrame source with
  | (.error e, rest) => (.error (.transport e), rest)
  | (.ok none, rest) => (.ok none, rest)
  | (.ok (some frame), rest) =>
    match Response.decode frame with
    | .ok r => (.ok (some r), rest)
    | .error e => (.error (.decode e), rest)

end FrameSource

/-! ## Saved frames -/

/-- Frames and failures in the order in which they are read. -/
structure Playback where
  queue : List (Except TransportError Octets)

namespace Playback

/-- Takes what comes first; an empty queue is the end of the stream. -/
def nextFrame (p : Playback) : Except TransportError (Option Octets) × Playback :=
  match p.queue with
  | [] => (.ok none, p)
  | .ok frame :: rest => (.ok (some frame), ⟨rest⟩)
  | .error e :: rest => (.error e, ⟨rest⟩)

/-- Drops all that was not read. -/
def close (_ : Playback) : Except TransportError Unit × Playback := (.ok (), ⟨[]⟩)

instance : FrameSource Playback where
  nextFrame := nextFrame
  close := close
  url _ := "playback://"
  bound p := p.queue.length

end Playback

end ChainFollower
