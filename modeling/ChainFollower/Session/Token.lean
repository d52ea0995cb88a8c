/-!
# Cancellation tokens

A token is a signal with ancestors: it counts as cancelled once it, or a token above it, has been
cancelled.  Making a child never touches its parent, and a cancellation is never taken back.

A token carries the signals of its whole lineage, its own first.  Which signals are raised is kept
in `Signals`, so that copies of one token share its state.
-/

namespace ChainFollower

/-- A token: its own signal and those of its ancestors, the nearest first. -/
structure Token where
  own : Nat
  ancestors : List Nat
  deriving DecidableEq

namespace Token

/-- The signals that cancel a token. -/
def lineage (t : Token) : List Nat := t.own :: t.ancestors

end Token

/-- The state of all signals: how many there are, and which have been raised. -/
structure Signals where
  count : Nat
  raised : List Nat
  deriving DecidableEq

namespace Signals

/-- No signals yet. -/
def empty : Signals := ⟨0, []⟩

instance : Inhabited Signals := ⟨empty⟩

/-- A token below the given ancestors, with a signal of its own. -/
def extend (s : Signals) (ancestors : List Nat) : Token × Signals :=
  (⟨s.count, ancestors⟩, { s with count := s.count + 1 })

/-- A token of its own. -/
def new (s : Signals) : Token × Signals := s.extend []

/-- A token that is cancelled together with another. -/
def child (s : Signals) (t : Token) : Token × Signals := s.extend t.lineage

/-- Raises a token's own signal. -/
def cancel (s : Signals) (t : Token) : Signals := { s with raised := t.own :: s.raised }

/-- Whether a signal has been raised. -/
def isRaised (s : Signals) (signal : Nat) : Bool := s.raised.contains signal

/-- Whether a token or one of its ancestors has been cancelled. -/
def isCancelled (s : Signals) (t : Token) : Bool := t.lineage.any s.isRaised

/-- How a token is shown. -/
def describe (s : Signals) (t : Token) : String :=
  "CancelToken \x7b cancelled: " ++ (if s.isCancelled t then "true" else "false") ++ " \x7d"

end Signals

/-! ## Waiting -/

/-- A wait for a token watches each signal of the lineage; any of them ends it. -/
structure Wait where
  watched : List Nat
  deriving DecidableEq

/-- Starts to wait for a token. -/
def Token.wait (t : Token) : Wait := ⟨t.lineage⟩

/-- Whether a wait is over. -/
def Wait.isOver (w : Wait) (s : Signals) : Bool := (w.watched.find? s.isRaised).isSome

example :
    let (parent, s) := Signals.empty.new
    let (child, s) := s.child parent
    (s.cancel parent).isCancelled child = true ∧ (s.cancel child).isCancelled parent = false := by
  decide

example :
    let (token, s) := Signals.empty.new
    token.wait.isOver s = false ∧ token.wait.isOver (s.cancel token) = true := by decide

end ChainFollower
