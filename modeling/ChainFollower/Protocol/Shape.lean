import ChainFollower.Error
import ChainFollower.Item.Reader

/-!
# Shapes

A payload may come in one of several shapes.  An `Attempt` at one of them declines a payload of
another shape, accepts one of its own, or finds one of its own to be broken; the first attempt that
does not decline decides.
-/

namespace ChainFollower

/-- The protocol generation that is spoken. -/
inductive WireShape
  | current
  | legacy
  deriving DecidableEq

/-- An attempt to read a document in one shape; it declines with nothing. -/
abbrev Attempt (α : Type) := Json → Except DecodeError (Option α)

/-- The answer of the first attempt that does not decline. -/
def Attempt.resolve {α : Type} : List (Attempt α) → Json → Except DecodeError α
  | [], _ => .error (.refused .unrecognizedShape)
  | attempt :: rest, raw =>
    match attempt raw with
    | .ok (some a) => .ok a
    | .ok none => resolve rest raw
    | .error e => .error e

namespace Reader

/-- One of several names that stand alone.  The name may also be the only member of an object: in a
document its value is `null`, in a binary one it is not looked at. -/
def oneOf {α : Type} (names : List (String × α)) : Reader α := fun m item => do
  let (name, beside) ← choice m item
  let isAlone := match m, beside with
    | .document, some beside => beside.isNull
    | _, _ => true
  match names.lookup name with
  | some a => if isAlone then .ok a else refuse
  | none => refuse

end Reader

end ChainFollower
