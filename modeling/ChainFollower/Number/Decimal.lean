import ChainFollower.Text.Blank

/-!
# Decimal integers

The text of integers and the two readers of them.  `readInt` takes an amount of any size: blanks
around it, one sign, digits, and underscores between digits.  `readWord` takes a counter of a fixed
width: one plus sign at most, and digits only.
-/

namespace ChainFollower.Decimal

/-- Why a text is no integer. -/
inductive Fault
  /-- No digit stands where one must. -/
  | empty
  /-- A character other than a digit. -/
  | badDigit
  /-- More than the width of the counter holds. -/
  | tooLarge
  deriving DecidableEq

/-- The wording of a fault. -/
def Fault.message : Fault → String
  | .empty => "cannot parse integer from empty string"
  | .badDigit => "invalid digit found in string"
  | .tooLarge => "number too large to fit in target type"

/-- A decimal digit. -/
def isDigit (c : Char) : Bool := '0' ≤ c && c ≤ '9'

/-- The value of a decimal digit. -/
def digitValue (c : Char) : Nat := c.toNat - 48

/-- The number that a run of digits denotes. -/
def value (ds : List Char) : Nat := ds.foldl (fun n c => 10 * n + digitValue c) 0

/-- Digits with underscores among them, the first character a digit. -/
def readMagnitude (cs : List Char) : Except Fault Nat :=
  match cs with
  | [] => .error .empty
  | '_' :: _ => .error .badDigit
  | _ =>
    if cs.all fun c => isDigit c || c == '_' then .ok (value (cs.filter isDigit))
    else .error .badDigit

/-- Drops one leading plus sign; of two, none is a sign. -/
def dropPlus : List Char → List Char
  | '+' :: '+' :: rest => '+' :: '+' :: rest
  | '+' :: rest => rest
  | cs => cs

/-- An integer of any size.  A minus sign counts only if no plus sign follows it. -/
def readInt (cs : List Char) : Except Fault Int :=
  match Text.trim cs with
  | '-' :: '+' :: rest => (readMagnitude ('-' :: '+' :: rest)).map fun n => -(n : Int)
  | '-' :: rest => (readMagnitude rest).map fun n => -(n : Int)
  | rest => (readMagnitude (dropPlus rest)).map fun n => (n : Int)

/-- Digits of a number below `bound`, the first fault from the left reported. -/
def readDigits (bound : Nat) : Nat → List Char → Except Fault Nat
  | n, [] => .ok n
  | n, c :: rest =>
    if isDigit c then
      if 10 * n + digitValue c < bound then readDigits bound (10 * n + digitValue c) rest
      else .error .tooLarge
    else .error .badDigit

/-- A number below `bound`, without sign or with a plus sign. -/
def readWord (bound : Nat) (cs : List Char) : Except Fault Nat :=
  match cs with
  | [] => .error .empty
  | ['+'] => .error .badDigit
  | '+' :: rest => readDigits bound 0 rest
  | _ => readDigits bound 0 cs

/-- Decimal digits, the shortest run. -/
def digits (n : Nat) : List Char := Nat.toDigits 10 n

example : readInt " -1_000 ".toList = .ok (-1000) := rfl
example : readInt "-+5".toList = .error .badDigit := rfl
example : readInt "+".toList = .error .empty := rfl
example : readWord 256 "+255".toList = .ok 255 := rfl
example : readWord 256 "256x".toList = .error .tooLarge := rfl

end ChainFollower.Decimal
