import ChainFollower.Number.Decimal
import ChainFollower.Number.Binary64

/-!
# Shortest decimal text of a floating-point number

`digits` gives the fewest decimal digits that read back to the number, and of those the nearest to
it. A `Layout` then says how they are written: where the positional form ends, and how an exponent
looks.
-/

namespace ChainFollower.Shortest

/-- Which of two equally near decimals is taken. -/
inductive Tie
  | toEven
  | up
  deriving DecidableEq

/-- Decimal digits `d` and a power `k`: the number `d · 10 ^ k`. -/
structure Decimal where
  digits : Nat
  power : Int
  deriving DecidableEq

/-- `a / b < c / d` for positive denominators. -/
def ratioLt (a b c d : Nat) : Bool := a * d < c * b

/-- Whether the decimal `d · 10 ^ k` reads back to the finite nonzero number `x`: it lies between
the midpoints to the two neighbours, the midpoints included if the significand is even. -/
def readsBack (x : Binary64) (d : Nat) (k : Int) : Bool :=
  let m := x.significand
  -- Below a power of two the next number is half as far as above it.
  let closeBelow := x.fraction == 0 && 1 < x.biased
  let e := x.exponent - 2
  let low := (if closeBelow then 4 * m - 1 else 4 * m - 2) * pow2 e.toNat
  let high := (4 * m + 2) * pow2 e.toNat
  let unit := pow2 (-e).toNat
  let num := d * pow10 k.toNat
  let den := pow10 (-k).toNat
  if m % 2 = 0 then !ratioLt num den low unit && !ratioLt high unit num den
  else ratioLt low unit num den && ratioLt num den high unit

/-- The multiple of `10 ^ k` nearest to `x` among the two neighbours that read back. -/
def onGrid? (tie : Tie) (x : Binary64) (k : Int) : Option Nat :=
  let e := x.exponent
  let num := x.significand * pow2 e.toNat * pow10 (-k).toNat
  let den := pow2 (-e).toNat * pow10 k.toNat
  let q := num / den
  let r := num % den
  match readsBack x q k, readsBack x (q + 1) k with
  | true, true =>
    if 2 * r < den then some q
    else if den < 2 * r then some (q + 1)
    else match tie with
      | .up => some (q + 1)
      | .toEven => some (q + q % 2)
  | true, false => some q
  | false, true => some (q + 1)
  | false, false => none

/-- The number of digits before the point of a positive quotient, less one. -/
def magnitude (num den : Nat) : Int :=
  if den ≤ num then ((Nat.toDigits 10 (num / den)).length : Int) - 1
  else
    let n := (Nat.toDigits 10 (den / num)).length
    if den ≤ num * pow10 (n - 1) then -((n : Int) - 1) else -(n : Int)

/-- Tries grids from the coarsest on; the seventeenth digit always suffices. -/
def search (tie : Tie) (x : Binary64) : Nat → Int → Option Decimal
  | 0, _ => none
  | fuel + 1, k =>
    match onGrid? tie x k with
    | some d => some ⟨d, k⟩
    | none => search tie x fuel (k - 1)

/-- Moves the zeros at the end of the digits into the power. -/
def stripZeros : Nat → Decimal → Decimal
  | 0, d => d
  | fuel + 1, d =>
    if d.digits % 10 = 0 ∧ d.digits ≠ 0 then stripZeros fuel ⟨d.digits / 10, d.power + 1⟩ else d

/-- The fewest digits that read back to a finite nonzero number. -/
def digits (tie : Tie) (x : Binary64) : Decimal :=
  let e := x.exponent
  let top := magnitude (x.significand * pow2 e.toNat) (pow2 (-e).toNat)
  stripZeros 20 ((search tie x 19 (top + 1)).getD ⟨x.significand, 0⟩)

/-! ## Layouts -/

/-- How the digits are written. -/
structure Layout where
  tie : Tie
  /-- The least power of ten that is written positionally. -/
  low : Int
  /-- The first power of ten that is written with an exponent again. -/
  high : Int
  /-- Whether a whole number keeps `.0`. -/
  pointZero : Bool

/-- The form in documents: positional from `0.00001` to below `10 ^ 16`, otherwise an exponent with
its sign; a whole number keeps `.0`. -/
def Layout.document : Layout := ⟨.toEven, -5, 16, true⟩

/-- The form in messages: always positional, a whole number without a point. -/
def Layout.message : Layout := ⟨.up, -400, 400, false⟩

/-- Digits with the point after the first `n` of them, zeros filling the gap on either side. -/
def positional (pointZero : Bool) (ds : List Char) (n : Int) : List Char :=
  if n ≤ 0 then ['0', '.'] ++ List.replicate (-n).toNat '0' ++ ds
  else if (ds.length : Int) ≤ n then
    ds ++ List.replicate (n.toNat - ds.length) '0' ++ (if pointZero then ['.', '0'] else [])
  else ds.take n.toNat ++ ['.'] ++ ds.drop n.toNat

/-- One digit, the point if more follow, and the power of ten with its sign. -/
def scientific (ds : List Char) (power : Int) : List Char :=
  ds.take 1 ++ (if 1 < ds.length then ['.'] ++ ds.drop 1 else []) ++ ['e'] ++
    [if power < 0 then '-' else '+'] ++ ChainFollower.Decimal.digits power.natAbs

/-- The text of a finite number. -/
def text (f : Layout) (x : Binary64) : List Char :=
  let sign := if x.isNegative then ['-'] else []
  if x.isZero then sign ++ ['0'] ++ (if f.pointZero then ['.', '0'] else [])
  else
    let d := digits f.tie x
    let ds := ChainFollower.Decimal.digits d.digits
    let power := d.power + ds.length - 1
    sign ++ if f.low ≤ power ∧ power < f.high then positional f.pointZero ds (power + 1)
      else scientific ds power

example : text .document (Binary64.ofRatio false 1 10) = "0.1".toList := by decide +kernel
example : text .document (Binary64.ofNat (pow10 16)) = "1e+16".toList := by decide +kernel
example : text .document (Binary64.ofNat (pow10 15)) = "1000000000000000.0".toList := by
  decide +kernel
example : text .document ⟨1⟩ = "5e-324".toList := by decide +kernel
example : text .document (Binary64.ofRatio true 0 1) = "-0.0".toList := by decide +kernel
example : text .message (Binary64.ofNat 1000) = "1000".toList := by decide +kernel

end ChainFollower.Shortest
