import ChainFollower.Number.Power

/-!
# Binary floating point

Sixty-four-bit floating-point numbers as their bits, with exact arithmetic on significand and
exponent.  `ofRatio` rounds a quotient to the nearest number, ties to the even significand; product
and quotient are rounded that way from the exact result.
-/

namespace ChainFollower

/-- A binary64 number, told apart by its bits. -/
structure Binary64 where
  bits : UInt64
  deriving DecidableEq

namespace Binary64

/-! ## Parts -/

/-- The sign bit. -/
def isNegative (x : Binary64) : Bool := pow2 63 ≤ x.bits.toNat

/-- The biased exponent. -/
def biased (x : Binary64) : Nat := x.bits.toNat / pow2 52 % pow2 11

/-- The stored part of the significand. -/
def fraction (x : Binary64) : Nat := x.bits.toNat % pow2 52

/-- Neither infinite nor not-a-number. -/
def isFinite (x : Binary64) : Bool := x.biased != 2047

/-- The significand `m` of a finite number `±m · 2 ^ e`. -/
def significand (x : Binary64) : Nat :=
  if x.biased = 0 then x.fraction else pow2 52 + x.fraction

/-- The exponent `e` of a finite number `±m · 2 ^ e`. -/
def exponent (x : Binary64) : Int :=
  if x.biased = 0 then -1074 else (x.biased : Int) - 1075

/-- Zero of either sign. -/
def isZero (x : Binary64) : Bool := x.biased == 0 && x.fraction == 0

/-- Assembles sign, biased exponent and fraction. -/
def pack (negative : Bool) (biased fraction : Nat) : Binary64 :=
  ⟨UInt64.ofNat ((if negative then pow2 63 else 0) + biased * pow2 52 + fraction)⟩

/-- The number of the other sign. -/
def neg (x : Binary64) : Binary64 :=
  pack (!x.isNegative) x.biased x.fraction

/-- Infinity. -/
def infinity (negative : Bool) : Binary64 := pack negative 2047 0

/-! ## Rounding -/

/-- The quotient to the nearest integer, a tie to the even one. -/
def roundDiv (num den : Nat) : Nat :=
  let q := num / den
  let r := num % den
  if 2 * r < den then q
  else if den < 2 * r then q + 1
  else q + q % 2

/-- The exponent `e` of the unit in which `num / den` is rounded: the quotient lies in
`[2 ^ 52, 2 ^ 53)` units of `2 ^ e`, and no unit is below `2 ^ (-1074)`. -/
def unitOf (num den : Nat) : Int :=
  let guess : Int := (Nat.log2 num : Int) - (Nat.log2 den : Int) - 52
  let e := if num * pow2 (-guess).toNat < pow2 52 * den * pow2 guess.toNat then guess - 1 else guess
  max e (-1074)

/-- The number nearest to `num / den`, with the given sign. -/
def ofRatio (negative : Bool) (num den : Nat) : Binary64 :=
  if num = 0 then pack negative 0 0
  else
    let e := unitOf num den
    let m := roundDiv (num * pow2 (-e).toNat) (den * pow2 e.toNat)
    -- Rounding up may have reached the next power of two.
    let (m, e) := if m = pow2 53 then (pow2 52, e + 1) else (m, e)
    if m < pow2 52 then pack negative 0 m
    else if 971 < e then infinity negative
    else pack negative (e + 1075).toNat (m - pow2 52)

/-- The number nearest to a natural number. -/
def ofNat (n : Nat) : Binary64 := ofRatio false n 1

/-- The product of two finite numbers, rounded. -/
def mul (x y : Binary64) : Binary64 :=
  let e := x.exponent + y.exponent
  ofRatio (x.isNegative != y.isNegative)
    (x.significand * y.significand * pow2 e.toNat) (pow2 (-e).toNat)

/-- The quotient of two finite numbers, the second not zero, rounded. -/
def div (x y : Binary64) : Binary64 :=
  let e := x.exponent - y.exponent
  ofRatio (x.isNegative != y.isNegative)
    (x.significand * pow2 e.toNat) (y.significand * pow2 (-e).toNat)

/-! ## Narrower formats -/

/-- A format with `width` exponent bits and `stored` significand bits. -/
structure Format where
  width : Nat
  stored : Nat

/-- Half precision. -/
def Format.half : Format := ⟨5, 10⟩

/-- Single precision. -/
def Format.single : Format := ⟨8, 23⟩

/-- The number that the bits of a narrower format denote. -/
def widen (f : Format) (bits : Nat) : Binary64 :=
  let negative := bits / pow2 (f.width + f.stored) % 2 == 1
  let biased := bits / pow2 f.stored % pow2 f.width
  let fraction := bits % pow2 f.stored
  let bias : Nat := pow2 (f.width - 1) - 1
  -- An exponent of ones only is that of infinity and of what is no number.
  if biased = pow2 f.width - 1 then pack negative 2047 (fraction * pow2 (52 - f.stored))
  else
    let m := if biased = 0 then fraction else pow2 f.stored + fraction
    let e : Int := (max biased 1 : Nat) - (bias + f.stored : Nat)
    ofRatio negative (m * pow2 e.toNat) (pow2 (-e).toNat)

/-- The bits in a narrower format, if the number is one of its finite numbers. -/
def narrow? (f : Format) (x : Binary64) : Option Nat :=
  let bias : Nat := pow2 (f.width - 1) - 1
  let sign := if x.isNegative then pow2 (f.width + f.stored) else 0
  if !x.isFinite then none
  else if x.significand = 0 then some sign
  else
    let top : Int := (Nat.log2 x.significand : Int) + x.exponent
    let e : Int := max (top - f.stored) (1 - (bias + f.stored : Nat))
    let d := x.exponent - e
    let num := x.significand * pow2 d.toNat
    let den := pow2 (-d).toNat
    -- A bit would be lost.
    if num % den ≠ 0 then none
    else
      let m := num / den
      let biased : Int := if m < pow2 f.stored then 0 else e + (bias + f.stored : Nat)
      if biased < (pow2 f.width : Int) - 1 then
        some (sign + biased.toNat * pow2 f.stored + m % pow2 f.stored)
      else none

example : (ofNat 1).bits = 0x3ff0000000000000 := by decide +kernel
example : (ofRatio true 1 10).bits = 0xbfb999999999999a := by decide +kernel
example : (ofNat (pow10 308)).bits = 0x7fe1ccf385ebc8a0 := by decide +kernel
example : (ofRatio false 5 (pow10 324)).bits = 1 := by decide +kernel
example : narrow? .half (ofRatio false 3 2) = some 0x3e00 := by decide +kernel
example : narrow? .half (ofNat 65504) = some 0x7bff ∧ narrow? .half (ofNat 65505) = none := by
  decide +kernel
example : narrow? .single (ofRatio false 1 10) = none := by decide +kernel
example : widen .half 0x0001 = ofRatio false 1 (pow2 24) := by decide +kernel

end Binary64

end ChainFollower
