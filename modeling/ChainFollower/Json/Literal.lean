import ChainFollower.Json.Doc
import ChainFollower.Number.Binary64

/-!
# Meaning of literals

What a number literal and the inside of a text's quotes denote.

An integer literal that fits a signed or unsigned word is that integer; every other literal, minus
zero included, is a floating-point number.  Its first digits, as many as fit an unsigned word, are
taken as an integer, the others counted, and the power of ten is applied in floating-point steps;
the result may therefore be a neighbour of the number nearest to the literal.
-/

namespace ChainFollower.Literal

/-! ## Numbers -/

/-- What a number literal denotes. -/
inductive Number
  | int (n : Int)
  | float (x : Binary64)
  /-- Beyond the range of floating-point numbers. -/
  | outOfRange
  deriving DecidableEq

/-- The value of a digit. -/
def digitValue (b : UInt8) : Nat := b.toNat - 0x30

/-- Takes digits into a word as long as it holds them; the rest is returned. -/
def takeWord : Nat → Octets → Nat × Octets
  | n, [] => (n, [])
  | n, d :: ds =>
    let m := 10 * n + digitValue d
    if m < 0x10000000000000000 then takeWord m ds else (n, d :: ds)

/-- The digits of an exponent, `none` beyond a signed thirty-two-bit integer. -/
def exponentValue : Nat → Octets → Option Nat
  | n, [] => some n
  | n, d :: ds =>
    let m := 10 * n + digitValue d
    if m < 0x80000000 then exponentValue m ds else none

/-- Applies a power of ten to a number, by steps of at most `10 ^ 308`. -/
def scale (fuel : Nat) (x : Binary64) (power : Int) : Option Binary64 :=
  if power.natAbs ≤ 308 then
    let p := Binary64.ofNat (pow10 power.natAbs)
    if 0 ≤ power then
      let y := x.mul p
      if y.isFinite then some y else none
    else some (x.div p)
  -- Zero stays zero, and any other number is too large for such a power.
  else if x.isZero then some x
  else if 0 ≤ power then none
  else
    match fuel with
    | 0 => some x
    | fuel + 1 => scale fuel (x.div (Binary64.ofNat (pow10 308))) (power + 308)

/-- The floating-point number of a significand and a power of ten. -/
def ofParts (negative : Bool) (significand : Nat) (power : Int) : Number :=
  match scale 8 (Binary64.ofNat significand) power with
  | some x => .float (if negative then x.neg else x)
  | none => .outOfRange

/-- The power of ten that a literal adds by its exponent, kept within a signed thirty-two-bit
integer. -/
def clampPower (p : Int) : Int := max (-0x80000000) (min p 0x7fffffff)

/-- The parts of a number literal: sign, digits before the point, digits after it, and the exponent
with its sign. -/
structure Parts where
  negative : Bool
  whole : Octets
  fraction : Option Octets
  exponent : Option (Bool × Octets)

/-- Takes a number literal apart. -/
def parts (literal : Octets) : Parts :=
  let (sign, s) := Doc.scanSign literal
  let whole := s.takeWhile Doc.isDigit
  let s := s.dropWhile Doc.isDigit
  let (fraction, s) := match s with
    | 0x2e :: r => (some (r.takeWhile Doc.isDigit), r.dropWhile Doc.isDigit)
    | s => (none, s)
  let exponent := match s with
    | [] => none
    | _ :: r =>
      let (sign, ds) := Doc.scanExponentSign r
      some (sign == [0x2d], ds)
  ⟨!sign.isEmpty, whole, fraction, exponent⟩

/-- What a number literal denotes. -/
def number (literal : Octets) : Number :=
  let p := parts literal
  let (n, left) := takeWord 0 p.whole
  match left, p.fraction, p.exponent with
  | [], none, none =>
    if !p.negative then .int n
    -- Minus zero, and what is below the signed words, are floating-point numbers.
    else if n = 0 ∨ 0x8000000000000000 < n then .float (Binary64.ofNat n).neg
    else .int (-(n : Int))
  | _, _, _ =>
    -- Whole digits that a word no longer takes raise the power of ten instead.
    let fraction := p.fraction.getD []
    let (m, unused) := takeWord n fraction
    let power := (left.length : Int) - ((fraction.length - unused.length : Nat) : Int)
    match p.exponent with
    | none => ofParts p.negative m power
    | some (down, ds) =>
      match exponentValue 0 ds with
      | some e => ofParts p.negative m (clampPower (if down then power - e else power + e))
      -- With an exponent beyond all bounds the number is zero or out of range.
      | none =>
        if m ≠ 0 ∧ !down then .outOfRange
        else .float (if p.negative then (Binary64.ofNat 0).neg else Binary64.ofNat 0)

/-! ## Texts -/

/-- The value of a hexadecimal digit. -/
def hexValue (b : UInt8) : Nat :=
  if b ≤ 0x39 then b.toNat - 0x30 else if b ≤ 0x46 then b.toNat - 0x37 else b.toNat - 0x57

/-- The number of four hexadecimal digits. -/
def hexNumber (a b c d : UInt8) : Nat :=
  hexValue a * 4096 + hexValue b * 256 + hexValue c * 16 + hexValue d

/-- The byte that a plain escape stands for. -/
def plainEscape (b : UInt8) : UInt8 :=
  if b == 0x62 then 0x08 else if b == 0x66 then 0x0c else if b == 0x6e then 0x0a
  else if b == 0x72 then 0x0d else if b == 0x74 then 0x09 else b

/-- The UTF-8 bytes of a code point. -/
def codePoint (n : Nat) : Octets := String.utf8EncodeChar (Char.ofNat n)

/-- The bytes that the inside of a text's quotes stands for.  A number escape of a surrogate counts
only as the first half of a pair. -/
def unescape : Octets → Option Octets
  | [] => some []
  | 0x5c :: 0x75 :: a :: b :: c :: d :: rest =>
    let n := hexNumber a b c d
    if n < 0xd800 ∨ 0xe000 ≤ n then (unescape rest).map (codePoint n ++ ·)
    -- The first half of a pair, whose second half must follow.
    else if n < 0xdc00 then
      match rest with
      | 0x5c :: 0x75 :: a :: b :: c :: d :: rest =>
        let m := hexNumber a b c d
        if 0xdc00 ≤ m ∧ m < 0xe000 then
          (unescape rest).map
            (codePoint (0x10000 + (n - 0xd800) * 0x400 + (m - 0xdc00)) ++ ·)
        else none
      | _ => none
    else none
  | 0x5c :: e :: rest => (unescape rest).map (plainEscape e :: ·)
  | b :: rest => (unescape rest).map (b :: ·)

/-- The text between quotes, if its escapes pair up and its bytes are UTF-8. -/
def text? (raw : Octets) : Option String := (unescape raw).bind Octets.text?

example : number (Octets.ofText "-9223372036854775808") = .int (-9223372036854775808) := by
  decide +kernel
example : number (Octets.ofText "-0") = .float ⟨0x8000000000000000⟩ := by decide +kernel
example : number (Octets.ofText "1e400") = .outOfRange := by decide +kernel
example : text? (Octets.ofText "a\\u00e9\\ud83d\\ude00\\n") = some "aé😀\n" := by decide +kernel

end ChainFollower.Literal
