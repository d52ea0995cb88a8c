/-!
# Octets

Byte strings as lists, their UTF-8 reading and their hexadecimal text.

Main definitions: `String.octets` and `Octets.text?` pass between a text and its UTF-8 bytes,
`Hex.encode` and `Hex.decode?` between bytes and two digits a byte.
-/

namespace ChainFollower

/-- A byte string. -/
abbrev Octets := List UInt8

/-- The UTF-8 bytes of a list of characters. -/
def Octets.ofChars (cs : List Char) : Octets := cs.flatMap String.utf8EncodeChar

/-- The UTF-8 bytes of a text. -/
def Octets.ofText (s : String) : Octets := .ofChars s.toList

/-- The text whose UTF-8 bytes these are, if there is one. -/
def Octets.text? (bs : Octets) : Option String := String.fromUTF8? bs.toByteArray

/-- The number whose digits in base 256 these are, the highest first. -/
def Octets.bigEndian (bs : Octets) : Nat := bs.foldl (fun n b => 256 * n + b.toNat) 0

@[simp] theorem Octets.ofChars_nil : Octets.ofChars [] = [] := rfl

@[simp] theorem Octets.ofChars_cons (c : Char) (cs : List Char) :
    Octets.ofChars (c :: cs) = String.utf8EncodeChar c ++ Octets.ofChars cs := rfl

@[simp] theorem Octets.ofChars_append (cs ds : List Char) :
    Octets.ofChars (cs ++ ds) = Octets.ofChars cs ++ Octets.ofChars ds := by
  simp [Octets.ofChars]

/-! ## Hexadecimal text -/

namespace Hex

/-- The lower-case digit of a number below sixteen. -/
def digit (n : Nat) : Char := if n < 10 then Char.ofNat (48 + n) else Char.ofNat (87 + n)

/-- The value of a digit in either case. -/
def value? (c : Char) : Option Nat :=
  if '0' ≤ c ∧ c ≤ '9' then some (c.toNat - 48)
  else if 'a' ≤ c ∧ c ≤ 'f' then some (c.toNat - 87)
  else if 'A' ≤ c ∧ c ≤ 'F' then some (c.toNat - 55)
  else none

/-- Two lower-case digits a byte. -/
def encode (bs : Octets) : List Char :=
  bs.flatMap fun b => [digit (b.toNat / 16), digit (b.toNat % 16)]

/-- Reads pairs of digits of either case; a single digit left over, or any other character, is no
hexadecimal text. -/
def decode? : List Char → Option Octets
  | [] => some []
  | [_] => none
  | a :: b :: rest =>
    match value? a, value? b, decode? rest with
    | some x, some y, some bs => some (UInt8.ofNat (16 * x + y) :: bs)
    | _, _, _ => none

/-- The text of a number in lower-case digits, without leading zeros. -/
def number (n : Nat) : List Char := Nat.toDigits 16 n

example : encode [0, 0xab, 255] = ['0', '0', 'a', 'b', 'f', 'f'] := by decide
example : decode? ['A', 'b'] = some [0xab] ∧ decode? ['a'] = none ∧ decode? ['g', '0'] = none := by
  decide

end Hex

end ChainFollower
