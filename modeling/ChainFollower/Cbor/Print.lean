import ChainFollower.Json.Basic
import ChainFollower.Text.Octets

/-!
# Binary form of a document

Every head is as short as its number allows, lengths are announced, floating-point numbers take the
narrowest format that holds them, and members keep their order.
-/

namespace ChainFollower.Cbor

/-- The big-endian bytes of a number in a field of `width` bytes. -/
def bytesOf : Nat → Nat → Octets
  | 0, _ => []
  | width + 1, n => bytesOf width (n / 256) ++ [UInt8.ofNat (n % 256)]

/-- The shortest head of a major type with its number. -/
def head (major n : Nat) : Octets :=
  if n < 24 then [UInt8.ofNat (32 * major + n)]
  else if n < 0x100 then UInt8.ofNat (32 * major + 24) :: bytesOf 1 n
  else if n < 0x10000 then UInt8.ofNat (32 * major + 25) :: bytesOf 2 n
  else if n < 0x100000000 then UInt8.ofNat (32 * major + 26) :: bytesOf 4 n
  else UInt8.ofNat (32 * major + 27) :: bytesOf 8 n

/-- An integer that a head holds. -/
def int (n : Int) : Octets :=
  if 0 ≤ n then head 0 n.toNat else head 1 (-1 - n).toNat

/-- A text. -/
def text (s : String) : Octets :=
  let bs := Octets.ofText s
  head 3 bs.length ++ bs

/-- A floating-point number in the narrowest exact format. -/
def float (x : Binary64) : Octets :=
  match x.narrow? .half with
  | some n => 0xf9 :: bytesOf 2 n
  | none =>
    match x.narrow? .single with
    | some n => 0xfa :: bytesOf 4 n
    | none => 0xfb :: bytesOf 8 x.bits.toNat

mutual

/-- The binary form of a document. -/
def encode : Json → Octets
  | .null => [0xf6]
  | .bool b => [if b then 0xf5 else 0xf4]
  | .int n => int n
  | .float x => float x
  | .text s => text s
  | .array items => head 4 items.length ++ encodeItems items
  | .object members => head 5 members.length ++ encodeMembers members

/-- The items one after another. -/
def encodeItems : List Json → Octets
  | [] => []
  | j :: rest => encode j ++ encodeItems rest

/-- Names and values one after another. -/
def encodeMembers : List (String × Json) → Octets
  | [] => []
  | (k, j) :: rest => text k ++ encode j ++ encodeMembers rest

end

example : encode (.object [("a", .int 256), ("b", .array [.int (-1), .null])]) =
    [0xa2, 0x61, 0x61, 0x19, 0x01, 0x00, 0x61, 0x62, 0x82, 0x20, 0xf6] := by decide +kernel

end ChainFollower.Cbor
