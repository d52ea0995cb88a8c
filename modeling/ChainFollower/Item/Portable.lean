import ChainFollower.Cbor.Parse
import ChainFollower.Cbor.Print
import ChainFollower.Item.Reader
import ChainFollower.Json.Print
import ChainFollower.Json.Wide

/-!
# Portable types

A type is portable if it has a document form and a reader.  From these two come its text and its
binary encoding, and the decoders of both.
-/

namespace ChainFollower

/-- A type with a document form. -/
class Portable (α : Type) where
  /-- The document form, members in the order in which they are written. -/
  toJson : α → Json
  /-- Reads the document form, in text or binary. -/
  read : Reader α
  /-- Reads the binary form at the start of some bytes; it is one item, unless a type says
  otherwise. -/
  ofBinary : Octets → Reading α := fun s => read (.binary Cbor.maxLevels) (Cbor.read s)

export Portable (toJson)

namespace Json

variable {α : Type} [Portable α]

/-- The bytes of a value's text form. -/
def encode (a : α) : Octets := (toJson a).octets

/-- Reads a value from a text document as it stands. -/
def decodePlain (s : Octets) : Except DecodeError α :=
  match Doc.read s with
  | (doc, clean) =>
    match Portable.read .document (doc.item documentLevels) with
    | .error cause => .error (.json cause)
    | .ok a => if clean then .ok a else .error (.json none)

/-- Reads a value from a text document, wide integers taken exactly. -/
def decode (s : Octets) : Except DecodeError α := decodePlain (quoteWide s)

/-- Reads a value from a document value. -/
def decodeValue (j : Json) : Except DecodeError α :=
  match Portable.read .document j.item with
  | .error cause => .error (.json cause)
  | .ok a => .ok a

end Json

namespace Cbor

variable {α : Type} [Portable α]

/-- The bytes of a value's binary form. -/
def encodeValue (a : α) : Octets := encode (toJson a)

/-- Reads a value from a binary document; bytes after it are ignored. -/
def decode (s : Octets) : Except DecodeError α :=
  match Portable.ofBinary s with
  | .error _ => .error .cbor
  | .ok a => .ok a

end Cbor

/-! ## Documents and integers -/

instance : Portable Json where
  toJson j := j
  read m item := Reader.json m item

/-- The document form of an integer: a number if a word holds it, else a decimal text. -/
def Json.ofInt (n : Int) : Json :=
  if FitsWord n then .int n else .text (String.ofList (Json.intChars n))

instance : Portable Int where
  toJson := Json.ofInt
  read := Reader.amount

instance : Portable String where
  toJson := .text
  read := Reader.text

instance {α : Type} [Portable α] : Portable (List α) where
  toJson as := .array (as.map toJson)
  read := Reader.list Portable.read

instance {α : Type} [Portable α] : Portable (Dict α) where
  toJson d := .object (d.entries.map fun e => (e.1, toJson e.2))
  read m item := (Reader.named Portable.read m item).map Dict.ofList

instance : Portable UInt64 where
  toJson n := .int n.toNat
  read := Reader.word64

instance : Portable UInt32 where
  toJson n := .int n.toNat
  read := Reader.word32

instance : Portable Int64 where
  toJson n := .int n.toInt
  read := Reader.signed64

instance {α : Type} [Portable α] : Portable (Option α) where
  toJson a := (a.map toJson).getD .null
  read := Reader.option Portable.read

end ChainFollower
