import ChainFollower.Attribute.Basic
import ChainFollower.Item.Reader
import ChainFollower.Cbor.Parse
import ChainFollower.Text.Base64

/-!
# Binary form of attributes

The name of an attribute's type and its content follow each other: as a rule as the one entry of a
map, but the map may also be left out.  So an attribute need not be one item, and the bytes are read
from one to the next.
-/

namespace ChainFollower.Attribute

/-- The bytes from the name on, if an attribute starts here. -/
def nameStart? (s : Octets) : Option Octets :=
  match Cbor.readHead s with
  | some ((5, .number _ 1), rest) => some rest
  | some ((3, _), _) => some s
  | _ => none

/-- Reads the item at the start of the bytes, and gives the bytes after it. -/
def readFirst? {α : Type} (read : Reader α) (s : Octets) : Option (α × Octets) :=
  match Cbor.readFirst s with
  | (item, some rest) => (read (.binary 0) item).toOption.map fun a => (a, rest)
  | (_, none) => none

/-- Reads the name of a type. -/
def readKind : Reader Kind := fun m item =>
  match Reader.name m item with
  | .ok (.name s) =>
    match Kind.ofName? s with
    | some kind => .ok kind
    | none => Reader.refuse
  | _ => Reader.refuse

/-- Reads bytes from their text in base64. -/
def readBase64 : Reader Octets := fun m item =>
  match (Reader.text m item).toOption.bind fun s => Base64.decode? s.toList with
  | some b => .ok b
  | none => Reader.refuse

/-- Reads the content of an attribute that holds no others. -/
def readLeaf (kind : Kind) : Reader Attribute := fun m item =>
  match kind with
  | .text => (Reader.text m item).map .text
  | .number => (Reader.text m item).map .number
  | .bytes => (readBase64 m item).map .bytes
  | .bool => (Reader.bool m item).map .bool
  | .null => (Reader.bool m item).map .null
  | .list | .map => Reader.refuse

/-- The length that a head announces; none if it is left open. -/
def lengthOf : Cbor.Argument → Option Nat
  | .number _ n => some n
  | .openEnded => none

mutual

/-- The attribute at the start of the bytes and the bytes after it, with `levels` levels of nesting
left to go down: an attribute counts as one, and so do a list and a map in it. -/
def readBinary (fuel levels : Nat) (s : Octets) : Option (Attribute × Octets) :=
  match fuel, levels with
  | fuel + 1, levels + 1 => do
    let s ← nameStart? (Cbor.untagged s)
    let (kind, s) ← readFirst? readKind s
    readContent fuel levels kind s
  | _, _ => none

/-- The content of an attribute of the given type. -/
def readContent (fuel levels : Nat) (kind : Kind) (s : Octets) : Option (Attribute × Octets) :=
  match fuel with
  | 0 => none
  | fuel + 1 =>
    match kind with
    | .list =>
      match levels, Cbor.readHead (Cbor.untagged s) with
      | levels + 1, some ((4, length), rest) =>
        (readItems fuel levels (lengthOf length) rest).map fun (items, rest) => (.list items, rest)
      | _, _ =>
        match readFirst? Reader.items s with
        | some ((_, []), rest) => some (.list [], rest)
        | _ => none
    | .map =>
      match levels, Cbor.readHead (Cbor.untagged s) with
      | levels + 1, some ((5, length), rest) =>
        (readEntries fuel levels (lengthOf length) rest).map fun (entries, rest) =>
          (.map (Entries.sort entries), rest)
      | _, _ => none
    | leaf => readFirst? (readLeaf leaf) s

/-- The attributes of a list. -/
def readItems (fuel levels : Nat) (length : Option Nat) (s : Octets) :
    Option (List Attribute × Octets) :=
  match fuel with
  | 0 => none
  | fuel + 1 =>
    match Cbor.atEnd length s with
    | some rest => some ([], rest)
    | none => do
      let (a, rest) ← readBinary fuel levels s
      let (items, rest) ← readItems fuel levels (length.map (· - 1)) rest
      return (a :: items, rest)

/-- The entries of a map. -/
def readEntries (fuel levels : Nat) (length : Option Nat) (s : Octets) :
    Option (List (String × Attribute) × Octets) :=
  match fuel with
  | 0 => none
  | fuel + 1 =>
    match Cbor.atEnd length s with
    | some rest => some ([], rest)
    | none => do
      let (name, rest) ← readFirst? Reader.text s
      let (a, rest) ← readBinary fuel levels rest
      let (entries, rest) ← readEntries fuel levels (length.map (· - 1)) rest
      return ((name, a) :: entries, rest)

end

/-- The attribute at the start of the bytes. -/
def ofBinary (s : Octets) : Reading Attribute :=
  match readBinary (3 * s.length + 3) Cbor.maxLevels s with
  | some (a, _) => .ok a
  | none => Reader.refuse

end ChainFollower.Attribute
