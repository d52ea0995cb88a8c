import ChainFollower.Item.Basic

/-!
# Reading binary documents

`Cbor.read` gives the item at the start of a byte string.  Like the reader of text documents it is
total: where the bytes stop being a document it puts `Item.broken` and reads no further.  Lengths
may be announced or left open, and texts and bytes may come in segments.  Arrays and maps more than
256 deep are not read, since no reader goes down that far.
-/

namespace ChainFollower.Cbor

/-- What a head says beside its major type. -/
inductive Argument
  /-- A number, with the count of bytes that hold it: none, 1, 2, 4 or 8. -/
  | number (width : Nat) (n : Nat)
  /-- A length left open, or the end of an open item. -/
  | openEnded

/-- The first `n` bytes and the rest, if there are so many. -/
def split (n : Nat) (s : Octets) : Option (Octets × Octets) :=
  if n ≤ s.length then some (s.take n, s.drop n) else none

/-- A head: major type and argument. -/
def readHead : Octets → Option ((Nat × Argument) × Octets)
  | [] => none
  | b :: rest =>
    let major := b.toNat / 32
    let n := b.toNat % 32
    let wide (width : Nat) : Option ((Nat × Argument) × Octets) :=
      (split width rest).map fun (bs, rest) => ((major, .number width bs.bigEndian), rest)
    if n < 24 then some ((major, .number 0 n), rest)
    else if n = 24 then wide 1
    else if n = 25 then wide 2
    else if n = 26 then wide 4
    else if n = 27 then wide 8
    else if n = 31 then some ((major, .openEnded), rest)
    else none

/-- The segments of an open text or byte string up to its end; open segments may be nested. -/
def readSegments (major : Nat) : Nat → Nat → Octets → Option (List Octets × Octets)
  | 0, _, _ => none
  | fuel + 1, depth, s =>
    match readHead s with
    -- The mark that ends the innermost open string, or the whole.
    | some ((7, .openEnded), rest) =>
      match depth with
      | 0 => some ([], rest)
      | depth + 1 => readSegments major fuel depth rest
    | some ((m, .openEnded), rest) =>
      if m = major then readSegments major fuel (depth + 1) rest else none
    | some ((m, .number _ n), rest) =>
      if m = major then
        match split n rest with
        | some (segment, rest) =>
          (readSegments major fuel depth rest).map fun (segments, rest) =>
            (segment :: segments, rest)
        | none => none
      else none
    | none => none

/-- The texts of segments joined. -/
def joinTexts (segments : List Octets) : Option String :=
  (segments.mapM Octets.text?).map fun texts => String.join texts

/-- A number of the seventh major type. -/
def simple (width n : Nat) : Item :=
  if width = 2 then .float (Binary64.widen .half n)
  else if width = 4 then .float (Binary64.widen .single n)
  else if width = 8 then .float ⟨UInt64.ofNat n⟩
  else if n = 20 then .bool false
  else if n = 21 then .bool true
  else if n = 22 ∨ n = 23 then .null
  else .broken

/-- An item that ends the reading. -/
def stop : Item × Option Octets := (.broken, none)

/-- The bytes after the end of an array or map, if they start at that end: when as many items as
announced have been read, or at the mark that ends an open one. -/
def atEnd (count : Option Nat) (s : Octets) : Option Octets :=
  match count with
  | some 0 => some s
  | some _ => none
  | none =>
    match s with
    | 0xff :: rest => some rest
    | _ => none

/-- What stands for the entries of a map after one that breaks off, so that the map is not taken for
a shorter one: a broken entry, unless the one that breaks off was announced as the last. -/
def unreached (count : Option Nat) : List (Item × Item) :=
  if count = some 1 then [] else [(.broken, .broken)]

mutual

/-- The item at the start of the bytes and the bytes after it; none after a broken item. -/
def readItem (fuel levels : Nat) (s : Octets) : Item × Option Octets :=
  match fuel with
  | 0 => stop
  | fuel + 1 =>
    match readHead s with
    | none => stop
    | some ((0, .number _ n), rest) => (.int n, some rest)
    | some ((1, .number _ n), rest) => (.int (-1 - n), some rest)
    | some ((2, .number _ n), rest) =>
      match split n rest with
      | some (bs, rest) => (.bytes bs, some rest)
      | none => stop
    | some ((2, .openEnded), rest) =>
      match readSegments 2 (rest.length + 1) 0 rest with
      | some (segments, rest) => (.streamedBytes segments.flatten, some rest)
      | none => stop
    | some ((3, .number _ n), rest) =>
      match split n rest with
      | some (bs, rest) =>
        match bs.text? with
        | some s => (.text s, some rest)
        | none => stop
      | none => stop
    | some ((3, .openEnded), rest) =>
      match readSegments 3 (rest.length + 1) 0 rest with
      | some (segments, rest) =>
        match joinTexts segments with
        | some s => (.streamedText s, some rest)
        | none => stop
      | none => stop
    | some ((4, .number _ n), rest) =>
      -- Every array and every map takes up a level, a tag takes up none.
      match levels with
      | 0 => stop
      | levels + 1 =>
        let (items, rest) := readItems fuel levels (some n) rest
        (.array items, rest)
    | some ((4, .openEnded), rest) =>
      match levels with
      | 0 => stop
      | levels + 1 =>
        let (items, rest) := readItems fuel levels none rest
        (.array items, rest)
    | some ((5, .number _ n), rest) =>
      match levels with
      | 0 => stop
      | levels + 1 =>
        let (entries, rest) := readEntries fuel levels (some n) rest
        (.map entries, rest)
    | some ((5, .openEnded), rest) =>
      match levels with
      | 0 => stop
      | levels + 1 =>
        let (entries, rest) := readEntries fuel levels none rest
        (.streamedMap entries, rest)
    | some ((6, .number _ n), rest) =>
      let (content, rest) := readItem fuel levels rest
      (.tagged n content, rest)
    | some ((7, .number width n), rest) =>
      match simple width n with
      | .broken => stop
      | item => (item, some rest)
    | some _ => stop
-- Reserved lengths, and an end mark where nothing is open.

/-- The items of an array: as many as announced, or up to the end of an open one. -/
def readItems (fuel levels : Nat) (count : Option Nat) (s : Octets) : List Item × Option Octets :=
  match fuel with
  | 0 => ([.broken], none)
  | fuel + 1 =>
    match atEnd count s with
    | some rest => ([], some rest)
    | none =>
      match readItem fuel levels s with
      | (item, none) => ([item], none)
      | (item, some rest) =>
        let (items, rest) := readItems fuel levels (count.map (· - 1)) rest
        (item :: items, rest)

/-- The entries of a map: as many as announced, or up to the end of an open one. -/
def readEntries (fuel levels : Nat) (count : Option Nat) (s : Octets) :
    List (Item × Item) × Option Octets :=
  match fuel with
  | 0 => ([(.broken, .broken)], none)
  | fuel + 1 =>
    match atEnd count s with
    | some rest => ([], some rest)
    | none =>
      match readItem fuel levels s with
      | (key, none) => ((key, .broken) :: unreached count, none)
      | (key, some rest) =>
        match readItem fuel levels rest with
        -- The map breaks off, and must not pass for one of the entries that were read.
        | (value, none) => ((key, value) :: unreached count, none)
        | (value, some rest) =>
          let (entries, rest) := readEntries fuel levels (count.map (· - 1)) rest
          ((key, value) :: entries, rest)

end

/-- How deeply the items of a binary document may be nested. -/
def maxLevels : Nat := 256

/-- The item at the start of the bytes and the bytes after it; none after a broken item. -/
def readFirst (s : Octets) : Item × Option Octets := readItem (3 * s.length + 3) maxLevels s

/-- The item at the start of the bytes. -/
def read (s : Octets) : Item := (readFirst s).1

/-- The bytes after a number of tags, or after all tags at the start if there are fewer. -/
def dropTags : Nat → Octets → Octets
  | 0, s => s
  | n + 1, s =>
    match readHead s with
    | some ((6, .number _ _), rest) => dropTags n rest
    | _ => s

/-- The bytes after the tags at the start. -/
def untagged (s : Octets) : Octets := dropTags s.length s

end ChainFollower.Cbor
