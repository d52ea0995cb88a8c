import ChainFollower.Item.Basic
import ChainFollower.Error

/-!
# Reading items

Readers of the simple types.  They differ a little with the medium: a text document, or an item held
in memory, is read as it stands, while a binary document read directly may put tags before an item,
and send integers as tagged bytes.  How deeply arrays and maps may be nested is counted there too,
from the outside in; tags before an item of a known type do not count.
-/

namespace ChainFollower

/-- How an item reaches its reader. -/
inductive Medium
  /-- As part of a text document, or from an item held in memory. -/
  | document
  /-- Directly from a binary document, with a number of levels of nesting left to go down. -/
  | binary (levels : Nat)
  /-- From a binary document that was held as a whole before. -/
  | stored
  deriving DecidableEq

namespace Medium

/-- The medium inside an array or a map, if there is a level left to go down. -/
def down? : Medium → Option Medium
  | .binary 0 => none
  | .binary (levels + 1) => some (.binary levels)
  | m => some m

/-- Whether an item of a type that nobody asked for can be passed over. -/
def passes (m : Medium) (item : Item) : Bool :=
  match m with
  | .document => item.passable
  | .binary levels => item.passable && decide (item.depth ≤ levels)
  | .stored => true

/-- Whether an item can be held in memory until its type is known. -/
def holds (m : Medium) (item : Item) : Bool :=
  match m with
  | .binary levels => item.holdable && decide (item.depth ≤ levels)
  | _ => item.holdable

end Medium

/-- A reader of one type. -/
abbrev Reader (α : Type) := Medium → Item → Reading α

namespace Reader

/-- The refusal without a cause. -/
def refuse {α : Type} : Reading α := .error none

/-- The item that the reader of a definite type looks at: a binary document's tags are passed over.
-/
def below (m : Medium) (item : Item) : Item :=
  match m with
  | .document => item
  | .binary _ | .stored => item.untagged

/-- The medium inside an array or a map that lies in another one. -/
def enter (m : Medium) : Reading Medium :=
  match m.down? with
  | some inside => .ok inside
  | none => refuse

/-! ## Integers -/

/-- The bytes after the leading zeros. -/
def dropZeros (bs : Octets) : Octets := bs.dropWhile (· == 0)

/-- The integer whose magnitude these bytes are, of at most sixteen digits in base 256. -/
def magnitudeInt? (tag : Nat) (b : Octets) : Option Int :=
  if (dropZeros b).length ≤ 16 then
    if tag = 2 then some b.bigEndian else if tag = 3 then some (-1 - (b.bigEndian : Int)) else none
  else none

/-- The integer of an item in a binary document: an integer, or bytes tagged as the magnitude of
one. -/
def streamedInt? : Item → Option Int
  | .int n => some n
  | .tagged tag content =>
    if tag = 2 ∨ tag = 3 then
      match content with
      | .bytes b | .streamedBytes b => magnitudeInt? tag b
      | _ => none
    else streamedInt? content
  | _ => none

/-- The integer of an item in a binary document that was held as a whole: no other tag may stand
before it. -/
def storedInt? : Item → Option Int
  | .int n => some n
  | .tagged tag (.bytes b) => magnitudeInt? tag b
  | _ => none

/-- The integer of an item. -/
def int? (m : Medium) (item : Item) : Option Int :=
  match m, item with
  | .document, .int n => some n
  | .document, _ => none
  | .binary _, item => streamedInt? item
  | .stored, item => storedInt? item

/-- An unsigned sixty-four-bit integer. -/
def word64 : Reader UInt64 := fun m item =>
  match int? m item with
  | some n => if 0 ≤ n ∧ n < 0x10000000000000000 then .ok (UInt64.ofNat n.toNat) else refuse
  | none => refuse

/-- An unsigned thirty-two-bit integer. -/
def word32 : Reader UInt32 := fun m item =>
  match int? m item with
  | some n => if 0 ≤ n ∧ n < 0x100000000 then .ok (UInt32.ofNat n.toNat) else refuse
  | none => refuse

/-- A signed sixty-four-bit integer. -/
def signed64 : Reader Int64 := fun m item =>
  match int? m item with
  | some n =>
    if -0x8000000000000000 ≤ n ∧ n < 0x8000000000000000 then .ok (Int64.ofInt n) else refuse
  | none => refuse

/-- The decimal integer that a text holds. -/
def decimal (s : String) : Reading Int :=
  match Decimal.readInt s.toList with
  | .ok n => .ok n
  | .error fault => .error (some (.invalidInteger s fault))

/-- An amount: an integer of any size, as a number or as a decimal text.  A floating-point number is
refused, since digits of the amount may be lost in it. -/
def amount : Reader Int := fun m item =>
  match item with
  | .int n => .ok n
  | .float x => .error (some (.inexact x))
  | .text s | .streamedText s => decimal s
  | .tagged tag content =>
    match m, content.taggedInt? tag with
    | .binary _, some n => .ok n
    | _, _ => refuse
  | _ => refuse

/-! ## Texts and truth values -/

/-- A text.  Bytes held in memory are taken for their UTF-8 text. -/
def text : Reader String := fun m item =>
  match m, below m item with
  | _, .text s | _, .streamedText s => .ok s
  | .document, .bytes b | .document, .streamedBytes b =>
    match b.text? with
    | some s => .ok s
    | none => refuse
  | _, _ => refuse

/-- A truth value. -/
def bool : Reader Bool := fun m item =>
  match below m item with
  | .bool b => .ok b
  | _ => refuse

/-! ## Optional things, lists and maps -/

/-- Nothing for `null`. -/
def option {α : Type} (read : Reader α) : Reader (Option α) := fun m item =>
  match item with
  | .null => .ok none
  | _ => (read m item).map some

/-- The items of a list, and their medium.  A binary document's bytes are a list of small integers.
-/
def items (m : Medium) (item : Item) : Reading (Medium × List Item) :=
  match m, below m item with
  | _, .array items => (enter m).map (·, items)
  | .binary _, .bytes b | .binary _, .streamedBytes b => .ok (m, b.map fun x => .int x.toNat)
  | _, _ => refuse

/-- A list, each item by the same reader. -/
def list {α : Type} (read : Reader α) : Reader (List α) := fun m item => do
  let (inside, items) ← items m item
  items.mapM (read inside)

/-- The entries of a map, and their medium. -/
def entries (m : Medium) (item : Item) : Reading (Medium × List (Item × Item)) :=
  match (below m item).entries? with
  | some entries => (enter m).map (·, entries)
  | none => refuse

/-- The entries of a map with texts for keys, as they stand. -/
def named {α : Type} (read : Reader α) : Reader (List (String × α)) := fun m item => do
  let (inside, entries) ← entries m item
  entries.mapM fun (k, v) => do
    let name ← text inside k
    let value ← read inside v
    return (name, value)

/-! ## Names -/

/-- The longest name that a binary document may give a field. -/
def nameLimit : Nat := 4096

/-- What a key names: a field by its name, or by its number. -/
inductive Name
  | name (s : String)
  | number (n : Nat)
  /-- Bytes that are no text: no field has such a name. -/
  | foreign

/-- The name of bytes. -/
def Name.ofBytes (b : Octets) : Name :=
  match b.text? with
  | some s => .name s
  | none => .foreign

/-- The name that a key or a choice gives. -/
def name : Reader Name := fun m item =>
  match m, below m item with
  | .document, .text s | .document, .streamedText s => .ok (.name s)
  | .document, .bytes b | .document, .streamedBytes b => .ok (.ofBytes b)
  | .document, .int n => if 0 ≤ n then .ok (.number n.toNat) else refuse
  | .binary _, .text s => if s.utf8ByteSize ≤ nameLimit then .ok (.name s) else refuse
  | .binary _, .bytes b => if b.length ≤ nameLimit then .ok (.ofBytes b) else refuse
  | .stored, .text s => .ok (.name s)
  | _, _ => refuse

/-- One name of several, and what stands beside it, if anything: a text alone, or a map of one
entry.  Either counts as a level. -/
def choice : Reader (String × Option Item) := fun m item => do
  let inside ← enter m
  match inside, below m item with
  | .document, .text s | .document, .streamedText s => .ok (s, none)
  | .binary _, .text s => if s.utf8ByteSize ≤ nameLimit then .ok (s, none) else refuse
  | .document, .map [(k, v)] | .document, .streamedMap [(k, v)] | .binary _, .map [(k, v)] =>
    match name inside k with
    | .ok (.name s) => .ok (s, some v)
    | _ => refuse
  | _, _ => refuse

/-! ## Alternatives -/

/-- The first alternative that reads an item held in memory; causes are lost. -/
def firstOf {α : Type} (alternatives : List (Reader α)) : Reader α := fun m item =>
  if m.holds item then
    -- What is held in memory is read like a document, whatever it came from.
    match alternatives.findSome? fun read => (read .document item).toOption with
    | some a => .ok a
    | none => refuse
  else refuse

/-! ## Unread parts -/

/-- The name of the first member of a part that is passed on unread: no bytes, and in a binary
document a single segment of the length of a name.  The members after it may be any texts. -/
def firstName (m : Medium) (item : Item) : Reading String :=
  match m, below m item with
  | .document, .text s | .document, .streamedText s => .ok s
  | .binary _, .text s => if s.utf8ByteSize ≤ nameLimit then .ok s else refuse
  | _, _ => refuse

mutual

/-- A part that is passed on unread: its members sorted, of several with one name the last.  What a
text document cannot hold is refused; a floating-point number that is not finite becomes `null`. -/
def unread (m : Medium) : Item → Reading Json
  | .null => .ok .null
  | .bool b => .ok (.bool b)
  | .int n => if FitsWord n then .ok (.int n) else refuse
  | .float x => .ok (if x.isFinite then .float x else .null)
  | .text s | .streamedText s => .ok (.text s)
  | .array items => (unreadItems m items).map .array
  | .map entries => (unreadMembers m firstName entries).map fun ms => .object (Entries.sort ms)
  | .streamedMap entries =>
    (unreadMembers m firstName entries).map fun ms => .object (Entries.sort ms)
  | .tagged tag content =>
    match m, content.taggedInt? tag with
    | .binary _, some n => if FitsWord n then .ok (.int n) else refuse
    | _, _ => refuse
  | _ => refuse

/-- `unread` of each item. -/
def unreadItems (m : Medium) : List Item → Reading (List Json)
  | [] => .ok []
  | i :: rest => do
    let j ← unread m i
    let js ← unreadItems m rest
    return j :: js

/-- `unread` of each value with its name, the first name read by a reader of its own. -/
def unreadMembers (m : Medium) (readName : Reader String) :
    List (Item × Item) → Reading (List (String × Json))
  | [] => .ok []
  | (k, v) :: rest => do
    let name ← readName m k
    let j ← unread m v
    let members ← unreadMembers m text rest
    return (name, j) :: members

end

/-- A part that is passed on unread, unless it is nested too deeply. -/
def json : Reader Json := fun m item =>
  match m with
  | .binary levels => if item.depth ≤ levels then unread m item else refuse
  | _ => unread m item

end Reader

end ChainFollower
