import ChainFollower.Json.Literal
import ChainFollower.Json.Basic

/-!
# Items

An `Item` is what a payload holds before anyone asks for a particular type: the common form of text
documents and of binary ones.  Faults are items too, so that a reader meets them where they stand:

* `broken` is a place where the payload is malformed.  Nothing after it was read.
* `unreadable` is well formed but has no value, such as a number out of range.  It can be skipped.
-/

namespace ChainFollower

/-- A self-describing item of a payload. -/
inductive Item
  | null
  | bool (b : Bool)
  | int (n : Int)
  | float (x : Binary64)
  | text (s : String)
  /-- A text sent in segments. -/
  | streamedText (s : String)
  | bytes (b : Octets)
  /-- Bytes sent in segments. -/
  | streamedBytes (b : Octets)
  | array (items : List Item)
  | map (entries : List (Item × Item))
  /-- A map whose length was not announced. -/
  | streamedMap (entries : List (Item × Item))
  | tagged (tag : Nat) (content : Item)
  | unreadable
  | broken

instance : Inhabited Item := ⟨.null⟩

namespace Item

/-! ## Integers under tags -/

/-- The number that an item sends as at most sixteen bytes under the tag of a positive or a negative
integer. -/
def magnitude? (tag : Nat) : Item → Option Nat
  | .bytes b => if (tag = 2 ∨ tag = 3) ∧ b.length ≤ 16 then some b.bigEndian else none
  | _ => none

/-- The integer that an item sends as its magnitude; a negative one of at most 127 bits. -/
def taggedInt? (tag : Nat) (content : Item) : Option Int :=
  match magnitude? tag content with
  | some n =>
    if tag = 2 then some n
    else if n < 0x80000000000000000000000000000000 then some (-1 - (n : Int))
    else none
  | none => none

/-! ## What can be done with an item before its type is known -/

mutual

/-- Whether the item can be passed over unread: it is malformed nowhere, and no negative integer in
it is sent as a magnitude beyond 127 bits. -/
def passable : Item → Bool
  | .broken => false
  | .array items => passableItems items
  | .map entries => passableEntries entries
  | .streamedMap entries => passableEntries entries
  | .tagged tag content =>
    content.passable && ((magnitude? tag content).isNone || (taggedInt? tag content).isSome)
  | _ => true

/-- `passable` of every item. -/
def passableItems : List Item → Bool
  | [] => true
  | i :: rest => i.passable && passableItems rest

/-- `passable` of every key and value. -/
def passableEntries : List (Item × Item) → Bool
  | [] => true
  | (k, v) :: rest => k.passable && v.passable && passableEntries rest

end

mutual

/-- How many arrays, maps and tags lie inside one another.  The tag of an integer does not count. -/
def depth : Item → Nat
  | .array items => 1 + depthItems items
  | .map entries => 1 + depthEntries entries
  | .streamedMap entries => 1 + depthEntries entries
  | .tagged tag content => if (magnitude? tag content).isSome then 0 else 1 + content.depth
  | _ => 0

/-- The greatest `depth` of an item. -/
def depthItems : List Item → Nat
  | [] => 0
  | i :: rest => max i.depth (depthItems rest)

/-- The greatest `depth` of a key or value. -/
def depthEntries : List (Item × Item) → Nat
  | [] => 0
  | (k, v) :: rest => max (max k.depth v.depth) (depthEntries rest)

end

mutual

/-- Whether the whole item can be held in memory as it is, before its type is known: nothing in it
is faulty, tagged, or an integer that no word holds. -/
def holdable : Item → Bool
  | .broken | .unreadable | .tagged _ _ => false
  | .int n => decide (FitsWord n)
  | .array items => holdableItems items
  | .map entries => holdableEntries entries
  | .streamedMap entries => holdableEntries entries
  | _ => true

/-- `holdable` of every item. -/
def holdableItems : List Item → Bool
  | [] => true
  | i :: rest => i.holdable && holdableItems rest

/-- `holdable` of every key and value. -/
def holdableEntries : List (Item × Item) → Bool
  | [] => true
  | (k, v) :: rest => k.holdable && v.holdable && holdableEntries rest

end

/-- The entries of a map of either form. -/
def entries? : Item → Option (List (Item × Item))
  | .map entries | .streamedMap entries => some entries
  | _ => none

/-- Whether the item is nothing. -/
def isNull : Item → Bool
  | .null => true
  | _ => false

/-- The item below its tags. -/
def untagged : Item → Item
  | .tagged _ content => content.untagged
  | i => i

end Item

/-! ## Items of documents -/

mutual

/-- The items of a document value. -/
def Json.item : Json → Item
  | .null => .null
  | .bool b => .bool b
  | .int n => .int n
  | .float x => .float x
  | .text s => .text s
  | .array items => .array (Json.itemsOf items)
  | .object members => .map (Json.entriesOf members)

/-- `Json.item` of each document. -/
def Json.itemsOf : List Json → List Item
  | [] => []
  | j :: rest => j.item :: Json.itemsOf rest

/-- Members as entries of a map. -/
def Json.entriesOf : List (String × Json) → List (Item × Item)
  | [] => []
  | (k, j) :: rest => (.text k, j.item) :: Json.entriesOf rest

end

/-- The text that stands between quotes, as an item. -/
def Item.ofRaw (raw : Octets) : Item :=
  match Literal.text? raw with
  | some s => .text s
  | none => .unreadable

/-- The number that a literal denotes, as an item. -/
def Item.ofLiteral (literal : Octets) : Item :=
  match Literal.number literal with
  | .int n => .int n
  | .float x => .float x
  | .outOfRange => .unreadable

mutual

/-- The item of a document's tree with `levels` levels of arrays and objects left to go down.  Below
the last level they are unreadable, or broken if the text is malformed inside. -/
def Doc.item (levels : Nat) : Doc → Item
  | .null => .null
  | .bool b => .bool b
  | .number literal => .ofLiteral literal
  | .text raw => .ofRaw raw
  | .array items =>
    match levels with
    | 0 => if Item.passableItems (Doc.itemsOf 0 items) then .unreadable else .broken
    | levels + 1 => .array (Doc.itemsOf levels items)
  | .object members =>
    match levels with
    | 0 => if Item.passableEntries (Doc.entriesOf 0 members) then .unreadable else .broken
    | levels + 1 => .map (Doc.entriesOf levels members)
  | .broken => .broken

/-- `Doc.item` of each tree. -/
def Doc.itemsOf (levels : Nat) : List Doc → List Item
  | [] => []
  | d :: rest => d.item levels :: Doc.itemsOf levels rest

/-- Members as entries of a map. -/
def Doc.entriesOf (levels : Nat) : List (Octets × Doc) → List (Item × Item)
  | [] => []
  | (k, d) :: rest => (.ofRaw k, d.item levels) :: Doc.entriesOf levels rest

end

/-- How deeply arrays and objects of a text document may be nested. -/
def documentLevels : Nat := 127

end ChainFollower
