import ChainFollower.Item.Portable
import ChainFollower.Proofs.Item.Records
import ChainFollower.Proofs.Number.Decimal

/-!
# Values of spelled texts

What the reader of a type is given for a text that spells a tree, and the value that the tree has as
a part passed on unread, level by level.

Main statements: `Json.decode_of_spells` and `Json.decode_json_of_spells`.
-/

namespace ChainFollower

/-! ## From a text to its tree -/

namespace Json

variable {α : Type} [Portable α]

/-- A text is read by its tree, wide integers taken for texts. -/
theorem decode_of_spells {d : Doc} {s : Octets} (h : Doc.Spells d s) :
    (decode s : Except DecodeError α) =
      (Portable.read .document (d.quoted.item documentLevels)).mapError .json := by
  -- The text is quoted before it is read, which quotes the literals of its tree.
  have hread : Doc.read (quoteWide s) = (d.quoted, true) := Doc.read_eq_iff.2 h.quoteWide
  simp only [decode, decodePlain, hread, if_true]
  cases (Portable.read .document (d.quoted.item documentLevels) : Reading α) <;> rfl

/-- What is decoded from a text is what the reader makes of its tree. -/
theorem decode_eq_ok_iff {d : Doc} {s : Octets} (h : Doc.Spells d s) {a : α} :
    decode s = .ok a ↔ Portable.read .document (d.quoted.item documentLevels) = .ok a := by
  rw [decode_of_spells h, mapError_eq_ok]

end Json

/-! ## Values of trees -/

namespace Doc

/-- The value of a tree, wide integers taken for texts, with `levels` levels left to go down. -/
def value (levels : Nat) (d : Doc) : Reading Json :=
  Reader.unread .document (d.quoted.item levels)

/-- `value` of each item. -/
def itemValues (levels : Nat) (ds : List Doc) : Reading (List Json) :=
  Reader.unreadItems .document (itemsOf levels (quotedItems ds))

/-- `value` of each member with its name. -/
def memberValues (levels : Nat) (ms : List (Octets × Doc)) : Reading (List (String × Json)) :=
  Reader.unreadMembers .document Reader.text (entriesOf levels (quotedMembers ms))

/-- The name of a member that is given between quotes. -/
def name (raw : Octets) : Reading String := Reader.text .document (.ofRaw raw)

/-- The first name is read like the others. -/
theorem firstName_ofRaw (raw : Octets) :
    Reader.firstName .document (.ofRaw raw) = name raw := by
  unfold name Item.ofRaw
  cases Literal.text? raw <;> rfl

/-- A name whose escapes are in order is read, -/
theorem name_of_text? {raw : Octets} {k : String} (h : Literal.text? raw = some k) :
    name raw = .ok k := by
  unfold name Item.ofRaw
  rw [h]
  rfl

/-- and no other name is. -/
theorem text?_of_name {raw : Octets} {k : String} (h : name raw = .ok k) :
    Literal.text? raw = some k := by
  unfold name Item.ofRaw at h
  cases htext : Literal.text? raw with
  | none =>
    rw [htext] at h
    cases h
  | some s =>
    rw [htext] at h
    cases h
    rfl

/-- The value of an array takes one level and holds the values of its items. -/
theorem value_array (levels : Nat) (ds : List Doc) :
    (Doc.array ds).value (levels + 1) = (itemValues levels ds).map .array := rfl

theorem itemValues_cons (levels : Nat) (d : Doc) (ds : List Doc) :
    itemValues levels (d :: ds) = (do
      let j ← d.value levels
      let js ← itemValues levels ds
      return j :: js) := rfl

theorem memberValues_cons (levels : Nat) (raw : Octets) (d : Doc) (ms : List (Octets × Doc)) :
    memberValues levels ((raw, d) :: ms) = (do
      let k ← name raw
      let j ← d.value levels
      let js ← memberValues levels ms
      return (k, j) :: js) := rfl

theorem value_object (levels : Nat) (ms : List (Octets × Doc)) :
    (Doc.object ms).value (levels + 1) =
      (memberValues levels ms).map fun js => .object (Entries.sort js) := by
  show (Reader.unreadMembers .document Reader.firstName (entriesOf levels (quotedMembers ms))).map
    (fun js => Json.object (Entries.sort js)) = _
  -- A reader treats the first name apart, in case it is the name of a type.
  cases ms with
  | nil => rfl
  | cons m ms =>
    obtain ⟨raw, d⟩ := m
    rw [memberValues_cons, ← firstName_ofRaw]
    rfl

/-- An integer that a word holds has its own value. -/
theorem value_number {n : Int} (h : FitsWord n) (levels : Nat) :
    (Doc.number (.ofChars (Json.intChars n))).value levels = .ok (.int n) := by
  -- A word holds the integer, so its literal is not quoted, and it is read as an integer.
  have hquoted : (Doc.number (.ofChars (Json.intChars n))).quoted =
      .number (.ofChars (Json.intChars n)) := by
    rw [quoted, quotedLiteral, integer?_intChars]
    exact if_pos h
  rw [value, hquoted, item, Item.ofLiteral, Literal.number_intChars h]
  exact if_pos h

/-- A text whose escapes are in order has its own value. -/
theorem value_text {raw : Octets} {s : String} (h : Literal.text? raw = some s) (levels : Nat) :
    (Doc.text raw).value levels = .ok (.text s) := by
  show Reader.unread .document (.ofRaw raw) = _
  rw [Item.ofRaw, h]
  rfl

end Doc

/-- A text that spells a tree is read as the value of the tree. -/
theorem Json.decode_json_of_spells {d : Doc} {s : Octets} (h : Doc.Spells d s) :
    (Json.decode s : Except DecodeError Json) = (d.value documentLevels).mapError .json :=
  decode_of_spells h

end ChainFollower
