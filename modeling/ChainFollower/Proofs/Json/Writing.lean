import ChainFollower.Proofs.Item.Records
import ChainFollower.Proofs.Json.Parts
import ChainFollower.Proofs.Json.Reading

/-!
# Trees that write a value

A value is written in many ways: a text with any escapes, an object with its members in any order.
`Doc.Writes` says which trees write a value, and every one of them is read as the value with the
members of its objects in the order of their names.

Main statements: `Doc.value_of_writes` and `Json.decode_octets`.
-/

namespace ChainFollower

/-! ## Members in any order -/

namespace Entries

variable {α β : Type}

/-- The same value under each name; of several entries with one name the last counts. -/
def Same (a b : List (String × α)) : Prop := ∀ key, a.reverse.lookup key = b.reverse.lookup key

/-- Sorting keeps the value under each name, and nothing else. -/
theorem sort_eq_of_same {a b : List (String × α)} (h : Same a b) : sort a = sort b := by
  apply eq_of_lookup (ascending_sort a) (ascending_sort b)
  intro key
  rw [lookup_sort, lookup_sort, h key]

/-- The same change to every value leaves them the same. -/
theorem Same.map {a b : List (String × α)} (h : Same a b) (f : α → β) :
    Same (a.map fun e => (e.1, f e.2)) (b.map fun e => (e.1, f e.2)) := by
  intro key
  rw [← List.map_reverse, ← List.map_reverse, lookup_map, lookup_map, h key]

end Entries

/-! ## Trees -/

namespace Doc

open Json (Kept KeptItems KeptMembers sortedItems sortedMembers)

mutual

/-- The tree writes the value, with `levels` levels left to go down. -/
inductive Writes : Nat → Doc → Json → Prop
  | null {levels : Nat} : Writes levels .null .null
  | bool {levels : Nat} (b : Bool) : Writes levels (.bool b) (.bool b)
  | int {levels : Nat} {n : Int} (h : FitsWord n) :
      Writes levels (.number (.ofChars (Json.intChars n))) (.int n)
  | text {levels : Nat} {raw : Octets} {s : String} (h : Literal.text? raw = some s) :
      Writes levels (.text raw) (.text s)
  | array {levels : Nat} {ds : List Doc} {js : List Json} (h : WritesItems levels ds js) :
      Writes (levels + 1) (.array ds) (.array js)
  | object {levels : Nat} {ms : List (Octets × Doc)} {written members : List (String × Json)}
      (h : WritesMembers levels ms written) (same : Entries.Same written members) :
      Writes (levels + 1) (.object ms) (.object members)

/-- `Writes` item by item. -/
inductive WritesItems : Nat → List Doc → List Json → Prop
  | nil {levels : Nat} : WritesItems levels [] []
  | cons {levels : Nat} {d : Doc} {j : Json} {ds : List Doc} {js : List Json}
      (h : Writes levels d j) (hrest : WritesItems levels ds js) :
      WritesItems levels (d :: ds) (j :: js)

/-- `Writes` member by member, in the order in which they stand. -/
inductive WritesMembers : Nat → List (Octets × Doc) → List (String × Json) → Prop
  | nil {levels : Nat} : WritesMembers levels [] []
  | cons {levels : Nat} {raw : Octets} {k : String} {d : Doc} {j : Json}
      {ms : List (Octets × Doc)} {members : List (String × Json)}
      (hname : Literal.text? raw = some k) (h : Writes levels d j)
      (hrest : WritesMembers levels ms members) :
      WritesMembers levels ((raw, d) :: ms) ((k, j) :: members)

end

mutual

/-- A tree that writes a value has the value, members sorted. -/
theorem value_of_writes : ∀ {levels : Nat} {d : Doc} {j : Json}, Writes levels d j →
    d.value levels = .ok j.sorted
  | _, _, _, .null => rfl
  | _, _, _, .bool _ => rfl
  | levels, _, _, .int h => value_number h levels
  | levels, _, _, .text h => value_text h levels
  | _, _, _, .array h => by
    rw [value_array, itemValues_of_writes h]
    rfl
  | _, _, _, @Writes.object _ _ written members h same => by
    -- The order in which the members stand is gone once they are sorted.
    have hsort : Entries.sort (sortedMembers written) = Entries.sort (sortedMembers members) := by
      rw [Json.sortedMembers_eq, Json.sortedMembers_eq]
      exact Entries.sort_eq_of_same (same.map Json.sorted)
    rw [value_object, memberValues_of_writes h, Json.sorted, ← hsort]
    rfl

/-- Trees that write items have their values, in order. -/
theorem itemValues_of_writes : ∀ {levels : Nat} {ds : List Doc} {js : List Json},
    WritesItems levels ds js → itemValues levels ds = .ok (sortedItems js)
  | _, _, _, .nil => rfl
  | _, _, _, .cons h hrest => by
    rw [itemValues_cons, value_of_writes h, itemValues_of_writes hrest]
    rfl

/-- Trees that write members have their names and values, in order. -/
theorem memberValues_of_writes : ∀ {levels : Nat} {ms : List (Octets × Doc)}
    {members : List (String × Json)}, WritesMembers levels ms members →
    memberValues levels ms = .ok (sortedMembers members)
  | _, _, _, .nil => rfl
  | _, _, _, .cons hname h hrest => by
    rw [memberValues_cons, name_of_text? hname, value_of_writes h, memberValues_of_writes hrest]
    rfl

end

mutual

/-- The tree of a value's own text writes it. -/
theorem writes_doc {levels : Nat} : ∀ {j : Json}, j.Kept levels → Writes levels j.doc j
  | .null, _ => .null
  | .bool b, _ => .bool b
  | .int _, h => .int h
  | .float _, h => h.elim
  | .text s, _ => .text (text?_escaped s)
  | .array items, h => by
    cases levels with
    | zero => exact h.elim
    | succ levels => exact .array (writes_itemDocs h)
  | .object members, h => by
    cases levels with
    | zero => exact h.elim
    | succ levels => exact .object (writes_memberDocs h) fun _ => rfl

/-- So the trees of items write them, and -/
theorem writes_itemDocs {levels : Nat} : ∀ {items : List Json}, KeptItems levels items →
    WritesItems levels (Json.itemDocs items) items
  | [], _ => .nil
  | _ :: _, h => .cons (writes_doc h.1) (writes_itemDocs h.2)

/-- those of members write these. -/
theorem writes_memberDocs {levels : Nat} : ∀ {members : List (String × Json)},
    KeptMembers levels members → WritesMembers levels (Json.memberDocs members) members
  | [], _ => .nil
  | (k, _) :: _, h => .cons (text?_escaped k) (writes_doc h.1) (writes_memberDocs h.2)

end

/-- The tree of a value's own text has the value. -/
theorem value_doc {levels : Nat} {j : Json} (h : j.Kept levels) :
    j.doc.value levels = .ok j.sorted :=
  value_of_writes (writes_doc h)

/-! ## Objects with a member of any tree -/

end Doc

/-! ## Printed documents -/

/-- The text of a value that it keeps is read as the value, members sorted. -/
theorem Json.decode_octets {j : Json} (h : j.Kept documentLevels) :
    (Json.decode j.octets : Except DecodeError Json) = .ok j.sorted := by
  rw [decode_json_of_spells (Doc.spells_octets j), Doc.value_doc h]
  rfl

end ChainFollower
