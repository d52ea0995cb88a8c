import ChainFollower.Item.Portable
import ChainFollower.Proofs.Cbor.Grammar
import ChainFollower.Proofs.Json.Parts

/-!
# Binary documents are read back

The binary form of a document value spells the item of the value: heads hold their numbers, and
announced lengths are those of what follows.  So it is read as that item, whatever follows it.
Lengths are limited by the eight bytes that a head has for them.

Main statements: `Cbor.spells_encode` and `Cbor.read_encode`.
-/

namespace ChainFollower

open Json (KeptItems KeptMembers)

/-! ## Numbers in bytes -/

/-- The last byte counts once, and those before it 256 times. -/
theorem Octets.bigEndian_concat (bs : Octets) (b : UInt8) :
    bigEndian (bs ++ [b]) = 256 * bigEndian bs + b.toNat := by
  simp [bigEndian]

namespace Cbor

/-- A number takes the bytes that it is given. -/
@[simp] theorem length_bytesOf (width n : Nat) : (bytesOf width n).length = width := by
  induction width generalizing n with
  | zero => rfl
  | succ width ih => simp [bytesOf, ih]

/-- How many numbers as many bytes can hold. -/
def capacity : Nat → Nat
  | 0 => 1
  | width + 1 => 256 * capacity width

/-- A number that fits into the bytes is told by them. -/
theorem bigEndian_bytesOf {width n : Nat} (h : n < capacity width) :
    (bytesOf width n).bigEndian = n := by
  induction width generalizing n with
  | zero =>
    have hn : n = 0 := Nat.lt_one_iff.1 h
    rw [hn]
    rfl
  | succ width ih =>
    -- The last byte holds the rest of the division, and those before it the quotient.
    have hhigh : n / 256 < capacity width := Nat.div_lt_of_lt_mul h
    have hlow : (UInt8.ofNat (n % 256)).toNat = n % 256 := by
      rw [UInt8.toNat_ofNat']
      omega
    rw [bytesOf, Octets.bigEndian_concat, ih hhigh, hlow]
    omega

/-! ## Heads -/

/-- How many bytes a shortest head has for its number. -/
def widthOf (n : Nat) : Nat :=
  if n < 24 then 0 else if n < 0x100 then 1 else if n < 0x10000 then 2
  else if n < 0x100000000 then 4 else 8

/-- A head with its number in bytes of its own. -/
theorem head_wide (major : Nat) {code width n : Nat}
    (hcode : (code, width) ∈ [(24, 1), (25, 2), (26, 4), (27, 8)]) (hn : n < capacity width) :
    Head major width n (UInt8.ofNat (32 * major + code) :: bytesOf width n) := by
  have hwide := @Head.wide major code (bytesOf width n) (by rwa [length_bytesOf])
  rwa [length_bytesOf, bigEndian_bytesOf hn] at hwide

/-- The head as short as its number allows is a head of the grammar. -/
theorem head_of_lt (major : Nat) {n : Nat} (hn : n < 0x10000000000000000) :
    Head major (widthOf n) n (head major n) := by
  unfold head widthOf
  -- Five ranges, each with the shortest head for it.
  by_cases h0 : n < 24
  · rw [if_pos h0, if_pos h0]
    exact .short h0
  rw [if_neg h0, if_neg h0]
  by_cases h1 : n < 0x100
  · rw [if_pos h1, if_pos h1]
    exact head_wide major (by decide) h1
  rw [if_neg h1, if_neg h1]
  by_cases h2 : n < 0x10000
  · rw [if_pos h2, if_pos h2]
    exact head_wide major (by decide) h2
  rw [if_neg h2, if_neg h2]
  by_cases h4 : n < 0x100000000
  · rw [if_pos h4, if_pos h4]
    exact head_wide major (by decide) h4
  · rw [if_neg h4, if_neg h4]
    exact head_wide major (by decide) hn

/-- A head takes a byte at least, and -/
theorem length_head_pos (major n : Nat) : 1 ≤ (head major n).length := by
  unfold head
  split
  · simp
  · repeat' split
    all_goals simp

/-- nine at most. -/
theorem length_head_le (major n : Nat) : (head major n).length ≤ 9 := by
  unfold head
  repeat' split
  all_goals simp [bytesOf]

/-! ## Items -/

/-- Every value takes up a byte at least. -/
theorem length_encode_pos (j : Json) : 1 ≤ (encode j).length := by
  -- The byte is that of the head, except for values that are one byte themselves.
  cases j with
  | int n =>
    show 1 ≤ (int n).length
    unfold int
    split <;> exact length_head_pos _ _
  | float x =>
    show 1 ≤ (float x).length
    unfold float
    repeat' split
    all_goals simp
  | text s =>
    have := length_head_pos 3 (Octets.ofText s).length
    simp [encode, text]
    omega
  | array items =>
    have := length_head_pos 4 items.length
    simp [encode]
    omega
  | object members =>
    have := length_head_pos 5 members.length
    simp [encode]
    omega
  | _ => simp [encode]

/-- A list takes up as many bytes as it has items, at least, -/
theorem length_items_le (items : List Json) : items.length ≤ (encodeItems items).length := by
  induction items with
  | nil => exact Nat.zero_le _
  | cons j rest ih =>
    have := length_encode_pos j
    simp [encodeItems]
    omega

/-- and so does a list of members. -/
theorem length_members_le (members : List (String × Json)) :
    members.length ≤ (encodeMembers members).length := by
  induction members with
  | nil => exact Nat.zero_le _
  | cons m rest ih =>
    obtain ⟨k, j⟩ := m
    have := length_encode_pos j
    simp [encodeMembers]
    omega

/-- A member at the end takes up its name and its value. -/
theorem length_encodeMembers_concat (members : List (String × Json)) (name : String) (j : Json) :
    (encodeMembers (members ++ [(name, j)])).length =
      (encodeMembers members).length + (text name).length + (encode j).length := by
  induction members with
  | nil => simp [encodeMembers]
  | cons m rest ih =>
    obtain ⟨k, v⟩ := m
    simp only [List.cons_append, encodeMembers, List.length_append, ih]
    omega

/-- An object takes up a head beside its members, -/
theorem length_encode_object_le (members : List (String × Json)) :
    (encode (.object members)).length ≤ 9 + (encodeMembers members).length := by
  have := length_head_le 5 members.length
  rw [encode, List.length_append]
  omega

/-- and a text beside its characters. -/
theorem length_text_le (s : String) : (text s).length ≤ 9 + (Octets.ofText s).length := by
  have := length_head_le 3 (Octets.ofText s).length
  rw [text, List.length_append]
  omega

/-- The binary form of a text spells it. -/
theorem spells_text {s : String} (room : (Octets.ofText s).length < 0x10000000000000000) :
    Spells (.text s) (text s) := by
  have hspells := Spells.text (head_of_lt 3 room)
  rwa [Octets.text?_ofText] at hspells

/-- The binary form of an integer that a word holds spells it. -/
theorem spells_int {n : Int} (fits : FitsWord n) : Spells (.int n) (int n) := by
  obtain ⟨hlow, hhigh⟩ := fits
  unfold int
  by_cases hn : 0 ≤ n
  · have hspells := Spells.natural (head_of_lt 0 (show n.toNat < 0x10000000000000000 by omega))
    rw [if_pos hn]
    rwa [Int.toNat_of_nonneg hn] at hspells
  · -- A negative integer is written by its distance from −1.
    have hspells := Spells.negative
      (head_of_lt 1 (show (-1 - n).toNat < 0x10000000000000000 by omega))
    rw [if_neg hn]
    rwa [Int.toNat_of_nonneg (show 0 ≤ -1 - n by omega), show -1 - (-1 - n) = n by omega]
      at hspells

/-- There are as many items as values, -/
theorem length_itemsOf (items : List Json) : (Json.itemsOf items).length = items.length := by
  induction items with
  | nil => rfl
  | cons j rest ih => rw [Json.itemsOf, List.length_cons, List.length_cons, ih]

/-- and as many entries as members. -/
theorem length_entriesOf (members : List (String × Json)) :
    (Json.entriesOf members).length = members.length := by
  induction members with
  | nil => rfl
  | cons m rest ih => rw [Json.entriesOf, List.length_cons, List.length_cons, ih]

mutual

/-- The binary form of a value spells its item. -/
theorem spells_encode : ∀ {j : Json} {levels : Nat}, j.Kept levels →
    (encode j).length < 0x10000000000000000 → Spells j.item (encode j)
  | .null, _, _, _ => @Spells.simple 0 22 _ (.short (by decide))
  | .bool true, _, _, _ => @Spells.simple 0 21 _ (.short (by decide))
  | .bool false, _, _, _ => @Spells.simple 0 20 _ (.short (by decide))
  | .int _, _, fits, _ => spells_int fits
  | .float _, _, h, _ => h.elim
  | .text s, _, _, room => by
    refine spells_text (Nat.lt_of_le_of_lt ?_ room)
    simp [encode, text]
  | .array items, levels, kept, room => by
    cases levels with
    | zero => exact kept.elim
    | succ levels =>
      rw [encode, List.length_append] at room
      -- Each item takes a byte, so the number of items is small enough for a head.
      have hcount := length_items_le items
      have hhead := head_of_lt 4 (show items.length < 0x10000000000000000 by omega)
      rw [← length_itemsOf items] at hhead
      have hitems := spells_encodeItems kept (by omega)
      rw [encode, ← length_itemsOf items]
      exact .array hhead hitems
  | .object members, levels, kept, room => by
    cases levels with
    | zero => exact kept.elim
    | succ levels =>
      rw [encode, List.length_append] at room
      -- As for the items: there are no more members than bytes.
      have hcount := length_members_le members
      have hhead := head_of_lt 5 (show members.length < 0x10000000000000000 by omega)
      rw [← length_entriesOf members] at hhead
      have hentries := spells_encodeMembers kept (by omega)
      rw [encode, ← length_entriesOf members]
      exact .map hhead hentries

/-- The items one after another spell the list of them, and -/
theorem spells_encodeItems : ∀ {items : List Json} {levels : Nat}, KeptItems levels items →
    (encodeItems items).length < 0x10000000000000000 →
    SpellsItems (Json.itemsOf items) (encodeItems items)
  | [], _, _, _ => .nil
  | j :: items, _, kept, room => by
    rw [encodeItems, List.length_append] at room
    exact .cons (spells_encode kept.1 (by omega)) (spells_encodeItems kept.2 (by omega))

/-- the members do, each behind its name. -/
theorem spells_encodeMembers : ∀ {members : List (String × Json)} {levels : Nat},
    KeptMembers levels members → (encodeMembers members).length < 0x10000000000000000 →
    SpellsEntries (Json.entriesOf members) (encodeMembers members)
  | [], _, _, _ => .nil
  | (k, j) :: members, _, kept, room => by
    rw [encodeMembers, List.length_append, List.length_append] at room
    -- The name is shorter than the member, and so its length fits into a head.
    have hname : (Octets.ofText k).length ≤ (text k).length := by
      rw [text, List.length_append]
      omega
    rw [encodeMembers, List.append_assoc]
    exact .cons (spells_text (by omega)) (spells_encode kept.1 (by omega))
      (spells_encodeMembers kept.2 (by omega))

end

/-- A document that is kept goes no deeper than the levels that it was kept with. -/
theorem depth_le_of_kept {j : Json} {levels : Nat} (kept : j.Kept levels) :
    j.item.depth ≤ levels := by
  -- Each part has one level less to go down.
  induction j using Json.induct generalizing levels with
  | null | bool b | int n | text s => exact Nat.zero_le _
  | float x => exact kept.elim
  | array items ih =>
    cases levels with
    | zero => exact kept.elim
    | succ levels =>
      exact Json.depth_array_le.2 fun j hj => ih j hj (Json.keptItems_iff.1 kept j hj)
  | object members ih =>
    cases levels with
    | zero => exact kept.elim
    | succ levels =>
      exact Json.depth_object_le.2 fun m hm => ih m hm (Json.keptMembers_iff.1 kept m hm)

/-- What is kept can be passed over, and is not too deep. -/
theorem passes_of_kept {j : Json} {levels : Nat} (kept : j.Kept levels) :
    Medium.passes (.binary levels) j.item = true := by
  rw [Medium.passes, Json.passable_item, decide_eq_true (depth_le_of_kept kept)]
  rfl

/-- The binary form of a value is read as its item. -/
theorem read_encode {j : Json} (kept : j.Kept maxLevels)
    (room : (encode j).length < 0x10000000000000000) :
    read (encode j) = j.item := by
  have hread := (spells_encode kept room).read (passes_of_kept kept) []
  rwa [List.append_nil] at hread

/-- A map of one entry, under an integer key, takes up the one level that its value leaves. -/
theorem passes_entry (key : Nat) {j : Json} (kept : j.Kept 255) :
    Medium.passes (.binary maxLevels) (.map [(.int key, j.item)]) = true := by
  have hvalue := depth_le_of_kept kept
  -- The key has no depth, so the value decides how deep the map is.
  have hdepth : (Item.map [(.int key, j.item)]).depth ≤ maxLevels := by
    show 1 + max (max 0 j.item.depth) 0 ≤ 256
    omega
  have hpassable : (Item.map [(.int key, j.item)]).passable = true := by
    simp [Item.passable, Item.passableEntries, Json.passable_item]
  rw [Medium.passes, hpassable, decide_eq_true hdepth]
  rfl

/-- Such a map is read back. -/
theorem read_entry {key : Nat} (hkey : key < 0x10000000000000000) {j : Json} (kept : j.Kept 255)
    (room : (encode j).length < 0x10000000000000000) :
    read (head 5 1 ++ head 0 key ++ encode j) = .map [(.int key, j.item)] := by
  have hentries := SpellsEntries.cons (.natural (head_of_lt 0 hkey)) (spells_encode kept room) .nil
  have hspells : Spells (.map [(.int key, j.item)]) _ :=
    .map (head_of_lt 5 (n := 1) (by decide)) hentries
  simpa using hspells.read (passes_entry key kept) []

/-- Where binary documents are read like all others, one is decoded to what its first item is read
as. -/
theorem decode_eq_ok {β : Type} [Portable β]
    (hbinary : ∀ s, Portable.ofBinary s = Portable.read (α := β) (.binary maxLevels) (read s))
    {s : Octets} {b : β} :
    decode s = .ok b ↔ Portable.read (.binary maxLevels) (read s) = .ok b := by
  rw [decode, hbinary]
  cases (Portable.read (.binary maxLevels) (read s) : Reading β) <;> simp

/-- A binary document of one item that is read as a value is decoded to it. -/
theorem decode_encodeValue {α β : Type} [Portable α] [Portable β] {a : α} {b : β}
    (hbinary : ∀ s, Portable.ofBinary s = Portable.read (α := β) (.binary maxLevels) (read s))
    (kept : (toJson a).Kept maxLevels) (room : (encodeValue a).length < 0x10000000000000000)
    (h : Portable.read (.binary maxLevels) (toJson a).item = .ok b) :
    decode (encodeValue a) = .ok b := by
  have hread : read (encodeValue a) = (toJson a).item := read_encode kept room
  rw [decode_eq_ok hbinary, hread, h]

end Cbor

end ChainFollower
