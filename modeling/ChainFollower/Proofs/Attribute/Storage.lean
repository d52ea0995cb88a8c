import ChainFollower.Proofs.Attribute.Documents
import ChainFollower.Proofs.Number.Encodings

/-!
# Stored values are read back

What is stored is written as the text of an attribute.  Words and amounts are texts of their digits,
fields are looked up by their names, and what is absent has a default of its own, so that nothing
stored is lost.

Main definitions: `Storable.reload`, and `Storable.Kept` for the values that storing keeps.

Main statement: `Storable.lossless`.
-/

namespace ChainFollower

namespace Attribute

/-! ## Leaves -/

/-- A word is read back from the text of its digits, with nothing to trim. -/
theorem asWord_ofWord (n : UInt64) : asWord (ofWord n) = .ok n := by
  -- Digits are no blanks, and a word has no more digits than are read as one.
  have hread : Decimal.readWord 0x10000000000000000 (Text.trim (toString n.toNat).toList) =
      .ok n.toNat := by
    rw [Decimal.toList_toString,
      Decimal.trim_of_all fun c hc => (Decimal.isDigit_of_mem_digits hc).2,
      Decimal.readWord_digits n.toNat_lt]
  simp only [asWord, ofWord, hread, UInt64.ofNat_toNat]

/-- A text is read back. -/
theorem asText_text (s : String) : asText (.text s) = .ok s := rfl

/-- A word takes the one level of a number. -/
theorem fits_ofWord (levels : Nat) (n : UInt64) : (ofWord n).Fits (levels + 1) :=
  fits_number levels _

/-! ## Entries -/

section Entries

variable {α : Type} {entries : List (String × Attribute)} {field : String}

/-- An entry that is there is found, -/
theorem required_eq {a : Attribute} (h : entries.lookup field = some a) :
    required entries field = .ok a := by
  rw [required, h]

/-- and read as something that may be missing, -/
theorem optional_eq {read : Attribute → Except Complaint α} {a : Attribute} {x : α}
    (h : entries.lookup field = some a) (hread : read a = .ok x) :
    optional entries field read = .ok (some x) := by
  rw [optional, h]
  show (read a).map some = _
  rw [hread]
  rfl

/-- while nothing is read of an entry that is not there. -/
theorem optional_absent {read : Attribute → Except Complaint α}
    (h : entries.lookup field = none) : optional entries field read = .ok none := by
  rw [optional, h]

end Entries

/-- The amounts of a map are read back. -/
theorem amounts_map (entries : List (String × Int)) :
    amounts (entries.map fun e => (e.1, toAttribute e.2)) = .ok entries := by
  induction entries with
  | nil => rfl
  | cons e rest ih =>
    rw [List.map_cons, amounts, Amount.ofAttribute_toAttribute, ih]
    rfl

end Attribute

/-! ## Stored values -/

namespace Storable

variable {α : Type} [Storable α]

/-- What comes back of a value that is stored as the text of its attribute. -/
def reload (a : α) : Except DecodeError α := do
  let stored : Attribute ← Json.decode (Json.encode (toAttribute a))
  (ofAttribute stored).mapError .refused

/-- Storing keeps the value: a text can hold its attribute, which is read as the value. -/
structure Kept (a : α) : Prop where
  fits : (toAttribute a).Fits documentLevels
  read : ofAttribute (toAttribute a) = .ok a

/-- What storing keeps comes back. -/
theorem Kept.reload_eq {a : α} (h : Kept a) : reload a = .ok a := by
  rw [reload, h.fits.decode_encode]
  -- The text holds the attribute, so all that is left is to read the attribute.
  show (ofAttribute (toAttribute a)).mapError DecodeError.refused = _
  rw [h.read]
  rfl

/-- A value whose attribute is no null may as well be stored as something that may be missing. -/
theorem Kept.some {a : α} (h : Kept a) (present : (toAttribute a).isNull = false) :
    Kept (some a) := by
  refine ⟨h.fits, ?read⟩
  case read =>
    show (if (toAttribute a).isNull then _ else (ofAttribute (toAttribute a)).map Option.some) = _
    rw [present, h.read]
    rfl

/-- What is missing is stored as a null and comes back as missing. -/
theorem kept_none : Kept (none : Option α) := ⟨Attribute.fits_null _ true, rfl⟩

/-- What may be missing is kept if the values are, and none of them is stored as a null. -/
theorem kept_option {o : Option α} (h : ∀ a ∈ o, Kept a ∧ (toAttribute a).isNull = false) :
    Kept o := by
  cases o with
  | none => exact kept_none
  | some a =>
    obtain ⟨hkept, hpresent⟩ := h a rfl
    exact hkept.some hpresent

end Storable

open Storable Attribute

/-! ## Tips -/

namespace Tip

/-- The entries that store a tip. -/
def stored (t : Tip) : List (String × Attribute) :=
  Entries.sort [("slot", ofWord t.slot), ("id", .text t.id), ("height", ofWord t.height)]

theorem read_stored (t : Tip) : (ofAttribute (.map t.stored) : Except Complaint Tip) = .ok t := by
  have hlookup : ∀ field, t.stored.lookup field = _ := Entries.lookup_sort _
  have hslot : Attribute.optional t.stored "slot" asWord = .ok (some t.slot) :=
    optional_eq (hlookup "slot") (asWord_ofWord t.slot)
  have hid : Attribute.optional t.stored "id" asText = .ok (some t.id) :=
    optional_eq (hlookup "id") (asText_text t.id)
  have hheight : Attribute.optional t.stored "height" asWord = .ok (some t.height) :=
    optional_eq (hlookup "height") (asWord_ofWord t.height)
  simp only [ofAttribute, asMap, hslot, hid, hheight, bind, Except.bind]
  rfl

theorem kept (t : Tip) : Kept t := by
  have hfits : (toAttribute t).Fits 3 := by
    apply fits_ofEntriesList
    simp [fits_ofWord, Attribute.fits_text]
  exact ⟨hfits.mono (by decide), t.read_stored⟩

end Tip

/-! ## Points -/

namespace BlockRef

/-- The entries that store a block. -/
def stored (b : BlockRef) : List (String × Attribute) :=
  Entries.sort <| [("slot", ofWord b.slot), ("id", .text b.id)] ++
    (b.height.map fun h => ("blockNo", ofWord h)).toList

-- Whether there is a height decides how many entries are sorted, and nothing else.

theorem lookup_slot (b : BlockRef) : b.stored.lookup "slot" = some (ofWord b.slot) := by
  rw [stored, Entries.lookup_sort]
  cases b.height <;> rfl

theorem lookup_id (b : BlockRef) : b.stored.lookup "id" = some (.text b.id) := by
  rw [stored, Entries.lookup_sort]
  cases b.height <;> rfl

theorem lookup_height (b : BlockRef) : b.stored.lookup "blockNo" = b.height.map ofWord := by
  rw [stored, Entries.lookup_sort]
  cases b.height <;> rfl

theorem read_stored (b : BlockRef) :
    (ofAttribute (.map b.stored) : Except Complaint BlockRef) = .ok b := by
  have hslot := required_eq b.lookup_slot
  have hid := required_eq b.lookup_id
  -- A block without a height has no entry for it, so the two cases are looked up apart.
  have hheight : Attribute.optional b.stored "blockNo" asWord = .ok b.height := by
    have hlookup := b.lookup_height
    cases hheight : b.height with
    | none =>
      rw [hheight] at hlookup
      exact optional_absent hlookup
    | some h =>
      rw [hheight] at hlookup
      exact optional_eq hlookup (asWord_ofWord h)
  simp only [ofAttribute, asMap, hslot, hid, hheight, asWord_ofWord, asText_text, bind, Except.bind]
  rfl

theorem kept (b : BlockRef) : Kept b := by
  have hfits : (toAttribute b).Fits 3 := by
    apply fits_ofEntriesList
    cases b.height <;> simp [fits_ofWord, Attribute.fits_text]
  exact ⟨hfits.mono (by decide), b.read_stored⟩

/-- There is always a slot, so that the map of a block is not empty. -/
theorem stored_ne_nil (b : BlockRef) : b.stored ≠ [] := by
  intro hnil
  have hslot := b.lookup_slot
  rw [hnil] at hslot
  cases hslot

end BlockRef

namespace Point

theorem read_stored (p : Point) : ofAttribute (toAttribute p) = .ok p := by
  cases p with
  | symbol s => rfl
  | block b =>
    have hread := b.read_stored
    show ofAttribute (.map b.stored) = _
    -- A map without entries would be no point.
    cases hstored : b.stored with
    | nil => exact absurd hstored b.stored_ne_nil
    | cons e entries =>
      rw [hstored] at hread
      show (ofAttribute (.map (e :: entries))).map Point.block = _
      rw [hread]
      rfl

theorem kept (p : Point) : Kept p := by
  refine ⟨?fits, p.read_stored⟩
  case fits =>
    cases p with
    | symbol s => exact Fits.mono (Attribute.fits_text 0 s) (by decide)
    | block b => exact b.kept.fits

/-- No point is stored as a null. -/
theorem isNull_toAttribute (p : Point) : (toAttribute p).isNull = false := by
  cases p <;> rfl

end Point

/-! ## Values -/

namespace Value

/-- The entries that store a value: nothing is said of assets if there are none. -/
def stored (v : Value) : List (String × Attribute) :=
  Entries.sort <| [("coins", toAttribute v.coins)] ++
    if v.assets.isEmpty then []
    else [("assets", .map (v.assets.entries.map fun e => (e.1, toAttribute e.2)))]

theorem lookup_coins (v : Value) : v.stored.lookup "coins" = some (toAttribute v.coins) := by
  rw [stored, Entries.lookup_sort]
  split <;> rfl

/-- A value without assets is read as one of an empty map. -/
theorem read_assets (v : Value) :
    ∃ assets, (Attribute.optional v.stored "assets" fun a => do amounts (← asMap a)) = .ok assets ∧
      Dict.ofList (assets.getD []) = v.assets := by
  have hlookup : v.stored.lookup "assets" = _ := Entries.lookup_sort _ _
  -- The entry for the assets is left out exactly if there are none.
  by_cases hempty : v.assets.isEmpty = true
  · rw [if_pos hempty] at hlookup
    refine ⟨none, optional_absent hlookup, ?_⟩
    have hnil : v.assets.entries = [] := List.isEmpty_iff.1 hempty
    rw [← Dict.ofList_entries v.assets, hnil]
    rfl
  · rw [if_neg hempty] at hlookup
    exact ⟨_, optional_eq hlookup (amounts_map v.assets.entries), Dict.ofList_entries v.assets⟩

theorem read_stored (v : Value) :
    (ofAttribute (.map v.stored) : Except Complaint Value) = .ok v := by
  have hcoins := optional_eq v.lookup_coins (Amount.ofAttribute_toAttribute v.coins)
  obtain ⟨assets, hassets, heq⟩ := v.read_assets
  show (do
    let coins ← Attribute.optional v.stored "coins" ofAttribute
    let assets ← Attribute.optional v.stored "assets" fun a => do amounts (← asMap a)
    return (⟨coins.getD 0, .ofList (assets.getD [])⟩ : Value)) = _
  rw [hcoins, hassets]
  show Except.ok (⟨v.coins, .ofList (assets.getD [])⟩ : Value) = _
  rw [heq]

/-- Coins take one level; there is room for more. -/
theorem fits_coins (coins : Int) : (toAttribute coins).Fits 3 := fits_number 2 _

/-- Assets stay in the order of their ids. -/
theorem fits_assets (assets : Dict Int) :
    (Attribute.map (assets.entries.map fun e => (e.1, toAttribute e.2))).Fits 3 := by
  apply fits_map (Entries.ascending_map (fun _ => toAttribute) assets.ascending)
  -- The map takes two levels, and each amount in it one.
  rw [List.forall_mem_map]
  intro e _
  exact fits_number 0 _

theorem kept (v : Value) : Kept v := by
  have hfits : (toAttribute v).Fits 5 := by
    apply fits_ofEntriesList
    split <;> simp [fits_coins, fits_assets]
  exact ⟨hfits.mono (by decide), v.read_stored⟩

/-- No value is stored as a null. -/
theorem isNull_toAttribute (v : Value) : (toAttribute v).isNull = false := rfl

end Value

/-! ## What is stored -/

namespace Storable

/-- A tip or a value, one that may be missing included, comes back as it was stored, with the same
amount for every id and no id more or less.  So does every attribute within the levels that a text
may have, if its maps have the one order of their entries; no other attribute is ever read. -/
theorem lossless :
    (∀ t : Tip, reload t = .ok t) ∧ (∀ t : Option Tip, reload t = .ok t) ∧
    (∀ v : Value, reload v = .ok v) ∧ (∀ v : Option Value, reload v = .ok v) ∧
    ∀ a : Attribute, a.document.item.depth ≤ documentLevels →
      (Json.decode (Json.encode a) = .ok a ↔ a.Ordered) := by
  refine ⟨fun t => t.kept.reload_eq, fun t => ?tip, fun v => v.kept.reload_eq, fun v => ?value,
    fun a depth => decode_encode_iff depth⟩
  case tip => exact (kept_option fun t _ => ⟨t.kept, rfl⟩).reload_eq
  case value => exact (kept_option fun v _ => ⟨v.kept, v.isNull_toAttribute⟩).reload_eq

/-- Bytes, and a null that is none, in a list in a map. -/
theorem lossless_nested :
    (Attribute.map [("a", .list [.bytes [0, 255], .null false])]).document.item.depth
      ≤ documentLevels ∧
    Json.decode (Json.encode (Attribute.map [("a", .list [.bytes [0, 255], .null false])])) =
      .ok (Attribute.map [("a", .list [.bytes [0, 255], .null false])]) := by
  have depth : (Attribute.map [("a", .list [.bytes [0, 255], .null false])]).document.item.depth
      ≤ documentLevels := by decide
  have ordered : (Attribute.map [("a", .list [.bytes [0, 255], .null false])]).Ordered := by
    simp [Ordered, OrderedEntries, OrderedItems, Entries.Ascending]
  obtain ⟨-, -, -, -, hattribute⟩ := lossless
  exact ⟨depth, (hattribute _ depth).2 ordered⟩

end Storable

end ChainFollower
