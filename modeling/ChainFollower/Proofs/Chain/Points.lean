import ChainFollower.Chain.PointRecord
import ChainFollower.Proofs.Attribute.Storage
import ChainFollower.Proofs.Cbor.Rereading
import ChainFollower.Proofs.Ledger.Records

/-!
# Points in every encoding

A point is written as a document, in text or binary, as a record of one entry, and as an attribute.
Each tells a symbol from a block, whatever the symbol says, and each is read back as the point; the
record and the attribute also tell a point from none.

Main definitions: `BlockRef.fields` for the record that a block's document is, `PointRecord.item`
for the item of a point's record, and `Point.Holdable` for points with a text that memory can hold.

Main statement: `Point.codecs_inverse`.
-/

namespace ChainFollower

open Storable (Kept kept_option)

/-! ## Documents of points -/

/-- A word is read from an integer of any medium. -/
theorem Reader.word64_int (m : Medium) (n : UInt64) : Reader.word64 m (.int n.toNat) = .ok n := by
  cases m <;> exact Reader.word64_toNat n

namespace BlockRef

/-- The names of a block's fields. -/
def names : FieldNames := [("slot", []), ("id", []), ("blockNo", [])]

/-- The members of a block's document. -/
def members (b : BlockRef) : List (String × Json) :=
  [("slot", .int b.slot.toNat), ("id", .text b.id)] ++
    (b.height.map fun h => ("blockNo", .int h.toNat)).toList

/-- A block's document is an object of its members. -/
theorem toJson_eq (b : BlockRef) : toJson b = .object b.members := by
  obtain ⟨slot, id, height⟩ := b
  cases height <;> rfl

/-- No number of a block is a float. -/
theorem floatFree (b : BlockRef) : (toJson b).FloatFree := by
  rw [toJson_eq, Json.floatFree_object]
  unfold members
  cases b.height <;> simp [Json.floatFree_int, Json.floatFree_text]

/-- The record that a block's document is. -/
def fields (b : BlockRef) (m : Medium) : Record where
  medium := m
  fields := [("slot", 0, .int b.slot.toNat), ("id", 1, .text b.id)] ++
    (b.height.map fun h => ("blockNo", 2, .int h.toNat)).toList
  stop := none
  size := 2 + b.height.toList.length

/-- Where names are taken as they stand, a block's members are collected into its fields. -/
theorem collect_members (b : BlockRef) {m : Medium}
    (takes : ∀ name, Reader.name m (.text name) = .ok (.name name)) :
    Record.collect m names 0 [] (Json.entriesOf b.members) = b.fields m := by
  have hslot : Record.field? names "slot" = some "slot" := by decide
  have hid : Record.field? names "id" = some "id" := by decide
  have hheight : Record.field? names "blockNo" = some "blockNo" := by decide
  -- With a height and without one the fields differ, so both are collected in turn.
  unfold members
  cases hb : b.height with
  | none =>
    rw [fields, hb]
    simp only [Option.map_none, Option.toList_none, List.append_nil, Json.entriesOf]
    rw [Record.collect_field (takes _) hslot rfl, Record.collect_field (takes _) hid rfl]
    rfl
  | some h =>
    rw [fields, hb]
    simp only [Option.map_some, Option.toList_some, List.cons_append, List.nil_append,
      Json.entriesOf]
    rw [Record.collect_field (takes _) hslot rfl, Record.collect_field (takes _) hid rfl,
      Record.collect_field (takes _) hheight rfl]
    rfl

/-- A block is read from its document, whether that comes from a text or was held before. -/
theorem read_item (b : BlockRef) {m : Medium} (hm : m = .document ∨ m = .stored) :
    Portable.read m (toJson b).item = .ok b := by
  -- Both media take a name as it stands, so one record serves for them.
  have takes : ∀ name, Reader.name m (.text name) = .ok (.name name) := by
    rcases hm with rfl | rfl <;> exact fun _ => rfl
  have hrecord : Record.ofItem m names (.map (Json.entriesOf b.members)) = .ok (b.fields m) := by
    rw [← b.collect_members takes]
    rcases hm with rfl | rfl <;> rfl
  have hslot : (b.fields m).get "slot" = ⟨.ok b.slot⟩ :=
    Record.getRequired_of_find rfl (Reader.word64_int m b.slot)
  have hid : (b.fields m).get "id" = ⟨.ok b.id⟩ :=
    Record.getRequired_of_find rfl (Json.text_text m b.id)
  have hheight : (b.fields m).getD "blockNo" none = ⟨.ok b.height⟩ := by
    cases hb : b.height with
    | none =>
      apply Record.getWith_of_absent
      simp [fields, Record.find?, hb, Entries.lookup_cons]
    | some h =>
      have hfind : (b.fields m).find? "blockNo" = some (2, .int h.toNat) := by
        simp [fields, Record.find?, hb, Entries.lookup_cons]
      apply Record.getWith_of_find hfind
      show (Reader.word64 m (.int h.toNat)).map some = _
      rw [Reader.word64_int]
      rfl
  rw [toJson_eq]
  show (Record.ofItem m names (.map (Json.entriesOf b.members)) >>= fun r =>
    r.finish (BlockRef.mk <$> r.get "slot" <*> r.get "id" <*> r.getD "blockNo" none)) = _
  rw [hrecord]
  show (b.fields m).finish (BlockRef.mk <$> (b.fields m).get "slot" <*> (b.fields m).get "id" <*>
    (b.fields m).getD "blockNo" none) = _
  rw [hslot, hid, hheight]
  rfl

/-- The members take up a few bytes more than the text among them. -/
theorem length_members_le (b : BlockRef) :
    (Cbor.encodeMembers b.members).length ≤ 0x80 + (Octets.ofText b.id).length := by
  have hword : ∀ n : UInt64, (Cbor.encode (.int n.toNat)).length ≤ 9 := by
    intro n
    rw [Cbor.encode, Cbor.int, if_pos (Int.natCast_nonneg _)]
    exact Cbor.length_head_le 0 _
  have hslot := hword b.slot
  have hid := Cbor.length_text_le b.id
  have hslotName : (Cbor.text "slot").length = 5 := by decide +kernel
  have hidName : (Cbor.text "id").length = 3 := by decide +kernel
  have hheightName : (Cbor.text "blockNo").length = 8 := by decide +kernel
  have htext : Cbor.encode (.text b.id) = Cbor.text b.id := rfl
  unfold members
  -- The height takes nine bytes and its name eight; the other members are always there.
  cases b.height with
  | none =>
    simp only [Option.map_none, Option.toList_none, List.append_nil, Cbor.encodeMembers,
      List.length_append, htext]
    omega
  | some h =>
    have hheight := hword h
    simp only [Option.map_some, Option.toList_some, List.cons_append, List.nil_append,
      Cbor.encodeMembers, List.length_append, List.length_nil, htext]
    omega

end BlockRef

namespace Point

/-- A block nests one object, and a symbol nothing. -/
theorem fits (p : Point) : (toJson p).Fits 1 := (readBack_point p).fits

/-- A point holds no float, whichever form it has. -/
theorem floatFree (p : Point) : (toJson p).FloatFree := by
  cases p with
  | symbol s => exact Json.floatFree_text s
  | block b => exact b.floatFree

/-- A point is read from its document, a block also behind the symbol that is tried first. -/
theorem read_item (p : Point) : Portable.read .document (toJson p).item = .ok p := by
  cases p with
  | symbol s => rfl
  | block b =>
    have hblock := b.read_item (.inl rfl)
    -- A block is an object, and so no symbol.
    have hobject : (Reader.text .document (toJson b).item).map Point.symbol = .error none := by
      rw [b.toJson_eq]
      rfl
    apply Reader.firstOf_second (Point.block b).fits.holdable
    · show ((Reader.text .document (toJson b).item).map Point.symbol).toOption = none
      rw [hobject]
      rfl
    · show (Portable.read .document (toJson b).item).map Point.block = _
      rw [hblock]
      rfl

/-- A point is decoded from its text. -/
theorem decode_encode (p : Point) : Json.decode (Json.encode p) = .ok p :=
  Json.decode_encode (p.fits.mono (by decide)) p.floatFree.legible p.read_item

/-- The text in a point: its symbol, or the hash of its block. -/
def name : Point → String
  | .symbol s => s
  | .block b => b.id

/-- Beside the text in it a point takes up few bytes. -/
theorem length_encode_le (p : Point) :
    (Cbor.encode (toJson p)).length ≤ 0x100 + (Octets.ofText p.name).length := by
  cases p with
  | symbol s =>
    have htext := Cbor.length_text_le s
    show (Cbor.text s).length ≤ 0x100 + (Octets.ofText s).length
    omega
  | block b =>
    -- The object takes a head, and its members little more than the hash.
    have hobject := Cbor.length_encode_object_le b.members
    have hmembers := b.length_members_le
    show (Cbor.encode (toJson b)).length ≤ 0x100 + (Octets.ofText b.id).length
    rw [b.toJson_eq]
    omega

/-- The text in a point has fewer than 2⁶³ bytes, as any text in memory has. -/
def Holdable (p : Point) : Prop := (Octets.ofText p.name).length < 0x8000000000000000

/-- A point is decoded from its bytes, if its text can be held. -/
theorem decode_encodeValue {p : Point} (h : p.Holdable) :
    Cbor.decode (Cbor.encodeValue p) = .ok p := by
  have hfits := p.fits.mono (show 1 ≤ Cbor.maxLevels by decide)
  -- The few bytes around the text leave the length below what a head can hold.
  have hlength := p.length_encode_le
  have room : (Cbor.encodeValue p).length < 0x10000000000000000 := by
    unfold Holdable at h
    rw [Cbor.encodeValue]
    omega
  apply Cbor.decode_encodeValue (fun _ => rfl) (hfits.kept p.floatFree) room
  exact (Reader.firstOf_binary _ hfits.depth).trans p.read_item

end Point

/-! ## Point records -/

namespace PointRecord

mutual

/-- A document's item is held as it is. -/
theorem settle_item : ∀ j : Json, settle j.item = j.item
  | .null | .bool _ | .int _ | .float _ | .text _ => rfl
  | .array items => congrArg Item.array (settle_itemsOf items)
  | .object members => congrArg Item.map (settle_entriesOf members)

/-- And so are the items of an array, -/
theorem settle_itemsOf : ∀ items : List Json,
    settleItems (Json.itemsOf items) = Json.itemsOf items
  | [] => rfl
  | j :: rest => by rw [Json.itemsOf, settleItems, settle_item j, settle_itemsOf rest]

/-- and the members of an object. -/
theorem settle_entriesOf : ∀ members : List (String × Json),
    settleEntries (Json.entriesOf members) = Json.entriesOf members
  | [] => rfl
  | (k, j) :: rest => by
    rw [Json.entriesOf, settleEntries, settle_item j, settle_entriesOf rest]
    rfl

end

/-- The key under which a point stands in its record. -/
def keyOf : Point → Nat
  | .symbol _ => symbolKey
  | .block _ => blockKey

/-- A point's record is one entry, under the key that tells which form it has. -/
theorem encode_some (p : Point) :
    encode (some p) = Cbor.head 5 1 ++ Cbor.head 0 (keyOf p) ++ Cbor.encode (toJson p) := by
  cases p <;> rfl

/-- The keys are small enough for any head. -/
theorem keyOf_lt (p : Point) : keyOf p < 0x10000000000000000 := by
  cases p <;> simp [keyOf, symbolKey, blockKey]

/-- The item that a point's record is. -/
def item (p : Point) : Item := .map [(.int (keyOf p), (toJson p).item)]

/-- Keeping a record for its second reading changes nothing. -/
theorem settle_record (p : Point) : settle (item p) = item p := by
  simp only [item, settle, settleEntries, settle_item]

/-- A record goes two levels down at most. -/
theorem passes_record (p : Point) : Medium.passes (.binary Cbor.maxLevels) (item p) = true :=
  Cbor.passes_entry (keyOf p) ((p.fits.mono (by decide)).kept p.floatFree)

/-- A point is read from the only entry of its record. -/
theorem ofEntries_record (p : Point) :
    ofEntries [(.int (keyOf p), (toJson p).item)] = .ok p := by
  cases p with
  | symbol s => rfl
  | block b =>
    -- The one key is that of a block, so that no symbol stands beside it.
    have hsymbol : valueOf? symbolKey [(.int blockKey, (toJson b).item)] = none := rfl
    have hblock : valueOf? blockKey [(.int blockKey, (toJson b).item)] = some (toJson b).item := rfl
    show ofEntries [(.int blockKey, (toJson b).item)] = _
    simp only [ofEntries, hsymbol, hblock, b.read_item (.inr rfl)]

/-- The bytes of a point's record are read as its item. -/
theorem read_encode {p : Point} (h : p.Holdable) : Cbor.read (encode (some p)) = item p := by
  have hlength := p.length_encode_le
  have room : (Cbor.encode (toJson p)).length < 0x10000000000000000 := by
    unfold Point.Holdable at h
    omega
  rw [encode_some]
  exact Cbor.read_entry (keyOf_lt p) ((p.fits.mono (by decide)).kept p.floatFree) room

/-- A point that may be missing is decoded from its record. -/
theorem decode_encode {p : Option Point} (h : ∀ q ∈ p, q.Holdable) :
    decode (encode p) = .ok p := by
  cases p with
  | none => rfl
  | some q =>
    have hread := read_encode (h q rfl)
    -- The empty record says that there is no point, and this one is not empty.
    have hne : encode (some q) ≠ [] := by
      intro hnil
      rw [hnil] at hread
      cases hread
    rw [decode, hread, passes_record, settle_record]
    · show (ofEntries [(.int (keyOf q), (toJson q).item)]).map some = _
      rw [ofEntries_record]
      rfl
    · exact hne

end PointRecord

/-! ## All encodings -/

/-- A point that may be missing is read back from its attribute, also when that was written as a
text, and a point from its document.  So it is from its binary record, and a point from its binary
document, if its text has a length that memory can hold.  No point is no bytes, and a null. -/
theorem Point.codecs_inverse (p : Option Point) :
    Point.ofStored? (some (toAttribute p)) = .ok p ∧
    (∃ a : Attribute, Json.decode (Json.encode (toAttribute p)) = .ok a ∧
      Point.ofStored? (some a) = .ok p) ∧
    (∀ q ∈ p, Json.decode (Json.encode q) = .ok q) ∧
    ((∀ q ∈ p, q.Holdable) → PointRecord.decode (PointRecord.encode p) = .ok p ∧
      ∀ q ∈ p, Cbor.decode (Cbor.encodeValue q) = .ok q) ∧
    PointRecord.encode none = [] ∧ toAttribute (none : Option Point) = .null true := by
  -- An attribute keeps any point, also one that may be missing.
  have hkept : Kept p := kept_option fun q _ => ⟨q.kept, q.isNull_toAttribute⟩
  refine ⟨hkept.read, ⟨_, hkept.fits.decode_encode, hkept.read⟩, fun q _ => q.decode_encode,
    fun held => ⟨PointRecord.decode_encode held, ?binary⟩, rfl, rfl⟩
  case binary =>
    intro q hq
    exact decode_encodeValue (held q hq)

/-- The greatest slot, a hash of characters that are escaped or take several bytes, and height
zero. -/
theorem Point.codecs_inverse_block :
    (∀ q ∈ some (Point.block ⟨0xffffffffffffffff, "\"\n\u00e9", some 0⟩), q.Holdable) ∧
    PointRecord.decode (PointRecord.encode
      (some (.block ⟨0xffffffffffffffff, "\"\n\u00e9", some 0⟩))) =
      .ok (some (.block ⟨0xffffffffffffffff, "\"\n\u00e9", some 0⟩)) := by
  have held : ∀ q ∈ some (Point.block ⟨0xffffffffffffffff, "\"\n\u00e9", some 0⟩), q.Holdable := by
    simp only [Option.mem_some_iff, forall_eq', Holdable]
    decide
  obtain ⟨-, -, -, hbinary, -⟩ :=
    Point.codecs_inverse (some (.block ⟨0xffffffffffffffff, "\"\n\u00e9", some 0⟩))
  exact ⟨held, (hbinary held).1⟩

end ChainFollower
