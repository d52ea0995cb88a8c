import ChainFollower.Proofs.Item.Fields
import ChainFollower.Protocol.Peek

/-!
# Records of the protocol

What the records that carry points and tips are read as, field by field, and that the document forms
of points and tips, members sorted, are read back.
-/

namespace ChainFollower

open Record (Shape Given shape_sorted exists_holds getWith_eq_ok getRequired_eq_ok
  primary_of_plain)

/-- A word that is written as an integer is read as itself. -/
theorem Reader.word64_toNat (n : UInt64) : Reader.word64 .document (.int n.toNat) = .ok n := by
  have hlt := n.toNat_lt
  have hrange : 0 ≤ (n.toNat : Int) ∧ (n.toNat : Int) < 0x10000000000000000 := by omega
  simp only [Reader.word64, Reader.int?, if_pos hrange]
  simp

/-- A word is read from its integer alone. -/
theorem Reader.word64_eq_ok_iff {i : Item} {n : UInt64} :
    Reader.word64 .document i = .ok n ↔ i = .int n.toNat := by
  constructor
  · intro h
    cases i with
    | int k =>
      simp only [Reader.word64, Reader.int?] at h
      split at h
      · next hrange =>
        cases h
        rw [Item.int.injEq, UInt64.toNat_ofNat_of_lt' (show k.toNat < 2 ^ 64 by omega)]
        omega
      · cases h
    | _ => cases h
  · rintro rfl
    exact Reader.word64_toNat n

/-! ## Tips of either shape -/

/-- A tip is a record of a slot, a hash and a height.  The last two have names of their own in
either shape, and `make` puts a tip of the shape together. -/
def readTip {α : Type} (make : UInt64 → String → UInt64 → α) (hash height : String) : Reader α :=
  Record.read [("slot", []), (hash, []), (height, [])] fun r =>
    make <$> r.getD "slot" 0 <*> r.getD hash "" <*> r.getD height 0

/-- Names for the hash and the height of a tip. -/
structure TipNames (hash height : String) : Prop where
  slot_ne_hash : "slot" ≠ hash
  slot_ne_height : "slot" ≠ height
  height_ne_hash : height ≠ hash

/-- The names of the current shape, and -/
theorem TipNames.current : TipNames "id" "height" := ⟨by decide, by decide, by decide⟩

/-- those of older nodes. -/
theorem TipNames.legacy : TipNames "hash" "blockNo" := ⟨by decide, by decide, by decide⟩

/-- Every field of a tip is called by its own name. -/
theorem TipNames.field?_eq {hash height : String} (names : TipNames hash height) :
    ∀ name ∈ ["slot", hash, height],
      Record.field? [("slot", []), (hash, []), (height, [])] name = some name := by
  have hheight := names.height_ne_hash.symm
  simp [Record.field?, Record.fieldOf?, names.slot_ne_hash, names.slot_ne_height, hheight]

section Shapes

variable {item : Item} {values : String → Option Item}

/-- A tip is read field by field, and each field that is missing is zero or empty. -/
theorem readTip_eq_ok {α : Type} (make : UInt64 → String → UInt64 → α) {hash height : String}
    (h : Shape [("slot", []), (hash, []), (height, [])] item values) {a : α} :
    readTip make hash height .document item = .ok a ↔
      ∃ n s m, Given Reader.word64 0 (values "slot") n ∧ Given Reader.text "" (values hash) s ∧
        Given Reader.word64 0 (values height) m ∧ make n s m = a := by
  obtain ⟨r, hr, hread⟩ := exists_holds h
  apply (hread _ a).trans
  simp only [Placed.seq_eq_ok, Placed.map_eq_ok, Record.getD, getWith_eq_ok hr]
  constructor
  · rintro ⟨_, _, ⟨_, _, ⟨_, hslot, rfl⟩, hhash, rfl⟩, hheight, rfl⟩
    exact ⟨_, _, _, hslot, hhash, hheight, rfl⟩
  · rintro ⟨_, _, _, hslot, hhash, hheight, rfl⟩
    exact ⟨_, _, ⟨_, _, ⟨_, hslot, rfl⟩, hhash, rfl⟩, hheight, rfl⟩

/-- See `readTip_eq_ok`; for the names of the current shape. -/
theorem Tip.read_eq_ok {t : Tip}
    (h : Shape [("slot", []), ("id", []), ("height", [])] item values) :
    Portable.read .document item = .ok t ↔
      Given Reader.word64 0 (values "slot") t.slot ∧ Given Reader.text "" (values "id") t.id ∧
        Given Reader.word64 0 (values "height") t.height := by
  refine (readTip_eq_ok Tip.mk h).trans ⟨?_, ?_⟩
  · rintro ⟨_, _, _, hslot, hid, hheight, rfl⟩
    exact ⟨hslot, hid, hheight⟩
  · rintro ⟨hslot, hid, hheight⟩
    exact ⟨_, _, _, hslot, hid, hheight, rfl⟩

end Shapes

/-- A tip, by the members of a sorted object. -/
theorem Tip.read_object_eq_ok {members : List (String × Json)} {t : Tip} :
    Portable.read .document (Json.object (Entries.sort members)).item = .ok t ↔
      Given Reader.word64 0 ((members.reverse.lookup "slot").map Json.item) t.slot ∧
        Given Reader.text "" ((members.reverse.lookup "id").map Json.item) t.id ∧
          Given Reader.word64 0 ((members.reverse.lookup "height").map Json.item) t.height := by
  obtain ⟨values, hshape, hvalues⟩ := shape_sorted [("slot", []), ("id", []), ("height", [])]
    members (primary_of_plain rfl _)
  rw [Tip.read_eq_ok hshape, hvalues "slot" (by decide), hvalues "id" (by decide),
    hvalues "height" (by decide)]

/-! ## Tips and points read back -/

/-- A word is in the range of integers that documents hold. -/
theorem fitsWord_toNat (n : UInt64) : FitsWord n.toNat := by
  have hlt := n.toNat_lt
  unfold FitsWord
  omega

/-- A tip of either shape is read back from its sorted object. -/
theorem readTip_sorted {α : Type} (make : UInt64 → String → UInt64 → α) {hash height : String}
    (names : TipNames hash height) (slot block : UInt64) (id : String) :
    readTip make hash height .document (Json.object (Entries.sort
        [("slot", .int slot.toNat), (hash, .text id), (height, .int block.toNat)])).item =
      .ok (make slot id block) := by
  obtain ⟨values, hshape, hvalues⟩ := shape_sorted [("slot", []), (hash, []), (height, [])]
    [("slot", .int slot.toNat), (hash, .text id), (height, .int block.toNat)]
    (primary_of_plain rfl _)
  -- The three names are looked up in the order in which sorting may leave them.
  have hlookup : ∀ name ∈ ["slot", hash, height], values name = ([(height, Json.int block.toNat),
      (hash, .text id), ("slot", .int slot.toNat)].lookup name).map Json.item :=
    fun name hname => hvalues name (names.field?_eq name hname)
  have hhash := names.height_ne_hash.symm
  simp only [List.forall_mem_cons, List.not_mem_nil, false_implies, implies_true, and_true,
    Entries.lookup_cons, if_neg names.slot_ne_height, if_neg names.slot_ne_hash, if_neg hhash,
    if_true] at hlookup
  obtain ⟨hslot, hhash, hheight⟩ := hlookup
  refine (readTip_eq_ok make hshape).2 ⟨slot, id, block, ?_, ?_, ?_, rfl⟩
  · rw [hslot]
    exact Reader.word64_toNat slot
  · rw [hhash]
    rfl
  · rw [hheight]
    exact Reader.word64_toNat block

/-- A tip is read back from its document, members sorted, -/
theorem Tip.read_sorted (t : Tip) : Portable.read .document (toJson t).sorted.item = .ok t :=
  readTip_sorted Tip.mk .current t.slot t.height t.id

/-- and so is one of the legacy shape. -/
theorem Legacy.Tip.read_sorted (t : Legacy.Tip) :
    Portable.read .document (toJson t).sorted.item = .ok t :=
  readTip_sorted Legacy.Tip.mk .legacy t.slot t.height t.hash

/-- A word can be held until its type is known. -/
theorem holdable_word (n : UInt64) : (Json.int n.toNat).item.holdable = true := by
  rw [Json.item, Item.holdable]
  exact decide_eq_true (fitsWord_toNat n)

/-- An object of a slot and the text of a hash can be held until its type is known. -/
theorem holdable_slot_text (slot : UInt64) (name hash : String) :
    (Json.object (Entries.sort [("slot", .int slot.toNat), (name, .text hash)])).item.holdable =
      true := by
  apply Json.holdable_sorted
  intro m hm
  simp only [List.mem_cons, List.not_mem_nil, or_false] at hm
  rcases hm with rfl | rfl
  · exact holdable_word slot
  · rfl

/-- A point of the legacy shape is read back, be it a symbol or a block. -/
theorem Legacy.Point.read_sorted (p : Legacy.Point) :
    Portable.read .document (toJson p).sorted.item = .ok p := by
  cases p with
  | symbol s => rfl
  | block slot hash =>
    have hblock : Record.readMap [("slot", []), ("hash", [])]
        (fun r => Legacy.Point.block <$> r.get "slot" <*> r.get "hash") .document
        (toJson (Legacy.Point.block slot hash)).sorted.item = .ok (.block slot hash) := by
      refine (Record.readMap_object _ _ _).trans
        (Record.read_sorted (primary_of_plain rfl _) fun r values hr hvalues => ?_)
      simp (disch := decide) only [Placed.seq_eq_ok, Placed.map_eq_ok, Record.get,
        getRequired_eq_ok hr, hvalues]
      exact ⟨_, _, ⟨_, ⟨_, rfl, Reader.word64_toNat slot⟩, rfl⟩, ⟨_, rfl, rfl⟩, rfl⟩
    exact Reader.firstOf_second (holdable_slot_text slot "hash" hash) rfl hblock

/-- A point without a height is read back. -/
theorem Point.read_sorted (p : Legacy.Point) :
    Portable.read .document (toJson p.current).sorted.item = .ok p.current := by
  cases p with
  | symbol s => rfl
  | block slot hash =>
    have hblock : Portable.read .document
        (toJson (Legacy.Point.block slot hash).current).sorted.item =
          .ok (⟨slot, hash, none⟩ : BlockRef) := by
      apply Record.read_sorted (primary_of_plain rfl _)
      intro r values hr hvalues
      simp (disch := decide) only [Placed.seq_eq_ok, Placed.map_eq_ok, Record.get, Record.getD,
        getRequired_eq_ok hr, getWith_eq_ok hr, hvalues]
      exact ⟨_, _, ⟨_, _, ⟨_, ⟨_, rfl, Reader.word64_toNat slot⟩, rfl⟩, ⟨_, rfl, rfl⟩, rfl⟩, rfl,
        rfl⟩
    refine Reader.firstOf_second (holdable_slot_text slot "id" hash) rfl ?_
    show (Portable.read .document _).map Point.block = _
    rw [hblock]
    rfl

/-- The members of a tip in order. -/
theorem Tip.sorted_eq (t : Tip) : (toJson t).sorted =
    .object [("height", .int t.height.toNat), ("id", .text t.id), ("slot", .int t.slot.toNat)] := by
  show Json.object (Entries.sort
    [("slot", .int t.slot.toNat), ("id", .text t.id), ("height", .int t.height.toNat)]) = _
  simp only [Entries.sort, Entries.insert, List.foldl_cons, List.foldl_nil, String.reduceLT,
    String.reduceEq, reduceIte]

/-- The document form of a tip is passed on as it is. -/
theorem Tip.unread_sorted (t : Tip) :
    Reader.unread .document (toJson t).sorted.item = .ok (toJson t).sorted := by
  rw [Tip.sorted_eq]
  have hslot := fitsWord_toNat t.slot
  have hheight := fitsWord_toNat t.height
  simp only [Json.item, Json.entriesOf, Reader.unread, Reader.unreadMembers, if_pos hslot,
    if_pos hheight]
  show Except.ok (Json.object (Entries.sort _)) = _
  simp only [Entries.sort, Entries.insert, List.foldl_cons, List.foldl_nil, String.reduceLT,
    String.reduceEq, reduceIte]

/-- A tip can be held until its type is known, -/
theorem Tip.holdable_sorted (t : Tip) : (toJson t).sorted.item.holdable = true := by
  rw [Tip.sorted_eq]
  simp only [Json.item, Json.entriesOf, Item.holdable, Item.holdableEntries, fitsWord_toNat,
    decide_true, Bool.and_self]

/-- and so can a point without a height. -/
theorem Point.holdable_sorted (p : Legacy.Point) :
    (toJson p.current).sorted.item.holdable = true := by
  cases p with
  | symbol s => rfl
  | block slot hash => exact holdable_slot_text slot "id" hash

/-! ## Errors -/

/-- An error that is read has a code, and its data is what stands there or nothing. -/
theorem ResultError.of_read {item : Item} {values : String → Option Item} {e : ResultError}
    (hshape : Shape [("code", []), ("message", []), ("data", [])] item values)
    (h : Portable.read .document item = .ok e) :
    (∃ v, values "code" = some v ∧ Reader.signed64 .document v = .ok e.code) ∧
      Given (Reader.option Reader.json) none (values "data") e.data := by
  obtain ⟨r, hr, hread⟩ := exists_holds hshape
  have hfields := (hread _ e).1 h
  simp only [Placed.seq_eq_ok, Placed.map_eq_ok, Record.get, Record.getD, getRequired_eq_ok hr,
    getWith_eq_ok hr] at hfields
  obtain ⟨_, _, ⟨_, _, ⟨code, hcode, rfl⟩, _, rfl⟩, hdata, rfl⟩ := hfields
  exact ⟨hcode, hdata⟩

/-- The data tells a tip if it is an object that is read as one. -/
theorem ResultError.tipOfData_eq_some {data : Json} {t : Tip} :
    tipOfData data = some t ↔ ((data.member? "tip").getD data).isObject = true ∧
      Portable.read .document ((data.member? "tip").getD data).item = .ok t := by
  -- Only an object is tried as a tip, be it the member `tip` or the data itself.
  simp only [tipOfData]
  generalize (data.member? "tip").getD data = candidate
  cases hobject : candidate.isObject with
  | false => simp
  | true =>
    simp only [if_true, true_and]
    constructor
    · intro h
      cases hdecode : (Json.decodeValue candidate : Except DecodeError Tip) with
      | error e =>
        rw [hdecode] at h
        cases h
      | ok t' =>
        rw [hdecode] at h
        cases h
        exact Json.read_of_decodeValue hdecode
    · intro h
      rw [Json.decodeValue_of_read h]
      rfl

/-! ## Steps -/

namespace ChainStep

/-- The entries beside the direction of a step. -/
def besides (entries : List (String × Item)) : List (String × Item) :=
  entries.filter fun e => !(e.1 == directionName)

/-- The entries are parted into directions and the rest, each in order. -/
theorem partition_named (entries : List (String × Item)) :
    (entries.map fun e => ((.text e.1, e.2) : Item × Item)).partition
        (fun e => isDirectionKey e.1) =
      ((entries.filter fun e => e.1 == directionName).map fun e => (.text e.1, e.2),
        (besides entries).map fun e => (.text e.1, e.2)) := by
  rw [List.partition_eq_filter_filter, List.filter_map, List.filter_map]
  rfl

/-- A step is read from an object whose direction comes once, by the record of that direction. -/
theorem read_named_eq_ok {entries : List (String × Item)} {s : ChainStep} :
    ChainStep.read .document (.named entries) = .ok s ↔
      ∃ tag direction, (entries.filter fun e => e.1 == directionName) = [(directionName, tag)] ∧
        readDirection .document tag = .ok direction ∧
        (Item.named (besides entries)).holdable = true ∧
        Record.read (fields direction) (ofRecord direction) .document (.named (besides entries)) =
          .ok s := by
  simp only [Item.named, ChainStep.read, partition_named]
  -- The direction is refused if it is missing and if it comes twice.
  cases hfilter : entries.filter fun e => e.1 == directionName with
  | nil => simp [Reader.refuse]
  | cons e rest =>
    cases rest with
    | cons f rest => simp [Reader.refuse]
    | nil =>
      obtain ⟨key, tag⟩ := e
      have hkey : key = directionName := by
        have hmem : (key, tag) ∈ entries.filter fun e => e.1 == directionName := by simp [hfilter]
        simpa using (List.mem_filter.1 hmem).2
      subst hkey
      simp only [List.map_cons, List.map_nil]
      constructor
      · intro h
        obtain ⟨direction, hdirection, h⟩ := bind_eq_ok.1 h
        split at h
        · next hholds => exact ⟨tag, direction, rfl, hdirection, hholds, h⟩
        · cases h
      · rintro ⟨tag', direction, htag, hdirection, hholds, hread⟩
        obtain rfl : tag = tag' := by simpa using htag
        rw [hdirection]
        exact (if_pos hholds).trans hread

/-- The tip is not the direction. -/
theorem tip_ne_directionName : "tip" ≠ directionName := by decide

/-- Beside the direction every other name is found as before. -/
theorem lookup_besides {entries : List (String × Item)} {key : String} (h : key ≠ directionName) :
    (besides entries).lookup key = entries.lookup key :=
  Entries.lookup_filter_key h

/-- The rest of an object's fields are the fields of the rest. -/
theorem besides_fields (members : List (String × Json)) :
    besides (Json.fields members) =
      Json.fields (members.filter fun m => !(m.1 == directionName)) := by
  rw [besides, Json.fields, List.filter_map]
  rfl

/-- Beside its direction a sorted step is the sorted object of the rest. -/
theorem besides_sort {tag : Json} {rest : List (String × Json)}
    (h : ∀ m ∈ rest, m.1 ≠ directionName) :
    besides (Json.fields (Entries.sort ((directionName, tag) :: rest))) =
      Json.fields (Entries.sort rest) := by
  rw [besides_fields]
  -- Both sides ascend, so it is enough to look up every name.
  refine congrArg Json.fields (Entries.eq_of_lookup
    (Entries.ascending_filter _ (Entries.ascending_sort _)) (Entries.ascending_sort _)
    fun key => ?_)
  by_cases hkey : key = directionName
  · subst hkey
    have hrest : (Entries.sort rest).lookup directionName = none :=
      List.lookup_eq_none_iff.2 fun m hm => bne_iff_ne.2 (h m (Entries.mem_sort hm)).symm
    rw [hrest]
    apply List.lookup_eq_none_iff.2
    intro m hm
    have hne := (List.mem_filter.1 hm).2
    simp only [Bool.not_eq_true', beq_eq_false_iff_ne] at hne
    exact bne_iff_ne.2 hne.symm
  · rw [Entries.lookup_filter_key hkey, Entries.lookup_sort, Entries.lookup_sort, List.reverse_cons,
      List.lookup_append, Entries.lookup_cons, if_neg hkey]
    exact Option.or_none

/-- A sorted step is read by the record of its direction from what stands beside it. -/
theorem read_sorted {tag : Json} {direction : Direction} {rest : List (String × Json)}
    {s : ChainStep} (hrest : ∀ m ∈ rest, m.1 ≠ directionName)
    (hdirection : readDirection .document tag.item = .ok direction)
    (hholdable : ∀ m ∈ rest, m.2.item.holdable = true)
    (hread : Record.read (fields direction) (ofRecord direction) .document
      (Json.object (Entries.sort rest)).item = .ok s) :
    Portable.read .document (Json.object (Entries.sort ((directionName, tag) :: rest))).item =
      .ok s := by
  have htag : (Entries.sort ((directionName, tag) :: rest)).lookup directionName = some tag := by
    have hnone : rest.reverse.lookup directionName = none :=
      List.lookup_eq_none_iff.2 fun m hm => bne_iff_ne.2 (hrest m (List.mem_reverse.1 hm)).symm
    rw [Entries.lookup_sort, List.reverse_cons, List.lookup_append, hnone, Entries.lookup_cons,
      if_pos rfl]
    rfl
  have hfilter := Entries.filter_key_of_lookup
    (Entries.ascending_map (fun _ => Json.item) (Entries.ascending_sort _))
    ((Json.lookup_fields _ _).trans (congrArg (Option.map Json.item) htag))
  have hbesides : besides (Json.fields (Entries.sort ((directionName, tag) :: rest))) = _ :=
    besides_sort hrest
  rw [Json.item_object] at hread ⊢
  refine read_named_eq_ok.2 ⟨tag.item, direction, hfilter, hdirection, ?_, ?_⟩
  · rw [hbesides, ← Json.item_object]
    exact Json.holdable_sorted hholdable
  · rw [hbesides]
    exact hread

end ChainStep

end ChainFollower
