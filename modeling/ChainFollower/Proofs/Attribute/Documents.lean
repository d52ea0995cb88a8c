import ChainFollower.Attribute.Storage
import ChainFollower.Proofs.Json.Rereading
import ChainFollower.Proofs.Text.Base64

/-!
# Attributes are read back

The text of an attribute is read as the attribute, whatever it holds: texts are escaped, bytes are
written in base64, and numbers are texts, so that no number stands in the document at all.  The
entries of a map have one order, that of their names.

Main statement: `Attribute.decode_encode_iff`.
-/

namespace ChainFollower

open Json (Part)

/-! ## Documents without numbers -/

namespace Json

variable {j : Json} {items : List Json} {members : List (String × Json)}

/-- No number stands in the document. -/
def NumberFree (j : Json) : Prop := ∀ k, Part k j → (∀ n, k ≠ .int n) ∧ ∀ x, k ≠ .float x

/-- No number stands in an array if none stands in its items. -/
theorem numberFree_array : (Json.array items).NumberFree ↔ ∀ j ∈ items, j.NumberFree := by
  unfold NumberFree
  rw [forall_part_array]
  simp

/-- No number stands in an object if none stands in the values of its members. -/
theorem numberFree_object : (Json.object members).NumberFree ↔ ∀ m ∈ members, m.2.NumberFree := by
  unfold NumberFree
  rw [forall_part_object]
  simp

/-- A text is no number, even if it is one of digits. -/
theorem numberFree_text (s : String) : (Json.text s).NumberFree :=
  (forall_part_scalar rfl rfl).2 (by simp)

/-- Nor is a truth value. -/
theorem numberFree_bool (b : Bool) : (Json.bool b).NumberFree :=
  (forall_part_scalar rfl rfl).2 (by simp)

/-- Without numbers there is none that a document cannot hold. -/
theorem NumberFree.sound (h : j.NumberFree) : ∀ k, Part k j → k.IsSound := by
  intro k hk
  obtain ⟨hint, hfloat⟩ := h k hk
  -- Only numbers could be unsound, and there are none.
  cases k with
  | int n => exact absurd rfl (hint n)
  | float x => exact absurd rfl (hfloat x)
  | _ => trivial

/-- Without numbers there are no floating-point numbers. -/
theorem NumberFree.floatFree (h : j.NumberFree) : j.FloatFree := fun k hk => (h k hk).2

end Json

namespace Attribute

/-! ## Attributes in order -/

mutual

/-- The entries of every map in the attribute ascend by their names. -/
def Ordered : Attribute → Prop
  | .map entries => Entries.Ascending entries ∧ OrderedEntries entries
  | .list items => OrderedItems items
  | _ => True

/-- `Ordered` of each attribute. -/
def OrderedItems : List Attribute → Prop
  | [] => True
  | a :: rest => a.Ordered ∧ OrderedItems rest

/-- `Ordered` of each entry. -/
def OrderedEntries : List (String × Attribute) → Prop
  | [] => True
  | (_, a) :: rest => a.Ordered ∧ OrderedEntries rest

end

/-- Entries are in order if each attribute among them is. -/
theorem orderedEntries_iff {entries : List (String × Attribute)} :
    OrderedEntries entries ↔ ∀ e ∈ entries, e.2.Ordered := by
  induction entries with
  | nil => simp [OrderedEntries]
  | cons e rest ih => simp [OrderedEntries, ih]

/-! ## What the document holds -/

/-- The document of a map has a member for each entry. -/
theorem documentEntries_eq (entries : List (String × Attribute)) :
    documentEntries entries = entries.map fun e => (e.1, e.2.document) := by
  induction entries with
  | nil => rfl
  | cons e rest ih =>
    rw [documentEntries, ih]
    rfl

mutual

/-- Numbers are written as texts. -/
theorem numberFree_document : ∀ a : Attribute, a.document.NumberFree
  | .text _ | .number _ | .bytes _ => by
    simp [document, Json.numberFree_object, Json.numberFree_text]
  | .bool _ | .null _ => by simp [document, Json.numberFree_object, Json.numberFree_bool]
  -- Lists and maps are two objects or arrays deep, with their parts inside.
  | .list items => by
    simpa [document, Json.numberFree_object, Json.numberFree_array] using
      numberFree_documentItems items
  | .map entries => by
    simpa [document, Json.numberFree_object] using numberFree_documentEntries entries

/-- The items of a list are written without numbers. -/
theorem numberFree_documentItems :
    ∀ items : List Attribute, ∀ j ∈ documentItems items, j.NumberFree
  | [] => by simp [documentItems]
  | a :: rest => List.forall_mem_cons.2 ⟨numberFree_document a, numberFree_documentItems rest⟩

/-- The entries of a map are written without numbers. -/
theorem numberFree_documentEntries :
    ∀ entries : List (String × Attribute), ∀ m ∈ documentEntries entries, m.2.NumberFree
  | [] => by simp [documentEntries]
  | (_, a) :: rest => List.forall_mem_cons.2
    ⟨numberFree_document a, numberFree_documentEntries rest⟩

end

/-! ## Reading -/

/-- Bytes are read back from their digits in base64. -/
theorem readBase64_encode (b : Octets) :
    readBase64 .document (.text (String.ofList (Base64.encode b))) = .ok b := by
  have htext : Reader.text .document (.text (String.ofList (Base64.encode b))) =
      .ok (String.ofList (Base64.encode b)) := rfl
  simp only [readBase64, htext, Except.toOption, Option.bind_some, String.toList_ofList,
    Base64.decode?_encode]

mutual

/-- An attribute is read back from its document. -/
theorem ofItem_document : ∀ {a : Attribute}, a.Ordered → ofItem a.document.item = .ok a
  | .text _, _ => rfl
  | .number _, _ => rfl
  | .bool _, _ => rfl
  | .null _, _ => rfl
  | .bytes b, _ => by
    show (readBase64 .document (.text (String.ofList (Base64.encode b)))).map Attribute.bytes = _
    rw [readBase64_encode]
    rfl
  | .list items, h => by
    show (ofItems (Json.itemsOf (documentItems items))).map Attribute.list = _
    rw [ofItems_document h]
    rfl
  | .map entries, h => by
    show (ofEntries (Json.entriesOf (documentEntries entries))).map
      (fun entries => Attribute.map (Entries.sort entries)) = _
    rw [ofEntries_document h.2]
    -- The entries were in order when they were written.
    show Except.ok (Attribute.map (Entries.sort entries)) = _
    rw [Entries.sort_of_ascending h.1]

/-- The items of a list are read back one by one. -/
theorem ofItems_document : ∀ {items : List Attribute}, OrderedItems items →
    ofItems (Json.itemsOf (documentItems items)) = .ok items
  | [], _ => rfl
  | a :: rest, h => by
    simp only [documentItems, Json.itemsOf, ofItems, ofItem_document h.1, ofItems_document h.2]
    rfl

/-- The entries of a map are read back in the order in which they stand. -/
theorem ofEntries_document : ∀ {entries : List (String × Attribute)}, OrderedEntries entries →
    ofEntries (Json.entriesOf (documentEntries entries)) = .ok entries
  | [], _ => rfl
  | (k, a) :: rest, h => by
    -- The name of an entry is a text, and read as one.
    simp only [documentEntries, Json.entriesOf, ofEntries, Json.text_text, ofItem_document h.1,
      ofEntries_document h.2]
    rfl

end

/-- What holds no other attributes is in order. -/
theorem ordered_readLeaf {kind : Kind} {i : Item} {a : Attribute}
    (h : readLeaf kind .document i = .ok a) : a.Ordered := by
  unfold readLeaf at h
  split at h
  case h_6 => cases h
  case h_7 => cases h
  -- The other five kinds are leaves, which have no entries.
  all_goals
    obtain ⟨content, -, rfl⟩ := map_eq_ok.1 h
    trivial

mutual

/-- What is read from any item is in order. -/
theorem ordered_ofItem : ∀ {i : Item} {a : Attribute}, ofItem i = .ok a → a.Ordered
  | .map [(k, v)], a, h => by
    rw [ofItem] at h
    -- The one member names the type, and what stands under it is read as that type.
    split at h
    · obtain ⟨items, hitems, rfl⟩ := map_eq_ok.1 h
      exact ordered_ofList hitems
    · obtain ⟨entries, hentries, rfl⟩ := map_eq_ok.1 h
      -- Entries are sorted once all of them are read; sorting adds none.
      have hordered := ordered_ofMap hentries
      refine ⟨Entries.ascending_sort entries, orderedEntries_iff.2 ?_⟩
      intro e he
      exact hordered e (Entries.mem_sort he)
    · exact ordered_readLeaf h
    · cases h

/-- What is read as a list is a list of attributes in order. -/
theorem ordered_ofList : ∀ {i : Item} {items : List Attribute}, ofList i = .ok items →
    OrderedItems items
  | .array _, _, h => ordered_ofItems h

/-- Each item of a list is in order, since it is read from some item itself. -/
theorem ordered_ofItems : ∀ {is : List Item} {items : List Attribute}, ofItems is = .ok items →
    OrderedItems items
  | [], _, h => by
    cases h
    trivial
  | i :: rest, _, h => by
    rw [ofItems] at h
    obtain ⟨a, ha, h⟩ := bind_eq_ok.1 h
    obtain ⟨as, has, h⟩ := bind_eq_ok.1 h
    cases h
    exact ⟨ordered_ofItem ha, ordered_ofItems has⟩

/-- What is read as a map has attributes in order in its entries. -/
theorem ordered_ofMap : ∀ {i : Item} {entries : List (String × Attribute)},
    ofMap i = .ok entries → ∀ e ∈ entries, e.2.Ordered
  | .map _, _, h => ordered_ofEntries h

/-- Each entry is read from an entry, whatever its name is. -/
theorem ordered_ofEntries : ∀ {es : List (Item × Item)} {entries : List (String × Attribute)},
    ofEntries es = .ok entries → ∀ e ∈ entries, e.2.Ordered
  | [], _, h => by
    cases h
    simp
  | (k, v) :: rest, _, h => by
    rw [ofEntries] at h
    obtain ⟨name, -, h⟩ := bind_eq_ok.1 h
    obtain ⟨a, ha, h⟩ := bind_eq_ok.1 h
    obtain ⟨entries, hentries, h⟩ := bind_eq_ok.1 h
    cases h
    -- The first value is in order itself, and so are those behind it.
    exact List.forall_mem_cons.2 ⟨ordered_ofItem ha, ordered_ofEntries hentries⟩

end

/-- Within the levels that a text may have, an attribute is read back from its text exactly if it is
in order. -/
theorem decode_encode_iff {a : Attribute} (depth : a.document.item.depth ≤ documentLevels) :
    Json.decode (Json.encode a) = .ok a ↔ a.Ordered := by
  have hnumbers := numberFree_document a
  -- Without numbers nothing is quoted, so the reader is given the document as it was written.
  have hread : (Json.decode (Json.encode a) : Except DecodeError Attribute) =
      (ofItem a.document.item).mapError .json :=
    Json.decode_octets_eq ⟨depth, hnumbers.sound⟩ hnumbers.floatFree.legible
  rw [hread, mapError_eq_ok]
  -- Whatever is read is in order, and what is in order is read back.
  exact ⟨ordered_ofItem, ofItem_document⟩

/-! ## Attributes that a text can hold -/

/-- A text can hold the attribute where `levels` levels of nesting are left to go down. -/
structure Fits (levels : Nat) (a : Attribute) : Prop where
  ordered : a.Ordered
  depth : a.document.item.depth ≤ levels

section Fits

variable {levels : Nat}

/-- An attribute that a text can hold is read back from its text. -/
theorem Fits.decode_encode {a : Attribute} (h : a.Fits documentLevels) :
    Json.decode (Json.encode a) = .ok a :=
  (decode_encode_iff h.depth).2 h.ordered

/-- More levels do no harm. -/
theorem Fits.mono {a : Attribute} {more : Nat} (h : a.Fits levels) (hle : levels ≤ more) :
    a.Fits more :=
  ⟨h.ordered, Nat.le_trans h.depth hle⟩

/-- An attribute without parts takes one level, for the type that is written around it: a text, -/
theorem fits_text (levels : Nat) (s : String) : (Attribute.text s).Fits (levels + 1) :=
  ⟨trivial, Json.depth_object_le.2 (by simp [Json.item, Item.depth])⟩

/-- a number, whatever its digits are, -/
theorem fits_number (levels : Nat) (digits : String) :
    (Attribute.number digits).Fits (levels + 1) :=
  ⟨trivial, Json.depth_object_le.2 (by simp [Json.item, Item.depth])⟩

/-- and a null. -/
theorem fits_null (levels : Nat) (b : Bool) : (Attribute.null b).Fits (levels + 1) :=
  ⟨trivial, Json.depth_object_le.2 (by simp [Json.item, Item.depth])⟩

/-- A map goes down two levels: its own and that of its type. -/
theorem fits_map {entries : List (String × Attribute)} (ascending : Entries.Ascending entries)
    (h : ∀ e ∈ entries, e.2.Fits levels) : (Attribute.map entries).Fits (levels + 2) := by
  refine ⟨⟨ascending, orderedEntries_iff.2 fun e he => (h e he).ordered⟩, ?depth⟩
  case depth =>
    rw [document, documentEntries_eq, Json.depth_object_le, List.forall_mem_singleton,
      Json.depth_object_le, List.forall_mem_map]
    intro e he
    exact (h e he).depth

/-- A map is made of entries in any order. -/
theorem fits_ofEntriesList {entries : List (String × Attribute)}
    (h : ∀ e ∈ entries, e.2.Fits levels) : (ofEntriesList entries).Fits (levels + 2) :=
  fits_map (Entries.ascending_sort entries) fun e he => h e (Entries.mem_sort he)

end Fits

end Attribute

end ChainFollower
