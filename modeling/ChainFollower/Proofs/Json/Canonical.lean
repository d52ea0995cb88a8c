import ChainFollower.Proofs.Item.Fields
import ChainFollower.Proofs.Item.Maps
import ChainFollower.Proofs.Json.Rereading
import Mathlib.Data.List.Forall2

/-!
# Decoded documents

A document value that comes from a payload fits into one, and the members of its objects are in
order.  So are its parts, and what a reader yields for such a document comes from these parts: that
is how a list, a map or a record that was decoded says something of what is in it.

Main statements: `Json.canonical_of_decode` and `Reader.Yields.fields`.
-/

namespace ChainFollower

open Record (Shape exists_holds shape_of_read getWith_eq_ok getRequired_eq_ok)

namespace Json

/-- A document as payloads give it, with `levels` levels of nesting left to go down. -/
structure Canonical (levels : Nat) (j : Json) : Prop where
  fits : j.Fits levels
  ordered : j.InOrder

section Canonical

variable {levels more : Nat} {j : Json} {items : List Json} {members : List (String × Json)}

/-- More levels do no harm. -/
theorem Canonical.mono (h : j.Canonical levels) (hle : levels ≤ more) : j.Canonical more :=
  ⟨h.fits.mono hle, h.ordered⟩

/-- An array has nothing to be sorted but its items. -/
theorem inOrder_array : (Json.array items).InOrder ↔ ∀ j ∈ items, j.InOrder := by
  unfold InOrder
  rw [forall_part_array]
  exact and_iff_right fun members h => nomatch h

/-- An object is in order if its names ascend and its parts are in order. -/
theorem inOrder_object : (Json.object members).InOrder ↔
    Entries.Ascending members ∧ ∀ m ∈ members, m.2.InOrder := by
  unfold InOrder
  rw [forall_part_object]
  apply and_congr_left'
  constructor
  · intro h
    exact h members rfl
  · rintro h _ ⟨⟩
    exact h

/-- An array is canonical if its items are, one level down. -/
theorem canonical_array :
    (Json.array items).Canonical (levels + 1) ↔ ∀ j ∈ items, j.Canonical levels := by
  constructor
  · rintro ⟨hfits, hordered⟩ j hj
    exact ⟨fits_array.1 hfits j hj, inOrder_array.1 hordered j hj⟩
  · intro h
    exact ⟨fits_array.2 fun j hj => (h j hj).fits, inOrder_array.2 fun j hj => (h j hj).ordered⟩

/-- An object is canonical if its names ascend and its members are, one level down. -/
theorem canonical_object : (Json.object members).Canonical (levels + 1) ↔
    Entries.Ascending members ∧ ∀ m ∈ members, m.2.Canonical levels := by
  constructor
  · rintro ⟨hfits, hordered⟩
    obtain ⟨hascending, hmembers⟩ := inOrder_object.1 hordered
    exact ⟨hascending, fun m hm => ⟨fits_object.1 hfits m hm, hmembers m hm⟩⟩
  · rintro ⟨hascending, hmembers⟩
    exact ⟨fits_object.2 fun m hm => (hmembers m hm).fits,
      inOrder_object.2 ⟨hascending, fun m hm => (hmembers m hm).ordered⟩⟩

/-- What is no array and no object is a document of any depth. -/
theorem canonical_scalar (hsound : j.IsSound) (harray : j.isArray = false)
    (hobject : j.isObject = false) : j.Canonical levels := by
  cases j with
  | array items => cases harray
  | object members => cases hobject
  | _ =>
    refine ⟨⟨Nat.zero_le _, ?_⟩, ?_⟩
    · rintro _ ⟨⟩
      exact hsound
    · rintro _ ⟨⟩ members ⟨⟩

/-- Sorting puts everything in order, at all depths. -/
theorem inOrder_sorted (j : Json) : j.sorted.InOrder := by
  -- The parts come first: sorting an object moves members that are in order themselves.
  induction j using Json.induct with
  | array items ih =>
    rw [Json.sorted, sortedItems_eq, inOrder_array]
    intro k hk
    obtain ⟨j, hj, rfl⟩ := List.mem_map.1 hk
    exact ih j hj
  | object members ih =>
    rw [Json.sorted, sortedMembers_eq, inOrder_object]
    refine ⟨Entries.ascending_sort _, fun m hm => ?_⟩
    obtain ⟨written, hwritten, rfl⟩ := List.mem_map.1 (Entries.mem_sort hm)
    exact ih written hwritten
  | _ => rintro _ ⟨⟩ members ⟨⟩

/-- A document that fits is canonical once its members are sorted. -/
theorem Fits.canonical_sorted (h : j.Fits levels) : j.sorted.Canonical levels :=
  ⟨h.sorted, j.inOrder_sorted⟩

/-- A decoded document is passed on as it is. -/
theorem Canonical.unread_eq (h : j.Canonical levels) :
    Reader.unread .document j.item = .ok j := by
  rw [unread_item h.fits.sound (named_document j), h.ordered.sorted_eq]

end Canonical

/-! ## Where they come from -/

/-- A number that is read is an integer of a word or a float. -/
theorem canonical_ofLiteral {levels : Nat} {literal : Octets} {j : Json}
    (h : Reader.unread .document (.ofLiteral literal) = .ok j) : j.Canonical levels := by
  rw [Item.ofLiteral] at h
  cases hnumber : Literal.number literal with
  | int n =>
    simp only [hnumber, Reader.unread] at h
    split at h
    · next hfits =>
      cases h
      exact canonical_scalar hfits rfl rfl
    · cases h
  | float x =>
    -- What is not finite is read as `null`.
    simp only [hnumber, Reader.unread] at h
    cases h
    split
    · next hfinite => exact canonical_scalar hfinite rfl rfl
    · exact canonical_scalar trivial rfl rfl
  | outOfRange =>
    rw [hnumber] at h
    cases h

/-- A text that is read has no parts. -/
theorem canonical_ofRaw {levels : Nat} {raw : Octets} {j : Json}
    (h : Reader.unread .document (.ofRaw raw) = .ok j) : j.Canonical levels := by
  rw [Item.ofRaw] at h
  cases htext : Literal.text? raw with
  | none =>
    rw [htext] at h
    cases h
  | some s =>
    rw [htext] at h
    cases h
    exact canonical_scalar trivial rfl rfl

mutual

/-- What a tree is read as, unread parts and all, is canonical. -/
theorem canonical_of_unread {levels : Nat} : ∀ {d : Doc} {j : Json},
    Reader.unread .document (d.item levels) = .ok j → j.Canonical levels
  | .null, _, h => by
    cases h
    exact canonical_scalar trivial rfl rfl
  | .bool b, _, h => by
    cases h
    exact canonical_scalar trivial rfl rfl
  | .number literal, j, h => canonical_ofLiteral h
  | .text raw, j, h => canonical_ofRaw h
  | .array ds, j, h => by
    cases levels with
    | zero =>
      rw [Doc.item] at h
      split at h <;> cases h
    | succ levels =>
      rw [Doc.item, Reader.unread] at h
      obtain ⟨js, hjs, rfl⟩ := map_eq_ok.1 h
      exact canonical_array.2 (canonical_of_unreadItems hjs)
  | .object ms, j, h => by
    cases levels with
    | zero =>
      rw [Doc.item] at h
      split at h <;> cases h
    | succ levels =>
      rw [Doc.item, Reader.unread] at h
      obtain ⟨members, hmembers, rfl⟩ := map_eq_ok.1 h
      have hcanonical := canonical_of_unreadMembers hmembers
      -- What is read is collected in a map, which sorts the members and drops repeated names.
      exact canonical_object.2 ⟨Entries.ascending_sort members, fun m hm =>
        hcanonical m (Entries.mem_sort hm)⟩
  | .broken, _, h => by cases h

/-- Items that are read are canonical, and -/
theorem canonical_of_unreadItems {levels : Nat} : ∀ {ds : List Doc} {js : List Json},
    Reader.unreadItems .document (Doc.itemsOf levels ds) = .ok js → ∀ j ∈ js, j.Canonical levels
  | [], _, h => by
    cases h
    exact fun _ hj => absurd hj List.not_mem_nil
  | d :: ds, js, h => by
    rw [Doc.itemsOf, Reader.unreadItems] at h
    obtain ⟨j, hj, h⟩ := bind_eq_ok.1 h
    obtain ⟨rest, hrest, h⟩ := bind_eq_ok.1 h
    cases h
    exact List.forall_mem_cons.2 ⟨canonical_of_unread hj, canonical_of_unreadItems hrest⟩

/-- so are members, whatever reads their names. -/
theorem canonical_of_unreadMembers {levels : Nat} : ∀ {ms : List (Octets × Doc)}
    {members : List (String × Json)} {readName : Reader String},
    Reader.unreadMembers .document readName (Doc.entriesOf levels ms) = .ok members →
      ∀ m ∈ members, m.2.Canonical levels
  | [], _, _, h => by
    cases h
    exact fun _ hm => absurd hm List.not_mem_nil
  | (raw, d) :: ms, members, _, h => by
    rw [Doc.entriesOf, Reader.unreadMembers] at h
    obtain ⟨k, -, h⟩ := bind_eq_ok.1 h
    obtain ⟨j, hj, h⟩ := bind_eq_ok.1 h
    obtain ⟨rest, hrest, h⟩ := bind_eq_ok.1 h
    cases h
    exact List.forall_mem_cons.2 ⟨canonical_of_unread hj, canonical_of_unreadMembers hrest⟩

end

/-- A document that was decoded is canonical. -/
theorem canonical_of_decode {s : Octets} {j : Json} (h : Json.decode s = .ok j) :
    j.Canonical documentLevels := by
  -- Only a reading without leftovers answers, and it is the reader's.
  rw [decode, decodePlain] at h
  split at h
  · next doc clean _ =>
    split at h
    · cases h
    · next hread =>
      split at h
      · cases h
        exact canonical_of_unread hread
      · cases h

/-! ## Their parts -/

section Parts

variable {levels : Nat} {j : Json}

/-- A value is one of a document. -/
theorem documented_item : ∀ j : Json, Record.Documented j.item
  | .object members => by
    rw [item_object]
    exact .named _
  | .null | .bool _ | .int _ | .float _ | .text _ | .array _ => .other rfl

/-- Parts of a canonical object are canonical, -/
theorem Canonical.member? (h : j.Canonical (levels + 1)) {name : String} {k : Json}
    (hk : j.member? name = some k) : k.Canonical levels := by
  cases j with
  | object members =>
    exact (canonical_object.1 h).2 (name, k) (Entries.mem_of_lookup hk)
  | _ => cases hk

/-- and those that are there are no `null`. -/
theorem Canonical.present? (h : j.Canonical (levels + 1)) {name : String} {k : Json}
    (hk : j.present? name = some k) : k.Canonical levels ∧ k.isNull = false := by
  obtain ⟨hmember, hnull⟩ := present?_eq_some.1 hk
  exact ⟨h.member? hmember, hnull⟩

/-- The items of an array, one by one. -/
theorem itemsOf_eq_map (items : List Json) : itemsOf items = items.map item := by
  induction items with
  | nil => rfl
  | cons j rest ih => rw [itemsOf, ih, List.map_cons]

/-- Each of them comes from a value. -/
theorem mem_itemsOf {items : List Json} {i : Item} (h : i ∈ itemsOf items) :
    ∃ j ∈ items, i = j.item := by
  rw [itemsOf_eq_map] at h
  obtain ⟨j, hj, rfl⟩ := List.mem_map.1 h
  exact ⟨j, hj, rfl⟩

/-- The items of an array, each read for itself. -/
theorem mapM_itemsOf_eq_ok {α : Type} {read : Item → Reading α} {js : List Json} {as : List α} :
    (itemsOf js).mapM read = .ok as ↔ List.Forall₂ (fun j a => read j.item = .ok a) js as := by
  induction js generalizing as with
  | nil =>
    rw [List.forall₂_nil_left_iff]
    constructor
    · rintro ⟨⟩
      rfl
    · rintro rfl
      rfl
  | cons j rest ih =>
    rw [itemsOf, List.mapM_cons, List.forall₂_cons_left_iff]
    constructor
    · intro h
      obtain ⟨a, ha, h⟩ := bind_eq_ok.1 h
      obtain ⟨as, has, h⟩ := bind_eq_ok.1 h
      cases h
      exact ⟨a, as, ha, ih.1 has, rfl⟩
    · rintro ⟨a, as, ha, has, rfl⟩
      rw [ha, ih.2 has]
      rfl

/-- The value of a field is a part of the record that it is in. -/
theorem Canonical.value (h : j.Canonical (levels + 1)) {names : FieldNames}
    {values : String → Option Item} (hshape : Shape names j.item values) {field : String}
    {v : Item} (hv : values field = some v) : ∃ k : Json, k.Canonical levels ∧ v = k.item := by
  cases j with
  | object members =>
    -- The key may be another spelling of the field's name, so it is not told.
    obtain ⟨key, k, -, hmember, rfl⟩ := member?_of_value hshape hv
    exact ⟨k, h.member? hmember, rfl⟩
  | array items =>
    generalize hi : (Json.array items).item = i at hshape
    cases hshape with
    | named _ => cases hi
    | positional _ =>
      -- Names are given to the items of an array by their places.
      cases hi
      obtain ⟨k, hk, rfl⟩ := mem_itemsOf (List.of_mem_zip (Entries.mem_of_lookup hv)).2
      exact ⟨k, canonical_array.1 h k hk, rfl⟩
  | _ =>
    generalize hi : Json.item _ = i at hshape
    cases hshape <;> cases hi

end Parts

end Json

/-! ## What readers yield for them -/

open Json (Canonical)

/-- The reader yields the value for some decoded document. -/
def Reader.Yields {α : Type} (read : Reader α) (levels : Nat) (a : α) : Prop :=
  ∃ j : Json, j.Canonical levels ∧ read .document j.item = .ok a

/-- The known fields of a record are parts of a decoded document. -/
structure Record.Decoded (r : Record) (levels : Nat) : Prop where
  holds : ∃ values, r.Holds values ∧ ∀ field v, values field = some v →
    ∃ j : Json, j.Canonical levels ∧ v = j.item

section Yields

variable {α : Type} {read : Reader α} {levels : Nat}

/-- A document of fewer levels is one of more. -/
theorem Reader.Yields.mono {more : Nat} {a : α} (h : read.Yields levels a) (hle : levels ≤ more) :
    read.Yields more a := by
  obtain ⟨j, hj, hread⟩ := h
  exact ⟨j, hj.mono hle, hread⟩

/-- What is passed on unread is the document itself. -/
theorem Reader.Yields.unread {j : Json} (h : Reader.json.Yields levels j) : j.Canonical levels := by
  obtain ⟨k, hk, hread⟩ := h
  have hsame : k = j := Except.ok.inj (hk.unread_eq.symm.trans hread)
  exact hsame ▸ hk

/-- A value that may be missing and is there comes from something other than `null`. -/
theorem Reader.Yields.of_option {o : Option α} (h : (Reader.option read).Yields levels o) :
    ∀ a, o = some a → ∃ j : Json, j.Canonical levels ∧ j.isNull = false ∧
      read .document j.item = .ok a := by
  rintro a rfl
  obtain ⟨j, hj, hread⟩ := h
  refine ⟨j, hj, ?_, Reader.read_of_option hread⟩
  -- A `null` would have been read as the absence of a value.
  cases j with
  | null => cases hread
  | _ => rfl

/-- What a list is read as comes from its items. -/
theorem mem_of_mapM {β γ : Type} {f : β → Reading γ} {bs : List β} {cs : List γ}
    (h : bs.mapM f = .ok cs) : ∀ c ∈ cs, ∃ b ∈ bs, f b = .ok c := by
  induction bs generalizing cs with
  | nil =>
    cases h
    exact fun _ hc => absurd hc List.not_mem_nil
  | cons b rest ih =>
    rw [List.mapM_cons] at h
    obtain ⟨c, hc, h⟩ := bind_eq_ok.1 h
    obtain ⟨tail, htail, h⟩ := bind_eq_ok.1 h
    cases h
    refine List.forall_mem_cons.2 ⟨⟨b, List.mem_cons_self, hc⟩, fun d hd => ?_⟩
    obtain ⟨b', hb', hd⟩ := ih htail d hd
    exact ⟨b', List.mem_cons_of_mem _ hb', hd⟩

/-- The items of a list come from items of an array. -/
theorem Reader.Yields.of_list {as : List α} (h : (Reader.list read).Yields (levels + 1) as) :
    ∀ a ∈ as, read.Yields levels a := by
  obtain ⟨j, hj, hread⟩ := h
  cases j with
  | array items =>
    intro a ha
    have hitems : (Json.itemsOf items).mapM (read .document) = .ok as := hread
    obtain ⟨i, hi, hread⟩ := mem_of_mapM hitems a ha
    obtain ⟨k, hk, rfl⟩ := Json.mem_itemsOf hi
    exact ⟨k, Json.canonical_array.1 hj k hk, hread⟩
  | _ => cases hread

/-- The entries of a map come from members of an object. -/
theorem Reader.Yields.of_named {entries : List (String × α)}
    (h : (Reader.named read).Yields (levels + 1) entries) :
    ∀ e ∈ entries, read.Yields levels e.2 := by
  obtain ⟨j, hj, hread⟩ := h
  -- Each entry was read from the value of some member of the object.
  cases j with
  | object members =>
    intro e he
    rw [Json.item_object] at hread
    obtain ⟨pair, hpair, hread⟩ := mem_of_mapM hread e he
    obtain ⟨field, hfield, rfl⟩ := List.mem_map.1 hpair
    obtain ⟨m, hm, rfl⟩ := List.mem_map.1 hfield
    obtain ⟨name, -, hread⟩ := bind_eq_ok.1 hread
    obtain ⟨a, ha, hread⟩ := bind_eq_ok.1 hread
    cases hread
    exact ⟨m.2, (Json.canonical_object.1 hj).2 m hm, ha⟩
  | _ => cases hread

/-- The fields of a record come from parts of the document. -/
theorem Reader.Yields.fields {names : FieldNames} {fields : Record → Placed α} {a : α}
    (h : (Record.read names fields).Yields (levels + 1) a) :
    ∃ r : Record, r.Decoded levels ∧ (fields r).outcome = .ok a := by
  obtain ⟨j, hj, hread⟩ := h
  obtain ⟨values, hshape⟩ := shape_of_read j.documented_item hread
  obtain ⟨r, hr, hiff⟩ := exists_holds hshape
  exact ⟨r, ⟨values, hr, fun _ _ hv => hj.value hshape hv⟩, (hiff fields a).1 hread⟩

/-- See `Reader.Yields.fields`; the record must be a map. -/
theorem Reader.Yields.mapFields {names : FieldNames} {fields : Record → Placed α} {a : α}
    (h : (Record.readMap names fields).Yields (levels + 1) a) :
    ∃ r : Record, r.Decoded levels ∧ (fields r).outcome = .ok a := by
  obtain ⟨j, hj, hread⟩ := h
  obtain ⟨members, values, r, rfl, hshape, hr, hfields⟩ := Record.exists_of_readMap hread
  exact ⟨r, ⟨values, hr, fun _ _ hv => hj.value hshape hv⟩, hfields⟩

/-- A required field comes from a part of the document, -/
theorem Record.Decoded.getRequired {r : Record} (h : r.Decoded levels) {field : String} {a : α}
    (ha : (r.getRequired field read).outcome = .ok a) : read.Yields levels a := by
  obtain ⟨values, hr, hparts⟩ := h.holds
  obtain ⟨v, hv, hread⟩ := (getRequired_eq_ok hr).1 ha
  obtain ⟨j, hj, rfl⟩ := hparts field v hv
  exact ⟨j, hj, hread⟩

/-- and any other does too, or takes its default. -/
theorem Record.Decoded.getWith {r : Record} (h : r.Decoded levels) {field : String} {absent a : α}
    (ha : (r.getWith field read absent).outcome = .ok a) : a = absent ∨ read.Yields levels a := by
  obtain ⟨values, hr, hparts⟩ := h.holds
  -- The field is absent and has its default, or its part was read.
  have hgiven := (getWith_eq_ok hr).1 ha
  cases hv : values field with
  | none =>
    rw [hv] at hgiven
    exact .inl hgiven
  | some v =>
    obtain ⟨j, hj, rfl⟩ := hparts field v hv
    rw [hv] at hgiven
    exact .inr ⟨j, hj, hgiven⟩

end Yields

end ChainFollower
