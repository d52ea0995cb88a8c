import ChainFollower.Proofs.Item.Records
import ChainFollower.Proofs.Json.Printing

/-!
# Parts of documents

The parts of a document value are the value itself and what stands in its arrays and objects.  Most
of what decides whether a document survives being written is said of all parts at once: a word holds
the integers, the floating-point numbers are finite, names ascend.

Main definitions: `Json.Part`, `Json.Fits` for the documents that a payload can hold, and
`Json.InOrder` for those with sorted members.
-/

namespace ChainFollower

namespace Json

/-! ## Induction over parts -/

mutual

/-- To prove something of every document, prove it of arrays and objects from what stands in
them. -/
@[elab_as_elim]
theorem induct {motive : Json → Prop} (null : motive .null) (bool : ∀ b, motive (.bool b))
    (int : ∀ n, motive (.int n)) (float : ∀ x, motive (.float x)) (text : ∀ s, motive (.text s))
    (array : ∀ items, (∀ j ∈ items, motive j) → motive (.array items))
    (object : ∀ members, (∀ m ∈ members, motive m.2) → motive (.object members)) :
    ∀ j, motive j
  | .null => null
  | .bool b => bool b
  | .int n => int n
  | .float x => float x
  | .text s => text s
  | .array items => array items (induct_items null bool int float text array object items)
  | .object members =>
    object members (induct_members null bool int float text array object members)

/-- The part of the induction that goes through the items of an array. -/
theorem induct_items {motive : Json → Prop} (null : motive .null) (bool : ∀ b, motive (.bool b))
    (int : ∀ n, motive (.int n)) (float : ∀ x, motive (.float x)) (text : ∀ s, motive (.text s))
    (array : ∀ items, (∀ j ∈ items, motive j) → motive (.array items))
    (object : ∀ members, (∀ m ∈ members, motive m.2) → motive (.object members)) :
    ∀ items : List Json, ∀ j ∈ items, motive j
  | [], _, h => absurd h List.not_mem_nil
  | k :: rest, j, h => (List.mem_cons.1 h).elim
    (fun heq => heq ▸ induct null bool int float text array object k)
    (induct_items null bool int float text array object rest j)

/-- The part of the induction that goes through the members of an object. -/
theorem induct_members {motive : Json → Prop} (null : motive .null) (bool : ∀ b, motive (.bool b))
    (int : ∀ n, motive (.int n)) (float : ∀ x, motive (.float x)) (text : ∀ s, motive (.text s))
    (array : ∀ items, (∀ j ∈ items, motive j) → motive (.array items))
    (object : ∀ members, (∀ m ∈ members, motive m.2) → motive (.object members)) :
    ∀ members : List (String × Json), ∀ m ∈ members, motive m.2
  | [], _, h => absurd h List.not_mem_nil
  | (_, k) :: rest, m, h => (List.mem_cons.1 h).elim
    (fun heq => heq ▸ induct null bool int float text array object k)
    (induct_members null bool int float text array object rest m)

end

/-- The first document is the second one or stands somewhere in it. -/
inductive Part : Json → Json → Prop
  | self (j : Json) : Part j j
  | item {k j : Json} {items : List Json} (hj : j ∈ items) (h : Part k j) : Part k (.array items)
  | member {k : Json} {m : String × Json} {members : List (String × Json)} (hm : m ∈ members)
      (h : Part k m.2) : Part k (.object members)

section Part

variable {p : Json → Prop}

/-- What holds of all parts of an array holds of the array itself and of all parts of its items. -/
theorem forall_part_array {items : List Json} : (∀ k, Part k (.array items) → p k) ↔
    p (.array items) ∧ ∀ j ∈ items, ∀ k, Part k j → p k := by
  constructor
  · intro h
    exact ⟨h _ (.self _), fun j hj k hk => h k (.item hj hk)⟩
  · rintro ⟨hself, hitems⟩ k hk
    -- A part of an array is the array, or it stands in one of the items.
    cases hk with
    | self => exact hself
    | item hj hk => exact hitems _ hj k hk

/-- What holds of all parts of an object holds of the object itself and of all parts of its members.
-/
theorem forall_part_object {members : List (String × Json)} :
    (∀ k, Part k (.object members) → p k) ↔
      p (.object members) ∧ ∀ m ∈ members, ∀ k, Part k m.2 → p k := by
  constructor
  · intro h
    exact ⟨h _ (.self _), fun m hm k hk => h k (.member hm hk)⟩
  · rintro ⟨hself, hmembers⟩ k hk
    -- A part of an object is the object, or it stands in one of the members.
    cases hk with
    | self => exact hself
    | member hm hk => exact hmembers _ hm k hk

/-- Nothing stands in what is no array and no object. -/
theorem forall_part_scalar {j : Json} (harray : j.isArray = false) (hobject : j.isObject = false) :
    (∀ k, Part k j → p k) ↔ p j := by
  refine ⟨fun h => h j (.self j), fun h k hk => ?_⟩
  cases hk with
  | self => exact h
  | item => cases harray
  | member => cases hobject

end Part

/-! ## Depth -/

/-- Items are as deep as the deepest of them. -/
theorem depthItems_le {items : List Json} {n : Nat} :
    Item.depthItems (itemsOf items) ≤ n ↔ ∀ j ∈ items, j.item.depth ≤ n := by
  induction items with
  | nil => simp [itemsOf, Item.depthItems]
  | cons j rest ih =>
    rw [itemsOf, Item.depthItems, Nat.max_le, ih, List.forall_mem_cons]

/-- Members are as deep as the deepest of their values; their names add nothing. -/
theorem depthEntries_le {members : List (String × Json)} {n : Nat} :
    Item.depthEntries (entriesOf members) ≤ n ↔ ∀ m ∈ members, m.2.item.depth ≤ n := by
  induction members with
  | nil => simp [entriesOf, Item.depthEntries]
  | cons m rest ih =>
    obtain ⟨k, j⟩ := m
    have hname : (Item.text k).depth ≤ n := Nat.zero_le n
    rw [entriesOf, Item.depthEntries, Nat.max_le, Nat.max_le, ih, List.forall_mem_cons,
      and_iff_right hname]

/-- An array is one level deeper than its items. -/
theorem depth_array_le {items : List Json} {n : Nat} :
    (Json.array items).item.depth ≤ n + 1 ↔ ∀ j ∈ items, j.item.depth ≤ n := by
  rw [item, Item.depth, ← depthItems_le]
  omega

/-- An object is one level deeper than its members. -/
theorem depth_object_le {members : List (String × Json)} {n : Nat} :
    (Json.object members).item.depth ≤ n + 1 ↔ ∀ m ∈ members, m.2.item.depth ≤ n := by
  rw [item, Item.depth, ← depthEntries_le]
  omega

/-- An array takes a level, even an empty one. -/
theorem not_depth_array_le (items : List Json) : ¬ (Json.array items).item.depth ≤ 0 := by
  rw [item, Item.depth]
  omega

/-- An object takes a level, even an empty one. -/
theorem not_depth_object_le (members : List (String × Json)) :
    ¬ (Json.object members).item.depth ≤ 0 := by
  rw [item, Item.depth]
  omega

/-! ## Documents that fit -/

/-- A number that a document can hold: an integer of a word, or a finite floating-point number. -/
def IsSound : Json → Prop
  | .int n => FitsWord n
  | .float x => x.isFinite = true
  | _ => True

/-- A payload can hold the document where `levels` levels of nesting are left to go down. -/
structure Fits (levels : Nat) (j : Json) : Prop where
  depth : j.item.depth ≤ levels
  sound : ∀ k, Part k j → k.IsSound

/-- No floating-point number stands in the document. -/
def FloatFree (j : Json) : Prop := ∀ k, Part k j → ∀ x, k ≠ .float x

/-- The members of every object in the document ascend by their names. -/
def InOrder (j : Json) : Prop :=
  ∀ k, Part k j → ∀ members, k = .object members → Entries.Ascending members

section Fits

variable {levels more : Nat} {j : Json} {items : List Json} {members : List (String × Json)}

/-- More levels do no harm. -/
theorem Fits.mono (h : j.Fits levels) (hle : levels ≤ more) : j.Fits more :=
  ⟨Nat.le_trans h.depth hle, h.sound⟩

/-- An integer fits exactly if a word holds it. -/
theorem fits_int {n : Int} : (Json.int n).Fits levels ↔ FitsWord n := by
  constructor
  · intro h
    exact h.sound _ (.self _)
  · intro h
    refine ⟨Nat.zero_le _, ?_⟩
    rintro k ⟨⟩
    exact h

/-- A text fits anywhere. -/
theorem fits_text (levels : Nat) (s : String) : (Json.text s).Fits levels := by
  refine ⟨Nat.zero_le _, ?_⟩
  rintro k ⟨⟩
  trivial

/-- So does `null`. -/
theorem fits_null (levels : Nat) : Json.null.Fits levels :=
  ⟨Nat.zero_le levels, (forall_part_scalar rfl rfl).2 trivial⟩

/-- An array fits exactly if its items fit one level down. -/
theorem fits_array : (Json.array items).Fits (levels + 1) ↔ ∀ j ∈ items, j.Fits levels := by
  constructor
  · rintro ⟨hdepth, hsound⟩ j hj
    exact ⟨depth_array_le.1 hdepth j hj, (forall_part_array.1 hsound).2 j hj⟩
  · intro h
    exact ⟨depth_array_le.2 fun j hj => (h j hj).depth,
      forall_part_array.2 ⟨trivial, fun j hj => (h j hj).sound⟩⟩

/-- An object fits exactly if the values of its members fit one level down. -/
theorem fits_object : (Json.object members).Fits (levels + 1) ↔ ∀ m ∈ members, m.2.Fits levels := by
  constructor
  · rintro ⟨hdepth, hsound⟩ m hm
    exact ⟨depth_object_le.1 hdepth m hm, (forall_part_object.1 hsound).2 m hm⟩
  · intro h
    exact ⟨depth_object_le.2 fun m hm => (h m hm).depth,
      forall_part_object.2 ⟨trivial, fun m hm => (h m hm).sound⟩⟩

/-- Where no level is left, there is no room for an array, -/
theorem not_fits_array : ¬ (Json.array items).Fits 0 := fun h => not_depth_array_le items h.depth

/-- nor for an object. -/
theorem not_fits_object : ¬ (Json.object members).Fits 0 := fun h =>
  not_depth_object_le members h.depth

/-- An array is free of floating-point numbers if its items are. -/
theorem floatFree_array : (Json.array items).FloatFree ↔ ∀ j ∈ items, j.FloatFree := by
  unfold FloatFree
  rw [forall_part_array]
  exact and_iff_right fun x h => nomatch h

/-- An object is free of floating-point numbers if the values of its members are. -/
theorem floatFree_object : (Json.object members).FloatFree ↔ ∀ m ∈ members, m.2.FloatFree := by
  unfold FloatFree
  rw [forall_part_object]
  exact and_iff_right fun x h => nomatch h

theorem floatFree_int (n : Int) : (Json.int n).FloatFree :=
  (forall_part_scalar rfl rfl).2 fun _ h => nomatch h

theorem floatFree_text (s : String) : (Json.text s).FloatFree :=
  (forall_part_scalar rfl rfl).2 fun _ h => nomatch h

theorem floatFree_null : Json.null.FloatFree :=
  (forall_part_scalar rfl rfl).2 fun _ h => nomatch h

/-- What is kept of items is kept of each of them. -/
theorem keptItems_iff : KeptItems levels items ↔ ∀ j ∈ items, j.Kept levels := by
  induction items with
  | nil => simp [KeptItems]
  | cons j rest ih => simp [KeptItems, ih]

/-- What is kept of members is kept of each of their values. -/
theorem keptMembers_iff : KeptMembers levels members ↔ ∀ m ∈ members, m.2.Kept levels := by
  induction members with
  | nil => simp [KeptMembers]
  | cons m rest ih => simp [KeptMembers, ih]

/-- A document that fits keeps what it says, floating-point numbers apart. -/
theorem Fits.kept (h : j.Fits levels) (hfloat : j.FloatFree) : j.Kept levels := by
  -- By induction over the parts, each level of nesting using up one that is left.
  induction j using Json.induct generalizing levels with
  | null => trivial
  | bool b => trivial
  | int n => exact fits_int.1 h
  | float x => exact absurd rfl (hfloat _ (.self _) x)
  | text s => trivial
  | array items ih =>
    cases levels with
    | zero => exact absurd h not_fits_array
    | succ levels =>
      apply keptItems_iff.2
      intro j hj
      exact ih j hj (fits_array.1 h j hj) fun k hk => hfloat k (.item hj hk)
  | object members ih =>
    cases levels with
    | zero => exact absurd h not_fits_object
    | succ levels =>
      apply keptMembers_iff.2
      intro m hm
      exact ih m hm (fits_object.1 h m hm) fun k hk => hfloat k (.member hm hk)

/-- Items can be held if each of them can. -/
theorem holdableItems_iff : Item.holdableItems (itemsOf items) = true ↔
    ∀ j ∈ items, j.item.holdable = true := by
  induction items with
  | nil => simp [itemsOf, Item.holdableItems]
  | cons j rest ih =>
    rw [itemsOf, Item.holdableItems, Bool.and_eq_true, ih, List.forall_mem_cons]

/-- A document that fits can be held until its type is known. -/
theorem Fits.holdable (h : j.Fits levels) : j.item.holdable = true := by
  have hsound := h.sound
  -- Of the two parts of fitting, only the soundness of numbers matters here, at any depth.
  clear h
  induction j using Json.induct with
  | int n => exact decide_eq_true (hsound _ (.self _))
  | array items ih =>
    apply holdableItems_iff.2
    intro j hj
    exact ih j hj fun k hk => hsound k (.item hj hk)
  | object members ih =>
    apply holdable_entries
    intro m hm
    exact ih m hm fun k hk => hsound k (.member hm hk)
  | _ => rfl

end Fits

/-! ## Sorted documents -/

/-- Sorting goes through the items of an array one by one. -/
theorem sortedItems_eq (items : List Json) : sortedItems items = items.map sorted := by
  induction items with
  | nil => rfl
  | cons j rest ih => rw [sortedItems, ih, List.map_cons]

/-- It goes through the members of an object one by one before it puts them in order. -/
theorem sortedMembers_eq (members : List (String × Json)) :
    sortedMembers members = members.map fun m => (m.1, m.2.sorted) := by
  induction members with
  | nil => rfl
  | cons m rest ih =>
    rw [sortedMembers, ih]
    rfl

/-- Sorting puts no document in that was not there. -/
theorem Fits.sorted {levels : Nat} {j : Json} (h : j.Fits levels) : j.sorted.Fits levels := by
  induction j using Json.induct generalizing levels with
  | array items ih =>
    cases levels with
    | zero => exact absurd h not_fits_array
    | succ levels =>
      rw [Json.sorted, sortedItems_eq, fits_array]
      intro k hk
      obtain ⟨j, hj, rfl⟩ := List.mem_map.1 hk
      exact ih j hj (fits_array.1 h j hj)
  | object members ih =>
    cases levels with
    | zero => exact absurd h not_fits_object
    | succ levels =>
      rw [Json.sorted, sortedMembers_eq, fits_object]
      intro m hm
      -- A member of the sorted object is one of those that were written, with its value sorted.
      obtain ⟨written, hwritten, rfl⟩ := List.mem_map.1 (Entries.mem_sort hm)
      exact ih written hwritten (fits_object.1 h written hwritten)
  | _ => exact h

/-- Sorting puts no floating-point number in either. -/
theorem FloatFree.sorted {j : Json} (h : j.FloatFree) : j.sorted.FloatFree := by
  induction j using Json.induct with
  | array items ih =>
    rw [Json.sorted, sortedItems_eq, floatFree_array]
    intro k hk
    obtain ⟨j, hj, rfl⟩ := List.mem_map.1 hk
    exact ih j hj (floatFree_array.1 h j hj)
  | object members ih =>
    rw [Json.sorted, sortedMembers_eq, floatFree_object]
    intro m hm
    -- Again each member comes from one that was written.
    obtain ⟨written, hwritten, rfl⟩ := List.mem_map.1 (Entries.mem_sort hm)
    exact ih written hwritten (floatFree_object.1 h written hwritten)
  | _ => exact h

/-- A document in order is sorted. -/
theorem InOrder.sorted_eq {j : Json} (h : j.InOrder) : j.sorted = j := by
  induction j using Json.induct with
  | array items ih =>
    have hitems : items.map Json.sorted = items.map id := by
      apply List.map_congr_left
      intro j hj
      exact ih j hj fun k hk => h k (.item hj hk)
    rw [Json.sorted, sortedItems_eq, hitems, List.map_id]
  | object members ih =>
    have hmembers : (members.map fun m => (m.1, m.2.sorted)) = members.map id := by
      apply List.map_congr_left
      intro m hm
      rw [ih m hm fun k hk => h k (.member hm hk)]
      rfl
    -- The values stay as they are, and members that ascend are in order already.
    rw [Json.sorted, sortedMembers_eq, hmembers, List.map_id,
      Entries.sort_of_ascending (h _ (.self _) _ rfl)]
  | _ => rfl

end Json

end ChainFollower
