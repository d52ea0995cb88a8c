import ChainFollower.Proofs.Item.Fields
import ChainFollower.Proofs.Json.Reading
import ChainFollower.Proofs.Number.Decimal

/-!
# A document as it stands and its value

Wide integers are taken for texts before a document is given its value, and the members of its
objects are put in order.  What is left of an item that is looked at without either is said by
`Settles`: texts and integers stay what they are, arrays and objects go on part by part, and a wide
integer, which is no integer to a reader, has become a text.

Main statements: `Doc.settles_of_value` and `Settles.member?`.
-/

namespace ChainFollower

open Record (Shape Given Regular field? shape_sorted primary_of_plain valueOf?_eq_lookup)

mutual

/-- The item of a document as it stands, and the value that the document has. -/
inductive Settles : Item → Json → Prop
  | null : Settles .null .null
  | bool (b : Bool) : Settles (.bool b) (.bool b)
  | int {n : Int} (h : FitsWord n) : Settles (.int n) (.int n)
  | float {x : Binary64} (h : x.isFinite = true) : Settles (.float x) (.float x)
  | infinite {x : Binary64} (h : x.isFinite = false) : Settles (.float x) .null
  | text (s : String) : Settles (.text s) (.text s)
  /-- A wide integer, whose literal has become a text. -/
  | wide {i : Item} (h : i = .unreadable ∨ ∃ x, i = .float x) (s : String) : Settles i (.text s)
  | array {items : List Item} {js : List Json} (h : SettlesItems items js) :
      Settles (.array items) (.array js)
  | object {entries : List (String × Item)} {members : List (String × Json)}
      (h : SettlesMembers entries members) :
      Settles (.named entries) (.object (Entries.sort members))

/-- `Settles` item by item. -/
inductive SettlesItems : List Item → List Json → Prop
  | nil : SettlesItems [] []
  | cons {i : Item} {j : Json} {items : List Item} {js : List Json} (h : Settles i j)
      (hrest : SettlesItems items js) : SettlesItems (i :: items) (j :: js)

/-- `Settles` member by member, in the order in which they are written. -/
inductive SettlesMembers : List (String × Item) → List (String × Json) → Prop
  | nil : SettlesMembers [] []
  | cons {name : String} {i : Item} {j : Json} {entries : List (String × Item)}
      {members : List (String × Json)} (h : Settles i j) (hrest : SettlesMembers entries members) :
      SettlesMembers ((name, i) :: entries) ((name, j) :: members)

end

/-! ## Literals -/

namespace Literal

/-- Digits that a word takes all have the value of the word, unless it was too large before. -/
theorem takeWord_eq_nil {ds : Octets} {n m : Nat} (h : takeWord n ds = (m, [])) :
    m = ds.foldl (fun n d => 10 * n + (d.toNat - 0x30)) n ∧
      (n < 0x10000000000000000 → m < 0x10000000000000000) := by
  -- The word goes on exactly as long as it stays below its bound.
  induction ds generalizing n with
  | nil =>
    cases h
    exact ⟨rfl, id⟩
  | cons d ds ih =>
    rw [takeWord, digitValue] at h
    by_cases hlt : 10 * n + (d.toNat - 0x30) < 0x10000000000000000
    · simp only [hlt, if_true] at h
      obtain ⟨hvalue, hword⟩ := ih h
      exact ⟨hvalue, fun _ => hword hlt⟩
    · simp [hlt] at h

/-- What is not the integer of a sign and digits is a floating-point number, if it is anything. -/
theorem number_of_digits {ds : Octets} (h : Doc.Digits ds) (negative : Bool)
    (hwide : if negative then 0x8000000000000000 < Json.digitsValue ds
      else 0x10000000000000000 ≤ Json.digitsValue ds) (n : Int) :
    number (if negative then 0x2d :: ds else ds) ≠ .int n := by
  have hparts : parts (if negative then 0x2d :: ds else ds) = ⟨negative, ds, none, none⟩ := by
    cases negative
    · exact (parts_digits h).1
    · exact (parts_digits h).2
  simp only [number, hparts]
  -- Either all digits fit, and the sign makes the number too small, or some are left over.
  cases htake : takeWord 0 ds with
  | mk m left =>
    cases left with
    | nil =>
      obtain ⟨hvalue, hword⟩ := takeWord_eq_nil htake
      have hlt := hword (by omega)
      rw [Json.digitsValue, ← hvalue] at hwide
      cases negative with
      | false =>
        simp only [Bool.false_eq_true, if_false] at hwide
        omega
      | true =>
        simp only [if_true] at hwide
        simp [hwide]
    | cons d left =>
      simp only [ofParts]
      split <;> simp

/-- To a reader a wide integer is no integer. -/
theorem number_ne_int_of_wide {literal : Octets} (h : Json.isWide literal = true) (n : Int) :
    number literal ≠ .int n := by
  unfold Json.isWide at h
  split at h
  · next ds =>
    simp only [Bool.and_eq_true, Bool.not_eq_true', decide_eq_true_eq, List.isEmpty_eq_false_iff,
      List.all_eq_true] at h
    exact number_of_digits ⟨h.1.1, h.1.2⟩ true h.2 n
  · simp only [Bool.and_eq_true, Bool.not_eq_true', decide_eq_true_eq, List.isEmpty_eq_false_iff,
      List.all_eq_true] at h
    exact number_of_digits ⟨h.1.1, h.1.2⟩ false h.2 n

end Literal

/-! ## From a tree to its value -/

namespace Doc

/-- A name is read as a text. -/
theorem ofRaw_of_name {raw : Octets} {k : String} (h : name raw = .ok k) :
    Item.ofRaw raw = .text k := by
  rw [Item.ofRaw, text?_of_name h]

/-- As it stands, a wide integer is read as a floating-point number, or not at all. -/
theorem ofLiteral_of_wide {literal : Octets} (h : Json.isWide literal = true) :
    Item.ofLiteral literal = .unreadable ∨ ∃ x, Item.ofLiteral literal = .float x := by
  unfold Item.ofLiteral
  cases hnumber : Literal.number literal with
  | int n => exact absurd hnumber (Literal.number_ne_int_of_wide h n)
  | float x => exact .inr ⟨x, rfl⟩
  | outOfRange => exact .inl rfl

/-- A number settles to itself, and a wide integer to its text. -/
theorem settles_number {levels : Nat} {literal : Octets} {j : Json}
    (h : (Doc.number literal).value levels = .ok j) :
    Settles ((Doc.number literal).item levels) j := by
  show Settles (Item.ofLiteral literal) j
  unfold value at h
  -- A wide literal is quoted before it is read; every other one is read as it stands.
  by_cases hwide : Json.isWide literal = true
  · rw [quoted, quotedLiteral_of_wide hwide, item] at h
    unfold Item.ofRaw at h
    split at h
    · next s _ =>
      cases h
      exact .wide (ofLiteral_of_wide hwide) s
    · cases h
  · rw [quoted, quotedLiteral_of_not_wide (Bool.eq_false_iff.2 hwide), item] at h
    unfold Item.ofLiteral at *
    cases hnumber : Literal.number literal with
    | int n =>
      simp only [hnumber, Reader.unread] at h
      split at h
      · next hfits =>
        cases h
        exact .int hfits
      · cases h
    | float x =>
      simp only [hnumber, Reader.unread] at h
      cases hfinite : x.isFinite with
      | true =>
        rw [hfinite] at h
        cases h
        exact .float hfinite
      | false =>
        rw [hfinite] at h
        cases h
        exact .infinite hfinite
    | outOfRange =>
      rw [hnumber] at h
      cases h

mutual

/-- A tree that has a value has it by its parts. -/
theorem settles_of_value {levels : Nat} : ∀ {d : Doc} {j : Json}, d.value levels = .ok j →
    Settles (d.item levels) j
  | .null, _, h => by
    cases h
    exact .null
  | .bool b, _, h => by
    cases h
    exact .bool b
  | .number _, _, h => settles_number h
  | .text raw, j, h => by
    change Reader.unread .document (.ofRaw raw) = .ok j at h
    show Settles (.ofRaw raw) j
    unfold Item.ofRaw at *
    cases htext : Literal.text? raw with
    | none =>
      rw [htext] at h
      cases h
    | some s =>
      rw [htext] at h
      cases h
      exact .text s
  | .array ds, j, h => by
    cases levels with
    | zero =>
      -- Below the last level there is nothing that can be passed on.
      rw [value, quoted, item] at h
      split at h <;> cases h
    | succ levels =>
      rw [value_array] at h
      obtain ⟨js, hjs, rfl⟩ := map_eq_ok.1 h
      exact .array (settles_of_itemValues hjs)
  | .object ms, j, h => by
    cases levels with
    | zero =>
      rw [value, quoted, item] at h
      split at h <;> cases h
    | succ levels =>
      rw [value_object] at h
      obtain ⟨members, hmembers, rfl⟩ := map_eq_ok.1 h
      obtain ⟨entries, hentries, hsettles⟩ := settles_of_memberValues hmembers
      show Settles (.map (entriesOf levels ms)) _
      rw [hentries]
      exact .object hsettles
  | .broken, _, h => by cases h

/-- Items that have values settle to them, and -/
theorem settles_of_itemValues {levels : Nat} : ∀ {ds : List Doc} {js : List Json},
    itemValues levels ds = .ok js → SettlesItems (itemsOf levels ds) js
  | [], _, h => by
    cases h
    exact .nil
  | d :: ds, js, h => by
    rw [itemValues_cons] at h
    obtain ⟨j, hj, h⟩ := bind_eq_ok.1 h
    obtain ⟨rest, hrest, h⟩ := bind_eq_ok.1 h
    cases h
    exact .cons (settles_of_value hj) (settles_of_itemValues hrest)

/-- members do, whose names are texts then. -/
theorem settles_of_memberValues {levels : Nat} : ∀ {ms : List (Octets × Doc)}
    {members : List (String × Json)}, memberValues levels ms = .ok members →
    ∃ entries, entriesOf levels ms = entries.map (fun e => (.text e.1, e.2)) ∧
      SettlesMembers entries members
  | [], _, h => by
    cases h
    exact ⟨[], rfl, .nil⟩
  | (raw, d) :: ms, members, h => by
    rw [memberValues_cons] at h
    -- The name, the value and the rest, in the order they are read.
    obtain ⟨k, hk, h⟩ := bind_eq_ok.1 h
    obtain ⟨j, hj, h⟩ := bind_eq_ok.1 h
    obtain ⟨rest, hrest, h⟩ := bind_eq_ok.1 h
    cases h
    obtain ⟨entries, hentries, hsettles⟩ := settles_of_memberValues hrest
    refine ⟨(k, d.item levels) :: entries, ?_, .cons (settles_of_value hj) hsettles⟩
    rw [entriesOf, ofRaw_of_name hk, hentries]
    rfl

end

end Doc

/-! ## Parts -/

/-- What stands on the right has something on the left, -/
theorem exists_of_rel_some {α β : Type} {p : α → β → Prop} {a : Option α} {b : β}
    (h : Option.Rel p a (some b)) : ∃ x, a = some x ∧ p x b := by
  cases h with
  | some h => exact ⟨_, rfl, h⟩

/-- and the other way round; -/
theorem exists_of_some_rel {α β : Type} {p : α → β → Prop} {a : α} {b : Option β}
    (h : Option.Rel p (some a) b) : ∃ y, b = some y ∧ p a y := by
  cases h with
  | some h => exact ⟨_, rfl, h⟩

/-- nothing has nothing. -/
theorem eq_none_of_rel_none {α β : Type} {p : α → β → Prop} {a : Option α}
    (h : Option.Rel p a (none : Option β)) : a = none := by
  cases h with
  | none => rfl

/-- Every entry settles, -/
theorem SettlesMembers.exists_of_mem : ∀ {entries : List (String × Item)}
    {members : List (String × Json)}, SettlesMembers entries members → ∀ e ∈ entries,
      ∃ j, Settles e.2 j
  | _, _, .nil, e, he => by cases he
  | _, _, .cons h hrest, e, he => by
    rcases List.mem_cons.1 he with rfl | he
    · exact ⟨_, h⟩
    · exact exists_of_mem hrest e he

/-- and so does every item. -/
theorem SettlesItems.exists_of_mem : ∀ {items : List Item} {js : List Json},
    SettlesItems items js → ∀ i ∈ items, ∃ j, Settles i j
  | _, _, .nil, i, hi => by cases hi
  | _, _, .cons h hrest, i, hi => by
    rcases List.mem_cons.1 hi with rfl | hi
    · exact ⟨_, h⟩
    · exact exists_of_mem hrest i hi

/-- What stands under a name settles. -/
theorem SettlesMembers.lookup : ∀ {entries : List (String × Item)} {members : List (String × Json)},
    SettlesMembers entries members → ∀ key,
      Option.Rel Settles (entries.reverse.lookup key) (members.reverse.lookup key)
  | _, _, .nil, _ => .none
  | _, _, .cons h hrest, key => Entries.rel_lookup_cons h (hrest.lookup key)

namespace Settles

variable {i : Item} {j : Json}

/-- What settles stands in a document. -/
theorem documented (h : Settles i j) : Record.Documented i := by
  cases h with
  | object h => exact .named _
  | wide h s => rcases h with rfl | ⟨x, rfl⟩ <;> exact .other rfl
  | _ => exact .other rfl

/-- A `null` settles to itself. -/
theorem eq_null (h : Settles .null j) : j = .null := by
  cases h with
  | null => rfl
  | wide h s => rcases h with h | ⟨x, h⟩ <;> cases h

/-- Members whose values are passed on as they are. -/
theorem unreadMembers_fields {members : List (String × Json)} {readName : Reader String}
    (hname : ∀ s, readName .document (.text s) = .ok s)
    (h : ∀ m ∈ members, Reader.unread .document m.2.item = .ok m.2) :
    Reader.unreadMembers .document readName (Json.entriesOf members) = .ok members := by
  induction members generalizing readName with
  | nil => rfl
  | cons m rest ih =>
    obtain ⟨k, j⟩ := m
    have hrest : Reader.unreadMembers .document Reader.text (Json.entriesOf rest) = .ok rest :=
      ih (fun _ => rfl) fun m hm => h m (List.mem_cons_of_mem _ hm)
    rw [Json.entriesOf, Reader.unreadMembers, hname, h (k, j) (by simp), hrest]
    rfl

mutual

/-- A value is passed on as it is: it has been settled once and for all. -/
theorem unread_item : ∀ {i : Item} {j : Json}, Settles i j →
    Reader.unread .document j.item = .ok j
  | _, _, .null | _, _, .bool _ | _, _, .text _ | _, _, .wide _ _ | _, _, .infinite _ => rfl
  | _, _, .int h => if_pos h
  | _, _, @Settles.float x h => by
    show Except.ok (if x.isFinite then Json.float x else Json.null) = _
    rw [if_pos h]
  | _, _, .array h => by
    rw [Json.item, Reader.unread, unread_items h]
    rfl
  | _, _, .object h => by
    -- The members are in order already, and putting them in order again changes nothing.
    have hname : ∀ s, Reader.firstName .document (.text s) = .ok s := fun _ => rfl
    rw [Json.item, Reader.unread, unreadMembers_fields hname fun m hm =>
      unread_members h m (Entries.mem_sort hm)]
    show Except.ok (Json.object (Entries.sort (Entries.sort _))) = _
    rw [Entries.sort_of_ascending (Entries.ascending_sort _)]

/-- Settled items are passed on as they are, and -/
theorem unread_items : ∀ {items : List Item} {js : List Json}, SettlesItems items js →
    Reader.unreadItems .document (Json.itemsOf js) = .ok js
  | _, _, .nil => rfl
  | _, _, .cons h hrest => by
    rw [Json.itemsOf, Reader.unreadItems, unread_item h, unread_items hrest]
    rfl

/-- so is the value of each settled member. -/
theorem unread_members : ∀ {entries : List (String × Item)} {members : List (String × Json)},
    SettlesMembers entries members → ∀ m ∈ members, Reader.unread .document m.2.item = .ok m.2
  | _, _, .nil, m, hm => by cases hm
  | _, _, .cons h hrest, m, hm => by
    rcases List.mem_cons.1 hm with rfl | hm
    · exact unread_item h
    · exact unread_members hrest m hm

end

/-- An object has settled from a map of names. -/
theorem exists_named {i : Item} {members : List (String × Json)} (h : Settles i (.object members)) :
    ∃ entries, i = .named entries := by
  cases h with
  | object _ => exact ⟨_, rfl⟩

/-- A map with texts for keys settles member by member. -/
theorem exists_object {entries : List (String × Item)} {j : Json} (h : Settles (.named entries) j) :
    ∃ members, j = .object (Entries.sort members) ∧ SettlesMembers entries members := by
  generalize hi : Item.named entries = i at h
  cases h with
  | object h => exact ⟨_, rfl, Item.named_inj hi ▸ h⟩
  | wide h s => rcases h with rfl | ⟨x, rfl⟩ <;> cases hi
  | _ => cases hi

/-- An array settles item by item. -/
theorem exists_array {items : List Item} {j : Json} (h : Settles (.array items) j) :
    ∃ js, j = .array js ∧ SettlesItems items js := by
  cases h with
  | array h => exact ⟨_, rfl, h⟩
  | wide h s => rcases h with h | ⟨x, h⟩ <;> cases h

/-- A map settles to an object. -/
theorem object_of_map {entries : List (Item × Item)} {j : Json} (h : Settles (.map entries) j) :
    ∃ members, j = .object members := by
  generalize hi : Item.map entries = i at h
  cases h with
  | object _ => exact ⟨_, rfl⟩
  | wide h s => rcases h with rfl | ⟨x, rfl⟩ <;> cases hi
  | _ => cases hi

/-- The value of a field settles like the record that it is in. -/
theorem value {i : Item} {j : Json} (h : Settles i j) {names : FieldNames}
    {values : String → Option Item} (hshape : Shape names i values) {field : String} {v : Item}
    (hv : values field = some v) : ∃ j, Settles v j := by
  cases hshape with
  | @named entries _ =>
    obtain ⟨e, he, rfl⟩ := Option.map_eq_some_iff.1 hv
    obtain ⟨members, -, hmembers⟩ := h.exists_object
    exact hmembers.exists_of_mem e (List.mem_of_find?_eq_some he)
  | @positional items _ =>
    obtain ⟨js, -, hitems⟩ := h.exists_array
    exact hitems.exists_of_mem v (List.of_mem_zip (Entries.mem_of_lookup hv)).2

/-- The members of an object, each as it stands; of several with one name the last counts. -/
theorem member? {entries : List (String × Item)} (h : Settles (.named entries) j) (key : String) :
    Option.Rel Settles (entries.reverse.lookup key) (j.member? key) := by
  obtain ⟨members, rfl, hmembers⟩ := h.exists_object
  rw [Json.member?_sorted]
  exact hmembers.lookup key

/-- The last member of a name, of a map and of nothing else. -/
theorem last? {i : Item} {j : Json} (h : Settles i j) (key : String) :
    Option.Rel Settles (i.last? key) (j.member? key) := by
  cases h with
  | @object entries members hmembers =>
    rw [Item.last?_named]
    exact member? (.object hmembers) key
  | wide h s => rcases h with rfl | ⟨x, rfl⟩ <;> exact .none
  | _ => exact .none

variable {names : FieldNames} {field : String}

/-- The value of a field that comes once settles like the member of its name. -/
theorem valueOf? {entries : List (String × Item)} {j : Json} (h : Settles (.named entries) j)
    (hregular : Regular names entries) (hplain : names.all (·.2.isEmpty) = true)
    (hfield : field? names field = some field) :
    Option.Rel Settles (Record.valueOf? names entries field) (j.member? field) := by
  -- The first entry and the last one of the name are the same, because there is one at most.
  have honce : entries.Pairwise fun a b => ¬ (a.1 = field ∧ b.1 = field) := by
    apply (List.pairwise_filterMap.1 hregular.once).imp
    intro a b hne hboth
    exact hne field (hboth.1 ▸ hfield) field (hboth.2 ▸ hfield) rfl
  rw [valueOf?_eq_lookup (primary_of_plain hplain entries) hfield, ← Entries.lookup_reverse honce]
  exact h.member? field

/-- The value of a field of an object. -/
theorem member_of_shape {names : FieldNames} {i : Item} {members : List (String × Json)}
    (h : Settles i (.object members)) {values : String → Option Item}
    (hshape : Shape names i values) (hplain : names.all (·.2.isEmpty) = true) {field : String}
    (hfield : field? names field = some field) :
    Option.Rel Settles (values field) ((Json.object members).member? field) := by
  cases hshape with
  | named hregular => exact h.valueOf? hregular hplain hfield
  | positional _ => cases h

/-- The value of the same field, read from the settled value. -/
inductive Held : Item → Item → Prop
  | intro {i : Item} {j : Json} (h : Settles i j) : Held i j.item

/-- Values that settle, as items. -/
theorem rel_map {a : Option Item} {b : Option Json} (h : Option.Rel Settles a b) :
    Option.Rel Held a (b.map Json.item) := by
  cases h with
  | none => exact .none
  | some h => exact .some (.intro h)

/-- No item is lost, -/
theorem length_items : ∀ {items : List Item} {js : List Json}, SettlesItems items js →
    (Json.itemsOf js).length = items.length
  | _, _, .nil => rfl
  | _, _, .cons _ hrest => congrArg Nat.succ (length_items hrest)

/-- and each keeps its place. -/
theorem lookup_items : ∀ {items : List Item} {js : List Json}, SettlesItems items js →
    ∀ (keys : List String) (key : String),
      Option.Rel Held ((keys.zip items).lookup key) ((keys.zip (Json.itemsOf js)).lookup key)
  | _, _, .nil, keys, _ => by
    rw [Json.itemsOf, List.zip_nil_right]
    exact .none
  | _, _, .cons h hrest, [], _ => .none
  | _, _, .cons h hrest, k :: keys, key => by
    rw [Json.itemsOf, List.zip_cons_cons, List.zip_cons_cons, List.lookup_cons, List.lookup_cons]
    -- The keys are those of both lists, so both lookups stop at one place.
    cases key == k with
    | true => exact .some (.intro h)
    | false => exact lookup_items hrest keys key

/-- What has the shape of a record settles to what has it, field by field. -/
theorem shape {i : Item} {j : Json} (h : Settles i j) {values : String → Option Item}
    (hshape : Shape names i values) (hplain : names.all (·.2.isEmpty) = true) :
    ∃ values', Shape names j.item values' ∧ ∀ field, field? names field = some field →
      Option.Rel Held (values field) (values' field) := by
  cases hshape with
  | @named entries hregular =>
    obtain ⟨members, rfl, -⟩ := h.exists_object
    obtain ⟨values', hshape', hvalues'⟩ := shape_sorted names members (primary_of_plain hplain _)
    refine ⟨values', hshape', fun field hfield => ?_⟩
    -- No field comes twice, so the first entry that means it is the last member of its name.
    have hrel := h.valueOf? hregular hplain hfield
    rw [Json.member?_sorted] at hrel
    rw [hvalues' field hfield]
    exact rel_map hrel
  | @positional items hlength =>
    obtain ⟨js, rfl, hitems⟩ := h.exists_array
    refine ⟨_, .positional (length_items hitems ▸ hlength), fun field _ => ?_⟩
    exact lookup_items hitems _ field

/-- A word that is read is read from the settled value as well, -/
theorem Held.word64 {v w : Item} {n : UInt64} (h : Held v w)
    (hn : Reader.word64 .document v = .ok n) : Reader.word64 .document w = .ok n := by
  cases h with
  | intro h =>
    cases h with
    | wide h s => rcases h with rfl | ⟨x, rfl⟩ <;> cases hn
    | int _ => exact hn
    | _ => cases hn

/-- and so is a text, -/
theorem Held.text {v w : Item} {s : String} (h : Held v w)
    (hs : Reader.text .document v = .ok s) : Reader.text .document w = .ok s := by
  cases h with
  | intro h =>
    cases h with
    | wide h s => rcases h with rfl | ⟨x, rfl⟩ <;> cases hs
    | text _ => exact hs
    | _ => cases hs

/-- or a field that may be absent. -/
theorem given_of_held {α : Type} {read : Reader α} {absent a : α}
    (hread : ∀ {v w}, Held v w → read .document v = .ok a → read .document w = .ok a)
    {v w : Option Item} (h : Option.Rel Held v w) (hv : Given read absent v a) :
    Given read absent w a := by
  cases h with
  | none => exact hv
  | some h => exact hread h hv

/-- A text is read from nothing but a text. -/
theorem exists_text_iff {v : Item} {j : Json} (h : Settles v j) :
    (∃ s, Reader.text .document v = .ok s) ↔ v.IsText := by
  cases h with
  | wide h s =>
    rcases h with rfl | ⟨x, rfl⟩ <;> simp [Reader.text, Reader.below, Reader.refuse, Item.IsText]
  | _ => simp [Reader.text, Reader.below, Reader.refuse, Item.IsText, Item.named]

end Settles

end ChainFollower
