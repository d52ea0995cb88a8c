import ChainFollower.Proofs.Json.Admission
import ChainFollower.Proofs.Json.Printing
import ChainFollower.Proofs.Json.Settling

/-!
# Items before and after quoting

The item of a document as it stands, and the item that it has once wide integers are quoted.  They
differ in places where a wide integer has become a text, and in nothing else, so that a reader that
asks for no text cannot tell them apart.

Main statements: `Doc.quotes_item`, and `Item.Quotes.exists_shapes` for records.
-/

namespace ChainFollower

open Record (Shape Regular Documented Given field? valueOf? shape_of_read)

/-! ## Wide integers as texts -/

namespace Doc

/-- A byte of numbers is a character that stands for itself between quotes. -/
theorem exists_char_of_inNumber {b : UInt8} (h : InNumber b) : ∃ c : Char,
    String.utf8EncodeChar c = [b] ∧ Json.escapeChar c = [c] := by
  have hbounds : 0x20 ≤ b.toNat ∧ b.toNat < 0x80 ∧ b.toNat ≠ 0x22 ∧ b.toNat ≠ 0x5c := by
    -- Digits come as a range, and the other five bytes one by one.
    rcases h with h | rfl | rfl | rfl | rfl | rfl
    · simp only [isDigit, Bool.and_eq_true, decide_eq_true_eq, UInt8.le_iff_toNat_le] at h
      have hlow : 0x30 ≤ b.toNat := h.1
      have hhigh : b.toNat ≤ 0x39 := h.2
      omega
    all_goals decide
  obtain ⟨hlow, hhigh, hquote, hescape⟩ := hbounds
  have hvalid : (Char.ofNat b.toNat).toNat = b.toNat := by
    rw [Char.ofNat, dif_pos (.inl (by omega))]
    rfl
  have hne : ∀ c : Char, b.toNat ≠ c.toNat → Char.ofNat b.toNat ≠ c := by
    rintro _ hc rfl
    exact hc hvalid.symm
  refine ⟨Char.ofNat b.toNat, ?_, ?_⟩
  · rw [Octets.utf8EncodeChar_ascii (by omega), hvalid, UInt8.ofNat_toNat]
  · rw [Json.escapeChar, if_neg (hne '"' hquote), if_neg (hne '\\' hescape), if_pos (by omega)]

/-- A wide integer between quotes is the text of its literal. -/
theorem exists_text_of_wide {token : Octets} (h : Json.isWide token = true) :
    ∃ s, Literal.text? token = some s ∧ Octets.ofText s = token := by
  -- Byte by byte, since each of them is a character and escapes to itself.
  have hchars : ∀ l : Octets, (∀ b ∈ l, InNumber b) →
      ∃ cs, Octets.ofChars cs = l ∧ cs.flatMap Json.escapeChar = cs := by
    intro l hl
    induction l with
    | nil => exact ⟨[], rfl, rfl⟩
    | cons b l ih =>
      obtain ⟨hb, hl⟩ := List.forall_mem_cons.1 hl
      obtain ⟨c, hc, hescape⟩ := exists_char_of_inNumber hb
      obtain ⟨cs, hcs, hescapes⟩ := ih hl
      refine ⟨c :: cs, ?_, ?_⟩
      · rw [Octets.ofChars_cons, hc, hcs, List.singleton_append]
      · rw [List.flatMap_cons, hescape, hescapes, List.singleton_append]
  obtain ⟨cs, rfl, hescapes⟩ := hchars token (inNumber_of_wide h)
  refine ⟨String.ofList cs, ?_, ?_⟩
  · have htext := text?_escaped (String.ofList cs)
    rwa [escaped, String.toList_ofList, hescapes] at htext
  · rw [Octets.ofText, String.toList_ofList]

/-- A wide integer is read as the text of its characters. -/
theorem text?_of_wide {literal : Octets} (h : Json.isWide literal = true) {s : String} :
    Literal.text? literal = some s ↔ Octets.ofText s = literal := by
  obtain ⟨t, htext, ht⟩ := exists_text_of_wide h
  rw [htext, Option.some.injEq, ← ht]
  constructor
  · rintro rfl
    rfl
  · intro heq
    have hread := Octets.text?_ofText t
    rw [← heq, Octets.text?_ofText] at hread
    exact (Option.some.inj hread).symm

end Doc

namespace Item

/-! ## The two items of a document -/

/-- What is not made of parts, and can stand in a document. -/
def IsLeaf : Item → Prop
  | .null | .bool _ | .int _ | .float _ | .text _ | .unreadable | .broken => True
  | _ => False

/-- The key of a member: its name, or nothing that could be read as one. -/
def IsKey (key : Item) : Prop := key = .unreadable ∨ ∃ s, key = .text s

mutual

/-- The item of a document as it stands, and the item with wide integers quoted. -/
inductive Quotes : Item → Item → Prop
  | same {i : Item} (h : i.IsLeaf) : Quotes i i
  /-- A wide integer, whose literal has become a text. -/
  | wide {i : Item} (h : i = .unreadable ∨ ∃ x, i = .float x) (s : String) : Quotes i (.text s)
  | array {items quoted : List Item} (h : QuotesItems items quoted) :
      Quotes (.array items) (.array quoted)
  | map {entries quoted : List (Item × Item)} (h : QuotesEntries entries quoted) :
      Quotes (.map entries) (.map quoted)

/-- `Quotes` item by item. -/
inductive QuotesItems : List Item → List Item → Prop
  | nil : QuotesItems [] []
  | cons {i j : Item} {items quoted : List Item} (h : Quotes i j)
      (hrest : QuotesItems items quoted) : QuotesItems (i :: items) (j :: quoted)

/-- `Quotes` value by value; keys stay as they are. -/
inductive QuotesEntries : List (Item × Item) → List (Item × Item) → Prop
  | nil : QuotesEntries [] []
  | cons {key i j : Item} {entries quoted : List (Item × Item)} (hkey : key.IsKey)
      (h : Quotes i j) (hrest : QuotesEntries entries quoted) :
      QuotesEntries ((key, i) :: entries) ((key, j) :: quoted)

end

mutual

/-- Either both can be passed over or neither can. -/
theorem Quotes.passable : ∀ {i j : Item}, Quotes i j → j.passable = i.passable
  | _, _, .same _ => rfl
  | _, _, .wide h s => by rcases h with rfl | ⟨x, rfl⟩ <;> rfl
  | _, _, .array h => h.passable
  | _, _, .map h => h.passable

/-- Items can be passed over together or not at all, -/
theorem QuotesItems.passable : ∀ {items quoted : List Item}, QuotesItems items quoted →
    passableItems quoted = passableItems items
  | _, _, .nil => rfl
  | _, _, .cons h hrest => by rw [passableItems, passableItems, h.passable, hrest.passable]

/-- and so can entries, whose keys do not matter. -/
theorem QuotesEntries.passable : ∀ {entries quoted : List (Item × Item)},
    QuotesEntries entries quoted → passableEntries quoted = passableEntries entries
  | _, _, .nil => rfl
  | _, _, .cons _ h hrest => by
    rw [passableEntries, passableEntries, h.passable, hrest.passable]

end

end Item

namespace Doc

open Item (IsLeaf IsKey Quotes QuotesItems QuotesEntries)

/-- A name is a text, or cannot be read. -/
theorem isKey_ofRaw (raw : Octets) : (Item.ofRaw raw).IsKey := by
  unfold Item.ofRaw
  split
  · next s _ => exact .inr ⟨s, rfl⟩
  · exact .inl rfl

/-- What stands between quotes has no parts. -/
theorem isLeaf_ofRaw (raw : Octets) : (Item.ofRaw raw).IsLeaf := by
  rcases isKey_ofRaw raw with h | ⟨s, h⟩ <;> rw [h] <;> trivial

/-- Numbers have no parts. -/
theorem isLeaf_ofLiteral (literal : Octets) : (Item.ofLiteral literal).IsLeaf := by
  unfold Item.ofLiteral
  split <;> trivial

/-- A number has none once it is quoted, either. -/
theorem isLeaf_quoted_number (levels : Nat) (literal : Octets) :
    ((Doc.number literal).quoted.item levels).IsLeaf := by
  cases hwide : Json.isWide literal with
  | true =>
    rw [quoted, quotedLiteral_of_wide hwide]
    exact isLeaf_ofRaw literal
  | false =>
    rw [quoted, quotedLiteral_of_not_wide hwide]
    exact isLeaf_ofLiteral literal

/-- Only `null` has the item of `null`. -/
theorem eq_null_of_item {levels : Nat} {d : Doc} (h : d.item levels = .null) : d = .null := by
  cases d with
  | null => rfl
  | bool | broken => cases h
  | text raw =>
    rcases isKey_ofRaw raw with hraw | ⟨s, hraw⟩ <;> cases hraw.symm.trans h
  | number literal =>
    change Item.ofLiteral literal = .null at h
    unfold Item.ofLiteral at h
    split at h <;> cases h
  | array | object =>
    -- Below the last level nothing is read, and that is no null.
    cases levels with
    | zero =>
      rw [item] at h
      split at h <;> cases h
    | succ => cases h

/-- Below the last level nothing is read, be it quoted or not. -/
theorem quotes_below {passable quoted : Bool} (h : quoted = passable) :
    Quotes (if passable then .unreadable else .broken) (if quoted then .unreadable else .broken) := by
  subst h
  split <;> exact .same trivial

mutual

/-- What quoting makes of a document. -/
theorem quotes_item (levels : Nat) : ∀ d : Doc, Quotes (d.item levels) (d.quoted.item levels)
  | .null | .bool _ | .broken => .same trivial
  | .text raw => .same (isLeaf_ofRaw raw)
  | .number literal => by
    show Quotes (Item.ofLiteral literal) _
    -- The literal decides: a wide one becomes a text, and others stay.
    cases hwide : Json.isWide literal with
    | true =>
      obtain ⟨s, htext, -⟩ := exists_text_of_wide hwide
      rw [quoted, quotedLiteral_of_wide hwide, item, Item.ofRaw, htext]
      exact .wide (ofLiteral_of_wide hwide) s
    | false =>
      rw [quoted, quotedLiteral_of_not_wide hwide]
      exact .same (isLeaf_ofLiteral literal)
  | .array ds =>
    match levels with
    | 0 => quotes_below (quotes_items 0 ds).passable
    | levels + 1 => .array (quotes_items levels ds)
  | .object ms =>
    match levels with
    | 0 => quotes_below (quotes_entries 0 ms).passable
    | levels + 1 => .map (quotes_entries levels ms)

/-- Quoting goes through the items one by one, and -/
theorem quotes_items (levels : Nat) : ∀ ds : List Doc,
    QuotesItems (itemsOf levels ds) (itemsOf levels (quotedItems ds))
  | [] => .nil
  | d :: ds => .cons (quotes_item levels d) (quotes_items levels ds)

/-- leaves the names of members alone. -/
theorem quotes_entries (levels : Nat) : ∀ ms : List (Octets × Doc),
    QuotesEntries (entriesOf levels ms) (entriesOf levels (quotedMembers ms))
  | [] => .nil
  | (raw, d) :: ms => .cons (isKey_ofRaw raw) (quotes_item levels d) (quotes_entries levels ms)

end

end Doc

/-! ## Records -/

namespace Record

/-- A key that is no text stops the record. -/
theorem ne_unreadable_of_stop {names : FieldNames} {entries : List (Item × Item)} {place : Nat}
    {found : List (String × Nat × Item)}
    (hstop : (collect .document names place found entries).stop = none)
    (hkeys : ∀ key ∈ entries.map (·.1), key.IsKey) :
    ∀ key ∈ entries.map (·.1), key ≠ .unreadable := by
  -- Along the entries, for any fields that were found before.
  induction entries generalizing place found with
  | nil => exact List.forall_mem_nil _
  | cons e rest ih =>
    obtain ⟨key, value⟩ := e
    obtain ⟨hkey, hrest⟩ := List.forall_mem_cons.1 hkeys
    refine List.forall_mem_cons.2 ?_
    obtain rfl | ⟨name, rfl⟩ : key = .unreadable ∨ ∃ name, key = .text name := hkey
    · cases hstop
    · refine ⟨nofun, ?_⟩
      rw [collect_cons] at hstop
      split at hstop
      · split at hstop
        · cases hstop
        · exact ih hstop hrest
      · split at hstop
        · exact ih hstop hrest
        · cases hstop

end Record

namespace Item

variable {names : FieldNames} {i j : Item}

/-- Every key is one of a document. -/
theorem QuotesEntries.isKey : ∀ {entries quoted : List (Item × Item)},
    QuotesEntries entries quoted → ∀ key ∈ entries.map (·.1), key.IsKey
  | _, _, .nil => List.forall_mem_nil _
  | _, _, .cons hkey _ hrest => List.forall_mem_cons.2 ⟨hkey, hrest.isKey⟩

/-- Quoting leaves the keys. -/
theorem QuotesEntries.keys : ∀ {entries quoted : List (Item × Item)},
    QuotesEntries entries quoted → quoted.map (·.1) = entries.map (·.1)
  | _, _, .nil => rfl
  | _, _, .cons _ _ hrest => congrArg (_ :: ·) hrest.keys

/-- Entries whose keys are texts, each name with both of its values. -/
theorem QuotesEntries.exists_named {entries quoted : List (Item × Item)}
    (h : QuotesEntries entries quoted) (hnames : ∀ key ∈ entries.map (·.1), key ≠ .unreadable) :
    ∃ both : List (String × Item × Item), entries = both.map (fun t => (.text t.1, t.2.1)) ∧
      quoted = both.map (fun t => (.text t.1, t.2.2)) ∧ ∀ t ∈ both, Quotes t.2.1 t.2.2 := by
  -- Along the entries, of which none has a key that cannot be read.
  induction entries generalizing quoted with
  | nil =>
    cases h
    exact ⟨[], rfl, rfl, List.forall_mem_nil _⟩
  | cons e rest ih =>
    cases h with
    | cons hkey hvalue hrest =>
      obtain ⟨hname, hnames⟩ := List.forall_mem_cons.1 hnames
      obtain ⟨both, rfl, rfl, hboth⟩ := ih hrest hnames
      obtain ⟨name, rfl⟩ := hkey.resolve_left hname
      exact ⟨(name, _, _) :: both, rfl, rfl, List.forall_mem_cons.2 ⟨hvalue, hboth⟩⟩

section Both

variable {both : List (String × Item × Item)}

/-- A map of two values to a name is one of names when either value is taken. -/
theorem map_both (value : Item × Item → Item) :
    Item.map (both.map fun t => (.text t.1, value t.2)) =
      .named (both.map fun t => (t.1, value t.2)) := by
  rw [named, List.map_map]
  rfl

/-- Which fields there are, and what can be passed over, is the same before quoting and after. -/
theorem regular_iff_of_quotes (h : ∀ t ∈ both, Quotes t.2.1 t.2.2) :
    Regular names (both.map fun t => (t.1, t.2.2)) ↔
      Regular names (both.map fun t => (t.1, t.2.1)) := by
  -- The names are the same on both sides, and so are the values that can be passed over.
  have honce : ((both.map fun t => (t.1, t.2.2)).filterMap fun e => field? names e.1) =
      (both.map fun t => (t.1, t.2.1)).filterMap fun e => field? names e.1 := by
    rw [List.filterMap_map, List.filterMap_map]
    rfl
  have hpass : (∀ t ∈ both, field? names t.1 = none → t.2.2.passable = true) ↔
      ∀ t ∈ both, field? names t.1 = none → t.2.1.passable = true :=
    forall₂_congr fun t ht => by rw [(h t ht).passable]
  constructor
  · rintro ⟨once, passable⟩
    exact ⟨honce ▸ once, List.forall_mem_map.2 (hpass.1 (List.forall_mem_map.1 passable))⟩
  · rintro ⟨once, passable⟩
    exact ⟨honce ▸ once, List.forall_mem_map.2 (hpass.2 (List.forall_mem_map.1 passable))⟩

/-- A field has a value in both or in neither. -/
theorem rel_valueOf? (h : ∀ t ∈ both, Quotes t.2.1 t.2.2) (field : String) :
    Option.Rel Quotes (valueOf? names (both.map fun t => (t.1, t.2.1)) field)
      (valueOf? names (both.map fun t => (t.1, t.2.2)) field) := by
  unfold valueOf?
  simp only [List.find?_map, Option.map_map, Function.comp_def]
  cases hfind : both.find? fun t => field? names t.1 == some field with
  | none => exact .none
  | some t => exact .some (h t (List.mem_of_find?_eq_some hfind))

end Both

/-- Quoting leaves the number of items. -/
theorem QuotesItems.length_eq : ∀ {items quoted : List Item}, QuotesItems items quoted →
    quoted.length = items.length
  | _, _, .nil => rfl
  | _, _, .cons _ hrest => congrArg (· + 1) hrest.length_eq

/-- Names given by place lie beside related items. -/
theorem QuotesItems.rel_lookup : ∀ {items quoted : List Item}, QuotesItems items quoted →
    ∀ (fields : List String) (field : String),
      Option.Rel Quotes ((fields.zip items).lookup field) ((fields.zip quoted).lookup field)
  | _, _, .nil, fields, _ => by
    rw [List.zip_nil_right]
    exact .none
  | _, _, .cons _ _, [], _ => .none
  | _, _, .cons h hrest, f :: fields, field => by
    rw [List.zip_cons_cons, List.zip_cons_cons, List.lookup_cons, List.lookup_cons]
    -- The first name is the one that is looked for, or the rest is looked at.
    cases field == f with
    | true => exact .some h
    | false => exact hrest.rel_lookup fields field

/-- A map of names that has the shape of a record is regular. -/
theorem regular_of_shape {entries : List (String × Item)} {values : String → Option Item}
    (h : Shape names (.named entries) values) : Regular names entries := by
  generalize hi : Item.named entries = i at h
  cases h with
  | named h => exact named_inj hi ▸ h
  | positional => cases hi

/-- A map of the shape of a record has texts for keys. -/
theorem ne_unreadable_of_shape {entries : List (Item × Item)} {values : String → Option Item}
    (h : Shape names (.map entries) values) : ∀ key ∈ entries.map (·.1), key ≠ .unreadable := by
  generalize hi : Item.map entries = i at h
  cases h with
  | @named es =>
    obtain rfl := Item.map.inj hi
    rw [List.map_map]
    exact List.forall_mem_map.2 fun e _ => nofun
  | positional => cases hi

/-- An array that has the shape of a record has no more items than there are fields. -/
theorem length_le_of_shape {items : List Item} {values : String → Option Item}
    (h : Shape names (.array items) values) : items.length ≤ names.length := by
  generalize hm : Item.array items = m at h
  cases h with
  | named => cases hm
  | positional hlength =>
    cases hm
    exact hlength

/-- Either both have the shape of a record or neither has, and the values of a field are related. -/
theorem Quotes.exists_shapes (h : Quotes i j)
    (hshape : (∃ values, Shape names i values) ∨ ∃ values, Shape names j values) :
    ∃ values quoted, Shape names i values ∧ Shape names j quoted ∧
      ∀ field, Option.Rel Quotes (values field) (quoted field) := by
  -- A leaf has no shape at all, an array has one by its length, and a map by its names.
  cases h with
  | same h =>
    obtain ⟨values, hshape⟩ := or_self_iff.1 hshape
    cases hshape <;> cases h
  | wide h s =>
    rcases hshape with ⟨values, hshape⟩ | ⟨values, hshape⟩
    · rcases h with rfl | ⟨x, rfl⟩ <;> cases hshape
    · cases hshape
  | @array items quoted h =>
    have hlength : items.length ≤ names.length := by
      rcases hshape with ⟨values, hshape⟩ | ⟨values, hshape⟩
      · exact length_le_of_shape hshape
      · exact h.length_eq ▸ length_le_of_shape hshape
    exact ⟨_, _, .positional hlength, .positional (h.length_eq ▸ hlength),
      h.rel_lookup (names.map (·.1))⟩
  | @map entries quoted h =>
    have hkeys : ∀ key ∈ entries.map (·.1), key ≠ .unreadable := by
      rcases hshape with ⟨values, hshape⟩ | ⟨values, hshape⟩
      · exact ne_unreadable_of_shape hshape
      · exact h.keys ▸ ne_unreadable_of_shape hshape
    obtain ⟨both, rfl, rfl, hboth⟩ := h.exists_named hkeys
    rw [map_both, map_both] at hshape ⊢
    have hregular : Regular names (both.map fun t => (t.1, t.2.1)) := by
      rcases hshape with ⟨values, hshape⟩ | ⟨values, hshape⟩
      · exact regular_of_shape hshape
      · exact (regular_iff_of_quotes hboth).1 (regular_of_shape hshape)
    exact ⟨_, _, .named hregular, .named ((regular_iff_of_quotes hboth).2 hregular),
      rel_valueOf? hboth⟩

/-- What has no parts can stand in a document. -/
theorem IsLeaf.documented (h : i.IsLeaf) : Documented i := by
  apply Documented.other
  cases i with
  | map | streamedMap => cases h
  | _ => rfl

/-- What is read as a record has the shape of one, before quoting and after. -/
theorem Quotes.shape_of_read {α : Type} (h : Quotes i j) {fields : Record → Placed α} {a : α}
    (hread : Record.read names fields .document i = .ok a ∨
      Record.read names fields .document j = .ok a) :
    (∃ values, Shape names i values) ∨ ∃ values, Shape names j values := by
  suffices hdocumented : Documented i ∧ Documented j by
    exact hread.imp (Record.shape_of_read hdocumented.1) (Record.shape_of_read hdocumented.2)
  cases h with
  | same h => exact ⟨h.documented, h.documented⟩
  | wide h s =>
    refine ⟨?_, .other rfl⟩
    rcases h with rfl | ⟨x, rfl⟩ <;> exact .other rfl
  | array h => exact ⟨.other rfl, .other rfl⟩
  | @map entries quoted h =>
    have hstop : ∀ {es : List (Item × Item)},
        Record.read names fields .document (.map es) = .ok a →
          (Record.collect .document names 0 [] es).stop = none := fun hread =>
      (Record.finish_eq_ok.1 hread).1
    -- A record that was read to its end was stopped by no key, so all of them are texts.
    have hkeys : ∀ key ∈ entries.map (·.1), key ≠ .unreadable := by
      rcases hread with hread | hread
      · exact Record.ne_unreadable_of_stop (hstop hread) h.isKey
      · exact h.keys ▸ Record.ne_unreadable_of_stop (hstop hread) (h.keys ▸ h.isKey)
    obtain ⟨both, rfl, rfl, -⟩ := h.exists_named hkeys
    constructor
    · rw [map_both]
      exact .named _
    · rw [map_both]
      exact .named _

/-! ## Readers -/

/-- A reader that cannot tell what has been quoted from what has not. -/
def Blind {α : Type} (read : Reader α) : Prop :=
  ∀ ⦃i j : Item⦄, Quotes i j → read .document j = read .document i

/-- An integer that is small enough to be read is not quoted. -/
theorem Quotes.int?_eq (h : Quotes i j) : Reader.int? .document j = Reader.int? .document i := by
  cases h with
  | same | array | map => rfl
  | wide h s => rcases h with rfl | ⟨x, rfl⟩ <;> rfl

/-- Words are read from integers alone, and -/
theorem blind_word64 : Blind Reader.word64 := by
  intro i j h
  rw [Reader.word64, Reader.word64, h.int?_eq]

/-- so are the shorter ones. -/
theorem blind_word32 : Blind Reader.word32 := by
  intro i j h
  rw [Reader.word32, Reader.word32, h.int?_eq]

/-- A `null` is not quoted, and nothing becomes one. -/
theorem Quotes.eq_null_iff (h : Quotes i j) : j = .null ↔ i = .null := by
  cases h with
  | same => rfl
  | wide h s => rcases h with rfl | ⟨x, rfl⟩ <;> simp
  | array | map => simp

section Blind

variable {α : Type} {read : Reader α}

/-- What may be `null` can be told no better. -/
theorem Blind.option (h : Blind read) : Blind (Reader.option read) := by
  intro i j hij
  by_cases hi : i = .null
  · rw [hi, hij.eq_null_iff.2 hi]
  · rw [Reader.option_eq_map hi, Reader.option_eq_map fun hj => hi (hij.eq_null_iff.1 hj), h hij]

/-- A required field is read alike from both, -/
theorem Blind.required_iff (h : Blind read) {v w : Option Item} (hvw : Option.Rel Quotes v w)
    {a : α} : (∃ j, w = some j ∧ read .document j = .ok a) ↔
      ∃ i, v = some i ∧ read .document i = .ok a := by
  cases hvw with
  | none => simp
  | some hij => simp [h hij]

/-- and so is one that may be absent. -/
theorem Blind.given_iff (h : Blind read) {v w : Option Item} (hvw : Option.Rel Quotes v w)
    {absent a : α} : Given read absent w a ↔ Given read absent v a := by
  cases hvw with
  | none => rfl
  | some hij => rw [Given, Given, h hij]

end Blind

/-- What is read as a text without quoting stands as one. -/
theorem Quotes.text_iff (h : Quotes i j) {s : String} :
    Reader.text .document i = .ok s ↔ i = .text s := by
  cases h with
  | @same i h =>
    cases i with
    | text t =>
      show Except.ok t = Except.ok s ↔ _
      rw [Except.ok.injEq, text.injEq]
    | null | bool | int | float | unreadable | broken => exact ⟨nofun, nofun⟩
    | streamedText | bytes | streamedBytes | array | map | streamedMap | tagged => cases h
  -- A wide integer is no text before it is quoted.
  | wide h _ => rcases h with rfl | ⟨x, rfl⟩ <;> exact ⟨nofun, nofun⟩
  | array | map => exact ⟨nofun, nofun⟩

/-- A text stays what it is. -/
theorem Quotes.eq_text {s : String} (h : Quotes (.text s) j) : j = .text s := by
  cases h with
  | same => rfl
  | wide h _ => rcases h with h | ⟨x, h⟩ <;> cases h

end Item

end ChainFollower
