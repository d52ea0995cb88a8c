import ChainFollower.Protocol.Request
import ChainFollower.Proofs.Item.Quoted
import ChainFollower.Proofs.Protocol.Records
import Mathlib.Data.List.Forall2

/-!
# Texts that stand in the payload

Wide integers are quoted wherever they stand in a payload, also where a type without amounts asks
for a text.  There the digits are taken for a text that was none.  A value without amounts is also
read without quoting exactly if the payload is a document and all texts of the value are texts in
it; and where a type is found out by trial, no number may be too large to be kept until then.

Main statement: `Json.decode_verbatim`.
-/

namespace ChainFollower

open Record (Shape Given getRequired_eq_ok getWith_eq_ok exists_holds valueOf? valueOf?_eq_lookup
  primary_of_plain)
open Item (Quotes QuotesItems Blind blind_word32 blind_word64)

/-! ## Texts of a value -/

/-- The item has the shape of a record, with this value of a field, or with none. -/
def Item.FieldIs (names : FieldNames) (field : String) (value : Option Item) (i : Item) : Prop :=
  ∃ values, Shape names i values ∧ values field = value

/-- The hash is a text of the item. -/
def BlockRef.StandsIn (b : BlockRef) (i : Item) : Prop :=
  i.FieldIs [("slot", []), ("id", []), ("blockNo", [])] "id" (some (.text b.id))

/-- The hash is a text of the item, or absent. -/
def Tip.StandsIn (t : Tip) (i : Item) : Prop :=
  i.FieldIs [("slot", []), ("id", []), ("height", [])] "id" (some (.text t.id)) ∨
    i.FieldIs [("slot", []), ("id", []), ("height", [])] "id" none

/-- The symbol is the item, or the hash is a text of an item that can be kept until it is known what
it is. -/
def Point.StandsIn : Point → Item → Prop
  | .symbol s, i => i = .text s
  | .block b, i => i.holdable = true ∧ b.StandsIn i

/-- Each point stands in an item of an array. -/
def Point.AllStandIn (points : List Point) (i : Item) : Prop :=
  ∃ items, i = .array items ∧ List.Forall₂ StandsIn points items

/-- The id is the item. -/
def AssetId.StandsIn (a : AssetId) (i : Item) : Prop := i = .text a.text

/-- The id is the item. -/
def OutputId.StandsIn (o : OutputId) (i : Item) : Prop := i = .text o.text

/-- The hash is a text of the item. -/
def TransactionRef.StandsIn (t : TransactionRef) (i : Item) : Prop :=
  i.FieldIs [("id", [])] "id" (some (.text t.id))

/-- The hash is a text of the item in one of its two forms, and the item can be kept until it is
known which one it is. -/
def OutputRef.StandsIn (o : OutputRef) (i : Item) : Prop :=
  i.holdable = true ∧
    ((∃ t, i.FieldIs [("transaction", []), ("index", [])] "transaction" (some t) ∧
      o.transaction.StandsIn t) ∨
    i.FieldIs [("txId", []), ("index", [])] "txId" (some (.text o.hash)))

/-- An id that is a text is the item. -/
def RequestId.StandsIn : RequestId → Item → Prop
  | .text s, i => i = .text s
  | .number _, _ | .null, _ => True

/-! ## Readers of texts -/

namespace Item

/-- What is read from the quoted item is read from the item as it stands exactly if it stands
there. -/
def Agrees {α : Type} (read : Reader α) (stands : α → Item → Prop) : Prop :=
  ∀ ⦃i j : Item⦄ ⦃a : α⦄, Quotes i j → read .document j = .ok a →
    (read .document i = .ok a ↔ stands a i)

/-- What is read from the item as it stands is read from the quoted item, too. -/
def Keeps {α : Type} (read : Reader α) : Prop :=
  ∀ ⦃i j : Item⦄ ⦃a : α⦄, Quotes i j → read .document i = .ok a → read .document j = .ok a

/-- A text that is read as it stands is not touched by quoting. -/
theorem keeps_text : Keeps Reader.text := by
  intro i j s h hread
  obtain rfl := h.text_iff.1 hread
  obtain rfl := h.eq_text
  rfl

section Fields

variable {names : FieldNames} {values : String → Option Item} {i : Item}

/-- An item has one shape at most as a record of the same names, so the value of a field is settled.
-/
theorem fieldIs_iff (h : Shape names i values) {field : String} {value : Option Item} :
    i.FieldIs names field value ↔ values field = value := by
  constructor
  · rintro ⟨others, hothers, hvalue⟩
    rw [← h.valueAt, hothers.valueAt]
    exact hvalue
  · exact fun hvalue => ⟨values, h, hvalue⟩

/-- A field without other spellings has one place in a map, whatever fields there are besides. -/
theorem valueAt_of_shape (hi : ∀ items, i ≠ .array items) {field : String}
    (hplain : names.all (·.2.isEmpty) = true) (hfield : Record.field? names field = some field)
    (h : Shape names i values) : values field = i.valueAt [(field, [])] field := by
  cases h with
  | positional => exact absurd rfl (hi _)
  | @named entries h =>
    have hsingle : Record.field? [(field, [])] field = some field := by
      simp [Record.field?, Record.fieldOf?]
    rw [valueAt_named, valueOf?_eq_lookup (primary_of_plain hplain entries) hfield,
      valueOf?_eq_lookup (primary_of_plain rfl entries) hsingle]

variable {v w : Option Item}

/-- A text that is read from the value of a field stands there. -/
theorem exists_text_iff (hvw : Option.Rel Quotes v w) {s : String} :
    (∃ i, v = some i ∧ Reader.text .document i = .ok s) ↔ v = some (.text s) := by
  cases hvw with
  | none => simp
  | some h => simp [h.text_iff]

/-- A required field is kept with its value. -/
theorem Keeps.required {α : Type} {read : Reader α} (h : Keeps read)
    (hvw : Option.Rel Quotes v w) {a : α} (hv : ∃ i, v = some i ∧ read .document i = .ok a) :
    ∃ j, w = some j ∧ read .document j = .ok a := by
  obtain ⟨i, rfl, hread⟩ := hv
  cases hvw with
  | some hij => exact ⟨_, rfl, h hij hread⟩

end Fields

/-! ## Records that must be maps -/

section Maps

variable {α : Type} {names : FieldNames} {fields : Record → Placed α} {i j : Item} {a : α}

/-- Of what is no array, a record that must be a map is read like any other. -/
theorem readMap_eq_read (h : ∀ items, i ≠ .array items) :
    Record.readMap names fields .document i = Record.read names fields .document i := by
  cases i with
  | array items => exact absurd rfl (h items)
  | _ => rfl

/-- What is read as a record that must be a map is no array. -/
theorem ne_array_of_readMap (h : Record.readMap names fields .document i = .ok a) :
    ∀ items, i ≠ .array items := by
  rintro items rfl
  cases h

/-- Quoting makes no array, and unmakes none. -/
theorem Quotes.ne_array_iff (h : Quotes i j) :
    (∀ items, i ≠ .array items) ↔ ∀ items, j ≠ .array items := by
  cases h with
  | same => rfl
  | wide h => exact iff_of_true (by rcases h with rfl | ⟨x, rfl⟩ <;> exact nofun) nofun
  | array => exact iff_of_false (fun h => h _ rfl) fun h => h _ rfl
  | map => exact iff_of_true nofun nofun

/-- See `Quotes.exists_shapes`. -/
theorem Quotes.exists_shapes_of_readMap (h : Quotes i j)
    (hread : Record.readMap names fields .document i = .ok a ∨
      Record.readMap names fields .document j = .ok a) :
    (∀ items, i ≠ .array items) ∧ (∀ items, j ≠ .array items) ∧
      ∃ values quoted, Shape names i values ∧ Shape names j quoted ∧
        ∀ field, Option.Rel Quotes (values field) (quoted field) := by
  have hi : ∀ items, i ≠ .array items :=
    hread.elim ne_array_of_readMap fun hj => h.ne_array_iff.2 (ne_array_of_readMap hj)
  have hj := h.ne_array_iff.1 hi
  rw [readMap_eq_read hi, readMap_eq_read hj] at hread
  exact ⟨hi, hj, h.exists_shapes (h.shape_of_read hread)⟩

end Maps

/-! ## Lists -/

/-- Items are read one by one. -/
theorem mapM_eq_ok_iff {α : Type} {read : Reader α} {stands : α → Item → Prop}
    (h : Agrees read stands) : ∀ {items quoted : List Item} {as : List α},
      QuotesItems items quoted → quoted.mapM (read .document) = .ok as →
        (items.mapM (read .document) = .ok as ↔ List.Forall₂ stands as items)
  | _, _, _, .nil, hread => by
    cases hread
    exact iff_of_true rfl .nil
  | _, _, _, .cons hij hrest, hread => by
    rw [List.mapM_cons] at hread ⊢
    obtain ⟨a, ha, hread⟩ := bind_eq_ok.1 hread
    obtain ⟨rest, hrest', hread⟩ := bind_eq_ok.1 hread
    cases hread
    -- The first item agrees by hypothesis, the others by induction.
    rw [List.forall₂_cons, ← h hij ha, ← mapM_eq_ok_iff h hrest hrest', bind_eq_ok]
    constructor
    · rintro ⟨b, hb, hread⟩
      obtain ⟨others, hothers, hread⟩ := bind_eq_ok.1 hread
      cases hread
      exact ⟨hb, hothers⟩
    · rintro ⟨hb, hothers⟩
      refine ⟨_, hb, bind_eq_ok.2 ⟨_, hothers, rfl⟩⟩

/-- Lists agree if their items do. -/
theorem agrees_list {α : Type} {read : Reader α} {stands : α → Item → Prop}
    (h : Agrees read stands) : Agrees (Reader.list read) fun as i =>
      ∃ items, i = .array items ∧ List.Forall₂ stands as items := by
  intro i j as hij hread
  -- Only an array is read as a list, and quoting keeps arrays.
  cases hij with
  | same hleaf =>
    cases i with
    | array => cases hleaf
    | _ => cases hread
  | wide | map => cases hread
  | array hitems =>
    refine (mapM_eq_ok_iff h hitems hread).trans ⟨fun hall => ⟨_, rfl, hall⟩, ?_⟩
    rintro ⟨_, ⟨⟩, hall⟩
    exact hall

end Item

open Item (Agrees Keeps fieldIs_iff exists_text_iff)

section Types

variable {i j : Item} {values : String → Option Item}

/-! ## Points and tips -/

/-- A reference to a block is read from its three fields. -/
theorem BlockRef.read_eq_ok (h : Shape [("slot", []), ("id", []), ("blockNo", [])] i values)
    {b : BlockRef} : Portable.read .document i = .ok b ↔
      (∃ v, values "slot" = some v ∧ Reader.word64 .document v = .ok b.slot) ∧
      (∃ v, values "id" = some v ∧ Reader.text .document v = .ok b.id) ∧
        Given (Reader.option Reader.word64) none (values "blockNo") b.height := by
  obtain ⟨r, hr, hread⟩ := exists_holds h
  apply (hread _ b).trans
  simp only [Placed.seq_eq_ok, Placed.map_eq_ok, Record.get, Record.getD, getRequired_eq_ok hr,
    getWith_eq_ok hr]
  constructor
  · rintro ⟨_, _, ⟨_, _, ⟨_, hslot, rfl⟩, hid, rfl⟩, hheight, rfl⟩
    exact ⟨hslot, hid, hheight⟩
  · rintro ⟨hslot, hid, hheight⟩
    exact ⟨_, _, ⟨_, _, ⟨_, hslot, rfl⟩, hid, rfl⟩, hheight, rfl⟩

/-- A reference to a block agrees where its hash stands. -/
theorem BlockRef.agrees : Agrees Portable.read BlockRef.StandsIn := by
  intro i j b h hread
  obtain ⟨values, quoted, hi, hj, hrel⟩ := h.exists_shapes (h.shape_of_read (.inr hread))
  obtain ⟨hslot, -, hheight⟩ := (BlockRef.read_eq_ok hj).1 hread
  rw [BlockRef.read_eq_ok hi, BlockRef.StandsIn, fieldIs_iff hi, exists_text_iff (hrel "id")]
  -- Slot and height are blind to quoting, so only the hash is left to decide.
  constructor
  · exact fun hall => hall.2.1
  · intro hid
    exact ⟨(blind_word64.required_iff (hrel "slot")).1 hslot, hid,
      (blind_word64.option.given_iff (hrel "blockNo")).1 hheight⟩

/-- A tip agrees where its hash stands or is absent. -/
theorem Tip.agrees : Agrees Portable.read Tip.StandsIn := by
  intro i j t h hread
  obtain ⟨values, quoted, hi, hj, hrel⟩ := h.exists_shapes (h.shape_of_read (.inr hread))
  obtain ⟨hslot, hid, hheight⟩ := (Tip.read_eq_ok hj).1 hread
  rw [blind_word64.given_iff (hrel "slot")] at hslot
  rw [blind_word64.given_iff (hrel "height")] at hheight
  rw [Tip.read_eq_ok hi, Tip.StandsIn, fieldIs_iff hi, fieldIs_iff hi]
  -- An absent hash is read as the empty text, be the rest quoted or not.
  have hhash : Given Reader.text "" (values "id") t.id ↔
      values "id" = some (.text t.id) ∨ values "id" = none := by
    have hrel := hrel "id"
    revert hid hrel
    generalize values "id" = v
    generalize quoted "id" = w
    rintro hid (hvw | ⟨⟩)
    · simp [Given, hvw.text_iff]
    · simpa [Given] using hid
  rw [hhash]
  exact ⟨fun hall => hall.2.1, fun hid => ⟨hslot, hid, hheight⟩⟩

/-- A point agrees where its symbol or the hash of its block stands. -/
theorem Point.agrees : Agrees Portable.read Point.StandsIn := by
  intro i j p h hread
  refine Reader.firstOf_eq_ok_iff.trans ?_
  obtain ⟨-, hread⟩ := Reader.firstOf_eq_ok_iff.1 hread
  simp only [map_eq_ok] at hread ⊢
  -- The quoted item was read as a symbol, or else as a block.
  rcases hread with ⟨s, hs, rfl⟩ | ⟨hno, b, hb, rfl⟩
  · show _ ↔ i = .text s
    rw [← h.text_iff]
    constructor
    · rintro ⟨-, ⟨t, ht, hst⟩ | ⟨-, b, -, ⟨⟩⟩⟩
      cases hst
      exact ht
    · intro hi
      obtain rfl := h.text_iff.1 hi
      exact ⟨rfl, .inl ⟨s, hi, rfl⟩⟩
  · refine and_congr_right fun _ => ?_
    rw [← BlockRef.agrees h hb]
    constructor
    · rintro (⟨s, -, ⟨⟩⟩ | ⟨-, c, hc, hcb⟩)
      cases hcb
      exact hc
    · intro hi
      refine .inr ⟨?_, b, hi, rfl⟩
      -- A text would have been read as a symbol from the quoted item as well.
      cases htext : Reader.text .document i with
      | error fault => rfl
      | ok s =>
        rw [Item.keeps_text h htext] at hno
        cases hno

/-- Lists of points agree point by point. -/
theorem Point.allAgree : Agrees Portable.read Point.AllStandIn :=
  Item.agrees_list Point.agrees

/-! ## Ids -/

/-- The id of an asset agrees where it stands. -/
theorem AssetId.agrees : Agrees Portable.read AssetId.StandsIn := by
  intro i j a h hread
  show (Reader.text .document i).map AssetId.mk = .ok a ↔ i = .text a.text
  rw [map_eq_ok, ← h.text_iff]
  constructor
  · rintro ⟨s, hs, rfl⟩
    exact hs
  · exact fun hs => ⟨a.text, hs, rfl⟩

/-- The name of an output agrees where it stands. -/
theorem OutputId.agrees : Agrees Portable.read OutputId.StandsIn := by
  intro i j o h hread
  show (Reader.text .document i).map OutputId.mk = .ok o ↔ i = .text o.text
  rw [map_eq_ok, ← h.text_iff]
  constructor
  · rintro ⟨s, hs, rfl⟩
    exact hs
  · exact fun hs => ⟨o.text, hs, rfl⟩

/-- An id is a word, a text or nothing. -/
theorem RequestId.cases_of_read {r : RequestId} (h : Portable.read .document i = .ok r) :
    (∃ n, Reader.word64 .document i = .ok n ∧ .number n = r) ∨
      (∃ s, Reader.text .document i = .ok s ∧ .text s = r) ∨
        ∃ u, Reader.null .document i = .ok u ∧ .null = r := by
  obtain ⟨-, h | ⟨-, h⟩⟩ := Reader.firstOf_cons_eq_ok_iff.1 h
  · exact .inl (map_eq_ok.1 h)
  obtain ⟨-, h | ⟨-, h⟩⟩ := Reader.firstOf_cons_eq_ok_iff.1 h
  · exact .inr (.inl (map_eq_ok.1 h))
  obtain ⟨-, h | ⟨-, h⟩⟩ := Reader.firstOf_cons_eq_ok_iff.1 h
  · exact .inr (.inr (map_eq_ok.1 h))
  · simp [Reader.firstOf, Reader.refuse] at h

/-- The id of a request agrees where its text stands; a number is not quoted if a word holds it. -/
theorem RequestId.agrees : Agrees Portable.read RequestId.StandsIn := by
  intro i j r h hread
  cases h with
  | same hleaf =>
    refine iff_of_true hread ?_
    rcases RequestId.cases_of_read hread with ⟨n, -, rfl⟩ | ⟨s, hs, rfl⟩ | ⟨u, -, rfl⟩
    · trivial
    · exact (Quotes.same hleaf).text_iff.1 hs
    · trivial
  | wide h s =>
    -- The text is the id, and what stands in its place is neither a text nor a word.
    cases hread
    rcases h with rfl | ⟨x, rfl⟩
    · exact iff_of_false nofun nofun
    · exact iff_of_false nofun nofun
  -- An array or a map is none of the three.
  | array | map =>
    rcases RequestId.cases_of_read hread with ⟨n, hn, -⟩ | ⟨s, hs, -⟩ | ⟨u, hu, -⟩
    · cases hn
    · cases hs
    · cases hu

/-! ## References to outputs -/

/-- A reference to a transaction is read from its id. -/
theorem TransactionRef.read_eq_ok (h : Shape [("id", [])] i values) {t : TransactionRef} :
    Portable.read .document i = .ok t ↔
      ∃ v, values "id" = some v ∧ Reader.text .document v = .ok t.id := by
  obtain ⟨r, hr, hread⟩ := exists_holds h
  apply (hread _ t).trans
  simp only [Placed.map_eq_ok, Record.get, getRequired_eq_ok hr]
  constructor
  · rintro ⟨_, hid, rfl⟩
    exact hid
  · exact fun hid => ⟨_, hid, rfl⟩

/-- A transaction is read from an item as it stands exactly if it stands there. -/
theorem TransactionRef.read_eq_ok_iff (h : Quotes i j) {t : TransactionRef} :
    Portable.read .document i = .ok t ↔ t.StandsIn i := by
  constructor
  · intro hread
    obtain ⟨values, quoted, hi, hj, hrel⟩ := h.exists_shapes (h.shape_of_read (.inl hread))
    exact ⟨values, hi, (exists_text_iff (hrel "id")).1 ((TransactionRef.read_eq_ok hi).1 hread)⟩
  -- The text stands there, and a text is what the reader asks for.
  · rintro ⟨values, hi, hid⟩
    exact (TransactionRef.read_eq_ok hi).2 ⟨_, hid, rfl⟩

/-- A reference to a transaction that is read as it stands is read from the quoted item. -/
theorem TransactionRef.keeps : Keeps (Portable.read : Reader TransactionRef) := by
  intro i j t h hread
  obtain ⟨values, quoted, hi, hj, hrel⟩ := h.exists_shapes (h.shape_of_read (.inl hread))
  exact (TransactionRef.read_eq_ok hj).2
    (Item.keeps_text.required (hrel "id") ((TransactionRef.read_eq_ok hi).1 hread))

section OutputRef

variable {o : OutputRef}

/-- The form with the transaction as a record of its own. -/
def OutputRef.readNested : Reader OutputRef :=
  Record.readMap [("transaction", []), ("index", [])] fun r =>
    OutputRef.mk <$> r.get "transaction" <*> r.get "index"

/-- The flat form. -/
def OutputRef.readFlat : Reader OutputRef :=
  Record.readMap [("txId", []), ("index", [])] fun r =>
    (fun id index => OutputRef.mk ⟨id⟩ index) <$> r.get "txId" <*> r.get "index"

/-- A reference in the nested form is read from the transaction and the index. -/
theorem OutputRef.readNested_eq_ok (hmap : ∀ items, i ≠ .array items)
    (h : Shape [("transaction", []), ("index", [])] i values) :
    readNested .document i = .ok o ↔
      (∃ v, values "transaction" = some v ∧ Portable.read .document v = .ok o.transaction) ∧
        ∃ v, values "index" = some v ∧ Reader.word32 .document v = .ok o.index := by
  obtain ⟨r, hr, hread⟩ := exists_holds h
  rw [readNested, Item.readMap_eq_read hmap]
  apply (hread _ o).trans
  simp only [Placed.seq_eq_ok, Placed.map_eq_ok, Record.get, getRequired_eq_ok hr]
  constructor
  · rintro ⟨_, _, ⟨_, htransaction, rfl⟩, hindex, rfl⟩
    exact ⟨htransaction, hindex⟩
  · rintro ⟨htransaction, hindex⟩
    exact ⟨_, _, ⟨_, htransaction, rfl⟩, hindex, rfl⟩

/-- A reference in the flat form is read from the id of the transaction and the index. -/
theorem OutputRef.readFlat_eq_ok (hmap : ∀ items, i ≠ .array items)
    (h : Shape [("txId", []), ("index", [])] i values) :
    readFlat .document i = .ok o ↔
      (∃ v, values "txId" = some v ∧ Reader.text .document v = .ok o.hash) ∧
        ∃ v, values "index" = some v ∧ Reader.word32 .document v = .ok o.index := by
  obtain ⟨r, hr, hread⟩ := exists_holds h
  rw [readFlat, Item.readMap_eq_read hmap]
  apply (hread _ o).trans
  simp only [Placed.seq_eq_ok, Placed.map_eq_ok, Record.get, getRequired_eq_ok hr]
  constructor
  · rintro ⟨_, _, ⟨_, hid, rfl⟩, hindex, rfl⟩
    exact ⟨hid, hindex⟩
  · rintro ⟨hid, hindex⟩
    exact ⟨_, _, ⟨_, hid, rfl⟩, hindex, rfl⟩

/-- The nested form is kept by quoting: a reference that is read as it stands is read again. -/
theorem OutputRef.keeps_readNested : Keeps OutputRef.readNested := by
  intro i j o h hread
  obtain ⟨hi, hj, values, quoted, hshape, hshape', hrel⟩ := h.exists_shapes_of_readMap (.inl hread)
  obtain ⟨htransaction, hindex⟩ := (readNested_eq_ok hi hshape).1 hread
  exact (readNested_eq_ok hj hshape').2 ⟨TransactionRef.keeps.required (hrel _) htransaction,
    (blind_word32.required_iff (hrel _)).2 hindex⟩

/-- The index of a reference, in whatever form it is given. -/
def OutputRef.HasIndex (o : OutputRef) (i : Item) : Prop :=
  (∀ items, i ≠ .array items) ∧
    ∃ v, i.valueAt [("index", [])] "index" = some v ∧ Reader.word32 .document v = .ok o.index

/-- The index is a number, so quoting leaves it alone in either form. -/
theorem OutputRef.hasIndex (h : Quotes i j)
    (hread : readNested .document j = .ok o ∨ readFlat .document j = .ok o) : o.HasIndex i := by
  rcases hread with hread | hread
  all_goals
    obtain ⟨hi, hj, values, quoted, hshape, hshape', hrel⟩ :=
      h.exists_shapes_of_readMap (.inr hread)
    -- The index is found at the same place, whichever names stand besides.
    rw [HasIndex, ← Item.valueAt_of_shape hi rfl rfl hshape]
  · exact ⟨hi, (blind_word32.required_iff (hrel _)).1 ((readNested_eq_ok hj hshape').1 hread).2⟩
  · exact ⟨hi, (blind_word32.required_iff (hrel _)).1 ((readFlat_eq_ok hj hshape').1 hread).2⟩

/-- With its index there, a reference is read in the form with the transaction exactly if the
transaction stands there. -/
theorem OutputRef.readNested_eq_ok_iff (h : Quotes i j) (hindex : o.HasIndex i) :
    readNested .document i = .ok o ↔
      ∃ t, i.FieldIs [("transaction", []), ("index", [])] "transaction" (some t) ∧
        o.transaction.StandsIn t := by
  obtain ⟨hmap, hindex⟩ := hindex
  constructor
  · intro hread
    obtain ⟨-, -, values, quoted, hi, -, hrel⟩ := h.exists_shapes_of_readMap (.inl hread)
    obtain ⟨⟨t, ht, htransaction⟩, -⟩ := (readNested_eq_ok hmap hi).1 hread
    -- What stands for the transaction was quoted along with the rest.
    have hvw := hrel "transaction"
    rw [ht] at hvw
    obtain ⟨w, -, hvw⟩ := exists_of_some_rel hvw
    exact ⟨t, ⟨values, hi, ht⟩, (TransactionRef.read_eq_ok_iff hvw).1 htransaction⟩
  · rintro ⟨t, ⟨values, hi, ht⟩, values', hid, hhash⟩
    rw [← Item.valueAt_of_shape hmap rfl rfl hi] at hindex
    exact (readNested_eq_ok hmap hi).2
      ⟨⟨t, ht, (TransactionRef.read_eq_ok hid).2 ⟨_, hhash, rfl⟩⟩, hindex⟩

/-- With its index there, a reference is read in the flat form exactly if the hash stands there. -/
theorem OutputRef.readFlat_eq_ok_iff (h : Quotes i j) (hindex : o.HasIndex i) :
    readFlat .document i = .ok o ↔
      i.FieldIs [("txId", []), ("index", [])] "txId" (some (.text o.hash)) := by
  obtain ⟨hmap, hindex⟩ := hindex
  constructor
  · intro hread
    obtain ⟨-, -, values, quoted, hi, -, hrel⟩ := h.exists_shapes_of_readMap (.inl hread)
    exact ⟨values, hi, (exists_text_iff (hrel "txId")).1 ((readFlat_eq_ok hmap hi).1 hread).1⟩
  · rintro ⟨values, hi, hhash⟩
    rw [← Item.valueAt_of_shape hmap rfl rfl hi] at hindex
    exact (readFlat_eq_ok hmap hi).2 ⟨⟨_, hhash, rfl⟩, hindex⟩

/-- A reference to an output agrees where its hash stands. -/
theorem OutputRef.agrees : Agrees Portable.read OutputRef.StandsIn := by
  intro i j o h hread
  refine Reader.firstOf_eq_ok_iff.trans (and_congr_right fun _ => ?_)
  obtain ⟨-, hread⟩ := Reader.firstOf_eq_ok_iff.1 hread
  change readNested .document j = .ok o ∨
    (readNested .document j).toOption = none ∧ readFlat .document j = .ok o at hread
  show readNested .document i = .ok o ∨
    (readNested .document i).toOption = none ∧ readFlat .document i = .ok o ↔ _
  have hindex := OutputRef.hasIndex h (hread.imp_right And.right)
  -- With the index settled, both forms come down to their texts.
  rw [readFlat_eq_ok_iff h hindex, readNested_eq_ok_iff h hindex]
  refine ⟨fun hstands => hstands.imp_right And.right, fun hstands => ?_⟩
  -- Nothing else can be read in the form with the transaction than is read once it is quoted.
  cases hnested : readNested .document i with
  | error fault => exact hstands.imp_right fun hflat => ⟨rfl, hflat⟩
  | ok o' =>
    have hquoted := OutputRef.keeps_readNested h hnested
    rcases hread with hread | ⟨hno, -⟩
    · obtain rfl : o = o' := Except.ok.inj (hread.symm.trans hquoted)
      exact .inl ((readNested_eq_ok_iff h hindex).1 hnested)
    · rw [hquoted] at hno
      cases hno

end OutputRef

end Types

/-! ## Decoding with and without quoting -/

/-- A value that is decoded from the text is decoded without quoting as well exactly if the text is
a document and the value stands in it. -/
def Json.Verbatim {α : Type} [Portable α] (stands : α → Item → Prop) (s : Octets) : Prop :=
  ∀ a : α, decode s = .ok a → ∃ d slips, Doc.Admits d s slips ∧
    (decodePlain s = .ok a ↔ slips = [] ∧ stands a (d.item documentLevels))

/-- Without quoting a text is read exactly if it is a document without slips. -/
theorem Json.decodePlain_eq_ok_iff {α : Type} [Portable α] {d : Doc} {s : Octets}
    {slips : List Doc.Slip} (h : Doc.Admits d s slips) {a : α} :
    decodePlain s = .ok a ↔
      slips = [] ∧ Portable.read .document (d.item documentLevels) = .ok a := by
  rw [decodePlain_eq_ok_iff_spells]
  constructor
  -- A document is admitted without slips, and by one tree alone.
  · rintro ⟨e, he, hread⟩
    obtain rfl := h.spells_iff.1 ⟨e, he⟩
    obtain rfl := he.unique h.spells
    exact ⟨rfl, hread⟩
  · rintro ⟨rfl, hread⟩
    exact ⟨d, h.spells, hread⟩

/-- What holds of readers holds of decoding, with the tree that the text has up to its slips. -/
theorem Json.verbatim_of_agrees {α : Type} [Portable α] {stands : α → Item → Prop}
    (h : Agrees Portable.read stands) (s : Octets) : Verbatim stands s := by
  intro a ha
  obtain ⟨e, he, hread⟩ := decode_eq_ok_iff_spells.1 ha
  obtain ⟨d, slips, hadmits, rfl⟩ := Doc.spells_quoteWide_iff.1 he
  refine ⟨d, slips, hadmits, ?_⟩
  rw [decodePlain_eq_ok_iff hadmits, h (Doc.quotes_item documentLevels d) hread]

/-- Quoting makes no difference to points, tips and ids exactly if the payload is a document
without it, and each text of what is decoded stands in it as a text. -/
theorem Json.decode_verbatim (s : Octets) :
    Verbatim Point.StandsIn s ∧ Verbatim BlockRef.StandsIn s ∧ Verbatim Point.AllStandIn s ∧
      Verbatim Tip.StandsIn s ∧ Verbatim AssetId.StandsIn s ∧ Verbatim OutputId.StandsIn s ∧
        Verbatim OutputRef.StandsIn s ∧ Verbatim RequestId.StandsIn s :=
  ⟨verbatim_of_agrees Point.agrees s, verbatim_of_agrees BlockRef.agrees s,
    verbatim_of_agrees Point.allAgree s, verbatim_of_agrees Tip.agrees s,
    verbatim_of_agrees AssetId.agrees s, verbatim_of_agrees OutputId.agrees s,
    verbatim_of_agrees OutputRef.agrees s, verbatim_of_agrees RequestId.agrees s⟩

/-- A number is decoded as a symbol, and without quoting it is no point at all. -/
theorem Json.decode_verbatim_wide :
    Json.decode (Octets.ofText "18446744073709551616") =
      .ok (Point.symbol "18446744073709551616") ∧
    (Json.decodePlain (Octets.ofText "18446744073709551616") : Except DecodeError Point) =
      .error (.json none) ∧
    ∃ d slips, Doc.Admits d (Octets.ofText "18446744073709551616") slips ∧
      ¬ (slips = [] ∧
        (Point.symbol "18446744073709551616").StandsIn (d.item documentLevels)) := by
  have hspells := Doc.spells_octets (.int 18446744073709551616)
  have hdecode : Json.decode (Octets.ofText "18446744073709551616") =
      .ok (Point.symbol "18446744073709551616") := (Json.decode_eq_ok_iff hspells).2 rfl
  -- The literal is wide, so as it stands it is unreadable or a floating-point number.
  have hplain : (Json.decodePlain (Octets.ofText "18446744073709551616") :
      Except DecodeError Point) = .error (.json none) := by
    have hitem : (Portable.read .document ((Json.int 18446744073709551616).doc.item documentLevels) :
        Reading Point) = .error none := by
      have hwide : Json.isWide (.ofChars (Json.intChars 18446744073709551616)) = true := by
        decide +kernel
      rw [Json.doc, Doc.item]
      rcases Doc.ofLiteral_of_wide hwide with h | ⟨x, h⟩ <;> rw [h] <;> rfl
    have hread : Doc.read (Octets.ofText "18446744073709551616") = _ := Doc.read_eq_iff.2 hspells
    simp only [Json.decodePlain, hread, hitem]
  obtain ⟨d, slips, hadmits, hiff⟩ := (decode_verbatim _).1 _ hdecode
  refine ⟨hdecode, hplain, d, slips, hadmits, fun hstands => ?_⟩
  rw [hiff.2 hstands] at hplain
  cases hplain

end ChainFollower
