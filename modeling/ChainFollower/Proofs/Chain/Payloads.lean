import ChainFollower.Proofs.Ledger.Amounts
import ChainFollower.Proofs.Protocol.Verbatim

/-!
# Points in payloads

What a document has to hold to be decoded as a point, said of its tree: `Doc.HoldsPoint`.  A text is
a symbol and an object is a block, as points are written; but an array of two or three items is a
block too, and a wide integer is taken for the text of its digits, alone or as a hash.  Nothing else
is a point.

Main statement: `Point.accepted_payloads`.
-/

namespace ChainFollower

open Record (Shape valueOf?)

namespace Doc

/-! ## What a payload holds -/

/-- The text that a tree is taken for. -/
inductive DenotesText : Doc → String → Prop
  | text {raw : Octets} {s : String} (h : Literal.text? raw = some s) : DenotesText (.text raw) s
  /-- A wide integer, whose characters are the text. -/
  | wide {literal : Octets} {s : String} (hwide : Json.isWide literal = true)
      (hs : Octets.ofText s = literal) : DenotesText (.number literal) s

/-- The unsigned word that a tree stands for.  Minus zero is none. -/
inductive DenotesWord : Doc → UInt64 → Prop
  | literal {l : Octets} {w : UInt64} (h : IntegerLiteral l w.toNat) (hzero : l ≠ minusZero) :
      DenotesWord (.number l) w

/-- The height that a tree stands for, if it is not left open. -/
inductive DenotesHeight : Doc → Option UInt64 → Prop
  | null : DenotesHeight .null none
  | word {d : Doc} {w : UInt64} (h : d.DenotesWord w) : DenotesHeight d (some w)

/-- Members that name a block: slot and hash, and the height if it is there. -/
structure GivesBlock (members : List (String × Doc)) (b : BlockRef) : Prop where
  slot : ∃ d, members.lookup "slot" = some d ∧ d.DenotesWord b.slot
  id : ∃ d, members.lookup "id" = some d ∧ d.DenotesText b.id
  height : match members.lookup "blockNo" with
    | some d => d.DenotesHeight b.height
    | none => b.height = none

/-- The block that a tree stands for, with `levels` levels left inside of it. -/
inductive HoldsBlock (levels : Nat) : Doc → BlockRef → Prop
  /-- Members of other names are left unread, but they are kept until it is known what it is. -/
  | object {ms : List (Octets × Doc)} {members : List (String × Doc)} {b : BlockRef}
      (hkept : Kept levels ms members)
      (honce : ((members.map (·.1)).filter (["slot", "id", "blockNo"].contains ·)).Nodup)
      (h : GivesBlock members b) : HoldsBlock levels (.object ms) b
  /-- The values alone, in their order. -/
  | row {items : List Doc} {b : BlockRef} (hlength : items.length ≤ 3)
      (h : GivesBlock (["slot", "id", "blockNo"].zip items) b) : HoldsBlock levels (.array items) b

/-- The point that a tree stands for, with `levels` levels left inside of it. -/
inductive HoldsPoint (levels : Nat) : Doc → Point → Prop
  | symbol {d : Doc} {s : String} (h : d.DenotesText s) : HoldsPoint levels d (.symbol s)
  | block {d : Doc} {b : BlockRef} (h : d.HoldsBlock levels b) : HoldsPoint levels d (.block b)

/-! ## Texts, words and heights -/

section Leaves

variable {levels : Nat} {d : Doc}

theorem text_ofRaw {raw : Octets} {s : String} :
    Reader.text .document (.ofRaw raw) = .ok s ↔ Literal.text? raw = some s :=
  ⟨text?_of_name, name_of_text?⟩

theorem text_eq_ok_iff {s : String} :
    Reader.text .document (d.quoted.item levels) = .ok s ↔ d.DenotesText s := by
  cases d with
  | text raw =>
    refine text_ofRaw.trans ⟨.text, ?_⟩
    rintro ⟨h⟩
    exact h
  | number literal =>
    cases hwide : Json.isWide literal with
    | true =>
      rw [quoted, quotedLiteral_of_wide hwide]
      refine text_ofRaw.trans ((text?_of_wide hwide).trans ⟨.wide hwide, ?_⟩)
      rintro (_ | ⟨-, hs⟩)
      exact hs
    | false =>
      rw [quoted, quotedLiteral_of_not_wide hwide]
      constructor
      · intro hread
        change Reader.text .document (.ofLiteral literal) = .ok s at hread
        unfold Item.ofLiteral at hread
        split at hread <;> cases hread
      · rintro (_ | ⟨htrue, -⟩)
        rw [hwide] at htrue
        cases htrue
  | null | bool | broken => constructor <;> intro h <;> cases h
  | array | object =>
    constructor
    · intro hread
      -- Beyond the last level it is a fault, and before it an array or a map.
      cases levels with
      | zero =>
        rw [quoted, item] at hread
        split at hread <;> cases hread
      | succ => cases hread
    · intro h
      cases h

theorem readsAs_text (levels : Nat) : ReadsAs Reader.text levels DenotesText where
  iff _ _ := text_eq_ok_iff
  held := by
    rintro d s (h | ⟨hwide, hs⟩)
    · show (Item.ofRaw _).holdable = true
      rw [Item.ofRaw, h]
      rfl
    · rw [Held, quoted, quotedLiteral_of_wide hwide, item, Item.ofRaw, (text?_of_wide hwide).2 hs]
      rfl

/-- A word stands for the integer of its literal, and only a literal is read as an integer. -/
theorem item_eq_int_iff {s : Octets} (h : Spells d s) {w : UInt64} :
    d.quoted.item levels = .int w.toNat ↔ d.DenotesWord w := by
  constructor
  · intro hitem
    have hread : Reader.amount .document (d.quoted.item levels) = .ok (w.toNat : Int) := by
      rw [hitem]
      rfl
    cases (amount_eq_ok_iff h).1 hread with
    | literal hliteral hzero => exact .literal hliteral hzero
    | text htext =>
      change Item.ofRaw _ = _ at hitem
      rw [Item.ofRaw, htext] at hitem
      cases hitem
  · rintro ⟨hliteral, hzero⟩
    obtain rfl := (integerLiteral_iff.1 hliteral).resolve_right fun hboth => hzero hboth.1
    rw [item_quoted_intChars, Amount.toJson_of_fits (fitsWord_toNat w)]
    rfl

theorem readsAs_word (levels : Nat) : ReadsAs Reader.word64 levels DenotesWord where
  iff h _ := Reader.word64_eq_ok_iff.trans (item_eq_int_iff h)
  held := by
    rintro d w ⟨hliteral, hzero⟩
    exact (readsAs_amount levels).held (.literal hliteral hzero)

theorem readsAs_height (levels : Nat) :
    ReadsAs (Reader.option Reader.word64) levels DenotesHeight where
  iff := by
    intro d s h height
    -- A `null` is no height, and anything else is read as a word.
    by_cases hnull : d = .null
    · subst hnull
      show Except.ok none = Except.ok height ↔ _
      constructor
      · rintro ⟨⟩
        exact .null
      · rintro (_ | ⟨⟨⟩⟩)
        rfl
    · have hitem : d.quoted.item levels ≠ .null := fun hitem =>
        hnull (eq_null_of_item ((quotes_item levels d).eq_null_iff.1 hitem))
      rw [Reader.option_eq_map hitem, map_eq_ok]
      simp only [(readsAs_word levels).iff h]
      constructor
      · rintro ⟨w, hw, rfl⟩
        exact .word hw
      · rintro (_ | hw)
        · exact absurd rfl hnull
        · exact ⟨_, hw, rfl⟩
  held := by
    rintro d height (_ | hw)
    · rfl
    · exact (readsAs_word levels).held hw

end Leaves

/-! ## Members -/

section Members

variable {levels : Nat} {members : List (String × Doc)}

/-- Where the fields of a record are the members, it is read as the block that they give. -/
theorem block_eq_ok_iff_of_shape {i : Item} {values : String → Option Item}
    (hshape : Shape [("slot", []), ("id", []), ("blockNo", [])] i values)
    (hvalues : ∀ name ∈ ["slot", "id", "blockNo"],
      values name = (members.lookup name).map fun d => d.quoted.item levels)
    (hmembers : ∀ m ∈ members, ∃ t, Spells m.2 t) {b : BlockRef} :
    Portable.read .document i = .ok b ↔ GivesBlock members b := by
  rw [BlockRef.read_eq_ok hshape, hvalues "slot" (by decide), hvalues "id" (by decide),
    hvalues "blockNo" (by decide), (readsAs_word levels).required_iff hmembers,
    (readsAs_text levels).required_iff hmembers, (readsAs_height levels).given_iff hmembers]
  exact ⟨fun ⟨slot, id, height⟩ => ⟨slot, id, height⟩,
    fun ⟨slot, id, height⟩ => ⟨slot, id, height⟩⟩

end Members

/-! ## Blocks -/

section Blocks

variable {levels : Nat} {d : Doc} {s : Octets} {b : BlockRef}

theorem itemsOf_quotedItems (ds : List Doc) :
    itemsOf levels (quotedItems ds) = ds.map fun d => d.quoted.item levels := by
  induction ds with
  | nil => rfl
  | cons d ds ih => rw [quotedItems, itemsOf, ih, List.map_cons]

/-- Of kept members a block is read by their names. -/
theorem kept_eq_ok_iff {ms : List (Octets × Doc)} {members : List (String × Doc)}
    (hms : ∀ m ∈ ms, ∃ t, Spells m.2 t) (hkept : Kept levels ms members) :
    Portable.read .document ((Doc.object ms).quoted.item (levels + 1)) = .ok b ↔
      ((members.map (·.1)).filter (["slot", "id", "blockNo"].contains ·)).Nodup ∧
        GivesBlock members b := by
  have honce : Record.Regular [("slot", []), ("id", []), ("blockNo", [])]
      (members.map fun e => (e.1, e.2.quoted.item levels)) ↔
        ((members.map (·.1)).filter (["slot", "id", "blockNo"].contains ·)).Nodup :=
    regular_kept_iff rfl hkept
  -- What is read under a name is the value that was kept under it.
  have hvalues : ∀ name ∈ ["slot", "id", "blockNo"],
      valueOf? [("slot", []), ("id", []), ("blockNo", [])]
        (members.map fun e => (e.1, e.2.quoted.item levels)) name =
          (members.lookup name).map fun d => d.quoted.item levels := by
    intro name hname
    refine valueOf?_kept rfl ?_
    rw [Record.field?_of_plain rfl]
    exact if_pos (List.contains_iff_mem.2 hname)
  have hread := fun h => block_eq_ok_iff_of_shape (b := b) (.named (honce.2 h)) hvalues
    (spells_of_kept hms hkept)
  rw [item_of_kept hkept]
  constructor
  · intro h
    -- What is read has the shape of a record, so no name came twice.
    obtain ⟨values, hshape⟩ := Record.shape_of_read (.named _) h
    have h' := honce.1 (Item.regular_of_shape hshape)
    exact ⟨h', (hread h').1 h⟩
  · rintro ⟨h, hgives⟩
    exact (hread h).2 hgives

theorem object_eq_ok_iff {ms : List (Octets × Doc)} (hms : ∀ m ∈ ms, ∃ t, Spells m.2 t)
    (hheld : (Doc.object ms).Held (levels + 1)) :
    Portable.read .document ((Doc.object ms).quoted.item (levels + 1)) = .ok b ↔
      (Doc.object ms).HoldsBlock levels b := by
  obtain ⟨members, hkept⟩ := kept_of_held hheld
  constructor
  · intro hread
    obtain ⟨honce, h⟩ := (kept_eq_ok_iff hms hkept).1 hread
    exact .object hkept honce h
  · rintro (⟨hkept, honce, h⟩ | _)
    exact (kept_eq_ok_iff hms hkept).2 ⟨honce, h⟩

/-- Of an array a block is read from the items in their order. -/
theorem array_eq_ok_iff {ds : List Doc} (hds : ∀ d ∈ ds, ∃ t, Spells d t) :
    Portable.read .document ((Doc.array ds).quoted.item (levels + 1)) = .ok b ↔
      (Doc.array ds).HoldsBlock levels b := by
  show Portable.read .document (.array (itemsOf levels (quotedItems ds))) = .ok b ↔ _
  rw [itemsOf_quotedItems]
  -- Up to three items the places give the names.
  have hrow : ds.length ≤ 3 → (Portable.read .document
      (.array (ds.map fun d => d.quoted.item levels)) = .ok b ↔
        GivesBlock (["slot", "id", "blockNo"].zip ds) b) := by
    intro hlength
    exact block_eq_ok_iff_of_shape (.positional (by rwa [List.length_map]))
      (fun name _ => Entries.lookup_zip_map (fun d => d.quoted.item levels) _ ds name)
      fun m hm => hds m.2 (List.of_mem_zip hm).2
  constructor
  · intro hread
    obtain ⟨values, hshape⟩ := Record.shape_of_read (.other rfl) hread
    have hlength := Item.length_le_of_shape hshape
    rw [List.length_map] at hlength
    exact .row hlength ((hrow hlength).1 hread)
  · rintro (_ | ⟨hlength, h⟩)
    exact (hrow hlength).2 h

/-- What is neither an object nor an array is no record. -/
theorem not_block_of_leaf (h : (d.quoted.item levels).IsLeaf) :
    Portable.read .document (d.quoted.item levels) ≠ .ok b := by
  intro hread
  obtain ⟨values, hshape⟩ := Record.shape_of_read h.documented hread
  generalize d.quoted.item levels = i at h hshape
  cases hshape <;> cases h

/-- What can be kept is read as a block exactly if it holds it. -/
theorem block_eq_ok_iff (hd : Spells d s) (hheld : d.Held (levels + 1)) :
    Portable.read .document (d.quoted.item (levels + 1)) = .ok b ↔ d.HoldsBlock levels b := by
  obtain ⟨-, hd, -⟩ := hd
  cases hd with
  | emptyObject => exact object_eq_ok_iff (List.forall_mem_nil _) hheld
  | object h => exact object_eq_ok_iff h.exists_spells hheld
  | emptyArray => exact array_eq_ok_iff (List.forall_mem_nil _)
  | array h => exact array_eq_ok_iff h.exists_spells
  | null | isTrue | isFalse => exact iff_of_false (not_block_of_leaf trivial) nofun
  | text => exact iff_of_false (not_block_of_leaf (isLeaf_ofRaw _)) nofun
  | number => exact iff_of_false (not_block_of_leaf (isLeaf_quoted_number _ _)) nofun

/-- A member that is one of the three can be kept. -/
theorem GivesBlock.held {members : List (String × Doc)} (h : GivesBlock members b) {name : String}
    (hname : name ∈ ["slot", "id", "blockNo"]) (hlookup : members.lookup name = some d) :
    d.Held levels := by
  simp only [List.mem_cons, List.not_mem_nil, or_false] at hname
  -- Each of the three values has a reader that holds what it takes.
  rcases hname with rfl | rfl | rfl
  · obtain ⟨d', hslot, hword⟩ := h.slot
    obtain rfl := Option.some.inj (hlookup.symm.trans hslot)
    exact (readsAs_word levels).held hword
  · obtain ⟨d', hid, htext⟩ := h.id
    obtain rfl := Option.some.inj (hlookup.symm.trans hid)
    exact (readsAs_text levels).held htext
  · have hheight := h.height
    rw [hlookup] at hheight
    exact (readsAs_height levels).held hheight

theorem held_array_iff {ds : List Doc} :
    (Doc.array ds).Held (levels + 1) ↔ ∀ d ∈ ds, d.Held levels := by
  show Item.holdableItems (itemsOf levels (quotedItems ds)) = true ↔ _
  induction ds with
  | nil => exact iff_of_true rfl (List.forall_mem_nil _)
  | cons d ds ih =>
    rw [quotedItems, itemsOf, Item.holdableItems, Bool.and_eq_true, ih, List.forall_mem_cons]
    rfl

theorem held_of_holdsBlock (h : d.HoldsBlock levels b) : d.Held (levels + 1) := by
  cases h with
  | object hkept => exact held_of_named (fun hboth => hboth.2) hkept
  | row hlength h =>
    have hnames : ["slot", "id", "blockNo"].Nodup := by decide
    refine held_array_iff.2 fun d hd => ?_
    obtain ⟨name, hname, hlookup⟩ := Entries.exists_lookup_of_mem hnames hlength d hd
    exact h.held hname hlookup

theorem readsAs_point (levels : Nat) :
    ReadsAs (Portable.read : Reader Point) (levels + 1) (HoldsPoint levels) where
  iff := by
    intro d s hd p
    refine Reader.firstOf_eq_ok_iff.trans ?_
    simp only [map_eq_ok, text_eq_ok_iff]
    constructor
    · rintro ⟨hheld, ⟨s, hs, rfl⟩ | ⟨-, b, hb, rfl⟩⟩
      · exact .symbol hs
      · exact .block ((block_eq_ok_iff hd hheld).1 hb)
    · rintro (h | h)
      · exact ⟨(readsAs_text _).held h, .inl ⟨_, h, rfl⟩⟩
      · have hheld := held_of_holdsBlock h
        refine ⟨hheld, .inr ⟨?_, _, (block_eq_ok_iff hd hheld).2 h, rfl⟩⟩
        -- Neither an object nor an array is a text.
        cases h <;> rfl
  held := by
    rintro d p (h | h)
    · exact (readsAs_text _).held h
    · exact held_of_holdsBlock h

end Blocks

end Doc

/-! ## Decoding -/

/-- A document is decoded as a point exactly if it holds it: a text, or a wide integer taken for
one, is a symbol, and an object or a row of two or three items is a block.  Everything else is
refused, and no cause is told. -/
theorem Point.accepted_payloads {d : Doc} {s : Octets} (h : Doc.Spells d s) :
    (∀ p : Point, Json.decode s = .ok p ↔ d.HoldsPoint (documentLevels - 1) p) ∧
      ((¬ ∃ p, d.HoldsPoint (documentLevels - 1) p) →
        (Json.decode s : Except DecodeError Point) = .error (.json none)) := by
  have haccepted : ∀ p : Point, Portable.read .document (d.quoted.item documentLevels) = .ok p ↔
      d.HoldsPoint (documentLevels - 1) p := (Doc.readsAs_point 126).iff h
  refine ⟨fun p => (Json.decode_eq_ok_iff h).trans (haccepted p), fun hnone => ?_⟩
  -- Neither form is accepted, and the choice between them tells no more than that.
  have hrefused : (Portable.read .document (d.quoted.item documentLevels) : Reading Point) =
      Reader.refuse :=
    Reader.firstOf_eq_refuse fun p hread => hnone ⟨p, (haccepted p).1 hread⟩
  rw [Json.decode_of_spells h, hrefused]
  rfl

/-- A row of a slot and a hash is a block, though no point is written so; a row of two numbers is
none. -/
theorem Point.accepted_payloads_row :
    Json.decode (Octets.ofText "[1,\"ab\"]") = .ok (Point.block ⟨1, "ab", none⟩) ∧
      (Json.decode (Octets.ofText "[1,2]") : Except DecodeError Point) = .error (.json none) := by
  have hrow := Doc.spells_octets (.array [.int 1, .text "ab"])
  have hnumbers := Doc.spells_octets (.array [.int 1, .int 2])
  have hrowText : (Json.array [.int 1, .text "ab"]).octets = Octets.ofText "[1,\"ab\"]" := by
    decide +kernel
  have hnumbersText : (Json.array [.int 1, .int 2]).octets = Octets.ofText "[1,2]" := by
    decide +kernel
  rw [← hrowText, ← hnumbersText]
  constructor
  · refine ((accepted_payloads hrow).1 _).2 (.block (.row (by decide)
      ⟨⟨_, rfl, .literal (Doc.integerLiteral_intChars 1) (by decide)⟩, ⟨_, rfl, ?_⟩, rfl⟩))
    exact .text (Doc.text?_escaped "ab")
  · refine (accepted_payloads hnumbers).2 ?_
    rintro ⟨p, ⟨⟨⟩⟩ | ⟨_ | ⟨-, hgives⟩⟩⟩
    -- The second number is no hash, since it is not wide.
    obtain ⟨d, ⟨⟩, _ | ⟨hwide, -⟩⟩ := hgives.id
    exact absurd hwide (by decide)

end ChainFollower
