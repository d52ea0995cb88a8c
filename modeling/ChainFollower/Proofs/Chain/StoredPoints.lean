import ChainFollower.Proofs.Chain.Points
import ChainFollower.Proofs.Cbor.Grammar

/-!
# Which records are points

A stored point is the first item of some bytes.  If that is a map, of either form, only two of its
entries count: the last one under the key of a symbol, and the last one under the key of a block.
What stands under other keys, and how often, and in which order, is not looked at; but all of it has
to be held in memory, and a record with an entry that cannot be is not read at all.

Main definitions: `Item.integer?` for the integer that a key is, `LastUnder` and `Lacks` for what a
map has under a key, and `PointRecord.Answers` for what its record is decoded to.

Main statement: `PointRecord.decode_spelled`.
-/

namespace ChainFollower

/-! ## Keys -/

/-- The integer that an item is, whether sent as a number or as a magnitude. -/
def Item.integer? : Item → Option Int
  | .int n => some n
  | .tagged tag content => content.taggedInt? tag
  | _ => none

/-- The text that an item is, whether sent in one piece or in segments. -/
def Item.text? : Item → Option String
  | .text s | .streamedText s => some s
  | _ => none

namespace PointRecord

/-- No entry stands under the integer key. -/
def Lacks (key : Nat) (entries : List (Item × Item)) : Prop :=
  ∀ e ∈ entries, e.1.integer? ≠ some (key : Int)

instance (key : Nat) (entries : List (Item × Item)) : Decidable (Lacks key entries) :=
  inferInstanceAs (Decidable (∀ e ∈ entries, e.1.integer? ≠ some (key : Int)))

/-- The value of the last entry under the integer key. -/
def LastUnder (key : Nat) (value : Item) (entries : List (Item × Item)) : Prop :=
  ∃ before k after, entries = before ++ (k, value) :: after ∧ k.integer? = some (key : Int) ∧
    Lacks key after

/-- The entries that count. -/
def counting (entries : List (Item × Item)) : List (Item × Item) :=
  entries.filter fun e =>
    e.1.integer? = some (symbolKey : Int) ∨ e.1.integer? = some (blockKey : Int)

/-! ## Held records -/

/-- Entries are held one by one, each with its key and its value. -/
theorem settleEntries_eq_map (entries : List (Item × Item)) :
    settleEntries entries = entries.map fun e => (settle e.1, settle e.2) := by
  induction entries with
  | nil => rfl
  | cons e rest ih => rw [settleEntries, ih, List.map_cons]

/-- An item that is held is a certain integer of a word if it was sent as that integer. -/
theorem isKey_settle {key : Nat} (hkey : key < 0x10000000000000000) (i : Item) :
    isKey key (settle i) = true ↔ i.integer? = some (key : Int) := by
  cases i with
  | int n => simp [settle, isKey, Item.integer?]
  -- A magnitude that a word holds is held as a number, and a larger one is no key.
  | tagged tag content =>
    rw [settle, Item.integer?]
    cases content.taggedInt? tag with
    | none => simp [isKey]
    | some n =>
      by_cases hword : -0x10000000000000000 ≤ n ∧ n < 0x10000000000000000
      · simp only [if_pos hword, isKey, beq_iff_eq, Option.some.injEq]
      · have hne : n ≠ (key : Int) := by omega
        simp [hword, isKey, hne]
  | _ => simp [settle, isKey, Item.integer?]

/-- An item is held as a text exactly if it was sent as that text, in one piece or in several. -/
theorem settle_eq_text {i : Item} {s : String} : settle i = .text s ↔ i.text? = some s := by
  cases i with
  | tagged tag content =>
    rw [settle]
    repeat' split
    all_goals simp [Item.text?]
  | _ => simp [settle, Item.text?]

/-- An item is held as a null exactly if it was sent as one. -/
theorem settle_eq_null {i : Item} : settle i = .null ↔ i = .null := by
  cases i with
  | tagged tag content =>
    rw [settle]
    repeat' split
    all_goals simp
  | _ => simp [settle]

/-- A map of either form is held as a map of its held entries, -/
theorem settle_of_entries {i : Item} {entries : List (Item × Item)}
    (h : i.entries? = some entries) : settle i = .map (settleEntries entries) := by
  cases i with
  | map _ | streamedMap _ =>
    cases h
    rfl
  | _ => cases h

/-- and nothing else is held as a map. -/
theorem settle_ne_map {i : Item} (h : i.entries? = none) (entries : List (Item × Item)) :
    settle i ≠ .map entries := by
  cases i with
  | map _ | streamedMap _ => cases h
  | tagged tag content =>
    rw [settle]
    repeat' split
    all_goals simp
  | _ => simp [settle]

/-! ## The values that count -/

section Values

variable {key : Nat} {entries : List (Item × Item)}

/-- What is found in a held record is found among its entries as they came. -/
theorem valueOf?_settleEntries (hkey : key < 0x10000000000000000)
    (entries : List (Item × Item)) :
    valueOf? key (settleEntries entries) =
      (entries.reverse.find? fun e => e.1.integer? = some (key : Int)).map fun e =>
        settle e.2 := by
  have hkeys : (fun e : Item × Item => isKey key (settle e.1)) =
      fun e => decide (e.1.integer? = some (key : Int)) := by
    funext e
    rw [Bool.eq_iff_iff, isKey_settle hkey, decide_eq_true_eq]
  -- The search goes through the entries from the last one on.
  rw [valueOf?, settleEntries_eq_map, ← List.map_reverse, List.find?_map, Option.map_map, ← hkeys]
  rfl

/-- Nothing is found under a key exactly if no entry stands under it. -/
theorem valueOf?_eq_none_iff (hkey : key < 0x10000000000000000) :
    valueOf? key (settleEntries entries) = none ↔ Lacks key entries := by
  simp [valueOf?_settleEntries hkey, Lacks]

/-- What is found under a key is the value of the last entry under it. -/
theorem valueOf?_eq_some_iff (hkey : key < 0x10000000000000000) {value : Item} :
    valueOf? key (settleEntries entries) = some value ↔
      ∃ v, LastUnder key v entries ∧ settle v = value := by
  simp only [valueOf?_settleEntries hkey, Option.map_eq_some_iff, List.find?_eq_some_iff_append]
  constructor
  -- The entries are searched in reverse, so what was passed over stands behind the one found.
  · rintro ⟨⟨k, v⟩, ⟨hk, after, before, hsplit, hlast⟩, rfl⟩
    refine ⟨v, ⟨before.reverse, k, after.reverse, ?_, by simpa using hk, ?_⟩, rfl⟩
    · rw [← List.reverse_reverse entries, hsplit]
      simp
    · intro e he
      simpa using hlast e (List.mem_reverse.1 he)
  · rintro ⟨v, ⟨before, k, after, rfl, hk, hlast⟩, rfl⟩
    refine ⟨(k, v), ⟨by simpa using hk, after.reverse, before.reverse, by simp, ?_⟩, rfl⟩
    intro e he
    simpa using hlast e (List.mem_reverse.1 he)

/-- Entries of other keys do not count. -/
theorem valueOf?_counting (hkey : key = symbolKey ∨ key = blockKey) :
    valueOf? key (settleEntries (counting entries)) = valueOf? key (settleEntries entries) := by
  have hword : key < 0x10000000000000000 := by
    rcases hkey with rfl | rfl <;> decide
  rw [valueOf?_settleEntries hword, valueOf?_settleEntries hword, counting, ← List.filter_reverse,
    List.find?_filter]
  -- An entry under either key is among those that count.
  congr 2
  funext e
  rcases hkey with rfl | rfl <;> simp +contextual

end Values

/-- So a point depends on the two keys alone. -/
theorem ofEntries_counting (entries : List (Item × Item)) :
    ofEntries (settleEntries (counting entries)) = ofEntries (settleEntries entries) := by
  unfold ofEntries
  rw [valueOf?_counting (.inl rfl), valueOf?_counting (.inr rfl)]

/-! ## What a record is decoded to -/

section Held

variable {held : List (Item × Item)}

/-- A record is a symbol if a text is found under the one key and nothing under the other. -/
theorem ofEntries_eq_symbol_iff {s : String} : ofEntries held = .ok (.symbol s) ↔
    valueOf? symbolKey held = some (.text s) ∧ valueOf? blockKey held = none := by
  unfold ofEntries
  -- What is found under the two keys decides everything.
  cases valueOf? symbolKey held with
  | none =>
    cases valueOf? blockKey held with
    | none => simp
    | some body => cases hread : (Portable.read .stored body : Reading BlockRef) <;> simp [hread]
  | some value => cases value <;> cases valueOf? blockKey held <;> simp

/-- It is a block if one is read from what is found under the other key, and nothing is found under
the first. -/
theorem ofEntries_eq_block_iff {b : BlockRef} : ofEntries held = .ok (.block b) ↔
    (∃ body, valueOf? blockKey held = some body ∧ Portable.read .stored body = .ok b) ∧
      valueOf? symbolKey held = none := by
  unfold ofEntries
  cases valueOf? symbolKey held with
  | none =>
    cases valueOf? blockKey held with
    | none => simp
    | some body => cases hread : (Portable.read .stored body : Reading BlockRef) <;> simp [hread]
  | some value => cases value <;> cases valueOf? blockKey held <;> simp

end Held

/-- What a record of these entries is decoded to. -/
structure Answers (entries : List (Item × Item)) (answer : Except DecodeError (Option Point)) :
    Prop where
  symbol_iff (s : String) : answer = .ok (some (.symbol s)) ↔
    (∃ v, LastUnder symbolKey v entries ∧ v.text? = some s) ∧ Lacks blockKey entries
  block_iff (b : BlockRef) : answer = .ok (some (.block b)) ↔
    (∃ v, LastUnder blockKey v entries ∧ Portable.read .stored (settle v) = .ok b) ∧
      Lacks symbolKey entries
  -- A map is never no point: all other answers are errors.
  ne_none : answer ≠ .ok none
  neither : Lacks symbolKey entries → Lacks blockKey entries →
    answer = .error (.refused (.invalidPoint .neither))
  both : ¬ Lacks symbolKey entries → ¬ Lacks blockKey entries →
    answer = .error (.refused (.invalidPoint .both))
  notText {v : Item} : LastUnder symbolKey v entries → v.text? = none → Lacks blockKey entries →
    answer = .error (.refused (.invalidPoint .symbolNotText))
  notBlock {v : Item} : LastUnder blockKey v entries →
    (∀ b : BlockRef, Portable.read .stored (settle v) ≠ .ok b) → Lacks symbolKey entries →
    answer = .error .cbor

theorem symbolKey_lt : symbolKey < 0x10000000000000000 := by decide

theorem blockKey_lt : blockKey < 0x10000000000000000 := by decide

/-- The record of some entries answers as it should. -/
theorem answers_ofEntries (entries : List (Item × Item)) :
    Answers entries ((ofEntries (settleEntries entries)).map some) where
  symbol_iff s := by
    simp only [map_eq_ok, Option.some.injEq, exists_eq_right, ofEntries_eq_symbol_iff,
      valueOf?_eq_some_iff symbolKey_lt, valueOf?_eq_none_iff blockKey_lt, settle_eq_text]
  block_iff b := by
    simp only [map_eq_ok, Option.some.injEq, exists_eq_right, ofEntries_eq_block_iff,
      valueOf?_eq_some_iff blockKey_lt, valueOf?_eq_none_iff symbolKey_lt]
    refine and_congr_left fun _ => ⟨?_, ?_⟩
    · rintro ⟨body, ⟨v, last, rfl⟩, hread⟩
      exact ⟨v, last, hread⟩
    · rintro ⟨v, last, hread⟩
      exact ⟨_, ⟨v, last, rfl⟩, hread⟩
  ne_none := by simp [map_eq_ok]
  neither lacks lacks' := by
    rw [ofEntries, (valueOf?_eq_none_iff symbolKey_lt).2 lacks,
      (valueOf?_eq_none_iff blockKey_lt).2 lacks']
    rfl
  -- Not to lack a key is to find something under it.
  both bears bears' := by
    rw [← valueOf?_eq_none_iff symbolKey_lt] at bears
    rw [← valueOf?_eq_none_iff blockKey_lt] at bears'
    obtain ⟨symbol, hsymbol⟩ := Option.ne_none_iff_exists'.1 bears
    obtain ⟨block, hblock⟩ := Option.ne_none_iff_exists'.1 bears'
    simp only [ofEntries, hsymbol, hblock]
    rfl
  -- What is held for the value is no text either.
  notText {v} last textless lacks := by
    have hne : ∀ s, settle v ≠ .text s := by
      intro s h
      rw [settle_eq_text, textless] at h
      cases h
    have hsymbol := (valueOf?_eq_some_iff symbolKey_lt).2 ⟨v, last, rfl⟩
    simp only [ofEntries, hsymbol, (valueOf?_eq_none_iff blockKey_lt).2 lacks]
    cases hvalue : settle v with
    | text s => exact absurd hvalue (hne s)
    | _ => rfl
  notBlock {v} last unread lacks := by
    have hblock := (valueOf?_eq_some_iff blockKey_lt).2 ⟨v, last, rfl⟩
    simp only [ofEntries, hblock, (valueOf?_eq_none_iff symbolKey_lt).2 lacks]
    split
    · next b h => exact absurd h (unread b)
    · rfl

/-! ## Texts of points -/

mutual

/-- An item is held with the texts that it came with. -/
theorem textSize_settle : ∀ i : Item, Cbor.textSize (settle i) = Cbor.textSize i
  | .streamedText _ => rfl
  | .streamedBytes _ => rfl
  | .array items => textSize_settleItems items
  | .map entries => textSize_settleEntries entries
  | .streamedMap entries => textSize_settleEntries entries
  | .tagged tag content => by
    have hcontent := textSize_settle content
    rw [settle]
    cases hint : content.taggedInt? tag with
    | none => exact hcontent
    | some n =>
      -- The magnitude of an integer is bytes, and no text.
      have hbytes : Cbor.textSize (.tagged tag content) = 0 := by
        cases content with
        | bytes _ => rfl
        | _ => cases hint
      simp only
      split
      · exact hbytes.symm
      · exact hcontent
  | .null | .bool _ | .int _ | .float _ | .text _ | .bytes _ | .unreadable | .broken => rfl

/-- The items of an array are held with their texts. -/
theorem textSize_settleItems : ∀ items : List Item,
    Cbor.textSizeItems (settleItems items) = Cbor.textSizeItems items
  | [] => rfl
  | i :: rest => by
    rw [settleItems, Cbor.textSizeItems, Cbor.textSizeItems, textSize_settle i,
      textSize_settleItems rest]

/-- The entries of a map are held with their texts, those of the keys included. -/
theorem textSize_settleEntries : ∀ entries : List (Item × Item),
    Cbor.textSizeEntries (settleEntries entries) = Cbor.textSizeEntries entries
  | [] => rfl
  | (k, v) :: rest => by
    rw [settleEntries, Cbor.textSizeEntries, Cbor.textSizeEntries, textSize_settle k,
      textSize_settle v, textSize_settleEntries rest]

end

/-- Tags add no text. -/
theorem textSize_untagged : ∀ i : Item, Cbor.textSize i.untagged = Cbor.textSize i
  | .tagged _ content => textSize_untagged content
  | .array _ | .map _ | .streamedMap _ | .streamedText _ | .streamedBytes _ => rfl
  | .null | .bool _ | .int _ | .float _ | .text _ | .bytes _ | .unreadable | .broken => rfl

/-- The texts in a map are those in its entries. -/
theorem textSize_of_entries {i : Item} {entries : List (Item × Item)}
    (h : i.entries? = some entries) :
    Cbor.textSize i = Cbor.textSizeEntries entries := by
  -- Both forms of a map have entries, and nothing else has.
  cases i with
  | map _ | streamedMap _ =>
    cases h
    rfl
  | _ => cases h

/-- The texts of one value are among the texts of all entries. -/
theorem textSize_le_of_mem {entries : List (Item × Item)} {k v : Item} (h : (k, v) ∈ entries) :
    Cbor.textSize v ≤ Cbor.textSizeEntries entries := by
  induction entries with
  | nil => cases h
  | cons e rest ih =>
    obtain ⟨k', v'⟩ := e
    rw [Cbor.textSizeEntries]
    -- The value is that of the first entry, or of one behind it.
    rcases List.mem_cons.1 h with h | h
    · cases h
      omega
    · have hrest := ih h
      omega

/-- A text that is read from an item is one of the texts in it. -/
theorem length_text_le {i : Item} {s : String} (h : Reader.text .stored i = .ok s) :
    (Octets.ofText s).length ≤ Cbor.textSize i := by
  rw [← textSize_untagged]
  unfold Reader.text Reader.below at h
  -- Tags are passed over before the text is read.
  cases huntagged : i.untagged with
  | text t | streamedText t =>
    rw [huntagged] at h
    cases h
    exact Nat.le_refl _
  | _ =>
    rw [huntagged] at h
    cases h

/-- The hash of a block is a text in the item that the block was read from. -/
theorem length_id_le {i : Item} {b : BlockRef} (h : Portable.read .stored i = .ok b) :
    (Octets.ofText b.id).length ≤ Cbor.textSize i := by
  obtain ⟨r, hr, hfinish⟩ := bind_eq_ok.1 h
  obtain ⟨-, houtcome⟩ := Record.finish_eq_ok.1 hfinish
  obtain ⟨_, _, hids, -, rfl⟩ := Placed.seq_eq_ok.1 houtcome
  obtain ⟨_, id, hslot, hid, rfl⟩ := Placed.seq_eq_ok.1 hids
  obtain ⟨slot, -, rfl⟩ := Placed.map_eq_ok.1 hslot
  obtain ⟨place, item, hfind, hitem⟩ := Record.exists_of_getRequired hid
  -- The record was collected from the entries of a map below the tags.
  obtain ⟨entries, hentries, rfl⟩ : ∃ entries, i.untagged.entries? = some entries ∧
      r = Record.collect .stored BlockRef.names 0 [] entries := by
    obtain ⟨⟨inside, entries⟩, hentries, hcollect⟩ :
        ∃ e, Reader.entries .stored i = .ok e ∧
          (pure (Record.collect e.1 BlockRef.names 0 [] e.2) : Reading Record) = .ok r :=
      bind_eq_ok.1 hr
    unfold Reader.entries at hentries
    split at hentries
    · next hfound =>
      cases hentries
      cases hcollect
      exact ⟨_, hfound, rfl⟩
    · cases hentries
  rw [Record.medium_collect] at hitem
  obtain hnone | ⟨k, hmem⟩ := Record.mem_fields_collect (Entries.mem_of_lookup hfind)
  · cases hnone
  -- From the text to the value, to all entries, and out of the tags.
  calc (Octets.ofText id).length ≤ Cbor.textSize item := length_text_le hitem
    _ ≤ Cbor.textSizeEntries entries := textSize_le_of_mem hmem
    _ = Cbor.textSize i.untagged := (textSize_of_entries hentries).symm
    _ = Cbor.textSize i := textSize_untagged i

/-! ## Stored points -/

/-- What an item is decoded to once it is held. -/
def ofHeld : Item → Except DecodeError (Option Point)
  | .null => .ok none
  | .map entries => (ofEntries entries).map some
  | _ => .error (.refused (.invalidPoint .notRecord))

section Spelled

variable {i : Item} {s : Octets} {entries : List (Item × Item)}

/-- An item that cannot be held is refused before it is looked at. -/
theorem decode_of_not_passes (h : Cbor.Spells i s)
    (hpasses : Medium.passes (.binary Cbor.maxLevels) i = false) (rest : Octets) :
    decode (s ++ rest) = .error .cbor := by
  obtain ⟨b, t, rfl, -⟩ := h.first
  have hread := h.not_passes_read hpasses rest
  rw [List.cons_append] at hread ⊢
  simp [decode, hread]

/-- Otherwise only the item as it is held counts, and not what comes behind it. -/
theorem decode_of_passes (h : Cbor.Spells i s)
    (hpasses : Medium.passes (.binary Cbor.maxLevels) i = true) (rest : Octets) :
    decode (s ++ rest) = ofHeld (settle i) := by
  obtain ⟨b, t, rfl, -⟩ := h.first
  have hread := h.read hpasses rest
  rw [List.cons_append] at hread ⊢
  simp only [decode, hread, hpasses, if_true]
  -- What is held is a null, a map, or neither of them.
  cases settle i <;> rfl

/-- A map answers by its entries. -/
theorem decode_of_entries (h : Cbor.Spells i s)
    (hpasses : Medium.passes (.binary Cbor.maxLevels) i = true)
    (hentries : i.entries? = some entries) (rest : Octets) :
    decode (s ++ rest) = (ofEntries (settleEntries entries)).map some := by
  rw [decode_of_passes h hpasses, settle_of_entries hentries]
  rfl

/-- What is neither a map nor a null is no record. -/
theorem decode_of_not_record (h : Cbor.Spells i s)
    (hpasses : Medium.passes (.binary Cbor.maxLevels) i = true) (hnull : i ≠ .null)
    (hmap : i.entries? = none) (rest : Octets) :
    decode (s ++ rest) = .error (.refused (.invalidPoint .notRecord)) := by
  rw [decode_of_passes h hpasses]
  cases hsettle : settle i with
  | null => exact absurd (settle_eq_null.1 hsettle) hnull
  | map held => exact absurd hsettle (settle_ne_map hmap held)
  | _ => rfl

/-- Only a map is decoded to a point. -/
theorem exists_entries (h : Cbor.Spells i s) {rest : Octets} {p : Point}
    (hp : decode (s ++ rest) = .ok (some p)) :
    ∃ entries, i.entries? = some entries ∧ Answers entries (decode (s ++ rest)) := by
  cases hpasses : Medium.passes (.binary Cbor.maxLevels) i with
  | false =>
    rw [decode_of_not_passes h hpasses] at hp
    cases hp
  | true =>
    -- An item without entries is a null or no record.
    cases hentries : i.entries? with
    | some entries =>
      refine ⟨entries, rfl, ?_⟩
      rw [decode_of_entries h hpasses hentries]
      exact answers_ofEntries entries
    | none =>
      by_cases hnull : i = .null
      · rw [decode_of_passes h hpasses, settle_eq_null.2 hnull] at hp
        cases hp
      · rw [decode_of_not_record h hpasses hnull hentries] at hp
        cases hp

/-- The value that counts has no more text than the whole map. -/
theorem LastUnder.textSize_le {key : Nat} {v : Item} (h : LastUnder key v entries) :
    Cbor.textSize v ≤ Cbor.textSizeEntries entries := by
  obtain ⟨before, k, after, rfl, -, -⟩ := h
  exact textSize_le_of_mem (List.mem_append_right before List.mem_cons_self)

/-- A point that is decoded has its text among the bytes that it was decoded from. -/
theorem length_name_le (h : Cbor.Spells i s) {rest : Octets} {p : Point}
    (hp : decode (s ++ rest) = .ok (some p)) : (Octets.ofText p.name).length ≤ s.length := by
  obtain ⟨entries, hentries, answers⟩ := exists_entries h hp
  -- The text is in the value that counts, and that is among the entries of the item.
  have hvalue {v : Item} {key : Nat} (last : LastUnder key v entries)
      (hname : (Octets.ofText p.name).length ≤ Cbor.textSize v) :
      (Octets.ofText p.name).length ≤ s.length := by
    calc (Octets.ofText p.name).length ≤ Cbor.textSize v := hname
      _ ≤ Cbor.textSizeEntries entries := last.textSize_le
      _ = Cbor.textSize i := (textSize_of_entries hentries).symm
      _ ≤ s.length := h.textSize_le
  cases p with
  | symbol name =>
    obtain ⟨⟨v, last, htext⟩, -⟩ := (answers.symbol_iff name).1 hp
    refine hvalue last ?_
    rw [← textSize_settle, settle_eq_text.2 htext]
    exact Nat.le_refl _
  | block b =>
    obtain ⟨⟨v, last, hread⟩, -⟩ := (answers.block_iff b).1 hp
    refine hvalue last ?_
    rw [← textSize_settle]
    exact length_id_le hread

end Spelled

/-- No bytes are no point.  Of all others only the item at their start counts.  If it cannot be held
it is refused.  If it can, a null is no point, a map answers by the last entries under two integer
keys, whatever its other entries are, and anything else is no record.  A point that is decoded is
decoded again from its own record; its text must be as short as any that memory holds. -/
theorem decode_spelled {i : Item} {s : Octets} (h : Cbor.Spells i s) (rest : Octets) :
    decode [] = .ok none ∧
    (Medium.passes (.binary Cbor.maxLevels) i = false → decode (s ++ rest) = .error .cbor) ∧
    (Medium.passes (.binary Cbor.maxLevels) i = true →
      (i = .null → decode (s ++ rest) = .ok none) ∧
      (i ≠ .null → i.entries? = none →
        decode (s ++ rest) = .error (.refused (.invalidPoint .notRecord))) ∧
      ∀ entries, i.entries? = some entries → Answers entries (decode (s ++ rest)) ∧
        ∀ {j : Item} {t : Octets} {others : List (Item × Item)}, Cbor.Spells j t →
          Medium.passes (.binary Cbor.maxLevels) j = true → j.entries? = some others →
          counting others = counting entries → ∀ behind,
          decode (t ++ behind) = decode (s ++ rest)) ∧
    ∀ p, decode (s ++ rest) = .ok (some p) → s.length < 0x8000000000000000 →
      decode (encode (some p)) = .ok (some p) := by
  refine ⟨rfl, fun hpasses => decode_of_not_passes h hpasses rest, fun hpasses => ⟨?_, ?_, ?_⟩, ?_⟩
  · rintro rfl
    exact decode_of_passes h hpasses rest
  · exact fun hnull hmap => decode_of_not_record h hpasses hnull hmap rest
  · intro entries hentries
    rw [decode_of_entries h hpasses hentries]
    refine ⟨answers_ofEntries entries, fun hother hpasses' hothers same behind => ?_⟩
    rw [decode_of_entries hother hpasses' hothers, ← ofEntries_counting, same, ofEntries_counting]
  -- The name of a decoded point is a part of the bytes, so there is room for it again.
  · intro p hp room
    have hname := length_name_le h hp
    refine decode_encode fun q hq => ?_
    cases hq
    exact Nat.lt_of_le_of_lt hname room

/-- Bytes under a key that does not count, then a number under the key of a symbol, and a text under
that key again. -/
def overwritten : List (Item × Item) :=
  [(.int 3, .bytes [0xff]), (.int 1, .int 5), (.int 1, .text "x")]

/-- The length of the map is left open, and the key of the text is longer than it needs to be. -/
theorem decode_spelled_overwritten :
    Cbor.Spells (.streamedMap overwritten)
      [0xbf, 0x03, 0x41, 0xff, 0x01, 0x05, 0x18, 0x01, 0x61, 0x78, 0xff] ∧
    decode [0xbf, 0x03, 0x41, 0xff, 0x01, 0x05, 0x18, 0x01, 0x61, 0x78, 0xff] =
      .ok (some (.symbol "x")) ∧
    decode (encode (some (.symbol "x"))) = .ok (some (.symbol "x")) := by
  have hkey := Cbor.spells_int (n := 1) (by decide)
  have hother := Cbor.spells_int (n := 3) (by decide)
  have hnumber := Cbor.spells_int (n := 5) (by decide)
  have hbytes := @Cbor.Spells.bytes 0 _ [0xff] (.short (by decide))
  -- The second key is the same integer with one byte more.
  have hlongKey := Cbor.Spells.natural (@Cbor.Head.wide 0 24 [0x01] (by decide))
  have htext := Cbor.spells_text (s := "x") (by decide)
  have hspells : Cbor.Spells (.streamedMap overwritten)
      [0xbf, 0x03, 0x41, 0xff, 0x01, 0x05, 0x18, 0x01, 0x61, 0x78, 0xff] :=
    .openMap (.cons hother hbytes (.cons hkey hnumber (.cons hlongKey htext .nil)))
  obtain ⟨-, -, hpasses, hagain⟩ := decode_spelled hspells []
  obtain ⟨-, -, hmap⟩ := hpasses rfl
  have last : LastUnder symbolKey (.text "x") overwritten :=
    ⟨[(.int 3, .bytes [0xff]), (.int 1, .int 5)], .int 1, [], rfl, rfl, nofun⟩
  have lacks : Lacks blockKey overwritten := by decide
  have hdecode := ((hmap overwritten rfl).1.symbol_iff "x").2 ⟨⟨_, last, rfl⟩, lacks⟩
  exact ⟨hspells, hdecode, hagain _ hdecode (by decide)⟩

/-- A simple value that has no meaning, under a key that does not count.  The record has a last text
under the key of a symbol and nothing under that of a block, and without the other entry it is a
point. -/
theorem decode_meaningless :
    Cbor.Spells (.map [(.int 3, .broken), (.int 1, .text "x")])
      [0xa2, 0x03, 0xf0, 0x01, 0x61, 0x78] ∧
    LastUnder symbolKey (.text "x") [(.int 3, .broken), (.int 1, .text "x")] ∧
    Lacks blockKey [(.int 3, .broken), (.int 1, .text "x")] ∧
    decode [0xa2, 0x03, 0xf0, 0x01, 0x61, 0x78] = .error .cbor ∧
    decode [0xa1, 0x01, 0x61, 0x78] = .ok (some (.symbol "x")) := by
  have hkey := Cbor.spells_int (n := 1) (by decide)
  have hother := Cbor.spells_int (n := 3) (by decide)
  -- The value under the key that means nothing is a simple one without a meaning.
  have hsimple := @Cbor.Spells.simple 0 16 _ (.short (by decide))
  have htext := Cbor.spells_text (s := "x") (by decide)
  have hspells : Cbor.Spells (.map [(.int 3, .broken), (.int 1, .text "x")])
      [0xa2, 0x03, 0xf0, 0x01, 0x61, 0x78] :=
    .map (.short (by decide)) (.cons hother hsimple (.cons hkey htext .nil))
  exact ⟨hspells, ⟨[(.int 3, .broken)], .int 1, [], rfl, rfl, nofun⟩, by decide, rfl, rfl⟩

end PointRecord

end ChainFollower
