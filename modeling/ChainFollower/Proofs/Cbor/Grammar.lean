import ChainFollower.Cbor.Parse
import ChainFollower.Item.Reader
import ChainFollower.Proofs.Text.Utf8

/-!
# The grammar of binary documents

Which byte strings are binary items, said without the reader: `Cbor.Spells i s` holds if the bytes
`s` spell the item `i`.  A head may be longer than its number needs, and lengths may be announced or
left open.  An item that is well formed but has no place in memory, which is a text that is no UTF-8
or a simple value without a meaning, is spelled as `Item.broken`.

The reader finds the item that stands at the start of the bytes, whatever comes behind it, and goes
on behind it, unless something in the item cannot be passed over or the item goes too deep.  Then it
stops, and what it gives cannot be passed over.

Main statements: `Spells.readItem`, `Spells.read` and `Spells.not_passes_read`.
-/

namespace ChainFollower.Cbor

/-! ## Heads -/

/-- The bytes of a head of this major type, with the count of bytes that hold its number, and the
number. -/
inductive Head (major : Nat) : Nat → Nat → Octets → Prop
  | short {n : Nat} (hn : n < 24) : Head major 0 n [UInt8.ofNat (32 * major + n)]
  -- The first byte announces how many bytes the number takes up.
  | wide {code : Nat} {bs : Octets}
      (hcode : (code, bs.length) ∈ [(24, 1), (25, 2), (26, 4), (27, 8)]) :
      Head major bs.length bs.bigEndian (UInt8.ofNat (32 * major + code) :: bs)

/-- The first byte of a head. -/
theorem toNat_first {major k : Nat} (hmajor : major < 8) (hk : k < 32) :
    (UInt8.ofNat (32 * major + k)).toNat / 32 = major ∧
      (UInt8.ofNat (32 * major + k)).toNat % 32 = k := by
  rw [UInt8.toNat_ofNat']
  omega

theorem split_append (bs rest : Octets) : split bs.length (bs ++ rest) = some (bs, rest) := by
  simp [split]

/-- The first byte of an item with its length left open. -/
def openHead (major : Nat) : UInt8 := UInt8.ofNat (32 * major + 31)

theorem readHead_openHead {major : Nat} (hmajor : major < 8) (rest : Octets) :
    readHead (openHead major :: rest) = some ((major, .openEnded), rest) := by
  obtain ⟨hdiv, hmod⟩ := toNat_first (k := 31) hmajor (by decide)
  rw [openHead, readHead, hdiv, hmod]
  rfl

namespace Head

variable {major width n : Nat} {head : Octets}

/-- A head is read, whatever follows it. -/
theorem readHead (h : Head major width n head) (hmajor : major < 8) (rest : Octets) :
    Cbor.readHead (head ++ rest) = some ((major, .number width n), rest) := by
  cases h with
  -- A small number stands in the first byte.
  | short hn =>
    obtain ⟨hdiv, hmod⟩ := toNat_first (k := n) hmajor (by omega)
    simp only [List.singleton_append, Cbor.readHead, hdiv, hmod, if_pos hn]
  -- A larger one stands in the bytes behind it, whose number the code tells.
  | @wide code bs hcode =>
    have hnumber : (split bs.length (bs ++ rest)).map (fun found =>
        ((major, Argument.number bs.length found.1.bigEndian), found.2)) =
          some ((major, .number bs.length bs.bigEndian), rest) := by
      simp only [split_append, Option.map_some]
    simp only [List.mem_cons, Prod.mk.injEq, List.not_mem_nil, or_false] at hcode
    obtain ⟨hdiv, hmod⟩ := toNat_first hmajor (show code < 32 by omega)
    rw [List.cons_append, Cbor.readHead, hdiv, hmod]
    rcases hcode with ⟨rfl, hlength⟩ | ⟨rfl, hlength⟩ | ⟨rfl, hlength⟩ | ⟨rfl, hlength⟩
    all_goals
      rw [hlength] at hnumber ⊢
      exact hnumber

/-- A head is no end mark. -/
theorem first (h : Head major width n head) (hmajor : major < 8) :
    ∃ b bs, head = b :: bs ∧ b ≠ 0xff := by
  -- Below the mark, the last five bits are those of a short number, or one of four codes.
  have hfirst : ∀ {k}, k < 28 → UInt8.ofNat (32 * major + k) ≠ 0xff := by
    intro k hk hmark
    have hmod := (toNat_first (k := k) hmajor (by omega)).2
    rw [hmark] at hmod
    have hcode : (0xff : UInt8).toNat % 32 = 31 := rfl
    omega
  cases h with
  | short hn => exact ⟨_, [], rfl, hfirst (by omega)⟩
  | @wide code bs hcode =>
    simp only [List.mem_cons, Prod.mk.injEq, List.not_mem_nil, or_false] at hcode
    exact ⟨_, bs, rfl, hfirst (by omega)⟩

theorem length_pos (h : Head major width n head) (hmajor : major < 8) : 1 ≤ head.length := by
  obtain ⟨b, bs, rfl, -⟩ := h.first hmajor
  exact Nat.succ_le_succ (Nat.zero_le _)

end Head

/-! ## Items -/

/-- Strings of one major type with announced lengths, one behind the other. -/
inductive Segments (major : Nat) : List Octets → Octets → Prop
  | nil : Segments major [] []
  | cons {width : Nat} {head segment s : Octets} {segments : List Octets}
      (hhead : Head major width segment.length head) (h : Segments major segments s) :
      Segments major (segment :: segments) (head ++ (segment ++ s))

mutual

/-- The bytes spell the item. -/
inductive Spells : Item → Octets → Prop
  | natural {width n : Nat} {head : Octets} (hhead : Head 0 width n head) :
      Spells (.int n) head
  | negative {width n : Nat} {head : Octets} (hhead : Head 1 width n head) :
      Spells (.int (-1 - n)) head
  | bytes {width : Nat} {head bs : Octets} (hhead : Head 2 width bs.length head) :
      Spells (.bytes bs) (head ++ bs)
  -- What is left open ends at the mark 0xff.
  | streamedBytes {segments : List Octets} {s : Octets} (h : Segments 2 segments s) :
      Spells (.streamedBytes segments.flatten) (openHead 2 :: (s ++ [0xff]))
  | text {width : Nat} {head bs : Octets} (hhead : Head 3 width bs.length head) :
      Spells (bs.text?.elim .broken .text) (head ++ bs)
  | streamedText {segments : List Octets} {s : Octets} (h : Segments 3 segments s) :
      Spells ((joinTexts segments).elim .broken .streamedText) (openHead 3 :: (s ++ [0xff]))
  | array {width : Nat} {head s : Octets} {items : List Item}
      (hhead : Head 4 width items.length head) (h : SpellsItems items s) :
      Spells (.array items) (head ++ s)
  | openArray {s : Octets} {items : List Item} (h : SpellsItems items s) :
      Spells (.array items) (openHead 4 :: (s ++ [0xff]))
  | map {width : Nat} {head s : Octets} {entries : List (Item × Item)}
      (hhead : Head 5 width entries.length head) (h : SpellsEntries entries s) :
      Spells (.map entries) (head ++ s)
  | openMap {s : Octets} {entries : List (Item × Item)} (h : SpellsEntries entries s) :
      Spells (.streamedMap entries) (openHead 5 :: (s ++ [0xff]))
  | tagged {width tag : Nat} {head s : Octets} {content : Item} (hhead : Head 6 width tag head)
      (h : Spells content s) : Spells (.tagged tag content) (head ++ s)
  | simple {width n : Nat} {head : Octets} (hhead : Head 7 width n head) :
      Spells (Cbor.simple width n) head

/-- The bytes spell the items one behind the other. -/
inductive SpellsItems : List Item → Octets → Prop
  | nil : SpellsItems [] []
  | cons {i : Item} {items : List Item} {s t : Octets} (h : Spells i s)
      (hrest : SpellsItems items t) : SpellsItems (i :: items) (s ++ t)

/-- The bytes spell the keys and values one behind the other. -/
inductive SpellsEntries : List (Item × Item) → Octets → Prop
  | nil : SpellsEntries [] []
  | cons {k v : Item} {entries : List (Item × Item)} {s t u : Octets} (hk : Spells k s)
      (hv : Spells v t) (hrest : SpellsEntries entries u) :
      SpellsEntries ((k, v) :: entries) (s ++ (t ++ u))

end

/-- An item begins with a byte that is no end mark. -/
theorem Spells.first {i : Item} {s : Octets} (h : Spells i s) : ∃ b t, s = b :: t ∧ b ≠ 0xff := by
  have behind : ∀ {major width n : Nat} {head : Octets}, Head major width n head → major < 8 →
      ∀ t, ∃ b u, head ++ t = b :: u ∧ b ≠ 0xff := by
    intro major width n head hhead hmajor t
    obtain ⟨b, bs, rfl, hb⟩ := hhead.first hmajor
    exact ⟨b, bs ++ t, rfl, hb⟩
  cases h with
  | natural hhead | negative hhead | simple hhead => exact hhead.first (by decide)
  | bytes hhead | text hhead => exact behind hhead (by decide) _
  | array hhead _ | map hhead _ | tagged hhead _ => exact behind hhead (by decide) _
  | streamedBytes _ | streamedText _ | openArray _ | openMap _ => exact ⟨_, _, rfl, by decide⟩

theorem Spells.length_pos {i : Item} {s : Octets} (h : Spells i s) : 1 ≤ s.length := by
  obtain ⟨b, t, rfl, -⟩ := h.first
  exact Nat.succ_le_succ (Nat.zero_le _)

/-! ## Strings -/

theorem Segments.length_le {major : Nat} {segments : List Octets} {s : Octets}
    (h : Segments major segments s) (hmajor : major < 8) : segments.length ≤ s.length := by
  induction h with
  | nil => exact Nat.le_refl 0
  | cons hhead h ih =>
    obtain ⟨b, bs, rfl, -⟩ := hhead.first hmajor
    simp only [List.length_cons, List.length_append]
    omega

/-- Segments are read up to the mark that ends them. -/
theorem Segments.readSegments {major : Nat} {segments : List Octets} {s : Octets}
    (h : Segments major segments s) (hmajor : major < 7) {fuel : Nat}
    (hfuel : segments.length < fuel) (rest : Octets) :
    Cbor.readSegments major fuel 0 (s ++ 0xff :: rest) = some (segments, rest) := by
  -- Segment by segment; the fuel is greater than their number, so some is left for the end.
  induction h generalizing fuel with
  | nil =>
    obtain ⟨fuel, rfl⟩ : ∃ n, fuel = n + 1 := ⟨fuel - 1, by omega⟩
    rfl
  | cons hhead h ih =>
    rw [List.length_cons] at hfuel
    obtain ⟨fuel, rfl⟩ : ∃ n, fuel = n + 1 := ⟨fuel - 1, by omega⟩
    have hrest := ih (show _ < fuel by omega)
    rw [Cbor.readSegments, List.append_assoc, hhead.readHead (by omega)]
    simp only [List.append_assoc, if_true, split_append, hrest, Option.map_some]

/-- The bytes themselves are enough fuel. -/
theorem Segments.readSegments_whole {major : Nat} {segments : List Octets} {s rest : Octets}
    (h : Segments major segments s) (hmajor : major < 7) :
    Cbor.readSegments major ((s ++ ([0xff] ++ rest)).length + 1) 0 (s ++ ([0xff] ++ rest)) =
      some (segments, rest) := by
  have hlength := h.length_le (by omega)
  refine h.readSegments hmajor ?_ rest
  rw [List.length_append]
  omega

/-! ## Reading -/

/-- What reading some items gives: them and the bytes behind, or something that cannot be passed
over.  Then neither could they, or they go deeper than the levels left. -/
inductive Outcome {α : Type} (passable : α → Bool) (depth : α → Nat) (a : α) (levels : Nat)
    (rest : Octets) : α × Option Octets → Prop
  | whole : Outcome passable depth a levels rest (a, some rest)
  | stopped {b : α} (hb : passable b = false) (ha : passable a = false ∨ levels < depth a) :
      Outcome passable depth a levels rest (b, none)

namespace Outcome

variable {α : Type} {passable : α → Bool} {depth : α → Nat} {a : α} {levels : Nat}
  {rest : Octets} {found : α × Option Octets}

/-- What can be passed over, and does not go too deep, is read whole. -/
theorem eq_whole (h : Outcome passable depth a levels rest found) (hpass : passable a = true)
    (hdepth : depth a ≤ levels) : found = (a, some rest) := by
  cases h with
  | whole => rfl
  | stopped hb ha =>
    rcases ha with ha | ha
    · rw [hpass] at ha
      cases ha
    · omega

/-- What is read where the item is broken. -/
theorem broken : Outcome Item.passable Item.depth .broken levels rest stop :=
  .stopped rfl (.inl rfl)

variable {wrap : α → Item} (hpass : ∀ a, (wrap a).passable = passable a)
  (hdepth : ∀ a, (wrap a).depth = 1 + depth a)
include hpass hdepth

/-- An array or a map takes up a level. -/
theorem nested (h : Outcome passable depth a levels rest found) :
    Outcome Item.passable Item.depth (wrap a) (levels + 1) rest (wrap found.1, found.2) := by
  cases h with
  | whole => exact .whole
  | stopped hb ha =>
    refine .stopped ((hpass _).trans hb) (ha.imp (hpass a).trans fun hdeep => ?_)
    rw [hdepth]
    omega

omit hpass in
/-- Where no level is left nothing is read of an array or a map. -/
theorem no_level : Outcome Item.passable Item.depth (wrap a) 0 rest stop := by
  refine .stopped rfl (.inr ?_)
  rw [hdepth]
  omega

end Outcome

/-- The tag of an integer holds bytes, in which nothing lies deeper. -/
theorem Item.lt_depth_tagged {tag levels : Nat} {content : Item} (h : levels < content.depth) :
    levels < (Item.tagged tag content).depth := by
  have hmagnitude : Item.magnitude? tag content = none := by
    cases content with
    | bytes bs => cases h
    | _ => rfl
  rw [Item.depth, hmagnitude]
  exact Nat.lt_of_lt_of_le h (Nat.le_add_left _ 1)

/-- A tag takes up no level in the reading. -/
theorem Outcome.tagged {tag : Nat} {content : Item} {levels : Nat} {rest : Octets}
    {found : Item × Option Octets}
    (h : Outcome Item.passable Item.depth content levels rest found) :
    Outcome Item.passable Item.depth (.tagged tag content) levels rest
      (.tagged tag found.1, found.2) := by
  have hpass : ∀ {i : Item}, i.passable = false → (Item.tagged tag i).passable = false := by
    intro i hi
    rw [Item.passable, hi, Bool.false_and]
  cases h with
  | whole => exact .whole
  | stopped hb ha => exact .stopped (hpass hb) (ha.imp hpass Item.lt_depth_tagged)

/-- An item, and those behind it where it is read whole. -/
theorem Outcome.items {i : Item} {items : List Item} {levels : Nat} {between rest : Octets}
    {found : Item × Option Octets} {readRest : Octets → List Item × Option Octets} :
    Outcome Item.passable Item.depth i levels between found →
    Outcome Item.passableItems Item.depthItems items levels rest (readRest between) →
    Outcome Item.passableItems Item.depthItems (i :: items) levels rest
      (match found with
      | (item, none) => ([item], none)
      | (item, some s) => (item :: (readRest s).1, (readRest s).2)) := by
  intro hitem hitems
  cases hitem with
  -- Stopped in the first item: what is not passed over there is not passed over in the list.
  | stopped hb ha =>
    refine .stopped (by rw [Item.passableItems, hb, Bool.false_and]) (ha.imp ?_ ?_)
    · intro hi
      rw [Item.passableItems, hi, Bool.false_and]
    · exact fun hdeep => Nat.lt_of_lt_of_le hdeep (Nat.le_max_left _ _)
  | whole =>
    simp only
    -- The first item is whole, so the rest decides.
    generalize readRest between = found at hitems
    cases hitems with
    | whole => exact .whole
    | stopped hb ha =>
      refine .stopped (by rw [Item.passableItems, hb, Bool.and_false]) (ha.imp ?_ ?_)
      · intro hitems
        rw [Item.passableItems, hitems, Bool.and_false]
      · exact fun hdeep => Nat.lt_of_lt_of_le hdeep (Nat.le_max_right _ _)

/-- A key and a value, and the entries behind them where both are read whole. -/
theorem Outcome.entries {k v : Item} {entries : List (Item × Item)} {levels : Nat}
    {between behind rest : Octets} {count : Option Nat} {foundKey : Item × Option Octets}
    {readValue : Octets → Item × Option Octets}
    {readRest : Octets → List (Item × Item) × Option Octets} :
    Outcome Item.passable Item.depth k levels between foundKey →
    Outcome Item.passable Item.depth v levels behind (readValue between) →
    Outcome Item.passableEntries Item.depthEntries entries levels rest (readRest behind) →
    Outcome Item.passableEntries Item.depthEntries ((k, v) :: entries) levels rest
      (match foundKey with
      | (key, none) => ((key, .broken) :: unreached count, none)
      | (key, some s) =>
        match readValue s with
        | (value, none) => ((key, value) :: unreached count, none)
        | (value, some s) => ((key, value) :: (readRest s).1, (readRest s).2)) := by
  intro hkey hvalue hentries
  cases hkey with
  -- Stopped in the key.
  | stopped hb ha =>
    refine .stopped (by simp [Item.passableEntries, hb]) (ha.imp ?_ ?_)
    · intro hk
      simp [Item.passableEntries, hk]
    · intro hdeep
      rw [Item.depthEntries]
      omega
  | whole =>
    simp only
    generalize readValue between = foundValue at hvalue
    cases hvalue with
    -- Stopped in the value.
    | stopped hb ha =>
      refine .stopped (by simp [Item.passableEntries, hb]) (ha.imp ?_ ?_)
      · intro hv
        simp [Item.passableEntries, hv]
      · intro hdeep
        rw [Item.depthEntries]
        omega
    | whole =>
      simp only
      -- Key and value are whole, so the rest decides.
      generalize readRest behind = found at hentries
      cases hentries with
      | whole => exact .whole
      | stopped hb ha =>
        refine .stopped (by simp [Item.passableEntries, hb]) (ha.imp ?_ ?_)
        · intro hrest
          simp [Item.passableEntries, hrest]
        · intro hdeep
          rw [Item.depthEntries]
          omega

/-- Behind the items of an array or the entries of a map: the count of those announced is used up,
or the mark stands there that ends an open one. -/
inductive Behind (rest : Octets) : Option Nat → Nat → Octets → Prop
  | counted {n : Nat} : Behind rest (some n) n rest
  | marked {n : Nat} : Behind rest none n (0xff :: rest)

namespace Behind

variable {rest tail : Octets} {count : Option Nat} {n : Nat}

theorem atEnd_zero (h : Behind rest count 0 tail) : atEnd count tail = some rest := by
  cases h <;> rfl

theorem pred (h : Behind rest count (n + 1) tail) : Behind rest (count.map (· - 1)) n tail := by
  cases h with
  | counted => exact .counted
  | marked => exact .marked

/-- Where an item stands is no end. -/
theorem atEnd_item (h : Behind rest count (n + 1) tail) {i : Item} {s : Octets} (hs : Spells i s)
    (t : Octets) : atEnd count (s ++ t) = none := by
  cases h with
  | counted => rfl
  | marked =>
    obtain ⟨b, u, rfl, hb⟩ := hs.first
    simp only [atEnd, List.cons_append]
    split
    · next heq => cases heq; exact absurd rfl hb
    · rfl

end Behind

mutual

/-- An item is read, or the reading stops at what cannot be passed over or lies too deep.  Each byte
pays for two calls. -/
theorem Spells.readItem : ∀ {i : Item} {s : Octets} {fuel : Nat} (levels : Nat) (rest : Octets),
    Spells i s → 2 * s.length ≤ fuel →
    Outcome Item.passable Item.depth i levels rest (Cbor.readItem fuel levels (s ++ rest))
  | _, _, 0, _, _, h, hfuel => by
    have := h.length_pos
    omega
  | _, _, fuel + 1, _, rest, .natural hhead, _ => by
    rw [Cbor.readItem, hhead.readHead (by decide)]
    exact .whole
  | _, _, fuel + 1, _, rest, .negative hhead, _ => by
    rw [Cbor.readItem, hhead.readHead (by decide)]
    exact .whole
  | _, _, fuel + 1, _, rest, .bytes hhead, _ => by
    rw [Cbor.readItem, List.append_assoc, hhead.readHead (by decide)]
    simp only [split_append]
    exact .whole
  | _, _, fuel + 1, _, rest, .streamedBytes h, _ => by
    rw [Cbor.readItem, List.cons_append, List.append_assoc, readHead_openHead (by decide)]
    simp only [h.readSegments_whole (by decide)]
    exact .whole
  | _, _, fuel + 1, _, rest, @Spells.text _ _ bs hhead, _ => by
    rw [Cbor.readItem, List.append_assoc, hhead.readHead (by decide)]
    simp only [split_append]
    -- Bytes that are no text stop the reading, and are broken in the grammar as well.
    cases bs.text? with
    | none => exact .broken
    | some s => exact .whole
  | _, _, fuel + 1, _, rest, @Spells.streamedText segments _ h, _ => by
    rw [Cbor.readItem, List.cons_append, List.append_assoc, readHead_openHead (by decide)]
    simp only [h.readSegments_whole (by decide)]
    cases joinTexts segments with
    | none => exact .broken
    | some s => exact .whole
  | _, _, fuel + 1, levels, rest, @Spells.array _ head s _ hhead h, hfuel => by
    rw [Cbor.readItem, List.append_assoc, hhead.readHead (by decide)]
    cases levels with
    | zero => exact .no_level fun _ => rfl
    | succ levels =>
      -- The head pays for this call and for the one that finds the end of the items.
      have hpos := hhead.length_pos (by decide)
      rw [List.length_append] at hfuel
      have hitems := SpellsItems.readItems levels rest h .counted
        (show 2 * s.length + 1 ≤ fuel by omega)
      exact hitems.nested (fun _ => rfl) fun _ => rfl
  | _, _, fuel + 1, levels, rest, @Spells.openArray s _ h, hfuel => by
    rw [Cbor.readItem, List.cons_append, List.append_assoc, readHead_openHead (by decide)]
    cases levels with
    | zero => exact .no_level fun _ => rfl
    | succ levels =>
      rw [List.length_cons, List.length_append] at hfuel
      have hitems := SpellsItems.readItems levels rest h .marked
        (show 2 * s.length + 1 ≤ fuel by omega)
      exact hitems.nested (fun _ => rfl) fun _ => rfl
  | _, _, fuel + 1, levels, rest, @Spells.map _ head s _ hhead h, hfuel => by
    rw [Cbor.readItem, List.append_assoc, hhead.readHead (by decide)]
    cases levels with
    | zero => exact .no_level fun _ => rfl
    | succ levels =>
      have hpos := hhead.length_pos (by decide)
      rw [List.length_append] at hfuel
      have hentries := SpellsEntries.readEntries levels rest h .counted
        (show 2 * s.length + 1 ≤ fuel by omega)
      exact hentries.nested (fun _ => rfl) fun _ => rfl
  | _, _, fuel + 1, levels, rest, @Spells.openMap s _ h, hfuel => by
    rw [Cbor.readItem, List.cons_append, List.append_assoc, readHead_openHead (by decide)]
    cases levels with
    | zero => exact .no_level fun _ => rfl
    | succ levels =>
      rw [List.length_cons, List.length_append] at hfuel
      have hentries := SpellsEntries.readEntries levels rest h .marked
        (show 2 * s.length + 1 ≤ fuel by omega)
      exact hentries.nested (fun _ => rfl) fun _ => rfl
  | _, _, fuel + 1, levels, rest, @Spells.tagged _ tag head s content hhead h, hfuel => by
    have hpos := hhead.length_pos (by decide)
    rw [List.length_append] at hfuel
    have hcontent := h.readItem levels rest (show 2 * s.length ≤ fuel by omega)
    rw [Cbor.readItem, List.append_assoc, hhead.readHead (by decide)]
    exact hcontent.tagged
  | _, _, fuel + 1, _, rest, @Spells.simple width n _ hhead, _ => by
    rw [Cbor.readItem, hhead.readHead (by decide)]
    cases hitem : Cbor.simple width n <;> simp only [hitem]
    case broken => exact .broken
    all_goals exact .whole

theorem SpellsItems.readItems : ∀ {items : List Item} {s tail : Octets} {count : Option Nat}
    {fuel : Nat} (levels : Nat) (rest : Octets), SpellsItems items s →
    Behind rest count items.length tail → 2 * s.length + 1 ≤ fuel →
    Outcome Item.passableItems Item.depthItems items levels rest
      (Cbor.readItems fuel levels count (s ++ tail))
  | _, _, _, _, 0, _, _, _, _, hfuel => by omega
  | _, _, _, _, fuel + 1, levels, rest, .nil, behind, _ => by
    rw [Cbor.readItems, List.nil_append, behind.atEnd_zero]
    exact .whole
  | _, _, tail, _, fuel + 1, levels, rest, @SpellsItems.cons i items s t h hrest, behind,
      hfuel => by
    -- An item takes up some of the text, which leaves fuel for it and for the rest.
    have hpos := h.length_pos
    rw [List.length_append] at hfuel
    have hitem := h.readItem levels (t ++ tail) (show 2 * s.length ≤ fuel by omega)
    have hitems := hrest.readItems levels rest behind.pred
      (show 2 * t.length + 1 ≤ fuel by omega)
    rw [Cbor.readItems, List.append_assoc, behind.atEnd_item h]
    exact hitem.items hitems

theorem SpellsEntries.readEntries : ∀ {entries : List (Item × Item)} {s tail : Octets}
    {count : Option Nat} {fuel : Nat} (levels : Nat) (rest : Octets), SpellsEntries entries s →
    Behind rest count entries.length tail → 2 * s.length + 1 ≤ fuel →
    Outcome Item.passableEntries Item.depthEntries entries levels rest
      (Cbor.readEntries fuel levels count (s ++ tail))
  | _, _, _, _, 0, _, _, _, _, hfuel => by omega
  | _, _, _, _, fuel + 1, levels, rest, .nil, behind, _ => by
    rw [Cbor.readEntries, List.nil_append, behind.atEnd_zero]
    exact .whole
  | _, _, tail, count, fuel + 1, levels, rest, @SpellsEntries.cons k v entries s t u hk hv hrest,
      behind, hfuel => by
    -- The key takes up some of the text, so the fuel is enough for all three.
    have hpos := hk.length_pos
    simp only [List.length_append] at hfuel
    have hkey := hk.readItem levels (t ++ (u ++ tail))
      (show 2 * s.length ≤ fuel by omega)
    have hvalue := hv.readItem levels (u ++ tail) (show 2 * t.length ≤ fuel by omega)
    have hentries := hrest.readEntries levels rest behind.pred
      (show 2 * u.length + 1 ≤ fuel by omega)
    rw [Cbor.readEntries, List.append_assoc, List.append_assoc, behind.atEnd_item hk]
    exact hkey.entries hvalue hentries

end

/-- What can be passed over at the start of the bytes is read, whatever stands behind it. -/
theorem Spells.readFirst {i : Item} {s : Octets} (h : Spells i s)
    (hpasses : Medium.passes (.binary maxLevels) i = true) (rest : Octets) :
    Cbor.readFirst (s ++ rest) = (i, some rest) := by
  simp only [Medium.passes, Bool.and_eq_true, decide_eq_true_eq] at hpasses
  obtain ⟨hpassable, hdepth⟩ := hpasses
  refine (h.readItem _ rest ?_).eq_whole hpassable hdepth
  rw [List.length_append]
  omega

theorem Spells.read {i : Item} {s : Octets} (h : Spells i s)
    (hpasses : Medium.passes (.binary maxLevels) i = true) (rest : Octets) :
    Cbor.read (s ++ rest) = i := by
  rw [Cbor.read, h.readFirst hpasses]

/-- What cannot be passed over at the start of the bytes is read as something that cannot be passed
over either. -/
theorem Spells.not_passes_read {i : Item} {s : Octets} (h : Spells i s)
    (hpasses : Medium.passes (.binary maxLevels) i = false) (rest : Octets) :
    Medium.passes (.binary maxLevels) (Cbor.read (s ++ rest)) = false := by
  have hfuel : 2 * s.length ≤ 3 * (s ++ rest).length + 3 := by
    rw [List.length_append]
    omega
  have houtcome := h.readItem maxLevels rest hfuel
  rw [Cbor.read, Cbor.readFirst]
  -- Read to its end or not, the item is one that does not pass.
  generalize Cbor.readItem _ _ _ = found at houtcome
  cases houtcome with
  | whole => exact hpasses
  | stopped hb => rw [Medium.passes, hb, Bool.false_and]

/-! ## Texts in an item -/

/-- The bytes of a text that came in segments are those of the segments. -/
theorem ofText_of_joinTexts {segments : List Octets} {s : String}
    (h : joinTexts segments = some s) : Octets.ofText s = segments.flatten := by
  induction segments generalizing s with
  | nil =>
    cases h
    rfl
  | cons segment segments ih =>
    simp only [joinTexts, List.mapM_cons, Option.bind_eq_bind, Option.pure_def,
      Option.map_eq_some_iff, Option.bind_eq_some_iff, Option.some.injEq] at h
    obtain ⟨_, ⟨t, ht, ts, hts, rfl⟩, rfl⟩ := h
    -- The rest joins to a text of its own.
    have hrest : Octets.ofText (String.join ts) = segments.flatten := by
      apply ih
      rw [joinTexts, hts]
      rfl
    rw [String.join_cons, Octets.ofText, String.toList_append, Octets.ofChars_append]
    show Octets.ofText t ++ Octets.ofText (String.join ts) = _
    rw [hrest, ← Octets.text?_eq_some_iff.1 ht, List.flatten_cons]

mutual

/-- How many bytes the texts in an item take up. -/
def textSize : Item → Nat
  | .text s | .streamedText s => (Octets.ofText s).length
  | .array items => textSizeItems items
  | .map entries | .streamedMap entries => textSizeEntries entries
  | .tagged _ content => textSize content
  | _ => 0

/-- `textSize` of all items. -/
def textSizeItems : List Item → Nat
  | [] => 0
  | i :: rest => textSize i + textSizeItems rest

/-- `textSize` of all keys and values. -/
def textSizeEntries : List (Item × Item) → Nat
  | [] => 0
  | (k, v) :: rest => textSize k + textSize v + textSizeEntries rest

end

theorem Segments.length_flatten_le {major : Nat} {segments : List Octets} {s : Octets}
    (h : Segments major segments s) : segments.flatten.length ≤ s.length := by
  induction h with
  | nil => exact Nat.le_refl 0
  | cons hhead h ih =>
    simp only [List.flatten_cons, List.length_append]
    omega

theorem textSize_simple (width n : Nat) : textSize (simple width n) = 0 := by
  unfold simple
  repeat' split
  all_goals rfl

mutual

/-- The texts in an item are among the bytes that spell it. -/
theorem Spells.textSize_le : ∀ {i : Item} {s : Octets}, Spells i s → textSize i ≤ s.length
  | _, _, .natural _ | _, _, .negative _ | _, _, .bytes _ | _, _, .streamedBytes _ =>
    Nat.zero_le _
  | _, _, @Spells.text _ _ bs _ => by
    -- Bytes that are no text count as none.
    cases htext : bs.text? with
    | none => exact Nat.zero_le _
    | some s =>
      rw [Octets.text?_eq_some_iff.1 htext, List.length_append]
      exact Nat.le_add_left _ _
  | _, _, @Spells.streamedText segments s h => by
    cases htext : joinTexts segments with
    | none => exact Nat.zero_le _
    | some t =>
      have hlength := h.length_flatten_le
      show (Octets.ofText t).length ≤ _
      rw [ofText_of_joinTexts htext, List.length_cons, List.length_append]
      omega
  -- A list takes up its head beside the texts of its items.
  | _, _, .array _ h => by
    have hsize := h.textSize_le
    rw [textSize, List.length_append]
    omega
  | _, _, .openArray h => by
    have hsize := h.textSize_le
    rw [textSize, List.length_cons, List.length_append]
    omega
  | _, _, .map _ h => by
    have hsize := h.textSize_le
    rw [textSize, List.length_append]
    omega
  | _, _, .openMap h => by
    have hsize := h.textSize_le
    rw [textSize, List.length_cons, List.length_append]
    omega
  | _, _, .tagged _ h => by
    have hsize := h.textSize_le
    rw [textSize, List.length_append]
    omega
  | _, _, @Spells.simple width n _ _ => by
    rw [textSize_simple]
    exact Nat.zero_le _

theorem SpellsItems.textSize_le : ∀ {items : List Item} {s : Octets}, SpellsItems items s →
    textSizeItems items ≤ s.length
  | _, _, .nil => Nat.le_refl 0
  | _, _, .cons h hrest => by
    have hitem := h.textSize_le
    have hitems := hrest.textSize_le
    rw [textSizeItems, List.length_append]
    omega

theorem SpellsEntries.textSize_le : ∀ {entries : List (Item × Item)} {s : Octets},
    SpellsEntries entries s → textSizeEntries entries ≤ s.length
  | _, _, .nil => Nat.le_refl 0
  | _, _, .cons hk hv hrest => by
    have hkey := hk.textSize_le
    have hvalue := hv.textSize_le
    have hentries := hrest.textSize_le
    rw [textSizeEntries, List.length_append, List.length_append]
    omega

end

end ChainFollower.Cbor
