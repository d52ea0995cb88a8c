import ChainFollower.Proofs.Ledger.Values
import ChainFollower.Proofs.Number.Literals

/-!
# Amounts in payloads of values

What a document has to hold to be decoded as a value, said of its tree: `Doc.HoldsValue` asks for
amounts by their names, grouped by policy or in the flat shape, and each amount is an integer
literal or a text of decimal digits.  However many digits a literal has, none is lost; only minus
zero is refused, wherever it stands.

Main statement: `Value.literals_are_exact`.
-/

namespace ChainFollower

open Record (Given exists_record regular_iff_of_plain primary_of_plain getRequired_eq_ok
  getWith_eq_ok valueOf? valueOf?_eq_lookup)

namespace Doc

/-! ## What a payload holds -/

/-- Members by their names, with what `p` says of each of their values. -/
inductive Named {α : Type} (p : Doc → α → Prop) :
    List (Octets × Doc) → List (String × α) → Prop
  | nil : Named p [] []
  | cons {raw : Octets} {name : String} {d : Doc} {a : α} {ms : List (Octets × Doc)}
      {entries : List (String × α)} (hname : Literal.text? raw = some name) (ha : p d a)
      (hrest : Named p ms entries) : Named p ((raw, d) :: ms) ((name, a) :: entries)

/-- An object by its names; of several members of one name the last one counts. -/
inductive Holds {α : Type} (p : Doc → α → Prop) : Doc → Dict α → Prop
  | object {ms : List (Octets × Doc)} {entries : List (String × α)} (h : Named p ms entries) :
      Holds p (.object ms) (.ofList entries)

/-- The tree can be kept until its type is known, with `levels` levels left to go down. -/
def Held (levels : Nat) (d : Doc) : Prop := (d.quoted.item levels).holdable = true

/-- Members whose values can all be kept, by their names. -/
abbrev Kept (levels : Nat) : List (Octets × Doc) → List (String × Doc) → Prop :=
  Named fun d kept => kept = d ∧ d.Held levels

/-- Members of the flat shape: coins, and assets if there are any, neither of them twice. -/
structure HoldsFlat (members : List (String × Doc)) (v : Value) : Prop where
  once : ((members.map (·.1)).filter (["coins", "assets"].contains ·)).Nodup
  coins : ∃ c, members.lookup "coins" = some c ∧ c.Denotes v.coins
  assets : match members.lookup "assets" with
    | some a => a.Holds Denotes v.assets
    | none => v.assets = ∅

/-- The value that a tree stands for, with `levels` levels left inside of it. -/
inductive HoldsValue (levels : Nat) : Doc → Value → Prop
  /-- The coins are the amount `lovelace` of the policy `ada`. -/
  | grouped {d : Doc} {groups : Dict (Dict Int)} (h : d.Holds (Holds Denotes) groups) :
      HoldsValue levels d (.ofGroups groups)
  /-- Members of other names are left unread. -/
  | flat {ms : List (Octets × Doc)} {members : List (String × Doc)} {v : Value}
      (hmembers : Kept levels ms members) (h : HoldsFlat members v) :
      HoldsValue levels (.object ms) v

/-! ## Readers and what they read -/

/-- The reader of a type reads spelled trees exactly as `p` says, and what it reads could be kept
before its type was known. -/
structure ReadsAs {α : Type} (read : Reader α) (levels : Nat) (p : Doc → α → Prop) : Prop where
  iff : ∀ {d : Doc} {s : Octets}, Spells d s → ∀ a : α,
    read .document (d.quoted.item levels) = .ok a ↔ p d a
  held : ∀ {d : Doc} {a : α}, p d a → d.Held levels

theorem readsAs_amount (levels : Nat) : ReadsAs Reader.amount levels Denotes where
  iff h _ := amount_eq_ok_iff h
  held := by
    rintro d n (⟨h, hzero⟩ | ⟨htext, -⟩)
    · obtain rfl := (integerLiteral_iff.1 h).resolve_right fun hboth => hzero hboth.1
      rw [Held, item_quoted_intChars]
      exact (Json.fits_ofInt 0 n).holdable
    · show (Item.ofRaw _).holdable = true
      rw [Item.ofRaw, htext]
      rfl

/-- The values of spelled members are spelled. -/
theorem SpellsMembers.exists_spells : ∀ {ms : List (Octets × Doc)} {s : Octets},
    SpellsMembers ms s → ∀ m ∈ ms, ∃ t, Spells m.2 t
  | _, _, .one _ _ _ h => List.forall_mem_singleton.2 ⟨_, h⟩
  | _, _, .more _ _ _ h hrest => List.forall_mem_cons.2 ⟨⟨_, h⟩, hrest.exists_spells⟩

/-- See `SpellsMembers.exists_spells`. -/
theorem SpellsItems.exists_spells : ∀ {ds : List Doc} {s : Octets},
    SpellsItems ds s → ∀ d ∈ ds, ∃ t, Spells d t
  | _, _, .one h => List.forall_mem_singleton.2 ⟨_, h⟩
  | _, _, .more h hrest => List.forall_mem_cons.2 ⟨⟨_, h⟩, hrest.exists_spells⟩

/-- A spelled object has spelled values; what is no object has no entries. -/
theorem Spells.cases_object {d : Doc} {s : Octets} (h : Spells d s) :
    (∃ ms, d = .object ms ∧ ∀ m ∈ ms, ∃ t, Spells m.2 t) ∨
      ∀ levels, (d.quoted.item levels).entries? = none := by
  obtain ⟨-, h, -⟩ := h
  -- Neither an integer, a float nor a text has entries, whatever the quoter made of it.
  have hnumber : ∀ l, (Item.ofLiteral l).entries? = none := by
    intro l
    unfold Item.ofLiteral
    split <;> rfl
  have htext : ∀ raw, (Item.ofRaw raw).entries? = none := by
    intro raw
    unfold Item.ofRaw
    split <;> rfl
  -- Only the two object forms keep their members; every other form ends in a scalar or a list.
  cases h with
  | emptyObject => exact .inl ⟨_, rfl, List.forall_mem_nil _⟩
  | object h => exact .inl ⟨_, rfl, h.exists_spells⟩
  | null | isTrue | isFalse => exact .inr fun _ => rfl
  | text => exact .inr fun _ => htext _
  | number =>
    right
    intro levels
    rw [quoted, quotedLiteral]
    repeat' split
    · exact hnumber _
    · exact htext _
    · exact hnumber _
  | emptyArray | array =>
    right
    rintro (_ | levels)
    · rw [quoted, item]
      split <;> rfl
    · rfl

section Objects

variable {α : Type} {read : Reader α} {levels : Nat} {p : Doc → α → Prop}
  {ms : List (Octets × Doc)} {entries : List (String × α)}

/-- Members are read by their names as their values are read. -/
theorem named_eq_ok_iff (h : ReadsAs read levels p) (hms : ∀ m ∈ ms, ∃ t, Spells m.2 t) :
    Reader.named read .document ((Doc.object ms).quoted.item (levels + 1)) = .ok entries ↔
      Named p ms entries := by
  show ((entriesOf levels (quotedMembers ms)).mapM fun (e : Item × Item) => do
    let name ← Reader.text .document e.1
    let value ← read .document e.2
    return (name, value)) = .ok entries ↔ _
  -- The entries are read one after another, so the list of members carries the induction.
  induction ms generalizing entries with
  | nil =>
    constructor
    · rintro ⟨⟩
      exact .nil
    · rintro ⟨⟩
      rfl
  | cons m ms ih =>
    obtain ⟨raw, d⟩ := m
    obtain ⟨⟨t, ht⟩, hms⟩ := List.forall_mem_cons.1 hms
    rw [quotedMembers, entriesOf, List.mapM_cons]
    constructor
    · intro hread
      obtain ⟨e, he, hread⟩ := bind_eq_ok.1 hread
      obtain ⟨rest, hrest, hread⟩ := bind_eq_ok.1 hread
      obtain ⟨name, hname, he⟩ := bind_eq_ok.1 he
      obtain ⟨a, ha, he⟩ := bind_eq_ok.1 he
      cases he
      cases hread
      exact .cons (text?_of_name hname) ((h.iff ht a).1 ha) ((ih hms).1 hrest)
    · rintro (_ | ⟨hname, ha, hrest⟩)
      have hname : Reader.text .document (.ofRaw raw) = .ok _ := name_of_text? hname
      simp only [hname, (h.iff ht _).2 ha, (ih hms).2 hrest]
      rfl

/-- An object can be kept if its values can. -/
theorem held_of_named (held : ∀ {d : Doc} {a : α}, p d a → d.Held levels) (h : Named p ms entries) :
    (Doc.object ms).Held (levels + 1) := by
  show Item.holdableEntries (entriesOf levels (quotedMembers ms)) = true
  induction h with
  | nil => rfl
  | cons hname ha _ ih =>
    rw [quotedMembers, entriesOf, Item.holdableEntries, Item.ofRaw, hname, held ha, ih]
    rfl

/-- An object is read by its names as its values are read. -/
theorem ReadsAs.holds [Portable α] (h : ReadsAs Portable.read levels p) :
    ReadsAs (Portable.read : Reader (Dict α)) (levels + 1) (Holds p) where
  iff := by
    intro d s hd dict
    show (Reader.named Portable.read .document _).map Dict.ofList = .ok dict ↔ _
    rw [map_eq_ok]
    rcases hd.cases_object with ⟨ms, rfl, hms⟩ | hnone
    · constructor
      · rintro ⟨entries, hread, rfl⟩
        exact .object ((named_eq_ok_iff h hms).1 hread)
      · rintro ⟨hnamed⟩
        exact ⟨_, (named_eq_ok_iff h hms).2 hnamed, rfl⟩
    · -- What has no entries is neither read by names nor an object.
      constructor
      · rintro ⟨entries, hread, rfl⟩
        rw [Reader.named, Reader.entries, Reader.below, hnone] at hread
        cases hread
      · rintro ⟨⟩
        cases hnone (levels + 1)
  held := by
    rintro d dict ⟨hnamed⟩
    exact held_of_named h.held hnamed

end Objects

/-! ## Members by their names -/

section Members

variable {α : Type} {read : Reader α} {levels : Nat} {p : Doc → α → Prop}
  {members : List (String × Doc)}

/-- A member that must be there is read as its tree is. -/
theorem ReadsAs.required_iff (h : ReadsAs read levels p)
    (hmembers : ∀ m ∈ members, ∃ t, Spells m.2 t) {name : String} {a : α} :
    (∃ i, (members.lookup name).map (fun d => d.quoted.item levels) = some i ∧
      read .document i = .ok a) ↔ ∃ d, members.lookup name = some d ∧ p d a := by
  cases hlookup : members.lookup name with
  | none => simp
  | some d =>
    obtain ⟨t, ht⟩ := hmembers _ (Entries.mem_of_lookup hlookup)
    simp [h.iff ht]

/-- A member that may be absent is read as its tree is. -/
theorem ReadsAs.given_iff (h : ReadsAs read levels p)
    (hmembers : ∀ m ∈ members, ∃ t, Spells m.2 t) {name : String} {absent a : α} :
    Given read absent ((members.lookup name).map fun d => d.quoted.item levels) a ↔
      match members.lookup name with
      | some d => p d a
      | none => a = absent := by
  cases hlookup : members.lookup name with
  | none => rfl
  | some d =>
    obtain ⟨t, ht⟩ := hmembers _ (Entries.mem_of_lookup hlookup)
    exact h.iff ht a

end Members

/-! ## The flat shape -/

section Flat

variable {levels : Nat} {ms : List (Octets × Doc)} {members : List (String × Doc)}

theorem Named.exists_of_mem {α : Type} {p : Doc → α → Prop} {entries : List (String × α)}
    (h : Named p ms entries) {e : String × α} (he : e ∈ entries) : ∃ m ∈ ms, p m.2 e.2 := by
  induction h with
  | nil => cases he
  | cons _ ha _ ih =>
    rcases List.mem_cons.1 he with rfl | he
    · exact ⟨_, List.mem_cons_self, ha⟩
    · obtain ⟨m, hm, hp⟩ := ih he
      exact ⟨m, List.mem_cons_of_mem _ hm, hp⟩

theorem Named.exists_of_mem_tree {α : Type} {p : Doc → α → Prop} {entries : List (String × α)}
    (h : Named p ms entries) {m : Octets × Doc} (hm : m ∈ ms) : ∃ a, p m.2 a := by
  induction h with
  | nil => cases hm
  | cons _ ha _ ih =>
    rcases List.mem_cons.1 hm with rfl | hm
    · exact ⟨_, ha⟩
    · exact ih hm

/-- An object that can be kept has names that are texts and values that can be kept. -/
theorem kept_of_held (h : (Doc.object ms).Held (levels + 1)) :
    ∃ members, Kept levels ms members := by
  change Item.holdableEntries (entriesOf levels (quotedMembers ms)) = true at h
  induction ms with
  | nil => exact ⟨[], .nil⟩
  | cons m ms ih =>
    obtain ⟨raw, d⟩ := m
    rw [quotedMembers, entriesOf, Item.holdableEntries, Bool.and_eq_true, Bool.and_eq_true] at h
    obtain ⟨⟨hname, hd⟩, hrest⟩ := h
    obtain ⟨members, hmembers⟩ := ih hrest
    rw [Item.ofRaw] at hname
    -- A name that is no text cannot be held, which the hypothesis on names rules out.
    cases htext : Literal.text? raw with
    | none =>
      rw [htext] at hname
      cases hname
    | some name => exact ⟨(name, d) :: members, .cons htext ⟨rfl, hd⟩ hmembers⟩

theorem item_of_kept (h : Kept levels ms members) :
    (Doc.object ms).quoted.item (levels + 1) =
      .named (members.map fun e => (e.1, e.2.quoted.item levels)) := by
  show Item.map (entriesOf levels (quotedMembers ms)) = Item.map _
  congr 1
  induction h with
  | nil => rfl
  | cons hname ha _ ih =>
    obtain ⟨rfl, -⟩ := ha
    rw [quotedMembers, entriesOf, ih, Item.ofRaw, hname]
    rfl

theorem passable_of_kept (h : Kept levels ms members) :
    ∀ e ∈ members.map fun e => (e.1, e.2.quoted.item levels), e.2.passable = true := by
  refine List.forall_mem_map.2 fun member hmember => ?_
  obtain ⟨m, -, heq, hheld⟩ := h.exists_of_mem hmember
  exact Item.passable_of_holdable (heq ▸ hheld)

/-- What is kept is a record of these fields if none of them comes twice. -/
theorem regular_kept_iff {names : FieldNames} (hplain : names.all (·.2.isEmpty) = true)
    (h : Kept levels ms members) :
    Record.Regular names (members.map fun e => (e.1, e.2.quoted.item levels)) ↔
      ((members.map (·.1)).filter ((names.map (·.1)).contains ·)).Nodup := by
  rw [regular_iff_of_plain hplain (passable_of_kept h), List.map_map]
  rfl

/-- Each of its fields is the member of that name. -/
theorem valueOf?_kept {names : FieldNames} (hplain : names.all (·.2.isEmpty) = true) {name : String}
    (hfield : Record.field? names name = some name) :
    valueOf? names (members.map fun e => (e.1, e.2.quoted.item levels)) name =
      (members.lookup name).map fun d => d.quoted.item levels := by
  rw [valueOf?_eq_lookup (primary_of_plain hplain _) hfield]
  exact Entries.lookup_map (fun d : Doc => d.quoted.item levels) members name

/-- Members that are found by their names are spelled. -/
theorem spells_of_kept (hms : ∀ m ∈ ms, ∃ t, Spells m.2 t) (h : Kept levels ms members) :
    ∀ m ∈ members, ∃ t, Spells m.2 t := by
  intro member hmember
  obtain ⟨m, hm, heq, -⟩ := h.exists_of_mem hmember
  exact heq ▸ hms m hm

end Flat

end Doc

namespace Value

/-- A map is read in the flat shape if coins and assets do not come twice and are what they should
be. -/
theorem readFlat_named_eq_ok_iff {entries : List (String × Item)}
    (hpass : ∀ e ∈ entries, e.2.passable = true) {v : Value} :
    readFlat .document (.named entries) = .ok v ↔
      ((entries.map (·.1)).filter (["coins", "assets"].contains ·)).Nodup ∧
      (∃ i, entries.lookup "coins" = some i ∧ Reader.amount .document i = .ok v.coins) ∧
      Given Portable.read ∅ (entries.lookup "assets") v.assets := by
  -- Both fields go by their plain names only, so the record is regular once neither is repeated.
  obtain ⟨r, hr, hread⟩ := exists_record [("coins", []), ("assets", [])] entries
  have hplain : Record.Primary [("coins", []), ("assets", [])] entries :=
    primary_of_plain rfl entries
  refine (hread _ v).trans ?_
  rw [regular_iff_of_plain rfl hpass]
  refine and_congr_right fun honce => ?_
  have hholds := hr ((regular_iff_of_plain rfl hpass).2 honce)
  -- What stands in a field is what a lookup of its name finds.
  have hcoins : valueOf? _ entries "coins" = _ := valueOf?_eq_lookup hplain rfl
  have hassets : valueOf? _ entries "assets" = _ := valueOf?_eq_lookup hplain rfl
  simp only [Placed.seq_eq_ok, Placed.map_eq_ok, Record.get, Record.getD, getRequired_eq_ok hholds,
    getWith_eq_ok hholds, hcoins, hassets]
  constructor
  · rintro ⟨_, assets, ⟨coins, hcoins, rfl⟩, hassets, rfl⟩
    exact ⟨hcoins, hassets⟩
  · rintro ⟨hcoins, hassets⟩
    exact ⟨_, _, ⟨_, hcoins, rfl⟩, hassets, rfl⟩

end Value

namespace Doc

section Value

variable {levels : Nat} {d : Doc} {s : Octets} {ms : List (Octets × Doc)}
  {members : List (String × Doc)} {v : Value}

theorem readsAs_groups (levels : Nat) :
    ReadsAs (Portable.read : Reader (Dict (Dict Int))) (levels + 2) (Holds (Holds Denotes)) :=
  ReadsAs.holds (ReadsAs.holds (readsAs_amount levels))

/-- Kept members are read in the flat shape exactly as they are of it. -/
theorem readFlat_eq_ok_iff (hms : ∀ m ∈ ms, ∃ t, Spells m.2 t)
    (hmembers : Kept (levels + 1) ms members) :
    Value.readFlat .document ((Doc.object ms).quoted.item (levels + 2)) = .ok v ↔
      HoldsFlat members v := by
  have hnames : (members.map fun e => (e.1, e.2.quoted.item (levels + 1))).map (·.1) =
      members.map (·.1) := by
    rw [List.map_map]
    rfl
  -- Turning documents into items moves no name and keeps every lookup.
  have hlookup := Entries.lookup_map (fun d : Doc => d.quoted.item (levels + 1)) members
  have hspelled := spells_of_kept hms hmembers
  rw [item_of_kept hmembers, Value.readFlat_named_eq_ok_iff (passable_of_kept hmembers), hnames,
    hlookup, hlookup, (readsAs_amount (levels + 1)).required_iff hspelled,
    (readsAs_amount levels).holds.given_iff hspelled]
  exact ⟨fun ⟨once, coins, assets⟩ => ⟨once, coins, assets⟩,
    fun ⟨once, coins, assets⟩ => ⟨once, coins, assets⟩⟩

/-- Nothing is both grouped by policy and flat, since a group is no amount. -/
theorem not_flat_of_grouped {groups : Dict (Dict Int)}
    (hgroups : (Doc.object ms).Holds (Holds Denotes) groups)
    (hmembers : Kept levels ms members) : ¬ HoldsFlat members v := by
  rintro ⟨-, ⟨c, hlookup, hamount⟩, -⟩
  obtain ⟨m, hm, heq, -⟩ := hmembers.exists_of_mem (Entries.mem_of_lookup hlookup)
  obtain rfl : c = m.2 := heq
  obtain ⟨hnamed⟩ := hgroups
  obtain ⟨amounts, hgroup⟩ := hnamed.exists_of_mem_tree hm
  generalize m.2 = c at hamount hgroup
  cases hgroup
  cases hamount

theorem held_of_holdsValue (h : HoldsValue (levels + 1) d v) : d.Held (levels + 2) := by
  cases h with
  | grouped hgroups => exact (readsAs_groups levels).held hgroups
  | flat hmembers => exact held_of_named (fun hkept => hkept.2) hmembers

/-- A value is read in the second shape where the first one refuses. -/
theorem readGrouped_eq_ok_iff (hd : Spells d s) :
    Value.readGrouped .document (d.quoted.item (levels + 2)) = .ok v ↔
      ∃ groups, d.Holds (Holds Denotes) groups ∧ Value.ofGroups groups = v := by
  show (Portable.read .document (d.quoted.item (levels + 2))).map Value.ofGroups = .ok v ↔ _
  simp only [map_eq_ok, (readsAs_groups levels).iff hd]

/-- A spelled tree is read as a value exactly if it stands for it. -/
theorem value_eq_ok_iff (hd : Spells d s) :
    Portable.read .document (d.quoted.item (levels + 2)) = .ok v ↔
      d.HoldsValue (levels + 1) v := by
  refine Reader.firstOf_eq_ok_iff.trans ?_
  rw [readGrouped_eq_ok_iff hd]
  rcases hd.cases_object with ⟨ms, rfl, hms⟩ | hnone
  · constructor
    · rintro ⟨hheld, hflat | ⟨-, groups, hgroups, rfl⟩⟩
      · obtain ⟨members, hmembers⟩ := kept_of_held hheld
        exact .flat hmembers ((readFlat_eq_ok_iff hms hmembers).1 hflat)
      · exact .grouped hgroups
    · intro hvalue
      have hheld := held_of_holdsValue hvalue
      refine ⟨hheld, ?_⟩
      cases hvalue with
      | @grouped _ groups hgroups =>
        refine .inr ⟨?_, groups, hgroups, rfl⟩
        obtain ⟨members, hmembers⟩ := kept_of_held hheld
        cases hread : Value.readFlat .document ((Doc.object ms).quoted.item (levels + 2)) with
        | error fault => rfl
        | ok w =>
          exact absurd ((readFlat_eq_ok_iff hms hmembers).1 hread)
            (not_flat_of_grouped hgroups hmembers)
      | flat hmembers hflat => exact .inl ((readFlat_eq_ok_iff hms hmembers).2 hflat)
  · -- What has no entries is read in neither shape, and either asks for an object.
    constructor
    · rintro ⟨-, hflat | ⟨-, groups, ⟨⟩, -⟩⟩
      · rw [Value.readFlat, Record.readMap, Record.ofMap, Reader.entries, Reader.below,
          hnone] at hflat
        cases hflat
      · cases hnone (levels + 2)
    · rintro (⟨⟨⟩⟩ | _)
      · cases hnone (levels + 2)
      · cases hnone (levels + 2)

end Value

end Doc

/-- An integer literal of any length is decoded to the integer that it denotes, except for minus
zero, which is refused.  A document is decoded as a value exactly if it holds it, every amount in it
being the integer of such a literal or of a text of decimal digits. -/
theorem Value.literals_are_exact (s : Octets) :
    (∀ {b c : Octets} {n : Int}, Doc.IntegerLiteral s n → Doc.Blanks b → Doc.Blanks c →
      (Json.decode (b ++ (s ++ c)) : Except DecodeError Int) =
        if s = Doc.minusZero then .error (.json (some (.inexact ⟨0x8000000000000000⟩)))
        else .ok n) ∧
    ∀ {d : Doc} {v : Value}, Doc.Spells d s →
      (Json.decode s = .ok v ↔ d.HoldsValue (documentLevels - 1) v) := by
  constructor
  -- A literal that stands alone, with blanks around it.
  · intro b c n h hb hc
    rw [Json.decode_of_spells (.padded hb (.number h.numberLiteral) hc)]
    show (Reader.amount .document ((Doc.number s).quoted.item documentLevels)).mapError
      DecodeError.json = _
    rw [Doc.amount_literal h]
    split <;> rfl
  -- A literal in any place of a value, in either shape.
  · intro d v hd
    exact (Json.decode_eq_ok_iff hd).trans (Doc.value_eq_ok_iff hd)

/-- The least integer beyond the unsigned words, alone and as the coins of a value. -/
theorem Value.literals_are_exact_beyond_words :
    Json.decode (Octets.ofText "18446744073709551616") = .ok (18446744073709551616 : Int) ∧
    Json.decode (Octets.ofText "\x7b\"coins\":18446744073709551616\x7d") =
      .ok (Value.ofCoins 18446744073709551616) := by
  have hblanks : Doc.Blanks [] := List.forall_mem_nil _
  have hliteral := Doc.integerLiteral_intChars 18446744073709551616
  have hnonzero : Octets.ofChars (Json.intChars 18446744073709551616) ≠ Doc.minusZero := by
    decide +kernel
  constructor
  · have hdecode := (literals_are_exact _).1 hliteral hblanks hblanks
    rw [if_neg hnonzero] at hdecode
    exact hdecode
  · -- The document is the text of an object with one member.
    have hspells := Doc.spells_octets (.object [("coins", .int 18446744073709551616)])
    have hamount := Doc.Denotes.literal hliteral hnonzero
    refine ((literals_are_exact _).2 hspells).2 (.flat (.cons (Doc.text?_escaped _)
      ⟨rfl, (Doc.readsAs_amount 126).held hamount⟩ .nil) ⟨by decide, ⟨_, rfl, hamount⟩, rfl⟩)

/-- Minus zero is a literal of zero, and it is refused as the floating-point number that it is taken
for. -/
theorem Value.minusZero_is_refused : Doc.IntegerLiteral (Octets.ofText "-0") 0 ∧
    (Json.decode (Octets.ofText "-0") : Except DecodeError Int) =
      .error (.json (some (.inexact ⟨0x8000000000000000⟩))) := by
  have hliteral : Doc.IntegerLiteral Doc.minusZero 0 := .minus .zero
  refine ⟨hliteral, ?_⟩
  -- The two characters are a whole document.
  have hspells : Doc.Spells (.number Doc.minusZero) (Octets.ofText "-0") :=
    Doc.SpellsBare.spells (.number hliteral.numberLiteral)
  rw [Json.decode_of_spells hspells]
  show (Reader.amount .document ((Doc.number Doc.minusZero).quoted.item documentLevels)).mapError
    DecodeError.json = _
  rw [Doc.amount_literal hliteral]
  rfl

end ChainFollower
