import ChainFollower.Proofs.Item.Quoted
import ChainFollower.Proofs.Json.Canonical
import ChainFollower.Proofs.Number.Literals

/-!
# What a document means, and what is passed on of it

`Doc.meaning` is the value of a document with integers of any size.  A part that is passed on unread
is that value, except that its wide integers are texts: they were quoted before anything was read.

Main statements: `Doc.meaning_doc` and `Doc.meaning_integer`, `Doc.passes_of_value` and
`Json.Passes.eq_iff`.
-/

namespace ChainFollower

open Record (valueOf?_eq_lookup primary_of_plain)

/-! ## What documents mean -/

namespace Doc

/-- What a number literal means: an integer that no word holds, or else what it is read as. -/
def literalMeaning (literal : Octets) : Json :=
  let asRead := (Reader.unread .document (.ofLiteral literal)).toOption.getD .null
  match integer? literal with
  | some n => if FitsWord n then asRead else .int n
  | none => asRead

mutual

/-- What a document means.  The members of objects are sorted, and of several with one name the last
one counts. -/
def meaning : Doc → Json
  | .null | .broken => .null
  | .bool b => .bool b
  | .number literal => literalMeaning literal
  | .text raw => .text ((Literal.text? raw).getD "")
  | .array items => .array (itemMeanings items)
  | .object members => .object (Entries.sort (memberMeanings members))

/-- `meaning` of each item. -/
def itemMeanings : List Doc → List Json
  | [] => []
  | d :: rest => d.meaning :: itemMeanings rest

/-- `meaning` of each value with its name. -/
def memberMeanings : List (Octets × Doc) → List (String × Json)
  | [] => []
  | (raw, d) :: rest => ((Literal.text? raw).getD "", d.meaning) :: memberMeanings rest

end

section Literals

variable {l : Octets} {n : Int}

/-- A literal that no word holds means the integer that it spells. -/
theorem literalMeaning_of_wide (h : integer? l = some n) (hwide : ¬ FitsWord n) :
    literalMeaning l = .int n := by
  simp only [literalMeaning, h, if_neg hwide]

/-- Any other literal means what it is read as. -/
theorem literalMeaning_of_not_wide {j : Json} (h : Json.isWide l = false)
    (hj : Reader.unread .document (.ofLiteral l) = .ok j) : literalMeaning l = j := by
  simp only [literalMeaning, hj]
  split
  · next n hn =>
    -- An integer that is not wide fits a word, so the two cases of the meaning agree.
    have hfits : FitsWord n := Classical.byContradiction fun hwide => by
      rw [(isWide_eq l).2 ⟨n, hn, hwide⟩] at h
      cases h
    rw [if_pos hfits]
    rfl
  · rfl

/-- The decimal digits of an integer mean the integer, however long they are. -/
theorem meaning_intChars (n : Int) :
    (Doc.number (.ofChars (Json.intChars n))).meaning = .int n := by
  show literalMeaning _ = _
  -- Within a word the digits are read as the integer; beyond it the meaning is the integer itself.
  by_cases hfits : FitsWord n
  · have hread : Reader.unread .document (.ofLiteral (.ofChars (Json.intChars n))) =
        .ok (.int n) := by
      rw [Item.ofLiteral, Literal.number_intChars hfits]
      exact if_pos hfits
    simp only [literalMeaning, integer?_intChars, if_pos hfits, hread]
    rfl
  · exact literalMeaning_of_wide (integer?_intChars n) hfits

/-- The literal of an integer means the integer; only minus zero is read as something else. -/
theorem meaning_integer (h : IntegerLiteral l n) (hzero : l ≠ minusZero) :
    (Doc.number l).meaning = .int n := by
  obtain rfl : l = .ofChars (Json.intChars n) :=
    (integerLiteral_iff.1 h).resolve_right fun hl => hzero hl.1
  exact meaning_intChars n

end Literals

/-- What is written for a document means the document. -/
theorem meaning_doc {j : Json} (h : j.FloatFree) : j.doc.meaning = j.sorted := by
  induction j using Json.induct with
  | int n => exact meaning_intChars n
  | float x => exact absurd rfl (h _ (.self _) x)
  | text s =>
    rw [Json.doc, meaning, text?_escaped]
    rfl
  | array items ih =>
    -- Item by item, with the induction hypothesis for the meaning of each.
    have hitems : itemMeanings (Json.itemDocs items) = Json.sortedItems items := by
      have hfree := Json.floatFree_array.1 h
      clear h
      induction items with
      | nil => rfl
      | cons j rest ihrest =>
        obtain ⟨hj, hrest⟩ := List.forall_mem_cons.1 hfree
        obtain ⟨ihj, ih⟩ := List.forall_mem_cons.1 ih
        rw [Json.itemDocs, itemMeanings, ihj hj, ihrest ih hrest, Json.sortedItems]
    rw [Json.doc, meaning, hitems, Json.sorted]
  | object members ih =>
    -- Member by member; the names are read back from their escaped texts.
    have hmembers : memberMeanings (Json.memberDocs members) = Json.sortedMembers members := by
      have hfree := Json.floatFree_object.1 h
      clear h
      induction members with
      | nil => rfl
      | cons m rest ihrest =>
        obtain ⟨hm, hrest⟩ := List.forall_mem_cons.1 hfree
        obtain ⟨ihm, ih⟩ := List.forall_mem_cons.1 ih
        rw [Json.memberDocs, memberMeanings, text?_escaped, ihm hm, ihrest ih hrest,
          Json.sortedMembers]
        rfl
    rw [Json.doc, meaning, hmembers, Json.sorted]
  | _ => rfl

end Doc

/-! ## What is passed on -/

namespace Json

/-- Words hold all integers in the document. -/
def FitsWords (j : Json) : Prop := ∀ k, Part k j → ∀ n, k = .int n → FitsWord n

/-- What a document means, and what is passed on of it. -/
inductive Passes : Json → Json → Prop
  | scalar {j : Json} (hsound : j.IsSound) (harray : j.isArray = false)
      (hobject : j.isObject = false) : Passes j j
  /-- A wide integer is passed on as the text of its literal. -/
  | wide {n : Int} {s : String} (hwide : ¬ FitsWord n) (h : Doc.integer? (.ofText s) = some n) :
      Passes (.int n) (.text s)
  | array {pairs : List (Json × Json)} (h : ∀ p ∈ pairs, Passes p.1 p.2) :
      Passes (.array (pairs.map fun p => p.1)) (.array (pairs.map fun p => p.2))
  | object {pairs : List (String × Json × Json)} (h : ∀ p ∈ pairs, Passes p.2.1 p.2.2) :
      Passes (.object (pairs.map fun p => (p.1, p.2.1))) (.object (pairs.map fun p => (p.1, p.2.2)))

/-- Words hold the integers in an array if they hold those in its items. -/
theorem fitsWords_array {items : List Json} :
    (Json.array items).FitsWords ↔ ∀ j ∈ items, j.FitsWords := by
  unfold FitsWords
  rw [forall_part_array]
  exact and_iff_right fun n h => nomatch h

/-- Words hold the integers in an object if they hold those in its members. -/
theorem fitsWords_object {members : List (String × Json)} :
    (Json.object members).FitsWords ↔ ∀ m ∈ members, m.2.FitsWords := by
  unfold FitsWords
  rw [forall_part_object]
  exact and_iff_right fun n h => nomatch h

section Passes

variable {j k : Json}

/-- What a document means is passed on exactly if words hold all its integers. -/
theorem Passes.eq_iff (h : Passes j k) : k = j ↔ j.FitsWords := by
  -- By induction on what is passed on: only a wide integer is passed on as something else.
  induction h with
  | @scalar j hsound harray hobject =>
    refine iff_of_true rfl ((forall_part_scalar harray hobject).2 ?_)
    rintro n rfl
    exact hsound
  | wide hwide _ =>
    refine iff_of_false nofun fun hfits => ?_
    exact hwide (hfits _ (.self _) _ rfl)
  | array _ ih =>
    rw [Json.array.injEq, List.map_inj_left, fitsWords_array, List.forall_mem_map]
    exact forall₂_congr ih
  | object _ ih =>
    rw [Json.object.injEq, List.map_inj_left, fitsWords_object, List.forall_mem_map]
    refine forall₂_congr fun p hp => ?_
    rw [← ih p hp, Prod.mk.injEq]
    exact and_iff_right rfl

/-- A text that is no integer is passed on, and nothing else is passed on as this text. -/
theorem Passes.text?_iff (h : Passes j k) {s : String} (hs : Doc.integer? (.ofText s) = none) :
    j.text? = some s ↔ k.text? = some s := by
  cases h with
  | scalar | array | object => rfl
  | wide _ h =>
    -- A wide integer is no text, and the text passed on for it is an integer.
    refine iff_of_false nofun ?_
    rintro ⟨⟩
    rw [hs] at h
    cases h

/-- `null` is passed on for `null` alone. -/
theorem Passes.isNull_eq (h : Passes j k) : k.isNull = j.isNull := by
  cases h <;> rfl

end Passes

end Json

/-! ## From a tree to what is passed on -/

namespace Doc

open Json (Passes)

/-- A leaf that is read is passed on as it is; a number that is not finite is passed on as `null`.
-/
theorem passes_scalar {i : Item} {j : Json} (hi : i.IsLeaf)
    (h : Reader.unread .document i = .ok j) : Passes j j := by
  cases i with
  | int n =>
    rw [Reader.unread] at h
    split at h
    -- An integer within 64 bits passes as it is.
    · next hfits =>
      cases h
      exact .scalar hfits rfl rfl
    · cases h
  | float x =>
    rw [Reader.unread] at h
    cases h
    split
    -- A finite float passes as it is, any other one arrives as null.
    · next hfinite => exact .scalar hfinite rfl rfl
    · exact .scalar trivial rfl rfl
  | null | bool | text =>
    cases h
    exact .scalar trivial rfl rfl
  | unreadable | broken => cases h
  | _ => cases hi

/-- A number is passed on, as a text if it was quoted before it was read. -/
theorem passes_number {levels : Nat} {literal : Octets} {j : Json}
    (h : (Doc.number literal).value levels = .ok j) : Passes (Doc.number literal).meaning j := by
  show Passes (literalMeaning literal) j
  unfold value at h
  cases hwide : Json.isWide literal with
  | true =>
    obtain ⟨n, hn, hfits⟩ := (isWide_eq literal).1 hwide
    -- A wide literal has been quoted, so that a text is read where the integer stood.
    obtain ⟨s, htext, hs⟩ := exists_text_of_wide hwide
    rw [quoted, quotedLiteral_of_wide hwide, item, Item.ofRaw, htext] at h
    cases h
    rw [literalMeaning_of_wide hn hfits]
    exact .wide hfits (hs ▸ hn)
  | false =>
    rw [quoted, quotedLiteral_of_not_wide hwide] at h
    rw [literalMeaning_of_not_wide hwide h]
    exact passes_scalar (isLeaf_ofLiteral literal) h

mutual

/-- What is passed on of a document is what the document means, its wide integers as texts. -/
theorem passes_of_value {levels : Nat} : ∀ {d : Doc} {j : Json}, d.value levels = .ok j →
    Passes d.meaning j
  | .null, _, h | .bool _, _, h => by
    cases h
    exact .scalar trivial rfl rfl
  | .number _, _, h => passes_number h
  | .text raw, j, h => by
    change Reader.unread .document (.ofRaw raw) = .ok j at h
    cases htext : Literal.text? raw with
    | none =>
      rw [Item.ofRaw, htext] at h
      cases h
    | some s =>
      rw [Item.ofRaw, htext] at h
      cases h
      rw [meaning, htext]
      exact .scalar trivial rfl rfl
  | .array ds, j, h => by
    cases levels with
    | zero =>
      -- Below the last level nothing is passed on.
      rw [value, quoted, item] at h
      split at h <;> cases h
    | succ levels =>
      rw [value_array] at h
      obtain ⟨js, hjs, rfl⟩ := map_eq_ok.1 h
      obtain ⟨pairs, hmeaning, rfl, hpasses⟩ := passes_of_itemValues hjs
      rw [meaning, hmeaning]
      exact .array hpasses
  | .object ms, j, h => by
    cases levels with
    | zero =>
      rw [value, quoted, item] at h
      split at h <;> cases h
    | succ levels =>
      rw [value_object] at h
      obtain ⟨members, hmembers, rfl⟩ := map_eq_ok.1 h
      -- Sorting by name puts both sides in the same order, since it looks at the names alone.
      obtain ⟨pairs, hmeaning, rfl, hpasses⟩ := passes_of_memberValues hmembers
      rw [meaning, hmeaning, Entries.sort_map (fun p : Json × Json => p.1),
        Entries.sort_map (fun p : Json × Json => p.2)]
      exact .object fun p hp => hpasses p (Entries.mem_sort hp)
  | .broken, _, h => by cases h

/-- What is passed on of items, each beside its meaning. -/
theorem passes_of_itemValues {levels : Nat} : ∀ {ds : List Doc} {js : List Json},
    itemValues levels ds = .ok js → ∃ pairs : List (Json × Json),
      itemMeanings ds = pairs.map (fun p => p.1) ∧ js = pairs.map (fun p => p.2) ∧
        ∀ p ∈ pairs, Passes p.1 p.2
  | [], _, h => by
    cases h
    exact ⟨[], rfl, rfl, List.forall_mem_nil _⟩
  | d :: ds, js, h => by
    rw [itemValues_cons] at h
    obtain ⟨j, hj, h⟩ := bind_eq_ok.1 h
    obtain ⟨rest, hrest, h⟩ := bind_eq_ok.1 h
    cases h
    obtain ⟨pairs, hmeaning, rfl, hpasses⟩ := passes_of_itemValues hrest
    refine ⟨(d.meaning, j) :: pairs, ?_, rfl, List.forall_mem_cons.2 ⟨passes_of_value hj, hpasses⟩⟩
    rw [itemMeanings, hmeaning, List.map_cons]

/-- What is passed on of members, each beside its meaning, under the same names. -/
theorem passes_of_memberValues {levels : Nat} : ∀ {ms : List (Octets × Doc)}
    {members : List (String × Json)}, memberValues levels ms = .ok members →
    ∃ pairs : List (String × Json × Json),
      memberMeanings ms = pairs.map (fun p => (p.1, p.2.1)) ∧
        members = pairs.map (fun p => (p.1, p.2.2)) ∧ ∀ p ∈ pairs, Passes p.2.1 p.2.2
  | [], _, h => by
    cases h
    exact ⟨[], rfl, rfl, List.forall_mem_nil _⟩
  | (raw, d) :: ms, members, h => by
    rw [memberValues_cons] at h
    obtain ⟨name, hname, h⟩ := bind_eq_ok.1 h
    obtain ⟨j, hj, h⟩ := bind_eq_ok.1 h
    obtain ⟨rest, hrest, h⟩ := bind_eq_ok.1 h
    cases h
    obtain ⟨pairs, hmeaning, rfl, hpasses⟩ := passes_of_memberValues hrest
    refine ⟨(name, d.meaning, j) :: pairs, ?_, rfl,
      List.forall_mem_cons.2 ⟨passes_of_value hj, hpasses⟩⟩
    rw [memberMeanings, text?_of_name hname, hmeaning, Option.getD_some, List.map_cons]

end

end Doc

/-! ## Parts of a document -/

namespace Json

/-- The value of a field of a record: the member of its name, or the item at its place. -/
def field? (names : FieldNames) (field : String) : Json → Option Json
  | .object members => members.lookup field
  | .array items => ((names.map (·.1)).zip items).lookup field
  | _ => none

/-- The item at a place of an array. -/
def itemAt? (k : Nat) : Json → Option Json
  | .array items => items[k]?
  | _ => none

/-- What is there, `null` counting as nothing. -/
def unlessNull (o : Option Json) : Option Json := o.filter fun j => !j.isNull

section Access

variable {levels : Nat} {names : FieldNames} {field : String} {j k : Json}

/-- The field of a record of canonical form has that form one level down. -/
theorem Canonical.field? (h : j.Canonical (levels + 1)) (hk : j.field? names field = some k) :
    k.Canonical levels := by
  cases j with
  | object members => exact h.member? hk
  | array items => exact canonical_array.1 h k (List.of_mem_zip (Entries.mem_of_lookup hk)).2
  | _ => cases hk

/-- So has an item of an array. -/
theorem Canonical.itemAt? {n : Nat} (h : j.Canonical (levels + 1)) (hk : j.itemAt? n = some k) :
    k.Canonical levels := by
  cases j with
  | array items => exact canonical_array.1 h k (List.mem_of_getElem? hk)
  | _ => cases hk

/-- The fields of a record, once as parts of the document and once as a reader finds them. -/
theorem valueAt_item (hplain : names.all (·.2.isEmpty) = true)
    (hfield : Record.field? names field = some field) :
    j.item.valueAt names field = (j.field? names field).map Json.item := by
  cases j with
  | object members =>
    -- With one spelling for each field, the value of a field is the member of its name.
    rw [item_object, Item.valueAt_named, valueOf?_eq_lookup (primary_of_plain hplain _) hfield,
      lookup_fields]
    rfl
  | array items =>
    show ((names.map (·.1)).zip (itemsOf items)).lookup field = _
    rw [itemsOf_eq_map, Entries.lookup_zip_map]
    rfl
  | _ => rfl

end Access

/-! ## Parts that are passed on -/

section Passes

variable {j k : Json} {a b : Option Json}

/-- A pair that is found or not, seen from its two sides. -/
theorem rel_of_pairs {found : Option (Json × Json)}
    (h : ∀ p, found = some p → Passes p.1 p.2) :
    Option.Rel Passes (found.map fun p => p.1) (found.map fun p => p.2) := by
  cases found with
  | none => exact .none
  | some p => exact .some (h p rfl)

/-- The fields of a record are passed on field by field. -/
theorem Passes.field? (h : Passes j k) (names : FieldNames) (field : String) :
    Option.Rel Passes (j.field? names field) (k.field? names field) := by
  cases h with
  | scalar _ harray hobject =>
    cases j with
    | array => cases harray
    | object => cases hobject
    | _ => exact .none
  | wide => exact .none
  | @array pairs h =>
    -- Looking up by place finds the two sides of one pair,
    simp only [Json.field?, Entries.lookup_zip_map]
    exact rel_of_pairs fun p hp => h p (List.of_mem_zip (Entries.mem_of_lookup hp)).2
  | @object pairs h =>
    -- and so does looking up by name.
    simp only [Json.field?, Entries.lookup_map (fun p : Json × Json => p.1),
      Entries.lookup_map (fun p : Json × Json => p.2)]
    exact rel_of_pairs fun p hp => h (field, p) (Entries.mem_of_lookup hp)

/-- A member is passed on as the member of its name. -/
theorem Passes.member? (h : Passes j k) (name : String) :
    Option.Rel Passes (j.member? name) (k.member? name) := by
  have hfield := h.field? [] name
  cases h with
  | object => exact hfield
  | scalar _ _ hobject =>
    cases j with
    | object => cases hobject
    | _ => exact .none
  | _ => exact .none

/-- An item of an array is passed on as the item at its place. -/
theorem Passes.itemAt? (h : Passes j k) (n : Nat) :
    Option.Rel Passes (j.itemAt? n) (k.itemAt? n) := by
  cases h with
  | scalar _ harray =>
    cases j with
    | array => cases harray
    | _ => exact .none
  | wide | object => exact .none
  | @array pairs h =>
    simp only [Json.itemAt?, List.getElem?_map]
    exact rel_of_pairs fun p hp => h p (List.mem_of_getElem? hp)

/-- Going down to a part of a part that may be missing. -/
theorem rel_bind {f : Json → Option Json} (h : Option.Rel Passes a b)
    (hf : ∀ j k, Passes j k → Option.Rel Passes (f j) (f k)) :
    Option.Rel Passes (a.bind f) (b.bind f) := by
  cases h with
  | none => exact .none
  | some h => exact hf _ _ h

/-- A text that is no integer, in a part that may be missing, is passed on as itself. -/
theorem bind_text?_iff (h : Option.Rel Passes a b) {s : String}
    (hs : Doc.integer? (.ofText s) = none) :
    a.bind Json.text? = some s ↔ b.bind Json.text? = some s := by
  cases h with
  | none => rfl
  | some h => exact h.text?_iff hs

/-- A part that is `null` counts as missing on both sides. -/
theorem rel_unlessNull (h : Option.Rel Passes a b) :
    Option.Rel Passes (unlessNull a) (unlessNull b) := by
  cases h with
  | none => exact .none
  | @some j k h =>
    simp only [unlessNull, Option.filter_some, h.isNull_eq]
    split
    · exact .some h
    · exact .none

/-- A member that is there and not `null` is passed on as such a member. -/
theorem Passes.present? (h : Passes j k) (name : String) :
    Option.Rel Passes (j.present? name) (k.present? name) :=
  rel_unlessNull (h.member? name)

end Passes

end Json

end ChainFollower
