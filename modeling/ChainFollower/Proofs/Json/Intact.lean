import ChainFollower.Proofs.Item.Members
import ChainFollower.Proofs.Json.Canonical

/-!
# Documents that come through their own text

What the text of a document is read as, part by part.  A document whose text is read at all is not
too deep, and one whose text is read as the document again has no floating-point number that is
misread.

Main statements: `Json.depth_le_of_value`, `Json.legible_of_value` and
`Json.member?_of_value_record`.
-/

namespace ChainFollower

open Record (Shape Given)

namespace Json

variable {levels : Nat} {items : List Json} {members : List (String × Json)}

/-! ## Arrays and objects -/

theorem itemValues_cons_eq_ok {j : Json} {js : List Json} :
    Doc.itemValues levels (itemDocs (j :: items)) = .ok js ↔
      ∃ k ks, j.doc.value levels = .ok k ∧ Doc.itemValues levels (itemDocs items) = .ok ks ∧
        js = k :: ks := by
  rw [itemDocs, Doc.itemValues_cons]
  constructor
  · intro h
    obtain ⟨k, hk, h⟩ := bind_eq_ok.1 h
    obtain ⟨ks, hks, h⟩ := bind_eq_ok.1 h
    cases h
    exact ⟨k, ks, hk, hks, rfl⟩
  · rintro ⟨k, ks, hk, hks, rfl⟩
    rw [hk, hks]
    rfl

theorem memberValues_cons_eq_ok {name : String} {j : Json} {js : List (String × Json)} :
    Doc.memberValues levels (memberDocs ((name, j) :: members)) = .ok js ↔
      ∃ k ks, j.doc.value levels = .ok k ∧ Doc.memberValues levels (memberDocs members) = .ok ks ∧
        js = (name, k) :: ks := by
  have hname : Doc.name (Doc.escaped name) = .ok name := Doc.name_of_text? (Doc.text?_escaped name)
  rw [memberDocs, Doc.memberValues_cons, hname]
  show (j.doc.value levels >>= _) = _ ↔ _
  constructor
  · intro h
    obtain ⟨k, hk, h⟩ := bind_eq_ok.1 h
    obtain ⟨ks, hks, h⟩ := bind_eq_ok.1 h
    cases h
    exact ⟨k, ks, hk, hks, rfl⟩
  · rintro ⟨k, ks, hk, hks, rfl⟩
    simp only [bind, Except.bind, hk, hks]
    rfl

theorem exists_of_itemValues {js : List Json}
    (h : Doc.itemValues levels (itemDocs items) = .ok js) :
    ∀ j ∈ items, ∃ k, j.doc.value levels = .ok k := by
  induction items generalizing js with
  | nil => exact fun _ hj => absurd hj List.not_mem_nil
  | cons j rest ih =>
    obtain ⟨k, ks, hk, hks, -⟩ := itemValues_cons_eq_ok.1 h
    exact List.forall_mem_cons.2 ⟨⟨k, hk⟩, ih hks⟩

theorem exists_of_memberValues {js : List (String × Json)}
    (h : Doc.memberValues levels (memberDocs members) = .ok js) :
    ∀ m ∈ members, ∃ k, m.2.doc.value levels = .ok k := by
  induction members generalizing js with
  | nil => exact fun _ hm => absurd hm List.not_mem_nil
  | cons m rest ih =>
    obtain ⟨k, ks, hk, hks, -⟩ := memberValues_cons_eq_ok.1 h
    exact List.forall_mem_cons.2 ⟨⟨k, hk⟩, ih hks⟩

/-- Items that are read as themselves, all at once and one by one. -/
theorem value_of_itemValues (h : Doc.itemValues levels (itemDocs items) = .ok items) :
    ∀ j ∈ items, j.doc.value levels = .ok j := by
  induction items with
  | nil => exact fun _ hj => absurd hj List.not_mem_nil
  | cons j rest ih =>
    obtain ⟨k, ks, hk, hks, heq⟩ := itemValues_cons_eq_ok.1 h
    cases heq
    exact List.forall_mem_cons.2 ⟨hk, ih hks⟩

/-- See `value_of_itemValues`. -/
theorem value_of_memberValues (h : Doc.memberValues levels (memberDocs members) = .ok members) :
    ∀ m ∈ members, m.2.doc.value levels = .ok m.2 := by
  induction members with
  | nil => exact fun _ hm => absurd hm List.not_mem_nil
  | cons m rest ih =>
    obtain ⟨name, j⟩ := m
    obtain ⟨k, ks, hk, hks, heq⟩ := memberValues_cons_eq_ok.1 h
    cases heq
    exact List.forall_mem_cons.2 ⟨hk, ih hks⟩

/-- Members keep their names. -/
theorem names_of_memberValues {js : List (String × Json)}
    (h : Doc.memberValues levels (memberDocs members) = .ok js) :
    js.map (·.1) = members.map (·.1) := by
  induction members generalizing js with
  | nil =>
    cases h
    rfl
  | cons m rest ih =>
    obtain ⟨k, ks, -, hks, rfl⟩ := memberValues_cons_eq_ok.1 h
    rw [List.map_cons, List.map_cons, ih hks]

theorem lookup_of_memberValues {js : List (String × Json)}
    (h : Doc.memberValues levels (memberDocs members) = .ok js) (name : String) :
    Option.Rel (fun j k => j.doc.value levels = .ok k) (members.reverse.lookup name)
      (js.reverse.lookup name) := by
  induction members generalizing js with
  | nil =>
    cases h
    exact .none
  | cons m rest ih =>
    obtain ⟨k, ks, hk, hks, rfl⟩ := memberValues_cons_eq_ok.1 h
    exact Entries.rel_lookup_cons hk (ih hks)

theorem value_object_eq_ok {k : Json} :
    (Json.object members).doc.value (levels + 1) = .ok k ↔
      ∃ js, Doc.memberValues levels (memberDocs members) = .ok js ∧
        k = .object (Entries.sort js) := by
  rw [doc, Doc.value_object, map_eq_ok]
  simp only [eq_comm]

/-! ## Depth and numbers -/

/-- A document whose text is read is not too deep. -/
theorem depth_le_of_value {j k : Json} (h : j.doc.value levels = .ok k) :
    j.item.depth ≤ levels := by
  induction j using Json.induct generalizing levels k with
  | array items ih =>
    cases levels with
    | zero =>
      -- Where no level is left an array is refused, and so is an object below.
      rw [Doc.value, doc, Doc.quoted, Doc.item] at h
      split at h <;> cases h
    | succ levels =>
      rw [doc, Doc.value_array] at h
      obtain ⟨js, hjs, -⟩ := map_eq_ok.1 h
      apply depth_array_le.2
      intro j hj
      obtain ⟨k, hk⟩ := exists_of_itemValues hjs j hj
      exact ih j hj hk
  | object members ih =>
    cases levels with
    | zero =>
      rw [Doc.value, doc, Doc.quoted, Doc.item] at h
      split at h <;> cases h
    | succ levels =>
      obtain ⟨js, hjs, -⟩ := value_object_eq_ok.1 h
      apply depth_object_le.2
      intro m hm
      obtain ⟨k, hk⟩ := exists_of_memberValues hjs m hm
      exact ih m hm hk
  | _ => exact Nat.zero_le _

/-- A number whose digits are read as the number. -/
theorem number_of_value {x : Binary64} (h : (Json.float x).doc.value levels = .ok (.float x)) :
    Literal.number (.ofChars (Shortest.text .document x)) = .float x := by
  rw [doc, Doc.value, Doc.quoted_floatText, Doc.item, Item.ofLiteral] at h
  -- Read as an integer or out of range, the float would not have come back.
  cases hnumber : Literal.number (.ofChars (Shortest.text .document x)) with
  | int n =>
    simp only [hnumber, Reader.unread] at h
    split at h <;> cases h
  | float y =>
    simp only [hnumber, Reader.unread] at h
    split at h
    · cases h
      rfl
    · cases h
  | outOfRange =>
    rw [hnumber] at h
    cases h

/-- A document whose text is read as the document again has no number that is misread. -/
theorem legible_of_value {j : Json} (h : j.doc.value levels = .ok j) : j.Legible := by
  have hcanonical : j.Canonical levels := canonical_of_unread h
  induction j using Json.induct generalizing levels with
  | float x => exact legible_float.2 (number_of_value h)
  | array items ih =>
    cases levels with
    | zero => exact absurd hcanonical.fits not_fits_array
    | succ levels =>
      rw [doc, Doc.value_array] at h
      obtain ⟨js, hjs, heq⟩ := map_eq_ok.1 h
      cases heq
      apply legible_array.2
      intro j hj
      exact ih j hj (value_of_itemValues hjs j hj) (canonical_array.1 hcanonical j hj)
  | object members ih =>
    cases levels with
    | zero => exact absurd hcanonical.fits not_fits_object
    | succ levels =>
      obtain ⟨hascending, hmembers⟩ := canonical_object.1 hcanonical
      obtain ⟨js, hjs, heq⟩ := value_object_eq_ok.1 h
      -- The members are in order, and so are those that are read: sorting leaves them alone.
      have hsame : js = members := by
        have hjsAscending := Entries.ascending_of_names (names_of_memberValues hjs) hascending
        rw [Entries.sort_of_ascending hjsAscending] at heq
        exact (Json.object.inj heq).symm
      subst hsame
      apply legible_object.2
      intro m hm
      exact ih m hm (value_of_memberValues hjs m hm) (hmembers m hm)
  | _ => exact FloatFree.legible fun _ hk x hx => by subst hx; cases hk

/-! ## Members of what is read -/

/-- The members of an object that is read: of several with one name the last one counts. -/
theorem member?_of_value_object {k : Json} (h : (Json.object members).doc.value (levels + 1) = .ok k)
    (name : String) : Option.Rel (fun j k => j.doc.value levels = .ok k)
      (members.reverse.lookup name) (k.member? name) := by
  obtain ⟨js, hjs, rfl⟩ := value_object_eq_ok.1 h
  have hmember : (Json.object (Entries.sort js)).member? name = js.reverse.lookup name :=
    Entries.lookup_sort js name
  rw [hmember]
  exact lookup_of_memberValues hjs name

/-- The members of a record that is read; they are given here the last one first. -/
theorem member?_of_value_record {ms : List (String × Member)} (distinct : (ms.map (·.1)).Nodup)
    (named : ∀ m ∈ ms, m.2.Named m.1) {name : String} {m : Member} (hm : (name, m) ∈ ms) {k : Json}
    (h : (Json.record (ms.map (·.2)).reverse).doc.value (levels + 1) = .ok k) :
    Option.Rel (fun j k => j.doc.value levels = .ok k) m.part (k.member? name) := by
  have hrel := member?_of_value_object h name
  rwa [List.filterMap_reverse, List.reverse_reverse,
    Member.lookup_written distinct named hm] at hrel

/-- What is written for an optional field is what it is read from again. -/
theorem exists_value_of_given {α : Type} [Portable α] {read : Reader α} {names : FieldNames}
    (plain : names.all (·.2.isEmpty) = true) {members : List (String × Json)}
    {values : String → Option Item} (hshape : Shape names (Json.object members).item values)
    {field : String} {a : Option α}
    (hrel : Option.Rel (fun j k => j.doc.value levels = .ok k) (Member.ifSome field a).part
      ((Json.object members).member? field))
    (hgiven : Given (Reader.option read) none (values field) a) :
    ∀ x, a = some x →
      ∃ k, (toJson x).doc.value levels = .ok k ∧ read .document k.item = .ok x := by
  rintro x rfl
  cases hv : values field with
  | none =>
    rw [hv] at hgiven
    cases hgiven
  | some v =>
    rw [hv] at hgiven
    -- The field is found under its own name, since it has no other.
    obtain ⟨key, k, hkey, hmember, rfl⟩ := Json.member?_of_value hshape hv
    obtain rfl := Record.eq_of_field? plain hkey
    rw [hmember] at hrel
    cases hrel with
    | some hvalue => exact ⟨k, hvalue, Reader.read_of_option hgiven⟩

/-- A part that is passed on unread comes through where what it is read as is the part again. -/
theorem legible_of_member {k j : Json} (hvalue : j.doc.value levels = .ok k)
    (hread : Reader.json .document k.item = .ok j) : j.Legible := by
  have hcanonical : k.Canonical levels := canonical_of_unread hvalue
  have hsame : k = j := Except.ok.inj (hcanonical.unread_eq.symm.trans hread)
  subst hsame
  exact legible_of_value hvalue

end Json

/-! ## Members of what is written -/

/-- What is written, if anything, holds no number that is misread. -/
def Member.Legible (m : Member) : Prop := ∀ j, m.part = some j → j.Legible

theorem Member.legible_always {α : Type} [Portable α] {a : α} (name : String)
    (h : (toJson a).Legible) : (always name a).Legible := by
  intro j hj
  cases hj
  exact h

theorem Member.legible_ifSome {α : Type} [Portable α] {a : Option α} (name : String)
    (h : ∀ x, a = some x → (toJson x).Legible) : (ifSome name a).Legible := by
  intro j hj
  rw [part_ifSome] at hj
  obtain ⟨x, hx, rfl⟩ := Option.map_eq_some_iff.1 hj
  exact h x hx

theorem Json.legible_record {ms : List Member} (h : ∀ m ∈ ms, m.Legible) :
    (Json.record ms).Legible := by
  apply legible_object.2
  intro e he
  obtain ⟨m, hm, hwritten⟩ := List.mem_filterMap.1 he
  apply h m hm
  rw [Member.part, hwritten]
  rfl

theorem Json.legible_text (s : String) : (Json.text s).Legible := (floatFree_text s).legible

theorem Json.legible_int (n : Int) : (Json.int n).Legible := (floatFree_int n).legible

end ChainFollower
