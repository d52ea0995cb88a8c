import ChainFollower.Proofs.Json.Parts
import ChainFollower.Proofs.Json.Reading

/-!
# Printed documents are read back

The tree of a document's own text has the items of the document, so that the reader of any type is
given for the text what it would be given for the document itself.  The exception are
floating-point numbers, which need not be read off their own digits.

Main statements: `Json.decode_octets_eq`, for the reader of any type, and `Json.unread_item`, for
documents that are passed on unread.
-/

namespace ChainFollower

open Json (Part fits_array fits_object not_fits_array not_fits_object itemDocs memberDocs)

/-! ## From trees to items -/

/-- Every floating-point number in the document is read off the digits that are written for it. -/
def Json.Legible (j : Json) : Prop :=
  ∀ k, Part k j → ∀ x, k = .float x →
    Literal.number (.ofChars (Shortest.text .document x)) = .float x

/-- Without floating-point numbers there is nothing to misread. -/
theorem Json.FloatFree.legible {j : Json} (h : j.FloatFree) : j.Legible :=
  fun k hk x hx => absurd hx (h k hk x)

/-- A float is legible if its digits are read as it. -/
theorem Json.legible_float {x : Binary64} : (Json.float x).Legible ↔
    Literal.number (.ofChars (Shortest.text .document x)) = .float x := by
  constructor
  · intro h
    exact h _ (.self _) x rfl
  · rintro h _ ⟨⟩ _ ⟨⟩
    exact h

/-- An array is legible if its items are, -/
theorem Json.legible_array {items : List Json} :
    (Json.array items).Legible ↔ ∀ j ∈ items, j.Legible := by
  unfold Json.Legible
  rw [Json.forall_part_array]
  exact and_iff_right fun x h => nomatch h

/-- and an object if its members are. -/
theorem Json.legible_object {members : List (String × Json)} :
    (Json.object members).Legible ↔ ∀ m ∈ members, m.2.Legible := by
  unfold Json.Legible
  rw [Json.forall_part_object]
  exact and_iff_right fun x h => nomatch h

namespace Doc

/-- A text that has been escaped is read as itself. -/
theorem ofRaw_escaped (s : String) : Item.ofRaw (escaped s) = .text s := by
  rw [Item.ofRaw, text?_escaped]

/-- The trees of items have the items, once each tree has its own, -/
theorem itemsOf_itemDocs {levels : Nat} {items : List Json}
    (h : ∀ j ∈ items, j.doc.quoted.item levels = j.item) :
    itemsOf levels (quotedItems (itemDocs items)) = Json.itemsOf items := by
  induction items with
  | nil => rfl
  | cons j rest ih =>
    obtain ⟨hj, hrest⟩ := List.forall_mem_cons.1 h
    show j.doc.quoted.item levels :: itemsOf levels (quotedItems (itemDocs rest)) = _
    rw [hj, ih hrest]
    rfl

/-- and those of members have the entries. -/
theorem entriesOf_memberDocs {levels : Nat} {members : List (String × Json)}
    (h : ∀ m ∈ members, m.2.doc.quoted.item levels = m.2.item) :
    entriesOf levels (quotedMembers (memberDocs members)) = Json.entriesOf members := by
  -- Names are escaped and read back, values are the hypothesis.
  induction members with
  | nil => rfl
  | cons m rest ih =>
    obtain ⟨k, j⟩ := m
    obtain ⟨hj, hrest⟩ := List.forall_mem_cons.1 h
    show (Item.ofRaw (escaped k), j.doc.quoted.item levels) ::
      entriesOf levels (quotedMembers (memberDocs rest)) = _
    rw [ofRaw_escaped, hj, ih hrest]
    rfl

/-- The literal of an integer that a word holds is not quoted. -/
theorem item_intChars {n : Int} (h : FitsWord n) (levels : Nat) :
    (Doc.number (.ofChars (Json.intChars n))).quoted.item levels = .int n := by
  rw [quoted, quotedLiteral, integer?_intChars]
  simp only [if_pos h, item, Item.ofLiteral, Literal.number_intChars h]

/-- The literal of a floating-point number is not quoted either. -/
theorem quoted_floatText (x : Binary64) :
    (Doc.number (.ofChars (Shortest.text .document x))).quoted =
      .number (.ofChars (Shortest.text .document x)) := by
  rw [quoted, quotedLiteral, Shortest.integer?_text]

/-- The tree of a value's text has the items of the value. -/
theorem item_doc {levels : Nat} {j : Json} (h : j.Fits levels) (legible : j.Legible) :
    j.doc.quoted.item levels = j.item := by
  -- Over the value; each part has one level less than what it stands in.
  induction j using Json.induct generalizing levels with
  | null => rfl
  | bool b => rfl
  | int n => exact item_intChars (Json.fits_int.1 h) levels
  | float x =>
    show (Doc.number (.ofChars (Shortest.text .document x))).quoted.item levels = _
    rw [quoted_floatText, item, Item.ofLiteral, legible _ (.self _) x rfl]
    rfl
  | text s => exact ofRaw_escaped s
  | array items ih =>
    cases levels with
    | zero => exact absurd h not_fits_array
    | succ levels =>
      apply congrArg Item.array
      apply itemsOf_itemDocs
      intro j hj
      exact ih j hj (fits_array.1 h j hj) fun k hk => legible k (.item hj hk)
  | object members ih =>
    cases levels with
    | zero => exact absurd h not_fits_object
    | succ levels =>
      apply congrArg Item.map
      apply entriesOf_memberDocs
      intro m hm
      exact ih m hm (fits_object.1 h m hm) fun k hk => legible k (.member hm hk)

end Doc

/-- The text of a document is read by the items of the document, whatever the type. -/
theorem Json.decode_octets_eq {α : Type} [Portable α] {j : Json} (h : j.Fits documentLevels)
    (legible : j.Legible) :
    (Json.decode j.octets : Except DecodeError α) =
      (Portable.read .document j.item).mapError .json := by
  rw [decode_of_spells (Doc.spells_octets j), Doc.item_doc h legible]

/-- A document that is read as a value is decoded to it. -/
theorem Json.decode_encode {α β : Type} [Portable α] [Portable β] {a : α} {b : β}
    (fits : (toJson a).Fits documentLevels) (legible : (toJson a).Legible)
    (h : Portable.read .document (toJson a).item = .ok b) :
    Json.decode (Json.encode a) = .ok b := by
  rw [Json.encode, decode_octets_eq fits legible, h]
  rfl

/-! ## Documents passed on unread -/

namespace Json

variable {m : Medium} {j : Json}

/-- The medium takes the first name of an object. -/
def TakesName (m : Medium) : Json → Prop
  | .object ((name, _) :: _) => Reader.firstName m (.text name) = .ok name
  | _ => True

/-- The medium takes the first name of every object in the document. -/
def Named (m : Medium) (j : Json) : Prop := ∀ k, Part k j → k.TakesName m

/-- A medium that takes the names in an array takes those of its items, and -/
theorem named_array {items : List Json} :
    (Json.array items).Named m ↔ ∀ j ∈ items, j.Named m := by
  unfold Named
  rw [forall_part_array]
  exact and_iff_right trivial

/-- one that takes those in an object takes its first name as well. -/
theorem named_object {members : List (String × Json)} : (Json.object members).Named m ↔
    (Json.object members).TakesName m ∧ ∀ e ∈ members, e.2.Named m := forall_part_object

/-- What has no parts has no names. -/
theorem named_scalar (harray : j.isArray = false) (hobject : j.isObject = false) : j.Named m := by
  unfold Named
  rw [forall_part_scalar harray hobject]
  cases j with
  | object members => cases hobject
  | _ => trivial

/-- A text has none, -/
@[simp]
theorem named_text (s : String) : (Json.text s).Named m := named_scalar rfl rfl

/-- an integer has none, -/
@[simp]
theorem named_int (n : Int) : (Json.int n).Named m := named_scalar rfl rfl

/-- and `null` has none. -/
@[simp]
theorem named_null : Json.null.Named m := named_scalar rfl rfl

/-- Documents take any name. -/
theorem named_document (j : Json) : j.Named .document := by
  intro k _
  unfold TakesName
  split
  · rfl
  · trivial

/-- The first name of a binary object is limited in its bytes. -/
theorem firstName_binary {levels : Nat} {name : String} :
    Reader.firstName (.binary levels) (.text name) = .ok name ↔
      name.utf8ByteSize ≤ Reader.nameLimit := by
  show (if name.utf8ByteSize ≤ Reader.nameLimit then Except.ok name else Reader.refuse) = _ ↔ _
  split <;> simp_all [Reader.refuse]

/-- A binary document takes names of no more than 4096 bytes. -/
theorem named_binary_iff {levels : Nat} : j.Named (.binary levels) ↔
    ∀ name v rest, Part (.object ((name, v) :: rest)) j → name.utf8ByteSize ≤ Reader.nameLimit := by
  constructor
  · intro h name v rest hpart
    exact firstName_binary.1 (h _ hpart)
  -- Only the first name of an object is limited; other values name nothing.
  · intro h k hk
    cases k with
    | object members =>
      cases members with
      | nil => trivial
      | cons member rest => exact firstName_binary.2 (h member.1 member.2 rest hk)
    | _ => trivial

/-- A text is read as itself in every medium. -/
theorem text_text (m : Medium) (s : String) : Reader.text m (.text s) = .ok s := by
  cases m <;> rfl

/-- An array is passed on item by item, -/
theorem unread_array {items : List Json} : Reader.unread m (Json.array items).item =
    (Reader.unreadItems m (itemsOf items)).map .array := rfl

/-- and an object member by member, sorted. -/
theorem unread_object {members : List (String × Json)} :
    Reader.unread m (Json.object members).item =
      (Reader.unreadMembers m Reader.firstName (entriesOf members)).map fun ms =>
        .object (Entries.sort ms) := rfl

/-- The first item and then the rest, -/
theorem unreadItems_cons {rest : List Json} :
    Reader.unreadItems m (itemsOf (j :: rest)) = (do
      let k ← Reader.unread m j.item
      let ks ← Reader.unreadItems m (itemsOf rest)
      return k :: ks) := rfl

/-- and the first member, whose name may be read in a way of its own. -/
theorem unreadMembers_cons {name : String} {rest : List (String × Json)}
    {readName : Reader String} :
    Reader.unreadMembers m readName (entriesOf ((name, j) :: rest)) = (do
      let s ← readName m (.text name)
      let k ← Reader.unread m j.item
      let ks ← Reader.unreadMembers m Reader.text (entriesOf rest)
      return (s, k) :: ks) := rfl

/-- Items that are passed on as they are make such a list. -/
theorem unreadItems_eq {items : List Json}
    (h : ∀ j ∈ items, Reader.unread m j.item = .ok j.sorted) :
    Reader.unreadItems m (itemsOf items) = .ok (sortedItems items) := by
  induction items with
  | nil => rfl
  | cons j rest ih =>
    obtain ⟨hj, hrest⟩ := List.forall_mem_cons.1 h
    rw [unreadItems_cons, hj, ih hrest]
    rfl

/-- The first name has a reader of its own. -/
theorem unreadMembers_eq {members : List (String × Json)} {readName : Reader String}
    (hname : ∀ name v rest, members = (name, v) :: rest → readName m (.text name) = .ok name)
    (h : ∀ e ∈ members, Reader.unread m e.2.item = .ok e.2.sorted) :
    Reader.unreadMembers m readName (entriesOf members) = .ok (sortedMembers members) := by
  induction members generalizing readName with
  | nil => rfl
  | cons e rest ih =>
    obtain ⟨k, j⟩ := e
    obtain ⟨hj, hrest⟩ := List.forall_mem_cons.1 h
    -- The names behind the first one are read like any text.
    rw [unreadMembers_cons, hname k j rest rfl, hj,
      ih (fun _ _ _ _ => text_text m _) hrest]
    rfl

/-- What is passed on unread of a document is the document, members sorted. -/
theorem unread_item (sound : ∀ k, Part k j → k.IsSound) (hnamed : j.Named m) :
    Reader.unread m j.item = .ok j.sorted := by
  induction j using Json.induct with
  | null => rfl
  | bool b => rfl
  | int n => exact if_pos (sound _ (.self _))
  | float x =>
    -- Only what is not finite is passed on as `null`.
    show Except.ok (if x.isFinite then Json.float x else Json.null) = _
    have hfinite : x.isFinite = true := sound _ (.self _)
    rw [if_pos hfinite]
    rfl
  | text s => rfl
  | array items ih =>
    have hitems : Reader.unreadItems m (itemsOf items) = .ok (sortedItems items) := by
      apply unreadItems_eq
      intro j hj
      exact ih j hj (fun k hk => sound k (.item hj hk)) fun k hk => hnamed k (.item hj hk)
    rw [unread_array, hitems]
    rfl
  | object members ih =>
    have hmembers : Reader.unreadMembers m Reader.firstName (entriesOf members) =
        .ok (sortedMembers members) := by
      apply unreadMembers_eq
      · rintro name v rest rfl
        exact hnamed _ (.self _)
      · intro e he
        exact ih e he (fun k hk => sound k (.member he hk)) fun k hk => hnamed k (.member he hk)
    rw [unread_object, hmembers]
    rfl

/-- The text of a document is decoded to the document, members sorted. -/
theorem decode_octets_json (fits : j.Fits documentLevels) (legible : j.Legible) :
    (Json.decode j.octets : Except DecodeError Json) = .ok j.sorted := by
  rw [decode_octets_eq fits legible]
  show (Reader.unread .document j.item).mapError _ = _
  rw [unread_item fits.sound (named_document _)]
  rfl

/-- Each item of a list that was passed on was passed on itself, and -/
theorem exists_of_unreadItems {items : List Json} {js : List Json}
    (h : Reader.unreadItems m (itemsOf items) = .ok js) :
    ∀ j ∈ items, ∃ k, Reader.unread m j.item = .ok k := by
  induction items generalizing js with
  | nil => exact fun _ hj => absurd hj List.not_mem_nil
  | cons j rest ih =>
    rw [unreadItems_cons] at h
    obtain ⟨k, hk, h⟩ := bind_eq_ok.1 h
    obtain ⟨ks, hks, -⟩ := bind_eq_ok.1 h
    exact List.forall_mem_cons.2 ⟨⟨k, hk⟩, ih hks⟩

/-- so was each member, whose first name was taken. -/
theorem exists_of_unreadMembers {members : List (String × Json)} {readName : Reader String}
    {js : List (String × Json)} (h : Reader.unreadMembers m readName (entriesOf members) = .ok js) :
    (∀ name v rest, members = (name, v) :: rest → ∃ s, readName m (.text name) = .ok s) ∧
      ∀ e ∈ members, ∃ k, Reader.unread m e.2.item = .ok k := by
  -- The reader of the first name differs from the later one, so it is left open.
  induction members generalizing readName js with
  | nil =>
    refine ⟨?_, fun _ he => absurd he List.not_mem_nil⟩
    intro name v rest hnil
    cases hnil
  | cons e rest ih =>
    obtain ⟨name, j⟩ := e
    rw [unreadMembers_cons] at h
    obtain ⟨s, hs, h⟩ := bind_eq_ok.1 h
    obtain ⟨k, hk, h⟩ := bind_eq_ok.1 h
    obtain ⟨ks, hks, -⟩ := bind_eq_ok.1 h
    refine ⟨?_, List.forall_mem_cons.2 ⟨⟨k, hk⟩, (ih hks).2⟩⟩
    rintro _ _ _ ⟨⟩
    exact ⟨s, hs⟩

/-- A first name is refused or taken as it is. -/
theorem firstName_text {name s : String} (h : Reader.firstName m (.text name) = .ok s) :
    Reader.firstName m (.text name) = .ok name := by
  cases m with
  | document => rfl
  | binary levels =>
    -- Whatever name was told, it was told because the length fits.
    have hshow : ∀ t, (if name.utf8ByteSize ≤ Reader.nameLimit then Except.ok name
        else Reader.refuse : Reading String) = .ok t → name.utf8ByteSize ≤ Reader.nameLimit := by
      intro t ht
      split at ht
      · assumption
      · cases ht
    exact if_pos (hshow s h)
  | stored => cases h

/-- A document is passed on unread only by a medium that takes its names. -/
theorem named_of_unread {k : Json} (h : Reader.unread m j.item = .ok k) : j.Named m := by
  -- Each part was passed on as well, and only objects have a first name to be taken.
  induction j using Json.induct generalizing k with
  | array items ih =>
    rw [unread_array] at h
    obtain ⟨js, hjs, -⟩ := map_eq_ok.1 h
    apply named_array.2
    intro j hj
    obtain ⟨k, hk⟩ := exists_of_unreadItems hjs j hj
    exact ih j hj hk
  | object members ih =>
    rw [unread_object] at h
    obtain ⟨js, hjs, -⟩ := map_eq_ok.1 h
    obtain ⟨hfirst, hmembers⟩ := exists_of_unreadMembers hjs
    refine named_object.2 ⟨?_, ?_⟩
    · cases members with
      | nil => trivial
      | cons e rest =>
        obtain ⟨s, hs⟩ := hfirst e.1 e.2 rest rfl
        exact firstName_text hs
    · intro e he
      obtain ⟨k, hk⟩ := hmembers e he
      exact ih e he hk
  | _ => exact named_scalar rfl rfl

end Json

end ChainFollower
