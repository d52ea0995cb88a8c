import ChainFollower.Proofs.Item.Records
import ChainFollower.Protocol.Shape

/-!
# Fields of items

The fields of an item without a reader: where a field stands, and what it may be.  Reading a record
is brought down to that, field by field, and so is what stands beside a name.

Main statement: `Record.read_eq_ok_iff`.
-/

namespace ChainFollower

open Record (Shape Documented Given Holds valueOf? field? exists_holds shape_of_read)

/-! ## Where a field stands and what it may be -/

/-- The value of a field of a record: of the first entry whose key means it, or at its place. -/
def Item.valueAt (names : FieldNames) (i : Item) (field : String) : Option Item :=
  match i with
  | .map entries =>
    (entries.find? fun e => match e.1 with
      | .text key => field? names key == some field
      | _ => false).map (·.2)
  | .array items => ((names.map (·.1)).zip items).lookup field
  | _ => none

/-- The last entry of that name in a map. -/
def Item.last? (name : String) : Item → Option Item
  | .map entries => entries.reverse.findSome? fun e => match e.1 with
    | .text key => if name == key then some e.2 else none
    | _ => none
  | _ => none

/-- A record whose fields, as far as they are there, are what they should be. -/
def Item.IsRecord (names : FieldNames) (ok : String → Item → Prop) (i : Item) : Prop :=
  ∃ values, Shape names i values ∧ ∀ name ∈ names, ∀ v, values name.1 = some v → ok name.1 v

/-- What it should be, or `null`. -/
def Item.Nullable (ok : Item → Prop) (i : Item) : Prop := i = .null ∨ ok i

/-- An unsigned word. -/
def Item.IsWord : Item → Prop
  | .int n => 0 ≤ n ∧ n < 0x10000000000000000
  | _ => False

/-- A text. -/
def Item.IsText : Item → Prop
  | .text _ => True
  | _ => False

theorem Item.last?_named (name : String) (entries : List (String × Item)) :
    (named entries).last? name = entries.reverse.lookup name := by
  simp only [last?, named, ← List.map_reverse, List.findSome?_map, List.lookup_eq_findSome?]
  rfl

theorem Item.valueAt_named (names : FieldNames) (entries : List (String × Item)) (field : String) :
    (named entries).valueAt names field = valueOf? names entries field := by
  simp only [valueAt, named, List.find?_map, Option.map_map]
  rfl

theorem Record.Shape.valueAt {names : FieldNames} {i : Item} {values : String → Option Item}
    (h : Shape names i values) : i.valueAt names = values := by
  funext field
  cases h with
  | named _ => exact Item.valueAt_named names _ field
  | positional _ => rfl

/-! ## Spellings -/

theorem Record.lookup_of_valueOf? {names : FieldNames} {entries : List (String × Item)}
    {field : String} {v : Item} (h : valueOf? names entries field = some v) :
    ∃ key, field? names key = some field ∧ entries.lookup key = some v := by
  -- The first key either means the field or is another key than the one that is found later.
  induction entries with
  | nil => cases h
  | cons e rest ih =>
    obtain ⟨k, w⟩ := e
    rw [valueOf?, List.find?_cons] at h
    by_cases hk : field? names k = some field
    · simp only [hk, beq_self_eq_true, Option.map_some, Option.some.injEq] at h
      exact ⟨k, hk, by simp [h]⟩
    · rw [beq_eq_false_iff_ne.2 hk] at h
      obtain ⟨key, hkey, hlookup⟩ := ih h
      refine ⟨key, hkey, ?_⟩
      have hne : key ≠ k := fun heq => hk (heq ▸ hkey)
      rw [Entries.lookup_cons, if_neg hne]
      exact hlookup

/-- The value of a field of a map is found under one of its spellings. -/
theorem Record.Shape.lookup {names : FieldNames} {entries : List (String × Item)}
    {values : String → Option Item} (h : Shape names (.named entries) values) {field : String}
    {v : Item} (hv : values field = some v) :
    ∃ key, field? names key = some field ∧ entries.lookup key = some v := by
  generalize hi : Item.named entries = i at h
  cases h with
  | named _ =>
    rw [Item.named_inj hi]
    exact Record.lookup_of_valueOf? hv
  | positional _ => cases hi

/-- The value of a field of an object is one of its members. -/
theorem Json.member?_of_value {names : FieldNames} {members : List (String × Json)}
    {values : String → Option Item} (h : Shape names (Json.object members).item values)
    {field : String} {v : Item} (hv : values field = some v) :
    ∃ key j, field? names key = some field ∧ (Json.object members).member? key = some j ∧
      v = j.item := by
  rw [Json.item_object] at h
  obtain ⟨key, hkey, hlookup⟩ := h.lookup hv
  rw [Json.lookup_fields] at hlookup
  obtain ⟨j, hj, rfl⟩ := Option.map_eq_some_iff.1 hlookup
  exact ⟨key, j, hkey, hj, rfl⟩

/-- A key that means a field is its name or another spelling of it. -/
theorem Record.spelling_of_field? {names : FieldNames} {key field : String}
    (h : field? names key = some field) :
    ∃ spellings, (field, spellings) ∈ names ∧ (key = field ∨ key ∈ spellings) := by
  obtain ⟨f, hfind, rfl⟩ := Option.map_eq_some_iff.1 h
  have hkey := List.find?_some hfind
  simp only [Bool.or_eq_true, beq_iff_eq, List.contains_iff_mem] at hkey
  exact ⟨f.2, List.mem_of_find?_eq_some hfind, hkey.imp_left Eq.symm⟩

/-- The key of a field without other spellings is its name. -/
theorem Record.eq_of_field? {names : FieldNames} (hplain : names.all (·.2.isEmpty) = true)
    {key field : String} (h : field? names key = some field) : field = key :=
  primary_of_plain hplain [(key, ())] (key, ()) (List.mem_singleton.2 rfl) field h

/-! ## Reading by fields -/

/-- Reading a record, by what its fields give. -/
theorem Record.read_eq_ok_iff {α : Type} {names : FieldNames} {fields : Record → Placed α}
    {i : Item} {a : α} (get : (String → Option Item) → α) (hi : Documented i)
    {ok : String → Item → Prop} (h : ∀ values, Shape names i values → ∀ r : Record, r.Holds values →
      ((fields r).outcome = .ok a ↔
        (∀ name ∈ names, ∀ v, values name.1 = some v → ok name.1 v) ∧ get values = a)) :
    read names fields .document i = .ok a ↔ i.IsRecord names ok ∧ get (i.valueAt names) = a := by
  constructor
  · intro hread
    -- The shape of an item is unique, so that its values are those at the fields of the item.
    obtain ⟨values, hshape⟩ := shape_of_read hi hread
    obtain ⟨r, hr, hiff⟩ := exists_holds hshape
    obtain ⟨hok, hget⟩ := (h values hshape r hr).1 ((hiff fields a).1 hread)
    exact ⟨⟨values, hshape, hok⟩, hshape.valueAt ▸ hget⟩
  · rintro ⟨⟨values, hshape, hok⟩, hget⟩
    obtain ⟨r, hr, hiff⟩ := exists_holds hshape
    exact (hiff fields a).2 ((h values hshape r hr).2 ⟨hok, hshape.valueAt ▸ hget⟩)

/-- What is read as a record that must be a map is an object. -/
theorem Record.exists_of_readMap {α : Type} {names : FieldNames} {fields : Record → Placed α}
    {j : Json} {a : α} (h : readMap names fields .document j.item = .ok a) :
    ∃ members values r, j = .object members ∧ Shape names (Json.object members).item values ∧
      r.Holds values ∧ (fields r).outcome = .ok a := by
  cases j with
  | object members =>
    rw [readMap_object] at h
    have hitem := Json.item_object members
    obtain ⟨values, hshape⟩ := shape_of_read (hitem ▸ .named _) h
    obtain ⟨r, hr, hread⟩ := exists_holds hshape
    exact ⟨members, values, r, rfl, hshape, hr, (hread fields a).1 h⟩
  | _ => cases h

/-- Without other spellings a key means the field of its name, if there is one. -/
theorem Record.field?_of_plain {names : FieldNames}
    (hplain : names.all (·.2.isEmpty) = true) (key : String) :
    field? names key = if (names.map (·.1)).contains key then some key else none := by
  cases hfield : field? names key with
  | none =>
    -- No field is meant, so the key is none of the names.
    have hnot : ¬ (names.map (·.1)).contains key = true := by
      intro hmem
      obtain ⟨name, hname, rfl⟩ := List.mem_map.1 (List.contains_iff_mem.1 hmem)
      have hnone := List.find?_eq_none.1 (Option.map_eq_none_iff.1 hfield) name hname
      simp at hnone
    rw [if_neg hnot]
  | some field =>
    -- The field is one of the names, and without other spellings it is the key.
    obtain ⟨spellings, hname, -⟩ := spelling_of_field? (eq_of_field? hplain hfield ▸ hfield)
    obtain rfl := eq_of_field? hplain hfield
    rw [if_pos (List.contains_iff_mem.2 (List.mem_map_of_mem hname))]

theorem Record.regular_iff_of_plain {names : FieldNames}
    (hplain : names.all (·.2.isEmpty) = true)
    {entries : List (String × Item)} (hpass : ∀ e ∈ entries, e.2.passable = true) :
    Regular names entries ↔
      ((entries.map (·.1)).filter ((names.map (·.1)).contains ·)).Nodup := by
  -- The fields that are meant are the names that stand there.
  have hfields : (entries.filterMap fun e => field? names e.1) =
      (entries.map (·.1)).filter ((names.map (·.1)).contains ·) := by
    rw [← List.filterMap_eq_filter, List.filterMap_map]
    congr 1
    funext e
    exact field?_of_plain hplain e.1
  rw [← hfields]
  exact ⟨Regular.once, fun once => ⟨once, fun e he _ => hpass e he⟩⟩

/-- Reading a map as a record that must be one. -/
theorem Record.exists_record (names : FieldNames) (entries : List (String × Item)) :
    ∃ r : Record, (Regular names entries → r.Holds (valueOf? names entries)) ∧
      ∀ {α : Type} (fields : Record → Placed α) (a : α),
        readMap names fields .document (.named entries) = .ok a ↔
          Regular names entries ∧ (fields r).outcome = .ok a := by
  refine ⟨collect .document names 0 [] (entries.map fun e => (.text e.1, e.2)), ?_, ?_⟩
  -- Regular entries give a record, and nothing else can have been read.
  · intro h
    obtain ⟨r, hr, hholds⟩ := ofItem_of_shape (.named h)
    cases hr
    exact hholds
  · intro α fields a
    rw [← stop_eq_none_iff]
    exact finish_eq_ok

section Given

variable {α β : Type} {read : Reader α}

theorem Reader.option_eq_map {item : Item} (h : item ≠ .null) :
    Reader.option read .document item = (read .document item).map some := by
  unfold Reader.option
  split
  · exact absurd rfl h
  · rfl

theorem Record.exists_given_of_read {absent : α} {value : Option Item}
    {ok : Item → Prop} (h : ∀ v, value = some v → ((∃ a, read .document v = .ok a) ↔ ok v)) :
    (∃ a, Given read absent value a) ↔ ∀ v, value = some v → ok v := by
  cases value with
  | none => simp [Given]
  | some v => simpa [Given] using h v rfl

/-- What an optional field that may be `null` gives, by what its value gives. -/
theorem Record.exists_given_iff (f : Option α → Option β) (get : Item → Option β)
    (hnone : f none = none) (hnull : get .null = none) {value : Option Item}
    (h : ∀ v, value = some v → v ≠ .null → ∀ x,
      (∃ a, read .document v = .ok a ∧ f (some a) = x) ↔ ok v ∧ get v = x) (x : Option β) :
    (∃ a, Given (Reader.option read) none value a ∧ f a = x) ↔
      (∀ v, value = some v → v.Nullable ok) ∧ value.bind get = x := by
  cases value with
  | none =>
    simp only [Given, exists_eq_left, hnone, reduceCtorEq, false_implies, implies_true, true_and,
      Option.bind_none]
  | some v =>
    simp only [Given, Option.some.injEq, forall_eq', Option.bind_some]
    -- A `null` stands for an absent value; everything else goes to the reader of the field.
    by_cases hv : v = .null
    · subst hv
      simp [Reader.option, hnone, hnull, Item.Nullable]
    · simp only [Reader.option_eq_map hv, map_eq_ok, Item.Nullable, hv, false_or, ← h v rfl hv x]
      constructor
      · rintro ⟨_, ⟨a, ha, rfl⟩, hf⟩
        exact ⟨a, ha, hf⟩
      · rintro ⟨a, ha, hf⟩
        exact ⟨_, ⟨a, ha, rfl⟩, hf⟩

/-- What is read as what it should be gives what it is read as. -/
theorem Reader.exists_read_iff {v : Item} {p : Prop} (h : (∃ a, read .document v = .ok a) ↔ p)
    (x : Option α) : (∃ a, read .document v = .ok a ∧ some a = x) ↔
      p ∧ (read .document v).toOption = x := by
  rw [← h]
  constructor
  · rintro ⟨a, ha, rfl⟩
    exact ⟨⟨a, ha⟩, by rw [ha]; rfl⟩
  · rintro ⟨⟨a, ha⟩, rfl⟩
    exact ⟨a, ha, by rw [ha]; rfl⟩

theorem Reader.option_of_read {item : Item} {a : α}
    (h : read .document item = .ok a) (hnull : item ≠ .null) :
    Reader.option read .document item = .ok (some a) := by
  rw [Reader.option_eq_map hnull, h]
  rfl

theorem Reader.read_of_option {item : Item} {a : α}
    (h : Reader.option read .document item = .ok (some a)) : read .document item = .ok a := by
  unfold Reader.option at h
  split at h
  · cases h
  · obtain ⟨b, hb, hab⟩ := map_eq_ok.1 h
    cases hab
    exact hb

end Given

theorem Reader.exists_word64_iff (v : Item) :
    (∃ n, Reader.word64 .document v = .ok n) ↔ v.IsWord := by
  cases v with
  | int n =>
    simp only [Reader.word64, Reader.int?, Item.IsWord]
    by_cases hrange : 0 ≤ n ∧ n < 0x10000000000000000
    · simp [hrange]
    · simp [hrange, Reader.refuse]
  | _ => simp [Reader.word64, Reader.int?, Reader.refuse, Item.IsWord]

/-! ## Items that can be kept -/

mutual

/-- What can be kept can be passed over. -/
theorem Item.passable_of_holdable : ∀ {i : Item}, i.holdable = true → i.passable = true
  | .array _, h => passableItems_of_holdable h
  | .map _, h => passableEntries_of_holdable h
  | .streamedMap _, h => passableEntries_of_holdable h
  | .null, _ | .bool _, _ | .int _, _ | .float _, _ | .text _, _ | .streamedText _, _
  | .bytes _, _ | .streamedBytes _, _ => rfl

theorem Item.passableItems_of_holdable : ∀ {items : List Item},
    Item.holdableItems items = true → Item.passableItems items = true
  | [], _ => rfl
  | i :: items, h => by
    obtain ⟨hi, hitems⟩ := Bool.and_eq_true_iff.1 h
    exact Bool.and_eq_true_iff.2 ⟨passable_of_holdable hi, passableItems_of_holdable hitems⟩

theorem Item.passableEntries_of_holdable : ∀ {entries : List (Item × Item)},
    Item.holdableEntries entries = true → Item.passableEntries entries = true
  | [], _ => rfl
  | (k, v) :: entries, h => by
    obtain ⟨hboth, hentries⟩ := Bool.and_eq_true_iff.1 h
    obtain ⟨hk, hv⟩ := Bool.and_eq_true_iff.1 hboth
    refine Bool.and_eq_true_iff.2 ⟨Bool.and_eq_true_iff.2 ⟨?_, ?_⟩, ?_⟩
    · exact passable_of_holdable hk
    · exact passable_of_holdable hv
    · exact passableEntries_of_holdable hentries

end

/-! ## Choices and values -/

/-- The first alternative counts, and where it refuses the others do. -/
theorem Reader.firstOf_cons_eq_ok_iff {α : Type} {first : Reader α} {others : List (Reader α)}
    {item : Item} {a : α} :
    Reader.firstOf (first :: others) .document item = .ok a ↔ item.holdable = true ∧
      (first .document item = .ok a ∨
        (first .document item).toOption = none ∧ Reader.firstOf others .document item = .ok a) := by
  by_cases hholds : item.holdable = true
  · simp only [Reader.firstOf, Medium.holds, hholds, if_true, List.findSome?_cons, true_and]
    cases first .document item <;> simp [Except.toOption]
  · simp [Reader.firstOf, Medium.holds, hholds, Reader.refuse]

/-- Of two alternatives the second one counts when the first one refuses. -/
theorem Reader.firstOf_eq_ok_iff {α : Type} {first second : Reader α} {item : Item} {a : α} :
    Reader.firstOf [first, second] .document item = .ok a ↔ item.holdable = true ∧
      (first .document item = .ok a ∨
        (first .document item).toOption = none ∧ second .document item = .ok a) := by
  rw [Reader.firstOf_cons_eq_ok_iff]
  refine and_congr_right fun hholds => or_congr_right (and_congr_right fun _ => ?_)
  have hnone : Reader.firstOf ([] : List (Reader α)) .document item ≠ .ok a := by
    simp [Reader.firstOf, Reader.refuse]
  rw [Reader.firstOf_cons_eq_ok_iff]
  exact ⟨fun h => h.2.resolve_right fun hrest => hnone hrest.2, fun h => ⟨hholds, .inl h⟩⟩

/-- The first of several alternatives, when it does not refuse. -/
theorem Reader.firstOf_first {α : Type} {first : Reader α} {others : List (Reader α)} {item : Item}
    {a : α} (hholds : item.holdable = true) (hfirst : first .document item = .ok a) :
    Reader.firstOf (first :: others) .document item = .ok a :=
  Reader.firstOf_cons_eq_ok_iff.2 ⟨hholds, .inl hfirst⟩

/-- The second of two alternatives, when the first one refuses. -/
theorem Reader.firstOf_second {α : Type} {first second : Reader α} {item : Item} {a : α}
    (hholds : item.holdable = true) (hfirst : (first .document item).toOption = none)
    (hsecond : second .document item = .ok a) :
    Reader.firstOf [first, second] .document item = .ok a :=
  Reader.firstOf_eq_ok_iff.2 ⟨hholds, .inr ⟨hfirst, hsecond⟩⟩

/-- A trial of several forms that comes to nothing names no cause. -/
theorem Reader.firstOf_eq_refuse {α : Type} {alternatives : List (Reader α)} {m : Medium}
    {item : Item} (h : ∀ a, Reader.firstOf alternatives m item ≠ .ok a) :
    Reader.firstOf alternatives m item = Reader.refuse := by
  cases hread : Reader.firstOf alternatives m item with
  | ok a => exact absurd hread (h a)
  | error fault =>
    unfold Reader.firstOf at hread
    split at hread
    · split at hread <;> cases hread
      rfl
    · exact hread.symm

/-- In a binary document alternatives are tried like in any other, as far as it goes down. -/
theorem Reader.firstOf_binary {α : Type} (alternatives : List (Reader α)) {levels : Nat}
    {item : Item} (h : item.depth ≤ levels) :
    Reader.firstOf alternatives (.binary levels) item =
      Reader.firstOf alternatives .document item := by
  have hholds : (Medium.binary levels).holds item = Medium.document.holds item := by
    simp only [Medium.holds, h, decide_true, Bool.and_true]
  unfold Reader.firstOf
  rw [hholds]

theorem Reader.choice_object (name : String) (body : Json) :
    Reader.choice .document (Json.object [(name, body)]).item = .ok (name, some body.item) := rfl

/-- See `Reader.choice_object`. -/
theorem Reader.choice_object_eq_ok {members : List (String × Json)} {name : String}
    {beside : Option Item}
    (h : Reader.choice .document (Json.object members).item = .ok (name, beside)) :
    ∃ body, members = [(name, body)] ∧ beside = some body.item := by
  match members with
  | [] => cases h
  | [(k, body)] =>
    rw [Reader.choice_object] at h
    cases h
    exact ⟨body, rfl, rfl⟩
  | _ :: _ :: _ => cases h

theorem Reader.named_object {α : Type} (read : Reader α) (name : String) (value : Json) :
    Reader.named read .document (Json.object [(name, value)]).item =
      (read .document value.item).map fun a => [(name, a)] := by
  show (do
    let a ← read .document value.item
    return (name, a)) >>= (fun e => pure [e]) = _
  cases read .document value.item <;> rfl

theorem Json.decodeValue_of_read {α : Type} [Portable α] {j : Json} {a : α}
    (h : Portable.read .document j.item = .ok a) : Json.decodeValue j = .ok a := by
  simp only [Json.decodeValue, h]

theorem Json.read_of_decodeValue {α : Type} [Portable α] {j : Json} {a : α}
    (h : Json.decodeValue j = .ok a) : Portable.read .document j.item = .ok a := by
  unfold Json.decodeValue at h
  split at h
  · cases h
  · next hread =>
    cases h
    exact hread

end ChainFollower
