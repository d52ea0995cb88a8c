import ChainFollower.Item.Record

/-!
# What a record needs

Reading a record of a document succeeds exactly if the item has the shape of the record, and each
field has a value that its reader takes or may be absent.  The shape is said without the reader: no
field comes twice among the entries of a map, or an array has no more items than there are fields.

Main statements: `Record.exists_holds` and `Record.shape_of_read`, and `Record.shape_sorted` for the
objects that are passed on unread.
-/

namespace ChainFollower

/-! ## Outcomes of fields -/

/-- Both steps succeed, -/
theorem bind_eq_ok {ε α β : Type} {x : Except ε α} {f : α → Except ε β} {b : β} :
    (x >>= f) = .ok b ↔ ∃ a, x = .ok a ∧ f a = .ok b := by
  cases x with
  | error e => simp [bind, Except.bind]
  | ok a => simp [bind, Except.bind]

/-- or one of them fails. -/
theorem bind_eq_error {ε α β : Type} {x : Except ε α} {f : α → Except ε β} {e : ε} :
    (x >>= f) = .error e ↔ x = .error e ∨ ∃ a, x = .ok a ∧ f a = .error e := by
  cases x <;> simp [bind, Except.bind]

/-- What is made of an outcome comes from a success, -/
theorem map_eq_ok {ε α β : Type} {f : α → β} {x : Except ε α} {b : β} :
    x.map f = .ok b ↔ ∃ a, x = .ok a ∧ f a = b := by
  cases x <;> simp [Except.map]

/-- and failures stay as they are. -/
theorem map_eq_error {ε α β : Type} {f : α → β} {x : Except ε α} {e : ε} :
    x.map f = .error e ↔ x = .error e := by
  cases x <;> simp [Except.map]

/-- A change of failures leaves the successes. -/
theorem mapError_eq_ok {ε ε' α : Type} {f : ε → ε'} {x : Except ε α} {a : α} :
    x.mapError f = .ok a ↔ x = .ok a := by
  cases x with
  | error e => exact ⟨nofun, nofun⟩
  | ok b =>
    constructor
    · rintro ⟨⟩
      rfl
    · rintro ⟨⟩
      rfl

namespace Placed

variable {α β : Type}

/-- A field and those before it succeed together. -/
theorem seq_eq_ok {f : Placed (α → β)} {a : Placed α} {b : β} :
    (f <*> a).outcome = .ok b ↔ ∃ g x, f.outcome = .ok g ∧ a.outcome = .ok x ∧ g x = b := by
  show (combine f a).outcome = .ok b ↔ _
  unfold combine
  cases f.outcome <;> cases a.outcome <;> simp

/-- The first field alone. -/
theorem map_eq_ok {f : α → β} {a : Placed α} {b : β} :
    (f <$> a).outcome = .ok b ↔ ∃ x, a.outcome = .ok x ∧ f x = b := by
  show (combine (pure f) a).outcome = .ok b ↔ _
  simp only [combine, pure]
  cases a.outcome <;> simp

end Placed

/-! ## Shapes -/

/-- A map with texts for keys. -/
def Item.named (entries : List (String × Item)) : Item :=
  .map (entries.map fun e => (.text e.1, e.2))

/-- A map of names tells its entries. -/
theorem Item.named_inj {a b : List (String × Item)} (h : named a = named b) : a = b := by
  have hmap := Item.map.inj h
  refine (List.map_inj_right fun x y hxy => ?_).1 hmap
  obtain ⟨hname, hvalue⟩ := Prod.mk.inj hxy
  exact Prod.ext (Item.text.inj hname) hvalue

namespace Record

/-- The field that a text as a key means. -/
def field? (names : FieldNames) (key : String) : Option String := fieldOf? names (.name key)

/-- The value of a field: of the first entry whose key means it. -/
def valueOf? (names : FieldNames) (entries : List (String × Item)) (field : String) :
    Option Item :=
  (entries.find? fun e => field? names e.1 == some field).map (·.2)

/-- No field comes twice, and what is no field can be passed over. -/
structure Regular (names : FieldNames) (entries : List (String × Item)) : Prop where
  once : (entries.filterMap fun e => field? names e.1).Nodup
  passable : ∀ e ∈ entries, field? names e.1 = none → e.2.passable = true

/-- The item has the shape of a record, and its fields have these values. -/
inductive Shape (names : FieldNames) : Item → (String → Option Item) → Prop
  | named {entries : List (String × Item)} (h : Regular names entries) :
      Shape names (.named entries) (valueOf? names entries)
  | positional {items : List Item} (h : items.length ≤ names.length) :
      Shape names (.array items) fun field => ((names.map (·.1)).zip items).lookup field

/-- The record holds these values of its fields, and nothing stopped it. -/
structure Holds (r : Record) (values : String → Option Item) : Prop where
  medium : r.medium = .document
  stop : r.stop = none
  find? : ∀ field, (r.find? field).map (·.2) = values field

/-! ## Entries of a map -/

/-- In a document a text is a name as it stands. -/
theorem name_text (key : String) : Reader.name .document (.text key) = .ok (.name key) := rfl

/-- What `collect` does with the first entry. -/
theorem collect_cons (names : FieldNames) (place : Nat) (found : List (String × Nat × Item))
    (key : String) (value : Item) (rest : List (Item × Item)) :
    collect .document names place found ((.text key, value) :: rest) =
      match field? names key with
      | some field =>
        if found.any fun f => f.1 == field then ⟨.document, found, some place, place⟩
        else collect .document names (place + 1) (found ++ [(field, place, value)]) rest
      | none =>
        if value.passable then collect .document names (place + 1) found rest
        else ⟨.document, found, some place, place⟩ := by
  rw [collect, name_text]
  rfl

/-- Whether a field has been found, as a test and as a fact. -/
theorem any_field_iff {found : List (String × Nat × Item)} {field : String} :
    (found.any fun f => f.1 == field) = true ↔ field ∈ found.map (·.1) := by
  simp only [List.any_eq_true, beq_iff_eq, List.mem_map]

/-- Nothing stops the collection of entries exactly if no field comes twice, those found before
included, and what is no field can be passed over. -/
theorem stop_collect_iff {names : FieldNames} {entries : List (String × Item)} {place : Nat}
    {found : List (String × Nat × Item)} (hfound : (found.map (·.1)).Nodup) :
    (collect .document names place found (entries.map fun e => (.text e.1, e.2))).stop = none ↔
      (found.map (·.1) ++ entries.filterMap fun e => field? names e.1).Nodup ∧
        ∀ e ∈ entries, field? names e.1 = none → e.2.passable = true := by
  -- Along the entries the fields found so far grow, so both kinds of fields are in the statement.
  induction entries generalizing place found with
  | nil => simp [collect, hfound]
  | cons e rest ih =>
    obtain ⟨key, value⟩ := e
    rw [List.map_cons, collect_cons]
    cases hfield : field? names key with
    | none =>
      simp only [List.filterMap_cons, hfield, List.forall_mem_cons, true_implies]
      by_cases hvalue : value.passable = true
      · simp only [hvalue, if_true, true_and]
        exact ih hfound
      · simp [hvalue]
    | some field =>
      simp only [List.filterMap_cons, hfield, List.forall_mem_cons, reduceCtorEq, false_implies,
        true_and]
      -- A field that was found before stops the record, and then the names are not distinct.
      by_cases hany : (found.any fun f => f.1 == field) = true
      · have htwice : ¬ (found.map (·.1) ++
            field :: rest.filterMap fun e => field? names e.1).Nodup := by
          intro hnodup
          exact (List.nodup_append.1 hnodup).2.2 field (any_field_iff.1 hany) field (by simp) rfl
        simp [hany, htwice]
      · have hnot : field ∉ found.map (·.1) := fun hmem => hany (any_field_iff.2 hmem)
        have hnodup : ((found ++ [(field, place, value)]).map (·.1)).Nodup := by
          rw [List.map_append, List.nodup_append]
          refine ⟨hfound, by simp, fun a ha b hb hab => ?_⟩
          rw [List.map_singleton, List.mem_singleton] at hb
          rw [hab, hb] at ha
          exact hnot ha
        rw [if_neg hany, ih hnodup, List.map_append, List.append_assoc]
        rfl

/-- Nothing stops the record of regular entries, and of no others. -/
theorem stop_eq_none_iff (names : FieldNames) (entries : List (String × Item)) :
    (collect .document names 0 [] (entries.map fun e => (.text e.1, e.2))).stop = none ↔
      Regular names entries := by
  have hnodup : ([] : List (String × Nat × Item)).map (·.1) |>.Nodup := List.nodup_nil
  rw [stop_collect_iff hnodup]
  exact ⟨fun ⟨once, passable⟩ => ⟨once, passable⟩, fun ⟨once, passable⟩ => ⟨once, passable⟩⟩

/-- What a record holds after nothing has stopped it. -/
theorem find?_collect {names : FieldNames} {entries : List (String × Item)} {place : Nat}
    {found : List (String × Nat × Item)}
    (hstop : (collect .document names place found
      (entries.map fun e => (.text e.1, e.2))).stop = none) (field : String) :
    ((collect .document names place found (entries.map fun e => (.text e.1, e.2))).find? field).map
        (·.2) =
      ((found.lookup field).map (·.2)).or (valueOf? names entries field) := by
  -- The first entry either means the field or leaves it to the rest.
  induction entries generalizing place found with
  | nil => simp [collect, Record.find?, valueOf?]
  | cons e rest ih =>
    obtain ⟨key, value⟩ := e
    rw [List.map_cons, collect_cons] at hstop ⊢
    have hvalue : valueOf? names ((key, value) :: rest) field =
        if field? names key = some field then some value else valueOf? names rest field := by
      simp only [valueOf?, List.find?_cons]
      by_cases h : field? names key = some field
      · simp [h]
      · have hfalse : (field? names key == some field) = false := by simpa using h
        simp [h, hfalse]
    rw [hvalue]
    cases hfield : field? names key with
    | none =>
      simp only [hfield, reduceCtorEq, if_false] at hstop ⊢
      split at hstop
      · next hpass =>
        rw [if_pos hpass]
        exact ih hstop
      · cases hstop
    | some other =>
      simp only [hfield] at hstop ⊢
      split at hstop
      · cases hstop
      · next hany =>
        rw [if_neg hany, ih hstop, List.lookup_append]
        by_cases h : other = field
        -- The field itself: what was found before counts, and it has none before.
        · subst h
          cases found.lookup other <;> simp
        · have hfalse : (field == other) = false := beq_eq_false_iff_ne.2 (Ne.symm h)
          simp [List.lookup_cons, hfalse, h]

/-! ## Items of an array -/

/-- The items of an array lie beside the names of fields, whatever their places are counted from. -/
theorem lookup_zip_places (names : FieldNames) (items : List Item) (place : Nat) (field : String) :
    ((((names.zip items).zipIdx place).map fun e => (e.1.1.1, e.2, e.1.2)).lookup field).map (·.2) =
      ((names.map (·.1)).zip items).lookup field := by
  -- The places go on counting, so they are in the statement.
  induction names generalizing items place with
  | nil => rfl
  | cons name names ih =>
    cases items with
    | nil => rfl
    | cons item items =>
      simp only [List.map_cons, List.zip_cons_cons, List.zipIdx_cons, List.lookup_cons]
      cases field == name.1 with
      | true => rfl
      | false => exact ih items (place + 1)

/-! ## Records -/

/-- Collecting entries does not change the medium. -/
theorem medium_collect {m : Medium} {names : FieldNames} {place : Nat}
    {found : List (String × Nat × Item)} {entries : List (Item × Item)} :
    (collect m names place found entries).medium = m := by
  -- Each step stops or goes on, and the medium is the same in both.
  induction entries generalizing place found with
  | nil => rfl
  | cons e rest ih =>
    unfold collect
    split
    · rfl
    · split
      · split
        · rfl
        · exact ih
      · split
        · exact ih
        · rfl

/-- An item of the shape of a record is one. -/
theorem ofItem_of_shape {names : FieldNames} {item : Item} {values : String → Option Item}
    (h : Shape names item values) :
    ∃ r, ofItem .document names item = .ok r ∧ r.Holds values := by
  cases h with
  | @named entries h =>
    have hstop := (stop_eq_none_iff names entries).2 h
    refine ⟨_, rfl, medium_collect, hstop, fun field => ?_⟩
    rw [find?_collect hstop]
    rfl
  | @positional items h =>
    exact ⟨_, rfl, rfl, if_neg (Nat.not_lt.2 h), lookup_zip_places names items 0⟩

/-- A document's item: a map has texts for keys, and its length was announced. -/
inductive Documented : Item → Prop
  | named (entries : List (String × Item)) : Documented (.named entries)
  | other {item : Item} (h : item.entries? = none) : Documented item

/-- A record that nothing stopped has the shape of one. -/
theorem shape_of_ofItem {names : FieldNames} {item : Item} (hitem : Documented item) {r : Record}
    (hr : ofItem .document names item = .ok r) (hstop : r.stop = none) :
    ∃ values, Shape names item values ∧ r.Holds values := by
  -- The shape is enough, because an item is a record in one way only.
  suffices hshape : ∃ values, Shape names item values by
    obtain ⟨values, hshape⟩ := hshape
    obtain ⟨r', hr', hholds⟩ := ofItem_of_shape hshape
    rw [hr] at hr'
    cases hr'
    exact ⟨values, hshape, hholds⟩
  cases hitem with
  | named entries =>
    cases hr
    exact ⟨_, .named ((stop_eq_none_iff names entries).1 hstop)⟩
  | other h =>
    cases item with
    | array items =>
      cases hr
      refine ⟨_, .positional (Nat.not_lt.1 fun hlong => ?_)⟩
      simp [positional, hlong] at hstop
    | map entries => cases h
    | streamedMap entries => cases h
    | _ => cases hr

/-- A record yields what its fields do if nothing stopped it. -/
theorem finish_eq_ok {α : Type} {r : Record} {fields : Placed α} {a : α} :
    r.finish fields = .ok a ↔ r.stop = none ∧ fields.outcome = .ok a := by
  unfold finish
  cases r.stop with
  | none => cases fields.outcome <;> simp
  -- A record that was stopped fails, if not for its fields then for what stopped it.
  | some place =>
    cases fields.outcome with
    | ok _ => simp [Reader.refuse]
    | error e =>
      simp only [reduceCtorEq, false_and, iff_false]
      split <;> simp [Reader.refuse]

section Fields

variable {α : Type} {names : FieldNames} {item : Item} {values : String → Option Item}

/-- An item of the shape of a record is read exactly if the fields are that it holds. -/
theorem exists_holds (h : Shape names item values) : ∃ r : Record, r.Holds values ∧
    ∀ (fields : Record → Placed α) (a : α),
      read names fields .document item = .ok a ↔ (fields r).outcome = .ok a := by
  obtain ⟨r, hr, hholds⟩ := ofItem_of_shape h
  refine ⟨r, hholds, fun fields a => ?_⟩
  have hread : read names fields .document item = r.finish (fields r) := by
    rw [read, hr]
    rfl
  rw [hread, finish_eq_ok, hholds.stop]
  exact ⟨And.right, fun hfields => ⟨rfl, hfields⟩⟩

/-- What is read as a record has the shape of one. -/
theorem shape_of_read (hitem : Documented item) {fields : Record → Placed α} {a : α}
    (h : read names fields .document item = .ok a) : ∃ values, Shape names item values := by
  unfold read at h
  cases hr : ofItem .document names item with
  | error e =>
    rw [hr] at h
    cases h
  | ok r =>
    rw [hr] at h
    obtain ⟨values, hshape, _⟩ := shape_of_ofItem hitem hr (finish_eq_ok.1 h).1
    exact ⟨values, hshape⟩

/-- What a field is read as: its value by the reader, or what stands for an absent one. -/
def Given (read : Reader α) (absent : α) (value : Option Item) (a : α) : Prop :=
  match value with
  | some item => read .document item = .ok a
  | none => a = absent

/-- A required field is read from its value. -/
theorem getRequired_eq_ok {r : Record} (h : r.Holds values) {field : String} {read : Reader α}
    {a : α} : (r.getRequired field read).outcome = .ok a ↔
      ∃ item, values field = some item ∧ read .document item = .ok a := by
  have hvalue := h.find? field
  unfold getRequired
  -- The value that was found is the one that the record holds.
  cases hfind : r.find? field with
  | none =>
    rw [hfind] at hvalue
    simp [← hvalue]
  | some place =>
    obtain ⟨place, item⟩ := place
    rw [hfind] at hvalue
    simp only [← hvalue, h.medium, Option.map_some, Option.some.injEq, exists_eq_left']
    cases read .document item <;> simp

/-- Any other field is given its value or its default. -/
theorem getWith_eq_ok {r : Record} (h : r.Holds values) {field : String} {read : Reader α}
    {absent a : α} :
    (r.getWith field read absent).outcome = .ok a ↔ Given read absent (values field) a := by
  have hvalue := h.find? field
  unfold getWith
  -- Without a value the default is given, and with one the field is read as a required one.
  cases hfind : r.find? field with
  | none =>
    rw [hfind] at hvalue
    simp only [← hvalue, Option.map_none, Given, Except.ok.injEq]
    exact eq_comm
  | some place =>
    obtain ⟨place, item⟩ := place
    rw [hfind] at hvalue
    simp only [getRequired_eq_ok h, ← hvalue, Option.map_some, Given, Option.some.injEq,
      exists_eq_left']

end Fields

/-! ### Records of any medium -/

/-- A field that is called by its own name for the first time is collected. -/
theorem collect_field {m : Medium} {names : FieldNames} {place : Nat}
    {found : List (String × Nat × Item)} {name : String} {value : Item} {rest : List (Item × Item)}
    (takes : Reader.name m (.text name) = .ok (.name name)) (own : field? names name = some name)
    (fresh : (found.any fun f => f.1 == name) = false) :
    collect m names place found ((.text name, value) :: rest) =
      collect m names (place + 1) (found ++ [(name, place, value)]) rest := by
  have own : fieldOf? names (.name name) = some name := own
  rw [collect, takes]
  simp [own, fresh]

/-- The fields that are collected are entries of the map. -/
theorem mem_fields_collect {m : Medium} {names : FieldNames} {place : Nat}
    {found : List (String × Nat × Item)} {entries : List (Item × Item)} {f : String × Nat × Item}
    (h : f ∈ (collect m names place found entries).fields) :
    f ∈ found ∨ ∃ k, (k, f.2.2) ∈ entries := by
  induction entries generalizing place found with
  | nil => exact .inl h
  | cons e rest ih =>
    obtain ⟨k, v⟩ := e
    have later {found' : List (String × Nat × Item)} {place' : Nat}
        (h : f ∈ (collect m names place' found' rest).fields) :
        f ∈ found' ∨ ∃ k', (k', f.2.2) ∈ (k, v) :: rest :=
      (ih h).imp_right fun ⟨k', hrest⟩ => ⟨k', List.mem_cons_of_mem _ hrest⟩
    unfold collect at h
    split at h
    · exact .inl h
    · split at h
      · split at h
        · exact .inl h
        · -- The entry itself is the field that has been found last.
          refine (later h).elim (fun hfound => ?_) .inr
          refine (List.mem_append.1 hfound).imp_right fun hnew => ?_
          rw [List.mem_singleton.1 hnew]
          exact ⟨k, List.mem_cons_self⟩
      · split at h
        · exact later h
        · exact .inl h

section Find

variable {α : Type} {r : Record} {field : String} {place : Nat} {item : Item} {read : Reader α}

/-- A required field that was read had been found. -/
theorem exists_of_getRequired {a : α} (h : (r.getRequired field read).outcome = .ok a) :
    ∃ place item, r.find? field = some (place, item) ∧ read r.medium item = .ok a := by
  unfold getRequired at h
  split at h
  -- The field was found, and its reader did not fail.
  · next place item hfind =>
    cases hread : read r.medium item with
    | ok b =>
      rw [hread] at h
      cases h
      exact ⟨place, item, hfind, hread⟩
    | error fault =>
      rw [hread] at h
      cases h
  · cases h

/-- A field that was found is read, -/
theorem getRequired_of_find (hfind : r.find? field = some (place, item)) {a : α}
    (h : read r.medium item = .ok a) : r.getRequired field read = ⟨.ok a⟩ := by
  simp [getRequired, hfind, h]

/-- also where it could have been absent, -/
theorem getWith_of_find (hfind : r.find? field = some (place, item)) {a absent : α}
    (h : read r.medium item = .ok a) : r.getWith field read absent = ⟨.ok a⟩ := by
  simp [getWith, hfind, getRequired_of_find hfind h]

/-- and one that was not found takes its default. -/
theorem getWith_of_absent (hfind : r.find? field = none) (absent : α) :
    r.getWith field read absent = ⟨.ok absent⟩ := by
  simp [getWith, hfind]

end Find

end Record

/-! ## Members of a document -/

namespace Entries

variable {α : Type}

/-- Entries that are put in later win over those that are there. -/
theorem lookup_foldl_insert {entries acc : List (String × α)} (h : Ascending acc) (key : String) :
    (entries.foldl (fun sorted e => insert e.1 e.2 sorted) acc).lookup key =
      (entries.reverse.lookup key).or (acc.lookup key) := by
  induction entries generalizing acc with
  | nil => rfl
  | cons e rest ih =>
    obtain ⟨k, v⟩ := e
    rw [List.foldl_cons, ih (ascending_insert h), lookup_insert k v key h, List.reverse_cons,
      List.lookup_append, lookup_cons]
    -- What comes later in the list has been put in last, and is found first.
    cases rest.reverse.lookup key with
    | some w => rfl
    | none => split <;> rfl

/-- What is found under a name is an entry. -/
theorem mem_of_lookup {entries : List (String × α)} {key : String} {v : α}
    (h : entries.lookup key = some v) : (key, v) ∈ entries := by
  obtain ⟨before, after, rfl, -⟩ := List.lookup_eq_some_iff.1 h
  exact List.mem_append_right _ List.mem_cons_self

/-- Of several entries with one name the last is kept. -/
theorem lookup_sort (entries : List (String × α)) (key : String) :
    (sort entries).lookup key = entries.reverse.lookup key := by
  rw [sort, lookup_foldl_insert .nil]
  exact Option.or_none

/-- Sorting adds no entry. -/
theorem mem_sort {entries : List (String × α)} {e : String × α} (h : e ∈ sort entries) :
    e ∈ entries := by
  -- The sorted entries grow from those put in so far, of which there are none at first.
  suffices ∀ acc : List (String × α),
      e ∈ entries.foldl (fun sorted e => insert e.1 e.2 sorted) acc → e ∈ entries ∨ e ∈ acc by
    rcases this [] h with h | h
    · exact h
    · cases h
  clear h
  induction entries with
  | nil => exact fun acc h => .inr h
  | cons f rest ih =>
    intro acc h
    rcases ih _ h with h | h
    · exact .inl (List.mem_cons_of_mem _ h)
    · rcases mem_insert h with h | h
      · exact .inl (by simp [h])
      · exact .inr h

/-- An entry whose name comes once is found from either end. -/
theorem lookup_reverse {entries : List (String × α)} {key : String}
    (h : entries.Pairwise fun a b => ¬ (a.1 = key ∧ b.1 = key)) :
    entries.reverse.lookup key = entries.lookup key := by
  induction entries with
  | nil => rfl
  | cons e rest ih =>
    obtain ⟨k, v⟩ := e
    obtain ⟨hfirst, hrest⟩ := List.pairwise_cons.1 h
    rw [List.reverse_cons, List.lookup_append, ih hrest, lookup_cons, lookup_cons]
    -- The first entry is found last from the other end: nothing behind it may have its name.
    by_cases hkey : key = k
    · have hnone : rest.lookup key = none := by
        apply List.lookup_eq_none_iff.2
        intro e he
        exact bne_iff_ne.2 fun heq => hfirst e he ⟨hkey.symm, heq.symm⟩
      simp [hkey ▸ hnone, hkey]
    · simp [hkey]

/-- Entries in order stay as they are. -/
theorem sort_of_ascending {entries : List (String × α)} (h : Ascending entries) :
    sort entries = entries := by
  apply eq_of_lookup (ascending_sort entries) h
  intro key
  rw [lookup_sort, lookup_reverse]
  apply h.imp
  intro a b hlt hboth
  rw [hboth.1, hboth.2] at hlt
  exact String.lt_irrefl _ hlt

/-- Related first entries, and related rests, find related values. -/
theorem rel_lookup_cons {α β : Type} {p : α → β → Prop} {as : List (String × α)}
    {bs : List (String × β)} {name key : String} {a : α} {b : β} (hab : p a b)
    (hrest : Option.Rel p (as.reverse.lookup key) (bs.reverse.lookup key)) :
    Option.Rel p (((name, a) :: as).reverse.lookup key) (((name, b) :: bs).reverse.lookup key) := by
  rw [List.reverse_cons, List.reverse_cons, List.lookup_append, List.lookup_append, lookup_cons,
    lookup_cons]
  -- The rest decides where it has the name, and the first entry decides elsewhere.
  revert hrest
  generalize List.lookup key as.reverse = found
  generalize List.lookup key bs.reverse = found'
  rintro (hfound | ⟨⟩)
  · exact .some hfound
  · by_cases hkey : key = name
    · simp only [hkey, if_true]
      exact .some hab
    · simp only [hkey, if_false]
      exact .none

/-- A change of values changes what is found, -/
theorem lookup_map {β : Type} (f : α → β) (entries : List (String × α)) (key : String) :
    (entries.map fun e => (e.1, f e.2)).lookup key = (entries.lookup key).map f := by
  induction entries with
  | nil => rfl
  | cons e rest ih =>
    rw [List.map_cons, List.lookup_cons, List.lookup_cons]
    cases key == e.1 with
    | true => rfl
    | false => exact ih

/-- also beside names. -/
theorem lookup_zip_map {β : Type} (f : α → β) (keys : List String) (as : List α) (key : String) :
    (keys.zip (as.map f)).lookup key = ((keys.zip as).lookup key).map f := by
  rw [← lookup_map, List.zip_map_right]
  rfl

/-- What lies beside names lies beside one of them. -/
theorem exists_lookup_of_mem : ∀ {names : List String} {as : List α},
    names.Nodup → as.length ≤ names.length → ∀ a ∈ as, ∃ name ∈ names,
      (names.zip as).lookup name = some a
  | _, [], _, _ => List.forall_mem_nil _
  | [], _ :: _, _, hlength => absurd hlength (Nat.not_succ_le_zero _)
  | name :: names, a :: as, hnames, hlength => by
    obtain ⟨hfirst, hnames⟩ := List.nodup_cons.1 hnames
    refine List.forall_mem_cons.2 ⟨⟨name, List.mem_cons_self, ?_⟩, fun b hb => ?_⟩
    · rw [List.zip_cons_cons, List.lookup_cons_self]
    · obtain ⟨other, hother, hlookup⟩ :=
        exists_lookup_of_mem hnames (Nat.le_of_succ_le_succ hlength) b hb
      -- The name is another one, since no name comes twice, and the first pair does not hide it.
      have hne : other ≠ name := fun heq => hfirst (heq ▸ hother)
      refine ⟨other, List.mem_cons_of_mem _ hother, ?_⟩
      rw [List.zip_cons_cons, lookup_cons, if_neg hne]
      exact hlookup

/-- In order a name has one entry. -/
theorem filter_key_of_lookup {entries : List (String × α)} {key : String} {v : α}
    (h : Ascending entries) (hv : entries.lookup key = some v) :
    (entries.filter fun e => e.1 == key) = [(key, v)] := by
  induction entries with
  | nil => cases hv
  | cons e rest ih =>
    obtain ⟨k, w⟩ := e
    obtain ⟨hfirst, hrest⟩ := List.pairwise_cons.1 h
    rw [lookup_cons] at hv
    rw [List.filter_cons]
    by_cases hk : key = k
    · subst hk
      rw [if_pos rfl] at hv
      cases hv
      -- Names ascend, so none behind the first has its name.
      have hnone : (rest.filter fun e => e.1 == key) = [] := by
        apply List.filter_eq_nil_iff.2
        intro e he heq
        exact String.lt_irrefl _ (beq_iff_eq.1 heq ▸ hfirst e he)
      simp [hnone]
    · rw [if_neg hk] at hv
      have hfalse : (k == key) = false := beq_eq_false_iff_ne.2 (Ne.symm hk)
      simpa [hfalse] using ih hrest hv

/-- Without the entries of another name the same is found, -/
theorem lookup_filter_key {entries : List (String × α)} {key name : String} (h : key ≠ name) :
    (entries.filter fun e => !(e.1 == name)).lookup key = entries.lookup key := by
  induction entries with
  | nil => rfl
  | cons e rest ih =>
    obtain ⟨k, v⟩ := e
    rw [List.filter_cons, lookup_cons]
    -- The entry that is left out has another name than the one looked for.
    by_cases hk : k = name
    · have hkey : key ≠ k := hk ▸ h
      simp only [hk, beq_self_eq_true, Bool.not_true, Bool.false_eq_true, if_false, if_neg h]
      exact ih
    · simp only [beq_eq_false_iff_ne.2 hk, Bool.not_false, if_true, lookup_cons]
      exact congrArg _ ih

/-- and so among the entries of that name alone. -/
theorem lookup_filter_self (entries : List (String × α)) (key : String) :
    (entries.filter fun e => e.1 == key).lookup key = entries.lookup key := by
  induction entries with
  | nil => rfl
  | cons e rest ih =>
    obtain ⟨k, v⟩ := e
    rw [List.filter_cons, lookup_cons]
    by_cases hk : key = k
    · simp only [hk, beq_self_eq_true, if_true, List.lookup_cons_self]
    · simp only [beq_eq_false_iff_ne.2 (Ne.symm hk), Bool.false_eq_true, if_false, if_neg hk, ih]

end Entries

namespace Json

/-- Members as entries of a map. -/
def fields (members : List (String × Json)) : List (String × Item) :=
  members.map fun m => (m.1, m.2.item)

/-- An object is a map of names. -/
theorem item_object (members : List (String × Json)) :
    (Json.object members).item = .named (fields members) := by
  have hentries : entriesOf members = (fields members).map fun e => (.text e.1, e.2) := by
    induction members with
    | nil => rfl
    | cons m rest ih =>
      rw [entriesOf, ih]
      rfl
  rw [item, hentries]
  rfl

/-- What is found among the members, as an item. -/
theorem lookup_fields (members : List (String × Json)) (key : String) :
    (fields members).lookup key = (members.lookup key).map item :=
  Entries.lookup_map item members key

/-- Members that can be held make a map that can. -/
theorem holdable_entries {members : List (String × Json)}
    (h : ∀ m ∈ members, m.2.item.holdable = true) :
    Item.holdableEntries (entriesOf members) = true := by
  induction members with
  | nil => rfl
  | cons m rest ih =>
    have hrest := ih fun m hm => h m (List.mem_cons_of_mem _ hm)
    rw [entriesOf, Item.holdableEntries, h m (by simp), hrest]
    rfl

/-- A sorted object of parts that can be held can be held itself. -/
theorem holdable_sorted {members : List (String × Json)}
    (h : ∀ m ∈ members, m.2.item.holdable = true) :
    (Json.object (Entries.sort members)).item.holdable = true :=
  holdable_entries fun m hm => h m (Entries.mem_sort hm)

/-- In a sorted object the last member of a name counts. -/
theorem member?_sorted (members : List (String × Json)) (name : String) :
    (Json.object (Entries.sort members)).member? name = members.reverse.lookup name :=
  Entries.lookup_sort members name

/-- The test for `null`, -/
theorem isNull_iff {j : Json} : j.isNull = true ↔ j = .null := by
  cases j <;> simp [isNull]

/-- and `null` among items. -/
theorem item_eq_null_iff {j : Json} : j.item = .null ↔ j = .null := by
  cases j <;> simp [item]

/-- A member of a sorted object is there unless it is `null`. -/
theorem present?_sorted {members : List (String × Json)} {name : String} {j : Json}
    (h : members.reverse.lookup name = some j) :
    (Json.object (Entries.sort members)).present? name = (some j).filter fun v => !v.isNull := by
  rw [present?, member?_sorted, h]

/-- A member that is there is not `null`, -/
theorem present?_eq_some {j k : Json} {name : String} :
    j.present? name = some k ↔ j.member? name = some k ∧ k.isNull = false := by
  simp [present?, Option.filter_eq_some_iff]

/-- and one that is not there is `null` at most. -/
theorem present?_eq_none {j : Json} {name : String} :
    j.present? name = none ↔ ∀ k, j.member? name = some k → k = .null := by
  simp [present?, Option.filter_eq_none_iff, isNull_iff]

/-- Only objects have members. -/
theorem object_of_present? {j k : Json} {name : String} (h : j.present? name = some k) :
    ∃ members, j = .object members := by
  have hmember := (present?_eq_some.1 h).1
  cases j with
  | object members => exact ⟨members, rfl⟩
  | _ => cases hmember

mutual

/-- A document value can be passed over. -/
theorem passable_item : ∀ j : Json, j.item.passable = true
  | .null | .bool _ | .int _ | .float _ | .text _ => rfl
  | .array items => passable_items items
  | .object members => passable_entries members

/-- Items of a value can, and -/
theorem passable_items : ∀ items : List Json, Item.passableItems (itemsOf items) = true
  | [] => rfl
  | j :: rest => by
    rw [itemsOf, Item.passableItems, passable_item j, passable_items rest]
    rfl

/-- so can its members. -/
theorem passable_entries : ∀ members : List (String × Json),
    Item.passableEntries (entriesOf members) = true
  | [] => rfl
  | (k, j) :: rest => by
    rw [entriesOf, Item.passableEntries, passable_item j, passable_entries rest]
    rfl

end

end Json

namespace Record

/-- No name stands in one of its other spellings. -/
def Primary {α : Type} (names : FieldNames) (entries : List (String × α)) : Prop :=
  ∀ e ∈ entries, ∀ field, field? names e.1 = some field → field = e.1

/-- Names without other spellings stand in their own. -/
theorem primary_of_plain {α : Type} {names : FieldNames} (h : names.all (·.2.isEmpty) = true)
    (entries : List (String × α)) : Primary names entries := by
  intro e _ field hfield
  obtain ⟨name, hfind, rfl⟩ := Option.map_eq_some_iff.1 hfield
  have hmem : name ∈ names := List.mem_of_find?_eq_some hfind
  have hplain : name.2 = [] := List.isEmpty_iff.1 (List.all_eq_true.1 h name hmem)
  have hkey := List.find?_some hfind
  simpa [hplain] using hkey

/-- What holds of names in an object holds of its fields. -/
theorem primary_fields {names : FieldNames} {members : List (String × Json)}
    (h : Primary names members) : Primary names (Json.fields members) := by
  intro e he
  obtain ⟨m, hm, rfl⟩ := List.mem_map.1 he
  exact h m hm

/-- The value of a field that stands in its own spelling. -/
theorem valueOf?_eq_lookup {names : FieldNames} {entries : List (String × Item)}
    (h : Primary names entries) {field : String} (hfield : field? names field = some field) :
    valueOf? names entries field = entries.lookup field := by
  induction entries with
  | nil => rfl
  | cons e rest ih =>
    have hrest := ih fun e he => h e (List.mem_cons_of_mem _ he)
    rw [valueOf?] at hrest ⊢
    rw [List.find?_cons, List.lookup_cons]
    -- A key that is not the field's name does not mean the field, as it stands in its own spelling.
    by_cases hkey : field = e.1
    · subst hkey
      simp [hfield]
    · have hother : (field? names e.1 == some field) = false :=
        beq_eq_false_iff_ne.2 fun heq => hkey (h e (by simp) field heq)
      rw [hother, beq_eq_false_iff_ne.2 hkey]
      exact hrest

/-- An object whose names differ has no field twice, as long as they stand in their own spelling. -/
theorem regular_fields {names : FieldNames} {members : List (String × Json)}
    (h : Primary names members) (hnames : (members.map (·.1)).Nodup) :
    Regular names (Json.fields members) where
  once := by
    induction members with
    | nil => exact List.nodup_nil
    | cons m rest ih =>
      obtain ⟨hfirst, hrest⟩ := List.nodup_cons.1 hnames
      have ih := ih (fun e he => h e (List.mem_cons_of_mem _ he)) hrest
      rw [Json.fields, List.map_cons, List.filterMap_cons]
      cases hm : field? names m.1 with
      | none => exact ih
      | some field =>
        -- A second key for the same field would be the same text, but the names differ.
        refine List.nodup_cons.2 ⟨fun hmem => ?_, ih⟩
        obtain ⟨e, he, hfield⟩ := List.mem_filterMap.1 hmem
        obtain ⟨n, hn, rfl⟩ := List.mem_map.1 he
        have hsame : n.1 = m.1 := by
          rw [← h n (List.mem_cons_of_mem _ hn) field hfield, h m (by simp) field hm]
        exact hfirst (List.mem_map.2 ⟨n, hn, hsame⟩)
  passable := fun e he _ => by
    obtain ⟨m, _, rfl⟩ := List.mem_map.1 he
    exact m.2.passable_item

/-- An object whose names differ has the shape of every record whose names stand in it in their own
spelling. -/
theorem shape_of_distinct (names : FieldNames) {members : List (String × Json)}
    (h : Primary names members) (hnames : (members.map (·.1)).Nodup) : ∃ values,
      Shape names (Json.object members).item values ∧
        ∀ field, field? names field = some field →
          values field = (members.lookup field).map Json.item := by
  rw [Json.item_object]
  refine ⟨_, .named (regular_fields h hnames), fun field hfield => ?_⟩
  rw [valueOf?_eq_lookup (primary_fields h) hfield, Json.lookup_fields]

/-- See `shape_of_distinct`; the names of an object in order differ. -/
theorem shape_of_ascending (names : FieldNames) {members : List (String × Json)}
    (h : Primary names members) (hascending : Entries.Ascending members) : ∃ values,
      Shape names (Json.object members).item values ∧
        ∀ field, field? names field = some field →
          values field = (members.lookup field).map Json.item := by
  apply shape_of_distinct names h
  apply List.pairwise_map.2
  apply hascending.imp
  intro a b hlt heq
  exact String.lt_irrefl _ (heq ▸ hlt)

/-- See `shape_of_ascending`; sorting puts an object in order. -/
theorem shape_sorted (names : FieldNames) (members : List (String × Json))
    (h : Primary names members) : ∃ values,
      Shape names (Json.object (Entries.sort members)).item values ∧
        ∀ field, field? names field = some field →
          values field = (members.reverse.lookup field).map Json.item := by
  have hsorted : Primary names (Entries.sort members) := fun m hm => h m (Entries.mem_sort hm)
  simp only [← Entries.lookup_sort]
  exact shape_of_ascending names hsorted (Entries.ascending_sort members)

/-- Reading a sorted object as a record whose names stand in it in their own spelling. -/
theorem read_sorted {α : Type} {names : FieldNames} {members : List (String × Json)}
    (h : Primary names members) {fields : Record → Placed α} {a : α}
    (hfields : ∀ (r : Record) (values : String → Option Item), r.Holds values →
      (∀ field, field? names field = some field →
        values field = (members.reverse.lookup field).map Json.item) →
      (fields r).outcome = .ok a) :
    read names fields .document (Json.object (Entries.sort members)).item = .ok a := by
  obtain ⟨values, hshape, hvalues⟩ := shape_sorted names members h
  -- The record is one of its fields' values, and nothing else matters about it.
  obtain ⟨r, hr, hread⟩ := exists_holds hshape
  exact (hread fields a).2 (hfields r values hr hvalues)

/-- In an object a record that must be a map is like any other. -/
theorem readMap_object {α : Type} (names : FieldNames) (fields : Record → Placed α)
    (members : List (String × Json)) :
    readMap names fields .document (Json.object members).item =
      read names fields .document (Json.object members).item := by
  rw [Json.item_object]
  rfl

end Record

end ChainFollower
