import ChainFollower.Proofs.Item.Records
import ChainFollower.Proofs.Json.Paths

/-!
# What readers of records skip

The value of a member that a record does not know is passed over: it has to be well formed, and
nothing else of it counts, neither how deep it is nor what numbers and texts stand in it.  So a
record is read the same whatever value stands there, and so is a record in one of its fields, as far
as the path leads.

Main statements: `Doc.Spells.passable`, `Record.read_of_unknown` and `Record.read_of_field`.
-/

namespace ChainFollower

/-! ## What is well formed can be passed over -/

namespace Doc

mutual

theorem SpellsBare.passable {d : Doc} {s : Octets} (h : SpellsBare d s) (levels : Nat) :
    (d.item levels).passable = true := by
  -- Only what is broken, or nested in something broken, cannot be passed over.
  cases h with
  | null | isTrue | isFalse => rfl
  | number =>
    show (Item.ofLiteral _).passable = true
    unfold Item.ofLiteral
    split <;> rfl
  | text =>
    show (Item.ofRaw _).passable = true
    unfold Item.ofRaw
    split <;> rfl
  | emptyArray | emptyObject => cases levels <;> rfl
  | array hitems =>
    cases levels with
    | zero => rw [item, if_pos (hitems.passable 0)]; rfl
    | succ levels => exact hitems.passable levels
  | object hmembers =>
    cases levels with
    | zero => rw [item, if_pos (hmembers.passable 0)]; rfl
    | succ levels => exact hmembers.passable levels

theorem SpellsItems.passable {ds : List Doc} {s : Octets} (h : SpellsItems ds s) (levels : Nat) :
    Item.passableItems (itemsOf levels ds) = true := by
  cases h with
  | one h =>
    obtain ⟨-, h, -⟩ := h
    rw [itemsOf, Item.passableItems, h.passable levels]
    rfl
  | more h hrest =>
    obtain ⟨-, h, -⟩ := h
    rw [itemsOf, Item.passableItems, h.passable levels, hrest.passable levels]
    rfl

theorem SpellsMembers.passable {ms : List (Octets × Doc)} {s : Octets} (h : SpellsMembers ms s)
    (levels : Nat) : Item.passableEntries (entriesOf levels ms) = true := by
  -- A name can be passed over even if it is no text.
  have hkey : ∀ raw, (Item.ofRaw raw).passable = true := fun raw => by
    unfold Item.ofRaw
    split <;> rfl
  cases h with
  | one _ _ _ h =>
    obtain ⟨-, h, -⟩ := h
    rw [entriesOf, Item.passableEntries, hkey, h.passable levels]
    rfl
  | more _ _ _ h hrest =>
    obtain ⟨-, h, -⟩ := h
    rw [entriesOf, Item.passableEntries, hkey, h.passable levels, hrest.passable levels]
    rfl

end

/-- A well-formed value can be passed over, with however few levels left to go down. -/
theorem Spells.passable {d : Doc} {s : Octets} (h : Spells d s) (levels : Nat) :
    (d.item levels).passable = true := by
  obtain ⟨-, h, -⟩ := h
  exact h.passable levels

end Doc

/-- The two items can be passed over, or differ in two such items below a path of names. -/
inductive Item.Apart : List String → Item → Item → Prop
  | here {i j : Item} (hi : i.passable = true) (hj : j.passable = true) : Apart [] i j
  | inside {name : String} {path : List String} {i j : Item} {before after : List (Item × Item)}
      (h : Apart path i j) :
      Apart (name :: path) (.map (before ++ (.text name, i) :: after))
        (.map (before ++ (.text name, j) :: after))

namespace Doc

theorem entriesOf_append (levels : Nat) (ms ns : List (Octets × Doc)) :
    entriesOf levels (ms ++ ns) = entriesOf levels ms ++ entriesOf levels ns := by
  induction ms with
  | nil => rfl
  | cons m ms ih => rw [List.cons_append, entriesOf, entriesOf, ih, List.cons_append]

/-- Trees that differ below a path are items that do, if there are levels enough to go down it. -/
theorem Apart.item {b b' : Doc} {s s' : Octets} (hs : Spells b s) (hs' : Spells b' s')
    {path : List String} {d d' : Doc} (h : Apart b b' path d d') {levels : Nat}
    (hlevels : path.length ≤ levels) : Item.Apart path (d.item levels) (d'.item levels) := by
  induction h generalizing levels with
  | here => exact .here (hs.passable levels) (hs'.passable levels)
  | @inside name path raw before after d d' hname _ ih =>
    obtain ⟨levels, rfl⟩ : ∃ l, levels = l + 1 := ⟨levels - 1, by simp at hlevels; omega⟩
    have hkey : Item.ofRaw raw = .text name := by rw [Item.ofRaw, hname]
    rw [Doc.item, Doc.item, entriesOf_append, entriesOf_append, entriesOf, entriesOf, hkey]
    exact .inside (ih (by simpa using hlevels))

end Doc

/-! ## Records -/

namespace Record

variable {names : FieldNames} {name field : String} {i j : Item} {before after : List (Item × Item)}

/-- Records of a document with the same fields at the same places, but for the item of one field. -/
structure Alike (field : String) (i j : Item) (r r' : Record) : Prop where
  medium : r.medium = .document
  medium' : r'.medium = .document
  stop : r.stop = r'.stop
  size : r.size = r'.size
  find? : ∀ f, r.find? f = r'.find? f ∨
    f = field ∧ ∃ place, r.find? f = some (place, i) ∧ r'.find? f = some (place, j)

theorem Alike.getWith {α : Type} {r r' : Record} (h : Alike field i j r r') {f : String}
    {read : Reader α} (hread : f = field → read .document i = read .document j) (absent : α) :
    r.getWith f read absent = r'.getWith f read absent := by
  unfold Record.getWith Record.getRequired
  rw [h.medium, h.medium', h.size]
  rcases h.find? f with hsame | ⟨hf, place, hi, hj⟩
  · rw [hsame]
  · rw [hi, hj]
    simp only [hread hf]

/-- The value of an unknown name is passed over. -/
theorem collect_of_unknown (hname : field? names name = none) (hi : i.passable = true)
    (hj : j.passable = true) (place : Nat) (found : List (String × Nat × Item)) :
    collect .document names place found (before ++ (.text name, i) :: after) =
      collect .document names place found (before ++ (.text name, j) :: after) := by
  induction before generalizing place found with
  | nil => simp only [List.nil_append, collect_cons, hname, hi, hj]
  | cons e before ih => simp only [List.cons_append, collect, ih]

/-- Of the fields that were found one may have another item. -/
theorem alike_of_found (place : Nat) (found found' : List (String × Nat × Item)) (stop : Option Nat)
    (size : Nat) : Alike field i j ⟨.document, found ++ (field, place, i) :: found', stop, size⟩
      ⟨.document, found ++ (field, place, j) :: found', stop, size⟩ := by
  refine ⟨rfl, rfl, rfl, rfl, fun f => ?_⟩
  simp only [Record.find?, List.lookup_append, Entries.lookup_cons]
  cases found.lookup f with
  | some => exact .inl rfl
  | none =>
    by_cases hf : f = field
    · exact .inr ⟨hf, place, by simp [hf], by simp [hf]⟩
    · exact .inl (by simp [hf])

/-- Behind the value of a field the entries are collected as before. -/
theorem alike_of_collect (at' : Nat) (found : List (String × Nat × Item)) (place : Nat)
    (found' : List (String × Nat × Item)) :
    Alike field i j (collect .document names place (found ++ (field, at', i) :: found') after)
      (collect .document names place (found ++ (field, at', j) :: found') after) := by
  -- Behind the field each entry is taken or stops both records alike.
  induction after generalizing place found' with
  | nil => exact alike_of_found ..
  | cons e after ih =>
    -- The same fields have been found on both sides.
    have hany : ∀ f, ((found ++ (field, at', i) :: found').any fun g => g.1 == f) =
        (found ++ (field, at', j) :: found').any fun g => g.1 == f := fun f => by simp
    obtain ⟨key, value⟩ := e
    simp only [collect, hany]
    cases Reader.name .document key with
    | error => exact alike_of_found ..
    | ok key =>
      simp only
      cases fieldOf? names key with
      | none =>
        simp only
        split
        · exact ih _ _
        · exact alike_of_found ..
      | some f =>
        simp only [List.append_assoc, List.cons_append]
        split
        · exact alike_of_found ..
        · exact ih _ _

theorem Alike.refl {r : Record} (h : r.medium = .document) : Alike field i j r r :=
  ⟨h, h, rfl, rfl, fun _ => .inl rfl⟩

theorem collect_of_field (hname : field? names name = some field) (place : Nat)
    (found : List (String × Nat × Item)) :
    Alike field i j (collect .document names place found (before ++ (.text name, i) :: after))
      (collect .document names place found (before ++ (.text name, j) :: after)) := by
  -- Before the field both sides collect the same entries.
  induction before generalizing place found with
  | nil =>
    simp only [List.nil_append, collect_cons, hname]
    split
    · exact .refl rfl
    · exact alike_of_collect ..
  | cons e before ih =>
    obtain ⟨key, value⟩ := e
    simp only [List.cons_append, collect]
    cases Reader.name .document key with
    | error => exact .refl rfl
    | ok key =>
      simp only
      cases fieldOf? names key with
      | none =>
        simp only
        split
        · exact ih _ _
        · exact .refl rfl
      | some f =>
        simp only
        split
        · exact .refl rfl
        · exact ih _ _

variable {α : Type} {fields : Record → Placed α}

/-- A record is read the same whatever stands below a name that it does not know. -/
theorem read_of_unknown (hname : field? names name = none) (h : Item.Apart [name] i j) :
    read names fields .document i = read names fields .document j := by
  cases h with
  | @inside _ _ i j before after h =>
    cases h with
    | here hi hj =>
      show (collect .document names 0 [] _).finish _ = (collect .document names 0 [] _).finish _
      rw [collect_of_unknown hname hi hj]

/-- A record is read the same whatever makes no difference to its fields. -/
theorem read_of_field {path : List String} (hname : field? names name = some field)
    (hfields : ∀ i j, Item.Apart path i j → ∀ r r', Alike field i j r r' → fields r = fields r')
    (h : Item.Apart (name :: path) i j) :
    read names fields .document i = read names fields .document j := by
  cases h with
  | @inside _ _ i j before after h =>
    -- The records differ in the value of one field, which is read alike.
    have halike : Alike field i j
        (collect .document names 0 [] (before ++ (.text name, i) :: after))
        (collect .document names 0 [] (before ++ (.text name, j) :: after)) :=
      collect_of_field hname 0 []
    show (collect .document names 0 [] _).finish _ = (collect .document names 0 [] _).finish _
    rw [finish, finish, halike.stop, hfields i j h _ _ halike]

end Record

end ChainFollower
