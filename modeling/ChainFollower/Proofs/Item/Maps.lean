import ChainFollower.Item.Portable
import ChainFollower.Proofs.Json.Parts

/-!
# Maps and their document forms

A map is written as an object of its entries and read back from it, and it does not matter in which
order the members stand.

Main statements: `Dict.get?_ofList` and `Reader.named_object_eq`.
-/

namespace ChainFollower

/-! ## Maps by their entries -/

/-- Whether entries are in order depends on their names alone. -/
theorem Entries.ascending_of_names {α β : Type} {as : List (String × α)} {bs : List (String × β)}
    (h : as.map (·.1) = bs.map (·.1)) (hbs : Ascending bs) : Ascending as := by
  have hnames : (as.map (·.1)).Pairwise (· < ·) := h ▸ List.pairwise_map.2 hbs
  exact List.pairwise_map.1 hnames

namespace Dict

variable {α : Type}

/-- Of several entries with one name the last is in the map. -/
theorem get?_ofList (entries : List (String × α)) (name : String) :
    (ofList entries).get? name = entries.reverse.lookup name :=
  Entries.lookup_sort entries name

/-- Where entries of one name agree, the map has what the list has. -/
theorem get?_ofList_eq_some_iff {entries : List (String × α)}
    (h : ∀ e ∈ entries, ∀ f ∈ entries, e.1 = f.1 → e.2 = f.2) {name : String} {value : α} :
    (ofList entries).get? name = some value ↔ (name, value) ∈ entries := by
  -- What is found is an entry, and what is an entry is found, as all of its name agree.
  have hmem : ∀ v, entries.reverse.lookup name = some v → (name, v) ∈ entries := fun v hv =>
    List.mem_reverse.1 (Entries.mem_of_lookup hv)
  rw [get?_ofList]
  constructor
  · exact hmem value
  · intro hvalue
    cases hlookup : entries.reverse.lookup name with
    | some v => exact congrArg some (h _ (hmem v hlookup) _ hvalue rfl)
    | none =>
      have hne := List.lookup_eq_none_iff.1 hlookup _ (List.mem_reverse.2 hvalue)
      simp at hne

theorem ofList_entries (d : Dict α) : ofList d.entries = d := by
  apply ext_get?
  intro name
  exact congrArg (List.lookup name) (Entries.sort_of_ascending d.ascending)

theorem map_ofList {β : Type} (f : α → β) (entries : List (String × α)) :
    (ofList entries).map f = ofList (entries.map fun e => (e.1, f e.2)) := by
  apply ext_get?
  intro name
  rw [get?_ofList, ← List.map_reverse, Entries.lookup_map, ← get?_ofList]
  exact Entries.lookup_map f _ name

theorem ofList_sort (entries : List (String × α)) : ofList (Entries.sort entries) = ofList entries :=
  ofList_entries (ofList entries)

theorem mem_entries_iff (d : Dict α) {name : String} {value : α} :
    (name, value) ∈ d.entries ↔ d.get? name = some value := by
  obtain ⟨entries, ascending⟩ := d
  show _ ↔ entries.lookup name = some value
  induction entries with
  | nil => simp
  | cons e rest ih =>
    obtain ⟨k, v⟩ := e
    obtain ⟨hfirst, hrest⟩ := List.pairwise_cons.1 ascending
    rw [List.mem_cons, ih hrest, Entries.lookup_cons]
    by_cases hk : name = k
    · -- No other entry has the first name.
      subst hk
      have hnone : rest.lookup name = none := Entries.lookup_eq_none_of_lt hfirst
      simp [hnone, eq_comm]
    · simp [hk]

theorem get?_empty (name : String) : (∅ : Dict α).get? name = none := rfl

theorem get?_erase (d : Dict α) (name key : String) :
    (d.erase name).get? key = if key = name then none else d.get? key := by
  by_cases hk : key = name
  · subst hk
    rw [if_pos rfl]
    apply List.lookup_eq_none_iff.2
    intro e he
    have hne := (List.mem_filter.1 he).2
    exact bne_iff_ne.2 (bne_iff_ne.1 hne).symm
  · rw [if_neg hk]
    exact Entries.lookup_filter_key hk

theorem isEmpty_iff (d : Dict α) : d.isEmpty = true ↔ ∀ name, d.get? name = none := by
  constructor
  · intro h name
    rw [get?, List.isEmpty_iff.1 h]
    rfl
  · intro h
    have hempty : d = ∅ := ext_get? fun name => h name
    rw [hempty]
    rfl

theorem getD_eq (d : Dict α) (name : String) (default : α) :
    d.getD name default = (d.get? name).getD default := rfl

end Dict

/-! ## Objects as maps -/

/-- The entries of an object, the first one apart. -/
theorem Reader.named_cons_eq_ok {α : Type} {read : Reader α} {name : String} {j : Json}
    {members : List (String × Json)} {entries : List (String × α)} :
    Reader.named read .document (Json.object ((name, j) :: members)).item = .ok entries ↔
      ∃ a rest, read .document j.item = .ok a ∧
        Reader.named read .document (Json.object members).item = .ok rest ∧
          (name, a) :: rest = entries := by
  show ((Json.entriesOf ((name, j) :: members)).mapM fun (e : Item × Item) => do
    let name ← Reader.text .document e.1
    let value ← read .document e.2
    return (name, value)) = .ok entries ↔ ∃ a rest, read .document j.item = .ok a ∧
      ((Json.entriesOf members).mapM fun (e : Item × Item) => do
        let name ← Reader.text .document e.1
        let value ← read .document e.2
        return (name, value)) = .ok rest ∧ (name, a) :: rest = entries
  -- The name stands for itself, so only its value and the rest can fail.
  rw [Json.entriesOf, List.mapM_cons]
  constructor
  · intro h
    obtain ⟨e, he, h⟩ := bind_eq_ok.1 h
    obtain ⟨rest, hrest, h⟩ := bind_eq_ok.1 h
    obtain ⟨_, ⟨⟩, he⟩ := bind_eq_ok.1 he
    obtain ⟨a, ha, he⟩ := bind_eq_ok.1 he
    cases he
    cases h
    exact ⟨a, rest, ha, hrest, rfl⟩
  · rintro ⟨a, rest, ha, hrest, rfl⟩
    simp only [ha, hrest]
    rfl

/-- The entries of an object, each value read for itself. -/
theorem Reader.named_object_eq {α β : Type} {read : Reader β} {entries : List (String × α)}
    (write : α → Json) (value : α → β)
    (h : ∀ e ∈ entries, read .document (write e.2).item = .ok (value e.2)) :
    Reader.named read .document (Json.object (entries.map fun e => (e.1, write e.2))).item =
      .ok (entries.map fun e => (e.1, value e.2)) := by
  show ((Json.entriesOf (entries.map fun e => (e.1, write e.2))).mapM fun e => do
    let name ← Reader.text .document e.1
    let value ← read .document e.2
    return (name, value)) = _
  -- Entry by entry: each value is read from what was written for it.
  induction entries with
  | nil => rfl
  | cons e rest ih =>
    obtain ⟨he, hrest⟩ := List.forall_mem_cons.1 h
    simp only [List.map_cons, Json.entriesOf, List.mapM_cons, ih hrest, he]
    rfl

/-- An object is read as the map of what its members are read as. -/
theorem Dict.read_object {α β : Type} [Portable β] {entries : List (String × α)}
    (write : α → Json) (value : α → β)
    (h : ∀ e ∈ entries, Portable.read .document (write e.2).item = .ok (value e.2)) :
    Portable.read .document (Json.object (entries.map fun e => (e.1, write e.2))).item =
      .ok (Dict.ofList (entries.map fun e => (e.1, value e.2))) := by
  show (Reader.named Portable.read .document _).map Dict.ofList = _
  rw [Reader.named_object_eq write value h]
  rfl

/-- Sorting the members of an object is sorting the entries that they are written from. -/
theorem Entries.sort_map {α β : Type} (f : α → β) (entries : List (String × α)) :
    sort (entries.map fun e => (e.1, f e.2)) = (sort entries).map fun e => (e.1, f e.2) := by
  apply eq_of_lookup (ascending_sort _) (ascending_map (fun _ => f) (ascending_sort _))
  intro key
  rw [lookup_sort, lookup_map, lookup_sort, ← List.map_reverse, lookup_map]

end ChainFollower
