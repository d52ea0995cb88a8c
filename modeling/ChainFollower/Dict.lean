/-!
# Maps in the order of their names

A `Dict` maps texts to values and lists its entries in ascending order of the texts, which is also
the order of their UTF-8 bytes.  Entries and map are the same thing: two maps with equal entries are
equal.

Main statements: `Dict.get?_insert` and `Dict.ext_get?`, which say that a map is what `get?` shows.
-/

namespace ChainFollower

/-! ## Entry lists -/

namespace Entries

variable {α β : Type}

/-- Each name comes before the ones after it. -/
def Ascending (entries : List (String × α)) : Prop := entries.Pairwise fun a b => a.1 < b.1

/-- Puts an entry in its place, instead of one with the same name. -/
def insert (name : String) (value : α) : List (String × α) → List (String × α)
  | [] => [(name, value)]
  | (k, v) :: rest =>
    if name < k then (name, value) :: (k, v) :: rest
    else if name = k then (name, value) :: rest
    else (k, v) :: insert name value rest

/-- Entries in ascending order, of several with one name the last. -/
def sort (entries : List (String × α)) : List (String × α) :=
  entries.foldl (fun sorted e => insert e.1 e.2 sorted) []

theorem mem_insert {name : String} {value : α} {entries : List (String × α)} {e : String × α}
    (h : e ∈ insert name value entries) : e = (name, value) ∨ e ∈ entries := by
  induction entries with
  | nil => simpa [insert] using h
  | cons head rest ih =>
    obtain ⟨k, v⟩ := head
    unfold insert at h
    split at h
    · simpa using h
    · split at h
      · rcases List.mem_cons.1 h with h | h
        · exact .inl h
        · exact .inr (List.mem_cons_of_mem _ h)
      · rcases List.mem_cons.1 h with h | h
        · exact .inr (by simp [h])
        · rcases ih h with h | h
          · exact .inl h
          · exact .inr (List.mem_cons_of_mem _ h)

theorem ascending_insert {name : String} {value : α} {entries : List (String × α)}
    (h : Ascending entries) : Ascending (insert name value entries) := by
  induction entries with
  | nil => simp [insert, Ascending]
  | cons head rest ih =>
    obtain ⟨k, v⟩ := head
    obtain ⟨hk, hr⟩ := List.pairwise_cons.1 h
    unfold insert
    split
    · next hlt =>
      refine List.pairwise_cons.2 ⟨fun e he => ?_, h⟩
      rcases List.mem_cons.1 he with rfl | he
      · exact hlt
      · exact String.lt_trans hlt (hk e he)
    · split
      · next _ heq =>
        subst heq
        exact List.pairwise_cons.2 ⟨hk, hr⟩
      · next hnlt hne =>
        refine List.pairwise_cons.2 ⟨fun e he => ?_, ih hr⟩
        rcases mem_insert he with rfl | he
        -- The new name is neither below nor equal to the first one, so it comes after it.
        · rcases Std.lt_trichotomy name k with h | h | h
          · exact absurd h hnlt
          · exact absurd h hne
          · exact h
        · exact hk e he

theorem ascending_sort (entries : List (String × α)) : Ascending (sort entries) := by
  suffices ∀ acc : List (String × α), Ascending acc →
      Ascending (entries.foldl (fun sorted e => insert e.1 e.2 sorted) acc) from
    this [] List.Pairwise.nil
  induction entries with
  | nil => exact fun _ h => h
  | cons e rest ih => exact fun acc h => ih _ (ascending_insert h)

theorem ascending_map (f : String → α → β) {entries : List (String × α)} (h : Ascending entries) :
    Ascending (entries.map fun e => (e.1, f e.1 e.2)) :=
  List.pairwise_map.2 h

theorem ascending_filter (p : String × α → Bool) {entries : List (String × α)}
    (h : Ascending entries) : Ascending (entries.filter p) :=
  List.Pairwise.filter p h

theorem lookup_cons (key name : String) (value : α) (rest : List (String × α)) :
    ((name, value) :: rest).lookup key = if key = name then some value else rest.lookup key := by
  rw [List.lookup_cons]
  by_cases h : key = name
  · simp [h]
  · have hf : (key == name) = false := by simpa using h
    simp [hf, h]

theorem lookup_insert (name : String) (value : α) {entries : List (String × α)} (key : String)
    (h : Ascending entries) :
    (insert name value entries).lookup key =
      if key = name then some value else entries.lookup key := by
  induction entries with
  | nil => simp [insert, lookup_cons]
  | cons head rest ih =>
    obtain ⟨k, v⟩ := head
    have hr := (List.pairwise_cons.1 h).2
    unfold insert
    split
    · simp [lookup_cons]
    · split
      · next _ heq => subst heq; by_cases hk : key = name <;> simp [lookup_cons, hk]
      · next _ hne =>
        by_cases hk : key = k
        · subst hk; simp [Ne.symm hne]
        · simp [lookup_cons, hk, ih hr]

theorem lookup_eq_none_of_lt {entries : List (String × α)} {key : String}
    (h : ∀ e ∈ entries, key < e.1) : entries.lookup key = none := by
  induction entries with
  | nil => rfl
  | cons head rest ih =>
    obtain ⟨k, v⟩ := head
    have hlt : key < k := h (k, v) (by simp)
    have hne : key ≠ k := by
      rintro rfl
      exact String.lt_irrefl _ hlt
    simp [lookup_cons, hne, ih fun e he => h e (List.mem_cons_of_mem _ he)]

theorem eq_of_lookup {a b : List (String × α)} (ha : Ascending a) (hb : Ascending b)
    (h : ∀ key, a.lookup key = b.lookup key) : a = b := by
  induction a generalizing b with
  | nil =>
    cases b with
    | nil => rfl
    | cons head rest =>
      obtain ⟨l, w⟩ := head
      simpa [lookup_cons] using h l
  -- Both begin with the least name of all, and so with the same one.
  | cons x xs ih =>
    obtain ⟨k, v⟩ := x
    cases b with
    | nil => simpa [lookup_cons] using h k
    | cons y ys =>
      obtain ⟨l, w⟩ := y
      obtain ⟨hx, hxs⟩ := List.pairwise_cons.1 ha
      obtain ⟨hy, hys⟩ := List.pairwise_cons.1 hb
      have hkl : k = l := by
        rcases Std.lt_trichotomy k l with hlt | heq | hlt
        · have hn : ((l, w) :: ys).lookup k = none := lookup_eq_none_of_lt fun e he => by
            rcases List.mem_cons.1 he with rfl | he
            · exact hlt
            · exact String.lt_trans hlt (hy e he)
          rw [← h k, lookup_cons] at hn
          simp at hn
        · exact heq
        · have hn : ((k, v) :: xs).lookup l = none := lookup_eq_none_of_lt fun e he => by
            rcases List.mem_cons.1 he with rfl | he
            · exact hlt
            · exact String.lt_trans hlt (hx e he)
          rw [h l, lookup_cons] at hn
          simp at hn
      subst hkl
      have hvw : v = w := by simpa [lookup_cons] using h k
      subst hvw
      congr 1
      refine ih hxs hys fun key => ?_
      -- No name comes twice, so the first name cannot be found in the rest of either.
      by_cases hk : key = k
      · subst hk
        rw [lookup_eq_none_of_lt hx, lookup_eq_none_of_lt hy]
      · simpa [lookup_cons, hk] using h key

end Entries

/-! ## Maps -/

/-- A finite map from texts, its entries in ascending order. -/
structure Dict (α : Type) where
  entries : List (String × α)
  ascending : Entries.Ascending entries
  deriving DecidableEq

namespace Dict

variable {α β : Type}

/-- The map without entries. -/
def empty : Dict α := ⟨[], List.Pairwise.nil⟩

instance : EmptyCollection (Dict α) := ⟨empty⟩

instance : Inhabited (Dict α) := ⟨empty⟩

/-- The value of a name. -/
def get? (d : Dict α) (name : String) : Option α := d.entries.lookup name

/-- The value of a name, or a default. -/
def getD (d : Dict α) (name : String) (default : α) : α := (d.get? name).getD default

/-- Whether the map has an entry of that name. -/
def contains (d : Dict α) (name : String) : Bool := (d.get? name).isSome

/-- The map with that entry, in place of one of the same name. -/
def insert (d : Dict α) (name : String) (value : α) : Dict α :=
  ⟨Entries.insert name value d.entries, Entries.ascending_insert d.ascending⟩

/-- The map without an entry of that name. -/
def erase (d : Dict α) (name : String) : Dict α :=
  ⟨d.entries.filter fun e => e.1 != name, Entries.ascending_filter _ d.ascending⟩

/-- The map of a list of entries, of several with one name the last. -/
def ofList (entries : List (String × α)) : Dict α :=
  ⟨Entries.sort entries, Entries.ascending_sort entries⟩

/-- The map with every value replaced. -/
def map (f : α → β) (d : Dict α) : Dict β :=
  ⟨d.entries.map fun e => (e.1, f e.2), Entries.ascending_map (fun _ => f) d.ascending⟩

/-- The names, in ascending order. -/
def keys (d : Dict α) : List String := d.entries.map (·.1)

/-- The values, in the order of their names. -/
def values (d : Dict α) : List α := d.entries.map (·.2)

/-- Whether the map has no entries. -/
def isEmpty (d : Dict α) : Bool := d.entries.isEmpty

theorem get?_insert (d : Dict α) (name : String) (value : α) (key : String) :
    (d.insert name value).get? key = if key = name then some value else d.get? key :=
  Entries.lookup_insert name value key d.ascending

theorem ext_get? {d e : Dict α} (h : ∀ key, d.get? key = e.get? key) : d = e := by
  cases d; cases e
  congr 1
  exact Entries.eq_of_lookup (by assumption) (by assumption) h

end Dict

end ChainFollower
