import ChainFollower.Proofs.Item.Fields
import ChainFollower.Proofs.Item.Maps

/-!
# Records that are read back

A record is written member by member and read field by field.  It is read back if every field is,
and that is put together here in the same order: `Record.Restores` says of the first fields of a
record that they are read back from the first members, and there is one lemma for each way to write
the next member.

Main statement: `Record.Restores.readBack`.
-/

namespace ChainFollower

open Record (field? Given getWith_eq_ok getRequired_eq_ok)

/-! ## Values that are read back -/

/-- A payload can hold the document form of a value, and the value is read from it again, members
sorted. -/
structure ReadBack {α : Type} [Portable α] (levels : Nat) (a : α) : Prop where
  fits : (toJson a).Fits levels
  read : Portable.read .document (toJson a).sorted.item = .ok a

theorem ReadBack.mono {α : Type} [Portable α] {levels more : Nat} {a : α}
    (h : ReadBack levels a) (hle : levels ≤ more) : ReadBack more a :=
  ⟨h.fits.mono hle, h.read⟩

theorem readBack_text (levels : Nat) (s : String) : ReadBack levels s :=
  ⟨Json.fits_text levels s, rfl⟩

section Containers

variable {α : Type} [Portable α] {levels : Nat}

theorem readBack_list {as : List α} (h : ∀ a ∈ as, ReadBack levels a) :
    ReadBack (levels + 1) as where
  fits := by
    apply Json.fits_array.2
    intro j hj
    obtain ⟨a, ha, rfl⟩ := List.mem_map.1 hj
    exact (h a ha).fits
  read := by
    -- The items are read one by one, each from its sorted document.
    show (Json.itemsOf (Json.sortedItems (as.map toJson))).mapM (Portable.read .document) = _
    induction as with
    | nil => rfl
    | cons a rest ih =>
      obtain ⟨ha, hrest⟩ := List.forall_mem_cons.1 h
      rw [List.map_cons, Json.sortedItems, Json.itemsOf, List.mapM_cons, ha.read, ih hrest]
      rfl

/-- The entries of a map are in order, and so are the members of its document form. -/
theorem Dict.sorted_toJson (d : Dict α) :
    (toJson d).sorted = .object (d.entries.map fun e => (e.1, (toJson e.2).sorted)) := by
  show Json.object (Entries.sort (Json.sortedMembers (d.entries.map fun e => (e.1, toJson e.2)))) = _
  rw [Json.sortedMembers_eq, List.map_map]
  exact congrArg Json.object (Entries.sort_of_ascending
    (Entries.ascending_map (fun _ a => (toJson a).sorted) d.ascending))

theorem readBack_dict {d : Dict α} (h : ∀ e ∈ d.entries, ReadBack levels e.2) :
    ReadBack (levels + 1) d where
  fits := by
    apply Json.fits_object.2
    intro m hm
    obtain ⟨e, he, rfl⟩ := List.mem_map.1 hm
    exact (h e he).fits
  read := by
    -- The entries are in order already, so sorting reaches their values only.
    rw [Dict.sorted_toJson]
    refine (Dict.read_object (fun a => (toJson a).sorted) id fun e he => (h e he).read).trans ?_
    rw [show (d.entries.map fun e => (e.1, id e.2)) = d.entries from List.map_id _,
      Dict.ofList_entries]

end Containers

/-! ## Members -/

namespace Member

/-- What is written, without its name. -/
def part (m : Member) : Option Json := m.written.map (·.2)

/-- What is written, if anything, has this name. -/
def Named (name : String) (m : Member) : Prop := ∀ e, m.written = some e → e.1 = name

/-- What is written, if anything, has this name and fits. -/
def Fits (levels : Nat) (name : String) (m : Member) : Prop :=
  ∀ e, m.written = some e → e.1 = name ∧ e.2.Fits levels

@[simp]
theorem part_always {α : Type} [Portable α] (name : String) (a : α) :
    (always name a).part = some (toJson a) := rfl

@[simp]
theorem part_ifSome {α : Type} [Portable α] (name : String) (a : Option α) :
    (ifSome name a).part = a.map toJson := by
  cases a <;> rfl

theorem fits_none (levels : Nat) (name : String) : Fits levels name ⟨none⟩ := by
  rintro _ ⟨⟩

theorem Fits.named {levels : Nat} {name : String} {m : Member} (h : m.Fits levels name) :
    m.Named name := fun e he => (h e he).1

theorem named_always {α : Type} [Portable α] (name : String) (a : α) :
    (always name a).Named name := by
  rintro _ ⟨⟩
  rfl

theorem named_ifSome {α : Type} [Portable α] (name : String) (a : Option α) :
    (ifSome name a).Named name := by
  intro e he
  obtain ⟨x, -, rfl⟩ := Option.map_eq_some_iff.1 he
  rfl

/-- The names of what is written are names of members, in the same order. -/
theorem keys_written {ms : List (String × Member)} (named : ∀ m ∈ ms, m.2.Named m.1) :
    (((ms.map (·.2)).filterMap written).map (·.1)).Sublist (ms.map (·.1)) := by
  induction ms with
  | nil => exact .slnil
  | cons first rest ih =>
    obtain ⟨hfirst, hrest⟩ := List.forall_mem_cons.1 named
    rw [List.map_cons, List.filterMap_cons, List.map_cons]
    -- A member is left out or written under its own name.
    cases hwritten : first.2.written with
    | none => exact (ih hrest).cons _
    | some e =>
      rw [← hfirst e hwritten]
      exact (ih hrest).cons_cons _

/-- What is written has the name of a member. -/
theorem name_mem_of_written {ms : List (String × Member)} (named : ∀ m ∈ ms, m.2.Named m.1)
    {e : String × Json} (he : e ∈ (ms.map (·.2)).filterMap written) : e.1 ∈ ms.map (·.1) :=
  (keys_written named).subset (List.mem_map_of_mem he)

/-- Members of different names are found by their names. -/
theorem lookup_written {ms : List (String × Member)} (distinct : (ms.map (·.1)).Nodup)
    (named : ∀ m ∈ ms, m.2.Named m.1) {name : String} {m : Member} (hm : (name, m) ∈ ms) :
    ((ms.map (·.2)).filterMap written).lookup name = m.part := by
  induction ms with
  | nil => cases hm
  | cons first rest ih =>
    obtain ⟨hfirst, hrest⟩ := List.nodup_cons.1 distinct
    obtain ⟨hnamed, hnamedRest⟩ := List.forall_mem_cons.1 named
    rw [List.map_cons, List.filterMap_cons]
    rcases List.mem_cons.1 hm with rfl | hm
    · -- No other member has the name of the first one.
      have hnone : ((rest.map (·.2)).filterMap written).lookup name = none := by
        apply List.lookup_eq_none_iff.2
        intro e he
        apply bne_iff_ne.2
        rintro rfl
        exact hfirst (name_mem_of_written hnamedRest he)
      unfold part
      cases hwritten : m.written with
      | none => exact hnone
      | some e =>
        obtain ⟨key, j⟩ := e
        have hkey : key = name := hnamed _ hwritten
        simp [hkey]
    · have ih := ih hrest hnamedRest hm
      have hne : name ≠ first.1 := by
        rintro rfl
        exact hfirst (List.mem_map.2 ⟨_, hm, rfl⟩)
      cases hwritten : first.2.written with
      | none => exact ih
      | some e =>
        obtain ⟨key, j⟩ := e
        have hkey : key = first.1 := hnamed _ hwritten
        rw [Entries.lookup_cons, if_neg (hkey ▸ hne)]
        exact ih

end Member

/-- The members of a record, sorted; they are given here the last one first. -/
theorem Json.member?_record {ms : List (String × Member)} (distinct : (ms.map (·.1)).Nodup)
    (named : ∀ m ∈ ms, m.2.Named m.1) {name : String} {m : Member} (hm : (name, m) ∈ ms) :
    (Json.record (ms.map (·.2)).reverse).sorted.member? name = m.part.map Json.sorted := by
  rw [Json.record, Json.sorted, member?_sorted, Json.sortedMembers_eq, List.filterMap_reverse,
    List.map_reverse, List.reverse_reverse, Entries.lookup_map,
    Member.lookup_written distinct named hm]

/-! ## Records -/

namespace Record

/-- Every field is called by its own name, and no two by the same. -/
def Distinct (names : FieldNames) : Prop :=
  (∀ name ∈ names, field? names name.1 = some name.1) ∧ (names.map (·.1)).Nodup

instance (names : FieldNames) : Decidable (Distinct names) := inferInstanceAs (Decidable (_ ∧ _))

/-- Fields are read back from members: the members, here the last one first, fit, and the fields
of a record that has them are these. -/
structure Restores {α : Type} (levels : Nat) (ms : List (String × Member))
    (fields : Record → Placed α) (a : α) : Prop where
  fits : ∀ m ∈ ms, m.2.Fits levels m.1
  reads : ∀ (r : Record) (values : String → Option Item), r.Holds values →
    (∀ m ∈ ms, values m.1 = m.2.part.map fun j => j.sorted.item) → (fields r).outcome = .ok a

namespace Restores

variable {α β : Type} {levels : Nat} {ms : List (String × Member)}

theorem start (f : α) : Restores levels [] (fun _ => pure f) f := by
  refine ⟨fun _ h => absurd h List.not_mem_nil, ?_⟩
  intro r values _ _
  rfl

/-- One more member for one more field. -/
theorem seq {fields : Record → Placed (α → β)} {f : α → β} (h : Restores levels ms fields f)
    {name : String} {m : Member} (hm : m.Fits levels name) {field : Record → Placed α} {a : α}
    (hfield : ∀ (r : Record) (values : String → Option Item), r.Holds values →
      values name = (m.part.map fun j => j.sorted.item) → (field r).outcome = .ok a) :
    Restores levels ((name, m) :: ms) (fun r => fields r <*> field r) (f a) := by
  refine ⟨List.forall_mem_cons.2 ⟨hm, h.fits⟩, ?_⟩
  intro r values hr hvalues
  obtain ⟨hfirst, hrest⟩ := List.forall_mem_cons.1 hvalues
  exact Placed.seq_eq_ok.2 ⟨f, a, h.reads r values hr hrest, hfield r values hr hfirst, rfl⟩

/-- See `seq`; the field may be absent. -/
theorem seqWith {fields : Record → Placed (α → β)} {f : α → β} (h : Restores levels ms fields f)
    {name : String} {m : Member} (hm : m.Fits levels name) {read : Reader α} {absent a : α}
    (hgiven : Given read absent (m.part.map fun j => j.sorted.item) a) :
    Restores levels ((name, m) :: ms) (fun r => fields r <*> r.getWith name read absent) (f a) := by
  apply h.seq hm
  intro r values hr hvalue
  rw [getWith_eq_ok hr, hvalue]
  exact hgiven

section Written

variable [Portable α] {fields : Record → Placed (α → β)} {f : α → β}

theorem fits_always {a : α} (ha : ReadBack levels a) (name : String) :
    (Member.always name a).Fits levels name := by
  rintro _ ⟨⟩
  exact ⟨rfl, ha.fits⟩

/-- A member that is always written for a field that must be there. -/
theorem must (h : Restores levels ms fields f) (name : String) {a : α} (ha : ReadBack levels a) :
    Restores levels ((name, .always name a) :: ms) (fun r => fields r <*> r.get name) (f a) := by
  apply h.seq (fits_always ha name)
  intro r values hr hvalue
  exact (getRequired_eq_ok hr).2 ⟨_, hvalue, ha.read⟩

/-- A member that is always written for a field that may be absent. -/
theorem always (h : Restores levels ms fields f) (name : String) (absent : α) {a : α}
    (ha : ReadBack levels a) :
    Restores levels ((name, .always name a) :: ms) (fun r => fields r <*> r.getD name absent)
      (f a) :=
  h.seqWith (fits_always ha name) ha.read

end Written

/-- A member that is written if there is something to write. -/
theorem ifSome [Portable α] {fields : Record → Placed (Option α → β)} {f : Option α → β}
    (h : Restores levels ms fields f) (name : String) {a : Option α}
    (ha : ∀ x, a = some x → ReadBack levels x ∧ (toJson x).isNull = false) :
    Restores levels ((name, .ifSome name a) :: ms) (fun r => fields r <*> r.getD name none)
      (f a) := by
  cases a with
  | none => exact h.seqWith (Member.fits_none _ name) rfl
  | some x =>
    obtain ⟨hx, hnull⟩ := ha x rfl
    apply h.seqWith
    · rintro _ ⟨⟩
      exact ⟨rfl, hx.fits⟩
    · apply Reader.option_of_read hx.read
      intro heq
      -- Sorting makes no `null` of anything else.
      revert hnull heq
      cases toJson x <;> simp [Json.sorted, Json.item, Json.isNull]

/-- A member that is written unless the text is empty. -/
theorem ifText {fields : Record → Placed (String → β)} {f : String → β}
    (h : Restores levels ms fields f) (name s : String) :
    Restores levels ((name, .ifText name s) :: ms) (fun r => fields r <*> r.getD name "")
      (f s) := by
  unfold Member.ifText
  -- The empty text is left out, and stands for what is absent.
  by_cases hs : s.isEmpty = true
  · obtain rfl : s = "" := String.isEmpty_iff.1 hs
    exact h.seqWith (Member.fits_none _ name) rfl
  · rw [if_neg hs]
    apply h.seqWith
    · rintro _ ⟨⟩
      exact ⟨rfl, Json.fits_text levels s⟩
    · rfl

/-- A member that is written unless the list is empty. -/
theorem ifAny [Portable α] {fields : Record → Placed (List α → β)} {f : List α → β}
    (h : Restores (levels + 1) ms fields f) (name : String) {as : List α}
    (has : ∀ a ∈ as, ReadBack levels a) :
    Restores (levels + 1) ((name, .ifAny name as) :: ms) (fun r => fields r <*> r.getD name [])
      (f as) := by
  have hlist := readBack_list has
  unfold Member.ifAny
  -- The empty list is left out, and stands for what is absent.
  by_cases hempty : as.isEmpty = true
  · obtain rfl : as = [] := List.isEmpty_iff.1 hempty
    exact h.seqWith (Member.fits_none _ name) rfl
  · rw [if_neg hempty]
    apply h.seqWith
    · rintro _ ⟨⟩
      exact ⟨rfl, hlist.fits⟩
    · exact hlist.read

/-- A member that is written unless the map is empty. -/
theorem ifEntries [Portable α] {fields : Record → Placed (Dict α → β)} {f : Dict α → β}
    (h : Restores (levels + 1) ms fields f) (name : String) {d : Dict α}
    (hd : ∀ e ∈ d.entries, ReadBack levels e.2) :
    Restores (levels + 1) ((name, .ifEntries name d) :: ms)
      (fun r => fields r <*> r.getD name ∅) (f d) := by
  have hdict := readBack_dict hd
  unfold Member.ifEntries
  -- The empty map is left out, and stands for what is absent.
  by_cases hempty : d.isEmpty = true
  · obtain rfl : d = ∅ := Dict.ext_get? fun key => (Dict.isEmpty_iff d).1 hempty key
    exact h.seqWith (Member.fits_none _ name) rfl
  · rw [if_neg hempty]
    apply h.seqWith
    · rintro _ ⟨⟩
      exact ⟨rfl, hdict.fits⟩
    · exact hdict.read

/-! ### Whole records -/

variable {names : FieldNames} {fields : Record → Placed α} {a : α}

theorem fits_record (h : Restores levels ms fields a) :
    (Json.record (ms.map (·.2)).reverse).Fits (levels + 1) := by
  apply Json.fits_object.2
  intro e he
  obtain ⟨m, hm, hwritten⟩ := List.mem_filterMap.1 he
  obtain ⟨named, hnamed, rfl⟩ := List.mem_map.1 (List.mem_reverse.1 hm)
  exact (h.fits named hnamed e hwritten).2

/-- The members stand for the fields of the record, each under the field's own name. -/
theorem own (distinct : Distinct names) (hnames : names.map (·.1) = (ms.map (·.1)).reverse) :
    (∀ m ∈ ms, field? names m.1 = some m.1) ∧ (ms.map (·.1)).Nodup := by
  refine ⟨fun m hm => ?_, ?_⟩
  · have hmem : m.1 ∈ names.map (·.1) := by
      rw [hnames]
      exact List.mem_reverse.2 (List.mem_map_of_mem hm)
    obtain ⟨name, hname, heq⟩ := List.mem_map.1 hmem
    exact heq ▸ distinct.1 name hname
  · have hnodup := distinct.2
    rw [hnames] at hnodup
    exact (List.pairwise_reverse.1 hnodup).imp Ne.symm

/-- What is written stands in its own spelling. -/
theorem primary (h : Restores levels ms fields a)
    (hown : ∀ m ∈ ms, field? names m.1 = some m.1) :
    Primary names ((ms.map (·.2)).filterMap Member.written) := by
  intro e he field hfield
  obtain ⟨m, hm, hwritten⟩ := List.mem_filterMap.1 he
  obtain ⟨named, hmem, rfl⟩ := List.mem_map.1 hm
  have hkey : e.1 = named.1 := (h.fits named hmem).named e hwritten
  rw [hkey, hown named hmem] at hfield
  exact (Option.some.inj hfield).symm.trans hkey.symm

theorem read_record (h : Restores levels ms fields a) (distinct : Distinct names)
    (hnames : names.map (·.1) = (ms.map (·.1)).reverse) :
    read names fields .document (Json.record (ms.map (·.2)).reverse).sorted.item = .ok a := by
  obtain ⟨hown, hnodup⟩ := own distinct hnames
  have hnamed : ∀ m ∈ ms, m.2.Named m.1 := fun m hm => (h.fits m hm).named
  -- Sorted or not, the members are the same ones, and each field finds its own.
  rw [Json.record, Json.sorted, Json.sortedMembers_eq, List.filterMap_reverse, List.map_reverse]
  apply read_sorted
  · intro e he
    obtain ⟨e', he', rfl⟩ := List.mem_map.1 (List.mem_reverse.1 he)
    exact h.primary hown e' he'
  · intro r values hr hvalues
    apply h.reads r values hr
    intro m hm
    rw [hvalues m.1 (hown m hm), List.reverse_reverse, Entries.lookup_map,
      Member.lookup_written hnodup hnamed hm, Option.map_map]
    rfl

/-- A record is read as it is written, members unsorted, if there is nothing to sort below them. -/
theorem read_written (h : Restores levels ms fields a) (distinct : Distinct names)
    (hnames : names.map (·.1) = (ms.map (·.1)).reverse)
    (hsorted : ∀ m ∈ ms, ∀ j, m.2.part = some j → j.sorted = j) :
    read names fields .document (Json.record (ms.map (·.2)).reverse).item = .ok a := by
  obtain ⟨hown, hnodup⟩ := own distinct hnames
  have hnamed : ∀ m ∈ ms, m.2.Named m.1 := fun m hm => (h.fits m hm).named
  have hkeys := (Member.keys_written hnamed).nodup hnodup
  rw [Json.record, List.filterMap_reverse]
  obtain ⟨values, hshape, hvalues⟩ := shape_of_distinct names
    (fun e he => h.primary hown e (List.mem_reverse.1 he))
    (by simpa only [List.map_reverse, List.Nodup, List.pairwise_reverse, ne_comm] using hkeys)
  obtain ⟨r, hr, hread⟩ := exists_holds hshape
  apply (hread fields a).2 (h.reads r values hr fun m hm => ?_)
  -- No two members have one name, so that it is found from either end.
  have hlookup : ((ms.map (·.2)).filterMap Member.written).reverse.lookup m.1 = m.2.part := by
    rw [Entries.lookup_reverse, Member.lookup_written hnodup hnamed hm]
    apply (List.pairwise_map.1 hkeys).imp
    rintro b c hne ⟨hb, hc⟩
    exact hne (hb.trans hc.symm)
  rw [hvalues m.1 (hown m hm), hlookup]
  cases hpart : m.2.part with
  | none => rfl
  | some j => exact congrArg (fun k => some k.item) (hsorted m hm j hpart).symm

/-- A record whose members restore its fields is read back. -/
theorem readBack [Portable α] (h : Restores levels ms fields a)
    (hdoc : toJson a = Json.record (ms.map (·.2)).reverse)
    (hread : (Portable.read : Reader α) = read names fields)
    (hnames : names.map (·.1) = (ms.map (·.1)).reverse) (distinct : Distinct names) :
    ReadBack (levels + 1) a := by
  refine ⟨hdoc ▸ h.fits_record, ?_⟩
  rw [hdoc, hread]
  exact h.read_record distinct hnames

end Restores

end Record

end ChainFollower
