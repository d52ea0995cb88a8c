import ChainFollower.Proofs.Json.Settling

/-!
# Parts passed on as they stand

A part of a document that is passed on unread as it stands, beside the same part passed on settled.
The two are alike but for numbers: a wide integer is a floating-point number or nothing in the one,
and a text in the other.

Main statements: `unread_cases` and `given_unread`.
-/

namespace ChainFollower

open Record (Given)

variable {i : Item} {j k : Json}

/-- Members that are passed on unread, each as it stands. -/
theorem lookup_of_unreadMembers {entries : List (String × Item)} {members : List (String × Json)}
    {readName : Reader String} (hname : ∀ s, readName .document (.text s) = .ok s)
    (h : Reader.unreadMembers .document readName (entries.map fun e => (.text e.1, e.2)) =
      .ok members) (key : String) :
    Option.Rel (fun v j => Reader.unread .document v = .ok j) (entries.reverse.lookup key)
      (members.reverse.lookup key) := by
  -- The first name has a reader of its own, hence the statement about every reader of texts.
  induction entries generalizing readName members with
  | nil =>
    cases h
    exact .none
  | cons e rest ih =>
    obtain ⟨name, v⟩ := e
    rw [List.map_cons, Reader.unreadMembers, hname] at h
    obtain ⟨name', hname', h⟩ := bind_eq_ok.1 h
    obtain ⟨j, hj, h⟩ := bind_eq_ok.1 h
    obtain ⟨js, hjs, h⟩ := bind_eq_ok.1 h
    cases hname'
    cases h
    exact Entries.rel_lookup_cons hj (ih (fun _ => rfl) hjs)

/-- A map of names is passed on as an object, and what stands under a name is passed on for itself.
-/
theorem unread_named {entries : List (String × Item)}
    (h : Reader.unread .document (.named entries) = .ok j) :
    ∃ members, j = .object (Entries.sort members) ∧ ∀ key,
      Option.Rel (fun v j => Reader.unread .document v = .ok j) (entries.reverse.lookup key)
        (j.member? key) := by
  rw [Item.named, Reader.unread] at h
  obtain ⟨members, hmembers, rfl⟩ := map_eq_ok.1 h
  refine ⟨members, rfl, fun key => ?_⟩
  rw [Json.member?_sorted]
  exact lookup_of_unreadMembers (fun _ => rfl) hmembers key

/-- What is passed on as it stands beside what is passed on settled: alike, or parts of both, or a
number that is no integer beside `null` or the text of a wide one. -/
theorem unread_cases (hj : Reader.unread .document i = .ok j) (hk : Settles i k) :
    (∃ entries, i = .named entries) ∨ (∃ js ks, j = .array js ∧ k = .array ks) ∨
      (j = k ∧ k.isObject = false) ∨
        (∃ x, i = .float x) ∧ (j = .null ∨ ∃ x, j = .float x) ∧ (k = .null ∨ ∃ s, k = .text s) := by
  -- The settled value tells what the item is, and so what it is passed on as.
  cases hk with
  | object _ => exact .inl ⟨_, rfl⟩
  | array _ =>
    obtain ⟨js, -, rfl⟩ := map_eq_ok.1 hj
    exact .inr (.inl ⟨js, _, rfl, rfl⟩)
  | int h =>
    rw [Reader.unread, if_pos h] at hj
    cases hj
    exact .inr (.inr (.inl ⟨rfl, rfl⟩))
  | float h =>
    rw [Reader.unread, if_pos h] at hj
    cases hj
    exact .inr (.inr (.inl ⟨rfl, rfl⟩))
  | infinite h =>
    rw [Reader.unread, h] at hj
    cases hj
    exact .inr (.inr (.inl ⟨rfl, rfl⟩))
  | wide h s =>
    -- As it stands a wide integer is refused, or a floating-point number, finite or not.
    rcases h with rfl | ⟨x, rfl⟩
    · cases hj
    · refine .inr (.inr (.inr ⟨⟨x, rfl⟩, ?_, .inr ⟨s, rfl⟩⟩))
      rw [Reader.unread] at hj
      cases hj
      split
      · exact .inr ⟨x, rfl⟩
      · exact .inl rfl
  | _ =>
    cases hj
    exact .inr (.inr (.inl ⟨rfl, rfl⟩))

/-- An object comes from a map of names. -/
theorem named_of_isObject (hj : Reader.unread .document i = .ok j) (hk : Settles i k)
    (hobject : j.isObject = true ∨ k.isObject = true) : ∃ entries, i = .named entries := by
  rcases unread_cases hj hk with h | ⟨js, ks, rfl, rfl⟩ | ⟨rfl, h⟩ | ⟨-, h, h'⟩
  · exact h
  · rcases hobject with h | h <;> cases h
  · rw [h] at hobject
    rcases hobject with h | h <;> cases h
  · rcases h with rfl | ⟨x, rfl⟩ <;> rcases h' with rfl | ⟨s, rfl⟩ <;>
      rcases hobject with h | h <;> cases h

/-- The last member of a name, of a value that is passed on as it stands. -/
theorem last?_unread (hj : Reader.unread .document i = .ok j) (hk : Settles i k) (key : String) :
    Option.Rel (fun v j => Reader.unread .document v = .ok j) (i.last? key) (j.member? key) := by
  have hnone : ∀ {l : Json}, l.isObject = false → l.member? key = none := by
    intro l hl
    cases l <;> first | rfl | cases hl
  -- If either is an object, both come from a map; otherwise neither has members.
  cases hobject : (j.isObject || k.isObject) with
  | true =>
    obtain ⟨entries, rfl⟩ := named_of_isObject hj hk (Bool.or_eq_true_iff.1 hobject)
    obtain ⟨members, -, hrel⟩ := unread_named hj
    rw [Item.last?_named]
    exact hrel key
  | false =>
    obtain ⟨hj', hk'⟩ := Bool.or_eq_false_iff.1 hobject
    have hrel := hk.last? key
    rw [hnone hk'] at hrel
    rw [hnone hj']
    cases hi : i.last? key with
    | none => exact .none
    | some v =>
      rw [hi] at hrel
      cases hrel

/-- A word is read from both or from neither, -/
theorem word64_unread {n : UInt64} (hj : Reader.unread .document i = .ok j) (hk : Settles i k) :
    Reader.word64 .document j.item = .ok n ↔ Reader.word64 .document k.item = .ok n := by
  rcases unread_cases hj hk with ⟨entries, rfl⟩ | ⟨js, ks, rfl, rfl⟩ | ⟨rfl, -⟩ | ⟨-, h, h'⟩
  · obtain ⟨members, rfl, -⟩ := unread_named hj
    obtain ⟨members', rfl, -⟩ := hk.exists_object
    exact Iff.rfl
  · exact Iff.rfl
  · exact Iff.rfl
  · rcases h with rfl | ⟨x, rfl⟩ <;> rcases h' with rfl | ⟨s, rfl⟩ <;> exact Iff.rfl

/-- and so is a text that was one all along. -/
theorem text_unread {s : String} (hj : Reader.unread .document i = .ok j) (hk : Settles i k)
    (hi : i.IsText) :
    Reader.text .document j.item = .ok s ↔ Reader.text .document k.item = .ok s := by
  cases i with
  | text s' =>
    cases hj
    cases hk with
    | text _ => exact Iff.rfl
    | wide h _ => rcases h with h | ⟨x, h⟩ <;> cases h
  | _ => cases hi

/-- A text that is passed on as it stands has been one. -/
theorem isText_of_unread {s : String} (hj : Reader.unread .document i = .ok j) (hk : Settles i k)
    (h : Reader.text .document j.item = .ok s) : i.IsText := by
  -- Of the items that have a reading and a settled form, only a text reads as one.
  rcases unread_cases hj hk with ⟨entries, rfl⟩ | ⟨js, ks, rfl, rfl⟩ | ⟨rfl, -⟩ | ⟨-, h', -⟩
  · obtain ⟨members, rfl, -⟩ := unread_named hj
    cases h
  · cases h
  · cases hk with
    | text _ => trivial
    | wide h' _ =>
      rcases h' with rfl | ⟨x, rfl⟩
      · cases hj
      · rw [Reader.unread] at hj
        split at hj <;> cases hj
    | _ => cases h
  · rcases h' with rfl | ⟨x, rfl⟩ <;> cases h

/-- The same field of an object that is passed on as it stands and of one that is settled. -/
theorem given_unread {α : Type} {read : Reader α} {absent a : α} {v : Option Item}
    {w w' : Option Json} (hw : Option.Rel (fun v j => Reader.unread .document v = .ok j) v w)
    (hw' : Option.Rel Settles v w')
    (hread : ∀ i j k, v = some i → Reader.unread .document i = .ok j → Settles i k →
      (read .document j.item = .ok a ↔ read .document k.item = .ok a)) :
    Given read absent (w.map Json.item) a ↔ Given read absent (w'.map Json.item) a := by
  cases hw with
  | none =>
    cases hw'
    exact Iff.rfl
  | some hj =>
    cases hw' with
    | some hk => exact hread _ _ _ rfl hj hk

/-- A field that is read as a text was one, where it was there at all. -/
theorem isText_of_given {v : Item} {w w' : Option Json} {s : String}
    (hw : Option.Rel (fun v j => Reader.unread .document v = .ok j) (some v) w)
    (hw' : Option.Rel Settles (some v) w') (h : Given Reader.text "" (w.map Json.item) s) :
    v.IsText := by
  cases hw with
  | some hj =>
    cases hw' with
    | some hk => exact isText_of_unread hj hk h

end ChainFollower
