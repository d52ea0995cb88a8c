import ChainFollower.Ledger.Transaction
import ChainFollower.Proofs.Item.Members
import ChainFollower.Proofs.Json.Canonical

/-!
# Datums are read back

Datums are taken from hexadecimal digits or base64, and what is taken stands in hexadecimal digits.
That is why decoded datums are read back as they are.

Main statements: `Datums.sound_of_yields` and `Datums.Sound.restores`.
-/

namespace ChainFollower

/-! ## Hexadecimal digits -/

namespace Hex

theorem value?_digit {n : Nat} (h : n < 16) : value? (digit n) = some n := by
  revert n
  decide

/-- The digits of bytes are read as the bytes. -/
theorem decode?_encode (bs : Octets) : decode? (encode bs) = some bs := by
  induction bs with
  | nil => rfl
  | cons b rest ih =>
    -- The two digits are the halves of the octet, and put together they are the octet.
    have hhigh : b.toNat / 16 < 16 := by
      have := b.toNat_lt
      omega
    have hlow : b.toNat % 16 < 16 := Nat.mod_lt _ (by decide)
    have hbyte : UInt8.ofNat (16 * (b.toNat / 16) + b.toNat % 16) = b := by
      rw [Nat.div_add_mod, UInt8.ofNat_toNat]
    show decode? (digit (b.toNat / 16) :: digit (b.toNat % 16) :: encode rest) = _
    simp only [decode?, value?_digit hhigh, value?_digit hlow, ih, hbyte]

end Hex

namespace Datums

/-! ## What is decoded -/

/-- A datum that has been brought into its form stays as it is. -/
theorem normalize?_idem {raw hex : String} (h : normalize? raw = some hex) :
    normalize? hex = some hex := by
  unfold normalize? at *
  cases hdecode : Hex.decode? raw.toList with
  | some b =>
    rw [hdecode] at h
    obtain rfl : raw = hex := Option.some.inj h
    rw [hdecode]
  | none =>
    -- What comes from base64 stands in digits that are read as the same bytes.
    rw [hdecode] at h
    obtain ⟨b, -, rfl⟩ := Option.map_eq_some_iff.1 h
    rw [String.toList_ofList, Hex.decode?_encode]

/-- Every datum stands in the form that it is brought into. -/
def Sound (d : Datums) : Prop := ∀ e ∈ d.byHash.entries, normalize? e.2 = some e.2

theorem sound_empty : Sound ⟨∅⟩ := fun _ he => absurd he List.not_mem_nil

theorem normalize?_of_ofEntries {entries : List (String × Json)} {datums : List (String × String)}
    (h : ofEntries entries = .ok datums) : ∀ e ∈ datums, normalize? e.2 = some e.2 := by
  induction entries generalizing datums with
  | nil =>
    cases h
    exact fun _ he => absurd he List.not_mem_nil
  | cons first rest ih =>
    obtain ⟨key, j⟩ := first
    rw [ofEntries] at h
    obtain ⟨hex, hhex, h⟩ := bind_eq_ok.1 h
    obtain ⟨tail, htail, h⟩ := bind_eq_ok.1 h
    cases h
    refine List.forall_mem_cons.2 ⟨?_, ih htail⟩
    -- What a datum was read from is a text, and normalizing it twice changes nothing.
    unfold ofDocument at hhex
    split at hhex
    · split at hhex
      · next hnormal =>
        cases hhex
        exact normalize?_idem hnormal
      · cases hhex
    · cases hhex

/-- Datums are sound whatever they were read from. -/
theorem sound_of_read {m : Medium} {item : Item} {d : Datums} (h : Portable.read m item = .ok d) :
    d.Sound := by
  obtain ⟨raw, -, hread⟩ := bind_eq_ok.1 h
  obtain ⟨datums, hdatums, hread⟩ := bind_eq_ok.1 hread
  cases hread
  exact fun e he => normalize?_of_ofEntries hdatums e (Entries.mem_sort he)

theorem sound_of_yields {levels : Nat} {d : Datums}
    (h : (Portable.read : Reader Datums).Yields levels d) : d.Sound := by
  obtain ⟨j, -, hread⟩ := h
  exact sound_of_read hread

/-! ## What is read back -/

/-- Texts are taken for what each of them is brought into. -/
theorem ofEntries_text {α : Type} {entries : List (String × α)} (raw hex : α → String)
    (h : ∀ e ∈ entries, normalize? (raw e.2) = some (hex e.2)) :
    ofEntries (entries.map fun e => (e.1, .text (raw e.2))) =
      .ok (entries.map fun e => (e.1, hex e.2)) := by
  induction entries with
  | nil => rfl
  | cons first rest ih =>
    obtain ⟨hfirst, hrest⟩ := List.forall_mem_cons.1 h
    simp only [List.map_cons, ofEntries, ofDocument, hfirst, ih hrest]
    rfl

/-- Datums are read from the entries of a map. -/
theorem read_of_entries {m : Medium} {item : Item} {raw : Dict Json}
    {datums : List (String × String)} (hraw : Portable.read m item = .ok raw)
    (h : ofEntries raw.entries = .ok datums) :
    Portable.read m item = .ok (⟨.ofList datums⟩ : Datums) := by
  show (do
    let raw : Dict Json ← Portable.read m item
    let datums ← ofEntries raw.entries
    return (⟨.ofList datums⟩ : Datums)) = _
  rw [hraw]
  show (ofEntries raw.entries >>= _) = _
  rw [h]
  rfl

/-- Sound datums are read from the map that they are written as. -/
theorem Sound.read_toJson {d : Datums} (h : d.Sound) :
    Portable.read .document (toJson d.byHash).sorted.item = .ok d := by
  have hraw : (Portable.read .document (toJson d.byHash).sorted.item : Reading (Dict Json)) =
      .ok (d.byHash.map Json.text) := by
    rw [Dict.sorted_toJson]
    refine (Dict.read_object Json.text Json.text fun _ _ => rfl).trans ?_
    exact congrArg Except.ok (Dict.ofList_entries (d.byHash.map Json.text))
  have hentries : ofEntries (d.byHash.map Json.text).entries = .ok d.byHash.entries :=
    (ofEntries_text id id h).trans (congrArg Except.ok (List.map_id d.byHash.entries))
  rw [read_of_entries hraw hentries]
  exact congrArg (fun byHash => Except.ok (Datums.mk byHash)) (Dict.ofList_entries d.byHash)

/-- The member for datums, written unless there are none. -/
theorem Sound.restores {β : Type} {levels : Nat} {ms : List (String × Member)}
    {fields : Record → Placed (Datums → β)} {f : Datums → β} {d : Datums} (sound : d.Sound)
    (h : Record.Restores (levels + 1) ms fields f) (name : String) :
    Record.Restores (levels + 1) ((name, .ifEntries name d.byHash) :: ms)
      (fun r => fields r <*> r.getD name ⟨∅⟩) (f d) := by
  have hread := sound.read_toJson
  unfold Member.ifEntries
  -- An empty map is left out when written and supplied as the default when read.
  by_cases hempty : d.byHash.isEmpty = true
  · obtain rfl : d = ⟨∅⟩ :=
      congrArg Datums.mk (Dict.ext_get? fun key => (Dict.isEmpty_iff _).1 hempty key)
    exact h.seqWith (Member.fits_none _ name) rfl
  · rw [if_neg hempty]
    apply h.seqWith
    · rintro _ ⟨⟩
      exact ⟨rfl, (readBack_dict fun e _ => readBack_text levels e.2).fits⟩
    · exact hread

end Datums

end ChainFollower
