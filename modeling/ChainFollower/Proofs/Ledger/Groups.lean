import ChainFollower.Proofs.Ledger.Shapes

/-!
# What is kept of amounts grouped by policy

Every document that is grouped by policy is read as a value, but not all that it says is kept.  Names
beside the amount of coins are left unread, and of pairs that make the same id only the last one is
there afterwards.

Main statement: `Value.keeps_iff_sound`.
-/

namespace ChainFollower.Value

/-! ## Entries and their places -/

/-- An amount in a document that is grouped by policy. -/
structure Entry where
  policy : String
  name : String
  amount : Int

namespace Entry

/-- The groups have the entry. -/
def In (e : Entry) (groups : Dict (Dict Int)) : Prop :=
  ∃ amounts, groups.get? e.policy = some amounts ∧ amounts.get? e.name = some e.amount

/-- It is the amount of coins. -/
def IsCoins (e : Entry) : Prop := e.policy = coinPolicy ∧ e.name = coinName

instance (e : Entry) : Decidable e.IsCoins := inferInstanceAs (Decidable (_ ∧ _))

/-- The value has the amount, as its coins or by the id of policy and name. -/
def KeptBy (e : Entry) (v : Value) : Prop :=
  if e.IsCoins then v.coins = e.amount else v.amount (.ofParts e.policy e.name) = e.amount

/-- The entry is read: it is the amount of coins, or does not stand beside it. -/
def Counts (e : Entry) : Prop := e.policy = coinPolicy → e.name = coinName

/-- Where a value has the amount, with the coins or by an id. -/
def place (e : Entry) : Option AssetId :=
  if e.IsCoins then none else some (.ofParts e.policy e.name)

theorem place_eq_none_iff {e : Entry} : e.place = none ↔ e.IsCoins := by
  unfold place
  split <;> simp [*]

theorem place_eq_some_iff {e : Entry} {a : AssetId} :
    e.place = some a ↔ ¬ e.IsCoins ∧ AssetId.ofParts e.policy e.name = a := by
  unfold place
  split <;> simp [*]

end Entry

/-- Nothing of the groups is lost: an entry agrees with those that are read in its place, and
without any it is zero. -/
def Sound (groups : Dict (Dict Int)) : Prop :=
  ∀ e : Entry, e.In groups →
    (∀ f : Entry, f.In groups → f.Counts → f.place = e.place → f.amount = e.amount) ∧
    ((∀ f : Entry, f.In groups → f.Counts → f.place ≠ e.place) → e.amount = 0)

/-- The amount at a place. -/
def held (v : Value) : Option AssetId → Int
  | none => v.coins
  | some a => v.amount a

theorem keptBy_iff {e : Entry} {v : Value} : e.KeptBy v ↔ v.held e.place = e.amount := by
  unfold Entry.KeptBy Entry.place
  split <;> rfl

section Groups

variable {groups : Dict (Dict Int)}

/-- The entries of assets that groups are read as. -/
theorem mem_groupEntries_iff {id : String} {amount : Int} :
    (id, amount) ∈ ((groups.erase coinPolicy).entries.flatMap fun (policy, amounts) =>
        amounts.entries.map fun (name, amount) => ((AssetId.ofParts policy name).text, amount)) ↔
      ∃ e : Entry, e.In groups ∧ e.Counts ∧ e.place = some ⟨id⟩ ∧ e.amount = amount := by
  rw [List.mem_flatMap]
  constructor
  -- The group of the coins has been taken out, so the policy is another one.
  · rintro ⟨⟨policy, amounts⟩, hgroup, hentry⟩
    obtain ⟨⟨name, a⟩, hamount, heq⟩ := List.mem_map.1 hentry
    obtain ⟨hid, rfl⟩ := Prod.mk.inj heq
    have hget := (Dict.mem_entries_iff _).1 hgroup
    rw [Dict.get?_erase] at hget
    split at hget
    · cases hget
    · next hpolicy =>
      refine ⟨⟨policy, name, a⟩, ⟨amounts, hget, (Dict.mem_entries_iff _).1 hamount⟩,
        fun hcoins => absurd hcoins hpolicy, ?_, rfl⟩
      exact Entry.place_eq_some_iff.2 ⟨fun hcoins => hpolicy hcoins.1, congrArg AssetId.mk hid⟩
  · rintro ⟨⟨policy, name, a⟩, ⟨amounts, hgroup, hamount⟩, hcounts, hplace, rfl⟩
    obtain ⟨hcoins, hid⟩ := Entry.place_eq_some_iff.1 hplace
    -- An entry under the policy of the coins counts only as the coins, which have no asset place.
    have hpolicy : policy ≠ coinPolicy := fun hpolicy => hcoins ⟨hpolicy, hcounts hpolicy⟩
    refine ⟨(policy, amounts), ?_, List.mem_map.2 ⟨(name, a), ?_, ?_⟩⟩
    · rw [Dict.mem_entries_iff, Dict.get?_erase, if_neg hpolicy]
      exact hgroup
    · exact (Dict.mem_entries_iff _).2 hamount
    · exact Prod.ext (congrArg AssetId.text hid) rfl

/-- The coins are the amount of an entry that is read, or zero without such an entry. -/
theorem coins_ofGroups (groups : Dict (Dict Int)) :
    (∃ e : Entry, e.In groups ∧ e.IsCoins ∧ (ofGroups groups).coins = e.amount) ∨
    (∀ e : Entry, e.In groups → ¬ e.IsCoins) ∧ (ofGroups groups).coins = 0 := by
  have hread : (ofGroups groups).coins =
      (((groups.get? coinPolicy).getD ∅).get? coinName).getD 0 := rfl
  rw [hread]
  -- The coins are one entry of one group, present or absent.
  cases hcoins : ((groups.get? coinPolicy).getD ∅).get? coinName with
  | some amount =>
    left
    cases hgroup : groups.get? coinPolicy with
    | none =>
      rw [hgroup] at hcoins
      cases hcoins
    | some amounts =>
      rw [hgroup] at hcoins
      exact ⟨⟨coinPolicy, coinName, amount⟩, ⟨amounts, hgroup, hcoins⟩, ⟨rfl, rfl⟩, rfl⟩
  | none =>
    refine .inr ⟨?_, rfl⟩
    rintro ⟨policy, name, amount⟩ ⟨amounts, hgroup, hamount⟩ ⟨rfl, rfl⟩
    rw [hgroup] at hcoins
    cases hcoins.symm.trans hamount

/-- The amount of an id is that of an entry that is read, or zero without such an entry. -/
theorem amount_ofGroups (groups : Dict (Dict Int)) (a : AssetId) :
    (∃ e : Entry, e.In groups ∧ e.Counts ∧ e.place = some a ∧
      (ofGroups groups).amount a = e.amount) ∨
    (∀ e : Entry, e.In groups → e.Counts → e.place ≠ some a) ∧ (ofGroups groups).amount a = 0 := by
  have hread : (ofGroups groups).amount a = ((ofGroups groups).assets.get? a.text).getD 0 := rfl
  rw [hread, ofGroups, Dict.get?_ofList]
  -- Of the entries at a place the last one stays.
  cases hlookup : List.lookup a.text (List.reverse _) with
  | some amount =>
    have hmem := List.mem_reverse.1 (Entries.mem_of_lookup hlookup)
    obtain ⟨e, hin, hcounts, hplace, heq⟩ := mem_groupEntries_iff.1 hmem
    exact .inl ⟨e, hin, hcounts, hplace, heq.symm⟩
  | none =>
    refine .inr ⟨fun e hin hcounts hplace => ?_, rfl⟩
    have hmem := List.mem_reverse.2 (mem_groupEntries_iff.2 ⟨e, hin, hcounts, hplace, rfl⟩)
    simpa using List.lookup_eq_none_iff.1 hlookup _ hmem

/-- At each place there is the amount of an entry that is read, or nothing. -/
theorem held_ofGroups (groups : Dict (Dict Int)) (place : Option AssetId) :
    (∃ e : Entry, e.In groups ∧ e.Counts ∧ e.place = place ∧
      (ofGroups groups).held place = e.amount) ∨
    (∀ e : Entry, e.In groups → e.Counts → e.place ≠ place) ∧ (ofGroups groups).held place = 0 := by
  cases place with
  | none =>
    rcases coins_ofGroups groups with ⟨e, hin, hcoins, heq⟩ | ⟨hno, hzero⟩
    · exact .inl ⟨e, hin, fun _ => hcoins.2, Entry.place_eq_none_iff.2 hcoins, heq⟩
    · exact .inr ⟨fun e hin _ hplace => hno e hin (Entry.place_eq_none_iff.1 hplace), hzero⟩
  | some a => exact amount_ofGroups groups a

end Groups

/-- A document that is grouped by policy is always read, and all its amounts are kept exactly if
nothing beside the amount of coins is lost and no two pairs in one place differ. -/
theorem keeps_iff_sound {d : Doc} {s : Octets} {groups : Dict (Dict Int)} (hd : Doc.Spells d s)
    (hgroups : d.Holds (Doc.Holds Doc.Denotes) groups) :
    ∃ v : Value, Json.decode s = .ok v ∧
      ((∀ e : Entry, e.In groups → e.KeptBy v) ↔ Sound groups) := by
  refine ⟨ofGroups groups,
    (Json.decode_eq_ok_iff hd).2 ((Doc.value_eq_ok_iff hd).2 (.grouped hgroups)), ?_⟩
  simp only [keptBy_iff]
  constructor
  -- Every entry is kept, so two at one place hold the same amount and a lost one holds zero.
  · intro hkept e hin
    have hheld := hkept e hin
    constructor
    · intro f hf _ hplace
      rw [← hkept f hf, hplace]
      exact hheld
    · intro hnone
      rcases held_ofGroups groups e.place with ⟨f, hf, hcounts, hplace, -⟩ | ⟨-, hzero⟩
      · exact absurd hplace (hnone f hf hcounts)
      · exact hheld.symm.trans hzero
  -- The value holds some entry of the place, and soundness makes the others agree with it.
  · intro hsound e hin
    obtain ⟨hagree, hzero⟩ := hsound e hin
    rcases held_ofGroups groups e.place with ⟨f, hf, hcounts, hplace, heq⟩ | ⟨hnone, heq⟩
    · exact heq.trans (hagree f hf hcounts hplace)
    · exact heq.trans (hzero hnone).symm

/-- What stands beside the amount of coins is lost. -/
theorem keeps_iff_sound_beside_coins : ∃ v : Value,
    Json.decode (Octets.ofText "\x7b\"ada\":\x7b\"lovelace\":1,\"x\":5\x7d\x7d") = .ok v ∧
      ¬ ∀ e : Entry, e.In (.ofList [("ada", .ofList [("lovelace", 1), ("x", 5)])]) → e.KeptBy v := by
  have hholds := (members_groupsJson [("ada", [("lovelace", 1), ("x", 5)])]).holds_groups (by decide)
    (by decide)
  obtain ⟨v, hv, hiff⟩ := keeps_iff_sound (Doc.spells_octets _) hholds
  refine ⟨v, hv, fun hkept => ?_⟩
  -- The second entry is not zero, and no entry that is read has its place.
  have hzero := (hiff.1 hkept ⟨"ada", "x", 5⟩ ⟨_, rfl, rfl⟩).2
  refine absurd (hzero ?_) (by decide)
  rintro ⟨policy, name, amount⟩ ⟨amounts, hgroup, -⟩ hcounts hplace
  have hpolicy : policy = coinPolicy := by
    rw [Dict.get?_ofList] at hgroup
    exact (Prod.mk.inj (List.mem_singleton.1 (Entries.mem_of_lookup hgroup))).1
  have hcoins : Entry.IsCoins ⟨policy, name, amount⟩ := ⟨hpolicy, hcounts hpolicy⟩
  rw [Entry.place_eq_none_iff.2 hcoins] at hplace
  cases hplace

/-- Of two pairs that make one id, one amount is lost. -/
theorem keeps_iff_sound_not_of_one_id : ∃ v : Value,
    Json.decode (Octets.ofText "\x7b\"a.b\":\x7b\"c\":1\x7d,\"a\":\x7b\"b.c\":2\x7d\x7d") = .ok v ∧
      v.amount (.ofParts "a.b" "c") = 1 ∧ v.amount (.ofParts "a" "b.c") ≠ 2 := by
  have hholds := (members_groupsJson [("a.b", [("c", 1)]), ("a", [("b.c", 2)])]).holds_groups
    (by decide) (by decide)
  have hd := Doc.spells_octets (groupsJson [("a.b", [("c", 1)]), ("a", [("b.c", 2)])])
  refine ⟨_, (Json.decode_eq_ok_iff hd).2 ((Doc.value_eq_ok_iff hd).2 (.grouped hholds)), ?_, ?_⟩
  · decide
  · decide

end ChainFollower.Value
