import ChainFollower.Proofs.Ledger.Amounts
import Mathlib.Data.List.Nodup
import Mathlib.Data.List.Perm.Basic

/-!
# The two shapes of a value

Amounts by policy and name are written in either shape, flat or grouped by policy, and the two are
read as the same value: the coins, and one entry for each pair of a policy and a name.  For that the
policies have to be non-empty, without a dot, and others than the one that stands for the coins.

Main statement: `Value.shapes_agree`.
-/

namespace ChainFollower

/-! ## Entries in any order -/

section Orders

variable {α : Type} {entries others : List (String × α)}

/-- Of entries without a name twice, those of one name are one and the same. -/
theorem Entries.eq_of_names (hnames : (entries.map (·.1)).Nodup) :
    ∀ e ∈ entries, ∀ f ∈ entries, e.1 = f.1 → e.2 = f.2 := fun _ he _ hf heq =>
  congrArg Prod.snd (List.inj_on_of_nodup_map hnames he hf heq)

theorem Entries.lookup_of_mem (hnames : (entries.map (·.1)).Nodup) {name : String} {a : α}
    (h : (name, a) ∈ entries) : entries.lookup name = some a := by
  have honce : entries.Pairwise fun e f => ¬ (e.1 = name ∧ f.1 = name) :=
    (List.pairwise_map.1 hnames).imp fun hne hboth => hne (hboth.1.trans hboth.2.symm)
  rw [← lookup_reverse honce, ← Dict.get?_ofList]
  exact (Dict.get?_ofList_eq_some_iff (eq_of_names hnames)).2 h

namespace Dict

/-- A map has each of its entries once. -/
theorem nodup_entries (d : Dict α) : d.entries.Nodup := by
  refine List.Pairwise.imp ?_ d.ascending
  rintro e f hlt rfl
  exact String.lt_irrefl _ hlt

/-- Entries without a name twice are all in the map, and nothing else is. -/
theorem entries_ofList_perm (hnames : (entries.map (·.1)).Nodup) :
    (ofList entries).entries.Perm entries := by
  apply (List.perm_ext_iff_of_nodup (nodup_entries _) hnames.of_map).2
  rintro ⟨name, a⟩
  exact (mem_entries_iff _).trans (get?_ofList_eq_some_iff (Entries.eq_of_names hnames))

/-- Entries without a name twice make the same map in any order. -/
theorem ofList_perm (hnames : (entries.map (·.1)).Nodup) (h : entries.Perm others) :
    ofList entries = ofList others := by
  have hnames' : (others.map (·.1)).Nodup := (h.map _).nodup_iff.1 hnames
  apply ext_get?
  intro name
  apply Option.ext
  intro a
  rw [get?_ofList_eq_some_iff (Entries.eq_of_names hnames),
    get?_ofList_eq_some_iff (Entries.eq_of_names hnames')]
  exact h.mem_iff

end Dict

end Orders

/-! ## Ids of pairs -/

namespace AssetId

/-- A policy that can be told from the name behind it. -/
def IsPolicy (policy : String) : Prop := policy ≠ "" ∧ '.' ∉ policy.toList

theorem parts_of_isPolicy {policy : String} (h : IsPolicy policy) (name : String) :
    (ofParts policy name).policy = policy ∧ (ofParts policy name).name = name := by
  obtain ⟨hne, hdot⟩ := h
  unfold ofParts
  by_cases hname : name = ""
  · -- The id is the policy alone, and there is no dot in it that could separate anything.
    subst hname
    rcases parts_cases ⟨policy⟩ with hparts | ⟨-, -, htext⟩
    · exact hparts
    · refine absurd ?_ hdot
      rw [show policy = _ from htext, String.toList_append, String.toList_append]
      exact List.mem_append_left _ (List.mem_append_right _ (List.mem_singleton.2 rfl))
  · rw [if_neg (by simpa using hname)]
    exact parts_dotted name hne hdot

/-- No two pairs with such policies make the same id. -/
theorem ofParts_inj {policy policy' name name' : String} (h : IsPolicy policy)
    (h' : IsPolicy policy') (heq : ofParts policy name = ofParts policy' name') :
    policy = policy' ∧ name = name' := by
  obtain ⟨hpolicy, hname⟩ := parts_of_isPolicy h name
  obtain ⟨hpolicy', hname'⟩ := parts_of_isPolicy h' name'
  rw [heq] at hpolicy hname
  exact ⟨hpolicy.symm.trans hpolicy', hname.symm.trans hname'⟩

end AssetId

/-! ## Documents of both shapes -/

namespace Doc

/-- An object with exactly these members, in any order. -/
inductive Members {α : Type} (p : Doc → α → Prop) : Doc → List (String × α) → Prop
  | object {ms : List (Octets × Doc)} {written members : List (String × α)}
      (h : Named p ms written) (hperm : written.Perm members) : Members p (.object ms) members

/-- A document of the flat shape: the coins, and amounts by their ids. -/
def IsFlat (coins : Int) (amounts : List (String × Int)) (d : Doc) : Prop :=
  ∃ c a : Doc, Members (fun d member => member = d) d [("coins", c), ("assets", a)] ∧
    c.Denotes coins ∧ a.Members Denotes amounts

/-- A document that is grouped by policy: the coins, and amounts by policy and name. -/
def IsGrouped (coins : Int) (groups : List (String × List (String × Int))) (d : Doc) : Prop :=
  Members (Members Denotes) d ((Value.coinPolicy, [(Value.coinName, coins)]) :: groups)

variable {α β : Type} {p : Doc → α → Prop} {q : Doc → β → Prop} {ms : List (Octets × Doc)}
  {entries : List (String × α)} {d : Doc}

theorem Named.map (f : α → β) (h : Named p ms entries)
    (hvalues : ∀ {d : Doc}, ∀ e ∈ entries, p d e.2 → q d (f e.2)) :
    Named q ms (entries.map fun e => (e.1, f e.2)) := by
  induction h with
  | nil => exact .nil
  | cons hname ha _ ih =>
    exact .cons hname (hvalues _ List.mem_cons_self ha)
      (ih fun e he => hvalues e (List.mem_cons_of_mem _ he))

/-- In whatever order the members of an object stand, it is the map of them. -/
theorem Members.holds (f : α → β) (h : Members p d entries) (hnames : (entries.map (·.1)).Nodup)
    (hvalues : ∀ {d : Doc}, ∀ e ∈ entries, p d e.2 → q d (f e.2)) :
    d.Holds q (.ofList (entries.map fun e => (e.1, f e.2))) := by
  obtain @⟨ms, written, _, hnamed, hperm⟩ := h
  have hwritten : ((written.map fun e => (e.1, f e.2)).map (·.1)).Nodup := by
    rw [List.map_map]
    exact (hperm.map (·.1)).nodup_iff.2 hnames
  rw [← Dict.ofList_perm hwritten (hperm.map _)]
  exact .object (hnamed.map f fun e he => hvalues e (hperm.mem_iff.1 he))

theorem Members.holds_amounts {amounts : List (String × Int)} (h : d.Members Denotes amounts)
    (hnames : (amounts.map (·.1)).Nodup) : d.Holds Denotes (.ofList amounts) := by
  have hholds := h.holds (q := Denotes) id hnames fun _ _ hdenotes => hdenotes
  rwa [show (amounts.map fun e => (e.1, id e.2)) = amounts from List.map_id _] at hholds

theorem Members.holds_groups {groups : List (String × List (String × Int))}
    (h : d.Members (Members Denotes) groups) (hpolicies : (groups.map (·.1)).Nodup)
    (hnames : ∀ g ∈ groups, (g.2.map (·.1)).Nodup) :
    d.Holds (Holds Denotes) (.ofList (groups.map fun g => (g.1, .ofList g.2))) :=
  h.holds _ hpolicies fun g hg hgroup => hgroup.holds_amounts (hnames g hg)

/-- The literal that is written for an integer stands for it. -/
theorem denotes_int (n : Int) : (Json.int n).doc.Denotes n := by
  refine .literal (integerLiteral_intChars n) fun hzero => ?_
  -- Minus zero is refused as an amount, and what is written for an integer is read back.
  have hliteral := amount_literal (integerLiteral_intChars n) 0
  have hread : Reader.amount .document (toJson n).item = .ok n := Reader.amount_ofInt n
  rw [if_pos hzero, item_quoted_intChars, hread] at hliteral
  cases hliteral

theorem members_json (write : α → Json) (h : ∀ e ∈ entries, p (write e.2).doc e.2) :
    Members p (Json.object (entries.map fun e => (e.1, write e.2))).doc entries := by
  refine .object ?_ (.refl entries)
  induction entries with
  | nil => exact .nil
  | cons e rest ih =>
    obtain ⟨he, hrest⟩ := List.forall_mem_cons.1 h
    exact .cons (text?_escaped e.1) he (ih hrest)

end Doc

namespace Value

open AssetId (IsPolicy)

/-! ### As they are written -/

/-- Amounts by their names. -/
def amountsJson (amounts : List (String × Int)) : Json :=
  .object (amounts.map fun e => (e.1, .int e.2))

/-- Coins and amounts in the flat shape. -/
def flatJson (coins : Int) (amounts : List (String × Int)) : Json :=
  .object [("coins", .int coins), ("assets", amountsJson amounts)]

/-- Amounts grouped by policy. -/
def groupsJson (groups : List (String × List (String × Int))) : Json :=
  .object (groups.map fun g => (g.1, amountsJson g.2))

theorem members_amountsJson (amounts : List (String × Int)) :
    (amountsJson amounts).doc.Members Doc.Denotes amounts :=
  Doc.members_json _ fun e _ => Doc.denotes_int e.2

theorem isFlat_flatJson (coins : Int) (amounts : List (String × Int)) :
    (flatJson coins amounts).doc.IsFlat coins amounts :=
  ⟨(Json.int coins).doc, (amountsJson amounts).doc,
    .object (.cons (Doc.text?_escaped _) rfl (.cons (Doc.text?_escaped _) rfl .nil)) (.refl _),
    Doc.denotes_int coins, members_amountsJson amounts⟩

theorem members_groupsJson (groups : List (String × List (String × Int))) :
    (groupsJson groups).doc.Members (Doc.Members Doc.Denotes) groups :=
  Doc.members_json _ fun g _ => members_amountsJson g.2

/-! ## The shapes agree -/

/-- The entries that amounts by policy and name make of assets. -/
def assetEntries (groups : List (String × List (String × Int))) : List (String × Int) :=
  groups.flatMap fun g => g.2.map fun e => ((AssetId.ofParts g.1 e.1).text, e.2)

/-- A finite map from pairs of a policy and a name: no pair comes twice, and each policy can be told
from the name behind it and from the coins. -/
structure Separate (groups : List (String × List (String × Int))) : Prop where
  policies : (groups.map (·.1)).Nodup
  names : ∀ g ∈ groups, (g.2.map (·.1)).Nodup
  isPolicy : ∀ g ∈ groups, IsPolicy g.1
  notCoins : ∀ g ∈ groups, g.1 ≠ coinPolicy

section Shapes

variable {n : Int} {groups : List (String × List (String × Int))} {d : Doc} {s : Octets}

/-- Each pair makes an id of its own. -/
theorem Separate.nodup_assetEntries (h : Separate groups) :
    ((assetEntries groups).map (·.1)).Nodup := by
  rw [assetEntries, List.map_flatMap, List.nodup_flatMap]
  constructor
  · intro g hg
    have hids : ((g.2.map (·.1)).map fun name => (AssetId.ofParts g.1 name).text).Nodup := by
      refine (h.names g hg).map_on fun name _ name' _ heq => ?_
      exact (AssetId.ofParts_inj (h.isPolicy g hg) (h.isPolicy g hg) (congrArg AssetId.mk heq)).2
    rw [List.map_map] at hids ⊢
    exact hids
  · refine (List.pairwise_map.1 h.policies).imp_of_mem fun hg hg' hne => ?_
    -- Ids of two groups differ in their policies.
    intro id hid hid'
    obtain ⟨_, he, rfl⟩ := List.mem_map.1 hid
    obtain ⟨e, -, rfl⟩ := List.mem_map.1 he
    obtain ⟨_, he', heq⟩ := List.mem_map.1 hid'
    obtain ⟨e', -, rfl⟩ := List.mem_map.1 he'
    exact hne (AssetId.ofParts_inj (h.isPolicy _ hg) (h.isPolicy _ hg')
      (congrArg AssetId.mk heq.symm)).1

/-- The groups of a document, with the one that stands for the coins. -/
def withCoins (n : Int) (groups : List (String × List (String × Int))) :
    List (String × Dict Int) :=
  ((coinPolicy, [(coinName, n)]) :: groups).map fun g => (g.1, .ofList g.2)

theorem Separate.nodup_policies (h : Separate groups) :
    (((coinPolicy, [(coinName, n)]) :: groups).map (·.1)).Nodup := by
  refine List.nodup_cons.2 ⟨fun hmem => ?_, h.policies⟩
  obtain ⟨g, hg, heq⟩ := List.mem_map.1 hmem
  exact h.notCoins g hg heq

/-- The coins and the entries of assets are what the groups are read as. -/
theorem Separate.ofGroups_eq (h : Separate groups) :
    ofGroups (.ofList (withCoins n groups)) = ⟨n, .ofList (assetEntries groups)⟩ := by
  have hnames : ((withCoins n groups).map (·.1)).Nodup := by
    rw [withCoins, List.map_map]
    exact h.nodup_policies (n := n)
  have hcoins : (Dict.ofList (withCoins n groups)).get? coinPolicy =
      some (.ofList [(coinName, n)]) :=
    (Dict.get?_ofList_eq_some_iff (Entries.eq_of_names hnames)).2 List.mem_cons_self
  -- Without the coins, what is left are the groups in some order.
  have hgroups : ((Dict.ofList (withCoins n groups)).erase coinPolicy).entries.Perm
      (groups.map fun g => (g.1, Dict.ofList g.2)) := by
    refine ((Dict.entries_ofList_perm hnames).filter _).trans ?_
    rw [withCoins, List.map_cons, List.filter_cons_of_neg (by simp), List.filter_eq_self.2]
    intro e he
    obtain ⟨g, hg, rfl⟩ := List.mem_map.1 he
    exact bne_iff_ne.2 (h.notCoins g hg)
  have hassets := hgroups.flatMap_right fun g : String × Dict Int =>
    g.2.entries.map fun e => ((AssetId.ofParts g.1 e.1).text, e.2)
  rw [List.flatMap_map] at hassets
  have hentries := hassets.trans (List.Perm.flatMap_left groups fun g hg =>
    (Dict.entries_ofList_perm (h.names g hg)).map fun e =>
      ((AssetId.ofParts g.1 e.1).text, e.2))
  rw [ofGroups, Dict.getD_eq _ coinPolicy, hcoins]
  refine congrArg (Value.mk n) (Dict.ofList_perm ?_ hentries)
  exact (hentries.map _).nodup_iff.2 h.nodup_assetEntries

theorem Separate.decode_grouped (h : Separate groups) (hd : Doc.Spells d s)
    (hgrouped : d.IsGrouped n groups) :
    Json.decode s = .ok (Value.mk n (.ofList (assetEntries groups))) := by
  have hholds : d.Holds (Doc.Holds Doc.Denotes) (.ofList (withCoins n groups)) := by
    refine Doc.Members.holds_groups hgrouped h.nodup_policies ?_
    exact List.forall_mem_cons.2 ⟨List.nodup_singleton _, h.names⟩
  rw [← h.ofGroups_eq]
  exact (Json.decode_eq_ok_iff hd).2 ((Doc.value_eq_ok_iff hd).2 (.grouped hholds))

theorem Separate.decode_flat (h : Separate groups) (hd : Doc.Spells d s)
    (hflat : d.IsFlat n (assetEntries groups)) :
    Json.decode s = .ok (Value.mk n (.ofList (assetEntries groups))) := by
  obtain ⟨c, a, hmembers, hcoins, hamounts⟩ := hflat
  have hassets := hamounts.holds_amounts h.nodup_assetEntries
  cases hmembers with
  | @object ms written _ hnamed hperm =>
    -- Both members lie within the nesting limit, each because it can be read.
    have hkept : Doc.Kept 126 ms written := by
      have hkept := Doc.Named.map (q := fun d kept => kept = d ∧ d.Held 126) id hnamed ?_
      · rwa [show (written.map fun e => (e.1, id e.2)) = written from List.map_id _] at hkept
      · rintro d e he rfl
        refine ⟨rfl, ?_⟩
        rcases List.mem_cons.1 (hperm.mem_iff.1 he) with rfl | he
        · exact (Doc.readsAs_amount 126).held hcoins
        · obtain rfl := List.mem_singleton.1 he
          exact (Doc.readsAs_amount 125).holds.held hassets
    -- The order of the two members does not matter to a lookup.
    have hnames : (written.map (·.1)).Nodup := by
      rw [(hperm.map (·.1)).nodup_iff]
      show ["coins", "assets"].Nodup
      decide
    have hc := Entries.lookup_of_mem hnames (hperm.mem_iff.2 List.mem_cons_self)
    have ha := Entries.lookup_of_mem hnames
      (hperm.mem_iff.2 (List.mem_cons_of_mem _ (List.mem_singleton.2 rfl)))
    refine (Json.decode_eq_ok_iff hd).2 ((Doc.value_eq_ok_iff hd).2 (.flat hkept ?_))
    refine ⟨hnames.filter _, ⟨c, hc, hcoins⟩, ?_⟩
    rw [ha]
    exact hassets

end Shapes

/-- Amounts by policy and name are read from both shapes as the same value: it has the coins, and
exactly one entry for each pair, with the amount of the pair. -/
theorem shapes_agree {n : Int} {groups : List (String × List (String × Int))}
    (hgroups : Separate groups) {d e : Doc} {s t : Octets} (hd : Doc.Spells d s)
    (he : Doc.Spells e t) (hflat : d.IsFlat n (assetEntries groups))
    (hgrouped : e.IsGrouped n groups) :
    ∃ v w : Value, Json.decode s = .ok v ∧ Json.decode t = .ok w ∧ v.coins = n ∧ w.coins = n ∧
      v.assets = w.assets ∧ v.assets.entries.Perm (assetEntries groups) ∧
        Json.encode v = Json.encode w :=
  ⟨_, _, hgroups.decode_flat hd hflat, hgroups.decode_grouped he hgrouped, rfl, rfl, rfl,
    Dict.entries_ofList_perm hgroups.nodup_assetEntries, rfl⟩

/-- Policies that are named like the members of the flat shape, and an amount beyond the words. -/
theorem shapes_agree_of_members_as_policies : ∃ v w : Value,
    Json.decode (Octets.ofText ("\x7b\"coins\":5,\"assets\":\x7b\"coins\":7," ++
      "\"assets.x\":18446744073709551616\x7d\x7d")) = .ok v ∧
    Json.decode (Octets.ofText ("\x7b\"ada\":\x7b\"lovelace\":5\x7d,\"coins\":\x7b\"\":7\x7d," ++
      "\"assets\":\x7b\"x\":18446744073709551616\x7d\x7d")) = .ok w ∧
    v.assets = w.assets ∧ Json.encode v = Json.encode w := by
  have hgroups : Separate [("coins", [("", 7)]), ("assets", [("x", 18446744073709551616)])] :=
    ⟨by decide, by decide, by simp [IsPolicy], by decide⟩
  obtain ⟨v, w, hv, hw, -, -, hassets, -, hencode⟩ := shapes_agree hgroups
    (Doc.spells_octets _) (Doc.spells_octets _) (isFlat_flatJson 5 _) (members_groupsJson (_ :: _))
  exact ⟨v, w, hv, hw, hassets, hencode⟩

end Value

end ChainFollower
