import ChainFollower.Ledger.Value
import ChainFollower.Proofs.Cbor.Rereading
import ChainFollower.Proofs.Item.Members
import ChainFollower.Proofs.Json.Rereading
import ChainFollower.Proofs.Ledger.Assets

/-!
# Values and their document form

A value is written grouped by policy and read back from the groups.  Ids with the same parts share
one entry of a group, and assets of the policy that stands for the coins take the place of the
coins: that is where a value can lose something.

Main statements: `Value.same_of_retained` and `Value.retained_of_same` for what is lost,
`Value.decode_encode` and `Value.decode_encodeValue` for the encodings.
-/

namespace ChainFollower

/-! ## Amounts -/

/-- An amount is read back, be it written as a number or as a text. -/
theorem Reader.amount_ofInt (n : Int) :
    Portable.read .document (toJson n).item = .ok n := by
  show Reader.amount .document (Json.ofInt n).item = .ok n
  unfold Json.ofInt
  split
  · rfl
  · show Reader.decimal (String.ofList (Json.intChars n)) = .ok n
    rw [Reader.decimal, String.toList_ofList, Decimal.readInt_intChars]

/-- An amount fits at any depth, having no parts, -/
theorem Json.fits_ofInt (levels : Nat) (n : Int) : (toJson n).Fits levels := by
  show (Json.ofInt n).Fits levels
  unfold Json.ofInt
  split
  · next h => exact fits_int.2 h
  · exact fits_text levels _

/-- and holds no float, however large it is. -/
theorem Json.floatFree_ofInt (n : Int) : (toJson n).FloatFree := by
  show (Json.ofInt n).FloatFree
  unfold Json.ofInt
  split
  · exact floatFree_int n
  · exact floatFree_text _

namespace Value

/-! ## Groups -/

/-- The last amount among some entries whose id has these parts. -/
def lastOf (policy name : String) (entries : List (String × Int)) : Option Int :=
  (entries.reverse.find? fun e =>
    AssetId.policy ⟨e.1⟩ == policy && AssetId.name ⟨e.1⟩ == name).map (·.2)

/-- The amount of a policy and a name in a map of groups. -/
def grouped (groups : Dict (Dict Int)) (policy name : String) : Option Int :=
  (groups.get? policy).bind (·.get? name)

/-- The first entry counts if none behind it has the same parts. -/
theorem lastOf_cons (policy name : String) (e : String × Int) (rest : List (String × Int)) :
    lastOf policy name (e :: rest) = (lastOf policy name rest).or
      (if AssetId.policy ⟨e.1⟩ = policy ∧ AssetId.name ⟨e.1⟩ = name then some e.2 else none) := by
  rw [lastOf, List.reverse_cons, List.find?_append, lastOf]
  -- A later entry of the same parts hides this one.
  cases hrest : rest.reverse.find? fun e =>
    AssetId.policy ⟨e.1⟩ == policy && AssetId.name ⟨e.1⟩ == name with
  | some f => rfl
  | none =>
    by_cases h : AssetId.policy ⟨e.1⟩ = policy ∧ AssetId.name ⟨e.1⟩ = name
    · simp [h]
    · have hfalse : (AssetId.policy ⟨e.1⟩ == policy && AssetId.name ⟨e.1⟩ == name) = false := by
        simpa using h
      simp [hfalse, h]

/-- One more entry in its group. -/
def addGroup (groups : Dict (Dict Int)) (e : String × Int) : Dict (Dict Int) :=
  groups.insert (AssetId.policy ⟨e.1⟩)
    ((groups.getD (AssetId.policy ⟨e.1⟩) ∅).insert (AssetId.name ⟨e.1⟩) e.2)

/-- One more entry changes its own amount. -/
theorem grouped_addGroup (groups : Dict (Dict Int)) (e : String × Int) (policy name : String) :
    grouped (addGroup groups e) policy name =
      if AssetId.policy ⟨e.1⟩ = policy ∧ AssetId.name ⟨e.1⟩ = name then some e.2
      else grouped groups policy name := by
  unfold grouped addGroup
  rw [Dict.get?_insert]
  -- The entry is seen at its own policy and name only.
  by_cases hpolicy : policy = AssetId.policy ⟨e.1⟩
  · subst hpolicy
    rw [if_pos rfl, Option.bind_some, Dict.get?_insert, Dict.getD_eq]
    by_cases hname : name = AssetId.name ⟨e.1⟩
    · simp [hname]
    · have hother := Ne.symm hname
      cases groups.get? (AssetId.policy ⟨e.1⟩) with
      | none => simp [hname, hother, Dict.get?_empty]
      | some d => simp [hname, hother]
  · simp [hpolicy, Ne.symm hpolicy]

/-- It also makes its group, if that was not there. -/
theorem get?_addGroup_isSome (groups : Dict (Dict Int)) (e : String × Int) (policy : String) :
    ((addGroup groups e).get? policy).isSome = true ↔
      AssetId.policy ⟨e.1⟩ = policy ∨ (groups.get? policy).isSome = true := by
  rw [addGroup, Dict.get?_insert]
  by_cases hpolicy : policy = AssetId.policy ⟨e.1⟩
  · simp [hpolicy]
  · simp [hpolicy, Ne.symm hpolicy]

/-- The groups are made entry by entry. -/
theorem byPolicy_eq (assets : Dict Int) :
    byPolicy assets = assets.entries.foldl addGroup ∅ := rfl

/-- A group has the last amount of each name. -/
theorem grouped_byPolicy (assets : Dict Int) (policy name : String) :
    grouped (byPolicy assets) policy name = lastOf policy name assets.entries := by
  rw [byPolicy_eq]
  suffices ∀ (entries : List (String × Int)) (groups : Dict (Dict Int)),
      grouped (entries.foldl addGroup groups) policy name =
        (lastOf policy name entries).or (grouped groups policy name) by
    rw [this]
    exact Option.or_none
  -- What was in the groups before stands behind all that the entries add.
  intro entries
  induction entries with
  | nil => exact fun _ => rfl
  | cons e rest ih =>
    intro groups
    rw [List.foldl_cons, ih, grouped_addGroup, lastOf_cons, Option.or_assoc]
    split <;> rfl

/-- There is a group for every policy, and for nothing else. -/
theorem get?_byPolicy_isSome (assets : Dict Int) (policy : String) :
    ((byPolicy assets).get? policy).isSome = true ↔
      ∃ e ∈ assets.entries, AssetId.policy ⟨e.1⟩ = policy := by
  rw [byPolicy_eq]
  -- Stated for any groups to start from, since the entries are added to those already made.
  suffices ∀ (entries : List (String × Int)) (groups : Dict (Dict Int)),
      ((entries.foldl addGroup groups).get? policy).isSome = true ↔
        (∃ e ∈ entries, AssetId.policy ⟨e.1⟩ = policy) ∨ (groups.get? policy).isSome = true by
    rw [this]
    simp [Dict.get?_empty]
  intro entries
  induction entries with
  | nil => simp
  | cons e rest ih =>
    intro groups
    rw [List.foldl_cons, ih, get?_addGroup_isSome]
    simp only [List.mem_cons, exists_eq_or_imp]
    rw [or_left_comm, or_assoc]

/-! ## The last of several ids with the same parts -/

section LastOf

variable {policy name : String} {entries : List (String × Int)}

/-- No entry has the parts, -/
theorem lastOf_eq_none_iff : lastOf policy name entries = none ↔
    ∀ e ∈ entries, ¬ (AssetId.policy ⟨e.1⟩ = policy ∧ AssetId.name ⟨e.1⟩ = name) := by
  rw [lastOf, Option.map_eq_none_iff, List.find?_eq_none]
  simp

/-- or one that has them gives the amount. -/
theorem exists_of_lastOf {amount : Int} (h : lastOf policy name entries = some amount) :
    ∃ e ∈ entries, AssetId.policy ⟨e.1⟩ = policy ∧ AssetId.name ⟨e.1⟩ = name ∧ e.2 = amount := by
  obtain ⟨e, he, rfl⟩ := Option.map_eq_some_iff.1 h
  have hmem := List.mem_reverse.1 (List.mem_of_find?_eq_some he)
  have hparts := List.find?_some he
  simp only [Bool.and_eq_true, beq_iff_eq] at hparts
  exact ⟨e, hmem, hparts.1, hparts.2, rfl⟩

/-- Of two ids with the same parts the dangling one comes last. -/
theorem lastOf_dangling (ascending : Entries.Ascending entries) {e : String × Int}
    (he : e ∈ entries) (dangling : AssetId.Dangling ⟨e.1⟩) :
    lastOf (AssetId.policy ⟨e.1⟩) (AssetId.name ⟨e.1⟩) entries = some e.2 := by
  induction entries with
  | nil => exact absurd he List.not_mem_nil
  | cons first rest ih =>
    obtain ⟨hfirst, hrest⟩ := List.pairwise_cons.1 ascending
    rw [lastOf_cons]
    rcases List.mem_cons.1 he with rfl | he
    · -- What comes after the dangling id has other parts.
      have hnone : lastOf (AssetId.policy ⟨e.1⟩) (AssetId.name ⟨e.1⟩) rest = none := by
        apply lastOf_eq_none_iff.2
        rintro f hf ⟨hpolicy, hname⟩
        have hlt := hfirst f hf
        by_cases hdangling : AssetId.Dangling ⟨f.1⟩
        · have heq : f.1 = e.1 := by
            have hf := hdangling.parts.2.1
            have he := dangling.parts.2.1
            rw [hpolicy] at hf
            exact hf.trans he.symm
          rw [heq] at hlt
          exact String.lt_irrefl _ hlt
        · have heq := dangling.eq_policy hdangling hpolicy.symm hname.symm
          have htext : f.1 = AssetId.policy ⟨e.1⟩ := congrArg AssetId.text heq
          have hbefore := dangling.policy_lt
          rw [← htext] at hbefore
          exact String.lt_irrefl _ (String.lt_trans hlt hbefore)
      rw [hnone]
      simp
    · rw [ih hrest he]
      rfl

end LastOf

/-! ## The document form -/

/-- The members of the document form as groups, that of the coins first. -/
def members (v : Value) : List (String × Dict Int) :=
  (if v.coins ≠ 0 ∨ (byPolicy v.assets).isEmpty then
    [(coinPolicy, Dict.ofList [(coinName, v.coins)])] else []) ++ (byPolicy v.assets).entries

/-- The document form has a member for each group. -/
theorem toJson_eq (v : Value) :
    toJson v = .object (v.members.map fun e => (e.1, toJson e.2)) := by
  show document v = _
  by_cases h : v.coins ≠ 0 ∨ (byPolicy v.assets).isEmpty
  · simp only [document, members, if_pos h]
    rfl
  · simp only [document, members, if_neg h]
    rfl

section Groups

variable (groups : List (String × Dict Int))

/-- A group is read back, -/
theorem read_group (d : Dict Int) : Portable.read .document (toJson d).item = .ok d := by
  refine (Dict.read_object toJson id fun e _ => Reader.amount_ofInt e.2).trans ?_
  rw [show (d.entries.map fun e => (e.1, id e.2)) = d.entries from List.map_id _,
    Dict.ofList_entries]

/-- goes one level down, -/
theorem fits_group (d : Dict Int) : (toJson d).Fits 1 := by
  apply Json.fits_object.2
  intro m hm
  obtain ⟨e, _, rfl⟩ := List.mem_map.1 hm
  exact Json.fits_ofInt 0 e.2

/-- and holds no float. -/
theorem floatFree_groups :
    (Json.object (groups.map fun e => (e.1, toJson e.2))).FloatFree := by
  apply Json.floatFree_object.2
  intro m hm
  obtain ⟨e, _, rfl⟩ := List.mem_map.1 hm
  apply Json.floatFree_object.2
  intro m hm
  obtain ⟨f, _, rfl⟩ := List.mem_map.1 hm
  exact Json.floatFree_ofInt f.2

/-- Groups under their policies go two levels down. -/
theorem fits_groups : (Json.object (groups.map fun e => (e.1, toJson e.2))).Fits 2 := by
  apply Json.fits_object.2
  intro m hm
  obtain ⟨e, _, rfl⟩ := List.mem_map.1 hm
  exact fits_group e.2

/-- A group is no amount, so that groups are never taken for the flat shape. -/
theorem readFlat_groups :
    (readFlat .document (Json.object (groups.map fun e => (e.1, toJson e.2))).item).toOption =
      none := by
  cases hread : readFlat .document (Json.object (groups.map fun e => (e.1, toJson e.2))).item with
  | error fault => rfl
  | ok v =>
    obtain ⟨members, values, r, hobject, hshape, hr, hfields⟩ := Record.exists_of_readMap hread
    simp only [Placed.seq_eq_ok, Placed.map_eq_ok, Record.get, Record.getRequired_eq_ok hr]
      at hfields
    obtain ⟨_, _, ⟨_, ⟨item, hitem, hamount⟩, _⟩, _⟩ := hfields
    cases hobject
    obtain ⟨key, j, -, hmember, rfl⟩ := Json.member?_of_value hshape hitem
    -- Whatever stands under the name of the coins, it is an object.
    rw [Json.member?, Entries.lookup_map] at hmember
    obtain ⟨d, -, rfl⟩ := Option.map_eq_some_iff.1 hmember
    cases hamount

/-- Such groups are read as a value. -/
theorem read_groups :
    Portable.read .document (Json.object (groups.map fun e => (e.1, toJson e.2))).item =
      .ok (ofGroups (Dict.ofList groups)) := by
  refine Reader.firstOf_second (fits_groups groups).holdable (readFlat_groups groups) ?_
  show Except.map ofGroups (Portable.read .document _) = _
  rw [Dict.read_object toJson id fun e _ => read_group e.2]
  show Except.ok (ofGroups (Dict.ofList (groups.map id))) = _
  rw [List.map_id]

end Groups

/-! ## What is read back -/

/-- What the document form of a value is read as. -/
def reread (v : Value) : Value := ofGroups (Dict.ofList v.members)

/-- Under the policy of the coins assets are found before the coins. -/
theorem get?_members (v : Value) (policy : String) :
    (Dict.ofList v.members).get? policy = ((byPolicy v.assets).get? policy).or
      (if policy = coinPolicy ∧ (v.coins ≠ 0 ∨ (byPolicy v.assets).isEmpty) then
        some (Dict.ofList [(coinName, v.coins)]) else none) := by
  have hgroups : (byPolicy v.assets).entries.reverse.lookup policy =
      (byPolicy v.assets).get? policy := by
    rw [← Dict.get?_ofList, Dict.ofList_entries]
  -- The group of the coins comes first, so another of its name is found before it.
  rw [Dict.get?_ofList, members, List.reverse_append, List.lookup_append, hgroups]
  by_cases h : v.coins ≠ 0 ∨ (byPolicy v.assets).isEmpty
  · rw [if_pos h, List.reverse_singleton, Entries.lookup_cons]
    simp only [h, and_true]
    rfl
  · rw [if_neg h]
    simp only [h, and_false, if_false]
    rfl

/-- Any other policy has the amounts of its assets. -/
theorem grouped_members (v : Value) {policy : String} (h : policy ≠ coinPolicy) (name : String) :
    grouped (Dict.ofList v.members) policy name = lastOf policy name v.assets.entries := by
  rw [← grouped_byPolicy, grouped, get?_members]
  simp [h, grouped]

/-- The coins of what is read back: assets of the policy that stands for them take their place. -/
theorem coins_reread (v : Value) : v.reread.coins =
    if ((byPolicy v.assets).get? coinPolicy).isSome = true then
      (lastOf coinPolicy coinName v.assets.entries).getD 0
    else v.coins := by
  show ((Dict.ofList v.members).getD coinPolicy ∅).getD coinName 0 = _
  rw [Dict.getD_eq, Dict.getD_eq, get?_members, ← grouped_byPolicy, grouped]
  -- A group of assets under the policy of the coins is written after the coins and hides them.
  cases (byPolicy v.assets).get? coinPolicy with
  | some d => rfl
  | none =>
    -- The coins are left out exactly when they are zero beside other assets.
    by_cases h : v.coins ≠ 0 ∨ (byPolicy v.assets).isEmpty
    · simp only [h, and_self, if_true]
      rfl
    · have hzero : v.coins = 0 := by
        by_cases hzero : v.coins = 0
        · exact hzero
        · exact absurd (.inl hzero) h
      simp only [h, and_false, if_false]
      exact hzero.symm

/-- The assets of groups, each put together from its policy and its name. -/
def assetsOf (groups : Dict (Dict Int)) : List (String × Int) :=
  (groups.erase coinPolicy).entries.flatMap fun e =>
    e.2.entries.map fun f => ((AssetId.ofParts e.1 f.1).text, f.2)

/-- The assets of groups, by the parts that they are put together from. -/
theorem mem_assetsOf {groups : Dict (Dict Int)} {e : String × Int} : e ∈ assetsOf groups ↔
    ∃ policy name, policy ≠ coinPolicy ∧ grouped groups policy name = some e.2 ∧
      (AssetId.ofParts policy name).text = e.1 := by
  constructor
  -- Both ways go through the group of the policy, with the coins taken out.
  · intro h
    obtain ⟨⟨policy, d⟩, hd, he⟩ := List.mem_flatMap.1 h
    obtain ⟨⟨name, amount⟩, hamount, rfl⟩ := List.mem_map.1 he
    rw [Dict.mem_entries_iff, Dict.get?_erase] at hd
    split at hd
    · cases hd
    · next hne =>
      refine ⟨policy, name, hne, ?_, rfl⟩
      rw [grouped, hd]
      exact (Dict.mem_entries_iff d).1 hamount
  · rintro ⟨policy, name, hne, hgrouped, htext⟩
    obtain ⟨d, hd, hamount⟩ := Option.bind_eq_some_iff.1 hgrouped
    refine List.mem_flatMap.2 ⟨(policy, d), ?_, List.mem_map.2 ⟨(name, e.2), ?_, ?_⟩⟩
    · rw [Dict.mem_entries_iff, Dict.get?_erase, if_neg hne, hd]
    · exact (Dict.mem_entries_iff d).2 hamount
    · rw [htext]

/-- Every group comes from an id, and what is put together from the parts has the same parts. -/
theorem parts_of_grouped {v : Value} {policy name : String} {amount : Int}
    (hne : policy ≠ coinPolicy)
    (h : grouped (Dict.ofList v.members) policy name = some amount) :
    ¬ (AssetId.ofParts policy name).Dangling ∧ (AssetId.ofParts policy name).policy = policy ∧
      (AssetId.ofParts policy name).name = name := by
  rw [grouped_members v hne] at h
  obtain ⟨e, -, rfl, rfl, -⟩ := exists_of_lastOf h
  exact AssetId.parts_ofParts ⟨e.1⟩

/-- No two groups are put together to the same id. -/
theorem eq_of_mem_assetsOf {v : Value} {e f : String × Int}
    (he : e ∈ assetsOf (Dict.ofList v.members)) (hf : f ∈ assetsOf (Dict.ofList v.members))
    (heq : e.1 = f.1) : e.2 = f.2 := by
  obtain ⟨policy, name, hne, hgrouped, htext⟩ := mem_assetsOf.1 he
  obtain ⟨policy', name', hne', hgrouped', htext'⟩ := mem_assetsOf.1 hf
  obtain ⟨-, hpolicy, hname⟩ := parts_of_grouped hne hgrouped
  obtain ⟨-, hpolicy', hname'⟩ := parts_of_grouped hne' hgrouped'
  -- Equal ids have equal parts, and a part names one group and one entry of it.
  have hsame : AssetId.ofParts policy name = AssetId.ofParts policy' name' :=
    congrArg AssetId.mk (htext.trans (heq.trans htext'.symm))
  have hpolicies : policy = policy' := by rw [← hpolicy, hsame, hpolicy']
  have hnames : name = name' := by rw [← hname, hsame, hname']
  rw [hpolicies, hnames, hgrouped'] at hgrouped
  exact (Option.some.inj hgrouped).symm

/-- The assets of what is read back. -/
theorem get?_reread (v : Value) (a : AssetId) (amount : Int) :
    v.reread.assets.get? a.text = some amount ↔ ¬ a.Dangling ∧ a.policy ≠ coinPolicy ∧
      lastOf a.policy a.name v.assets.entries = some amount := by
  show (Dict.ofList (assetsOf (Dict.ofList v.members))).get? a.text = some amount ↔ _
  rw [Dict.get?_ofList_eq_some_iff fun e he f hf => eq_of_mem_assetsOf he hf, mem_assetsOf]
  constructor
  -- Parts that came from a grouping join to an id that splits into them again.
  · rintro ⟨policy, name, hne, hgrouped, htext⟩
    obtain ⟨hclean, hpolicy, hname⟩ := parts_of_grouped hne hgrouped
    have hid : AssetId.ofParts policy name = a := congrArg AssetId.mk htext
    rw [hid] at hclean hpolicy hname
    rw [hpolicy, hname, ← grouped_members v hne]
    exact ⟨hclean, hne, hgrouped⟩
  · rintro ⟨hclean, hne, hlast⟩
    refine ⟨a.policy, a.name, hne, ?_, congrArg AssetId.text (AssetId.ofParts_eq hclean)⟩
    rw [grouped_members v hne]
    exact hlast

/-! ## Values that are the same -/

/-- An entry gives the amount of its id, -/
theorem amount_of_mem {v : Value} {e : String × Int} (h : e ∈ v.assets.entries) :
    v.amount ⟨e.1⟩ = e.2 := by
  rw [amount, Dict.getD_eq, (Dict.mem_entries_iff v.assets).1 h]
  rfl

/-- and the id is there. -/
theorem contains_of_mem {v : Value} {e : String × Int} (h : e ∈ v.assets.entries) :
    v.assets.contains e.1 = true := by
  rw [Dict.contains, (Dict.mem_entries_iff v.assets).1 h]
  rfl

/-- An asset without an entry has no amount. -/
theorem amount_of_not_contains {v : Value} {a : AssetId} (h : v.assets.contains a.text = false) :
    v.amount a = 0 := by
  rw [amount, Dict.getD_eq, Option.not_isSome_iff_eq_none.1 (Bool.eq_false_iff.1 h)]
  rfl

/-- Two values are the same if they have the same coins and the same amount of every asset. -/
theorem same_iff (v w : Value) :
    (v == w) = true ↔ v.coins = w.coins ∧ ∀ a : AssetId, v.amount a = w.amount a := by
  show same v w = true ↔ _
  rw [same, Bool.and_eq_true, beq_iff_eq, List.all_eq_true]
  constructor
  · rintro ⟨hcoins, hall⟩
    refine ⟨hcoins, fun a => ?_⟩
    by_cases ha : a.text ∈ v.assets.keys ++ w.assets.keys
    · exact beq_iff_eq.1 (hall a.text ha)
    · -- What is the key of no entry has no amount in either.
      have hnone : ∀ {u : Value}, a.text ∉ u.assets.keys → u.amount a = 0 := by
        intro u hu
        apply amount_of_not_contains
        apply Bool.eq_false_iff.2
        intro hcontains
        obtain ⟨x, hx⟩ := Option.isSome_iff_exists.1 hcontains
        exact hu (List.mem_map.2 ⟨_, (Dict.mem_entries_iff u.assets).2 hx, rfl⟩)
      rw [hnone fun h => ha (List.mem_append_left _ h),
        hnone fun h => ha (List.mem_append_right _ h)]
  · rintro ⟨hcoins, hamounts⟩
    exact ⟨hcoins, fun key _ => beq_iff_eq.2 (hamounts ⟨key⟩)⟩

/-! ## What survives -/

/-- Without a dangling id of the same parts an id has its own amount. -/
theorem lastOf_parts {entries : List (String × Int)} (ascending : Entries.Ascending entries)
    {a : AssetId} (ha : ¬ a.Dangling)
    (halone : ∀ e ∈ entries, AssetId.Dangling ⟨e.1⟩ → ¬ (AssetId.policy ⟨e.1⟩ = a.policy ∧
      AssetId.name ⟨e.1⟩ = a.name)) :
    lastOf a.policy a.name entries = entries.lookup a.text := by
  have hsame : ∀ e ∈ entries, AssetId.policy ⟨e.1⟩ = a.policy ∧ AssetId.name ⟨e.1⟩ = a.name →
      (⟨e.1⟩ : AssetId) = a := by
    intro e he hparts
    exact AssetId.eq_of_parts (fun hdangling => halone e he hdangling hparts) ha hparts.1 hparts.2
  -- Either way the entry of these parts is that of the id itself.
  cases hlast : lastOf a.policy a.name entries with
  | none =>
    symm
    apply List.lookup_eq_none_iff.2
    intro e he
    apply bne_iff_ne.2
    intro htext
    have hid : (⟨e.1⟩ : AssetId) = a := congrArg AssetId.mk htext.symm
    exact lastOf_eq_none_iff.1 hlast e he ⟨by rw [hid], by rw [hid]⟩
  | some amount =>
    obtain ⟨e, he, hpolicy, hname, rfl⟩ := exists_of_lastOf hlast
    have htext : e.1 = a.text := congrArg AssetId.text (hsame e he ⟨hpolicy, hname⟩)
    symm
    exact htext ▸ (Dict.mem_entries_iff ⟨entries, ascending⟩).1 he

/-- The amount of an id in what is read back. -/
theorem amount_reread (v : Value) {a : AssetId} (ha : ¬ a.Dangling) (hne : a.policy ≠ coinPolicy) :
    v.reread.amount a = (lastOf a.policy a.name v.assets.entries).getD 0 := by
  rw [amount, Dict.getD_eq]
  congr 1
  apply Option.ext
  intro x
  exact (get?_reread v a x).trans ⟨fun h => h.2.2, fun h => ⟨ha, hne, h⟩⟩

/-- An id that is dangling, or of the policy of the coins, is lost. -/
theorem amount_reread_eq_zero (v : Value) {a : AssetId} (h : a.Dangling ∨ a.policy = coinPolicy) :
    v.reread.amount a = 0 := by
  rw [amount, Dict.getD_eq]
  cases hget : v.reread.assets.get? a.text with
  | none => rfl
  | some x =>
    obtain ⟨hclean, hne, -⟩ := (get?_reread v a x).1 hget
    exact absurd h fun h => h.elim hclean hne

/-- A value keeps its coins and amounts if the policy that stands for the coins and the dangling
ids get in the way of nothing. -/
def Retained (v : Value) : Prop :=
  ∀ a : AssetId, v.assets.contains a.text = true →
    (a.policy = coinPolicy → v.coins = 0 ∧ v.amount a = 0) ∧
      (a.Dangling → v.amount a = 0 ∧ v.amount ⟨a.policy⟩ = 0)

/-- Assets of the policy of the coins that amount to nothing give no coins. -/
theorem lastOf_coins_eq_zero {v : Value}
    (h : ∀ a : AssetId, v.assets.contains a.text = true → a.policy = coinPolicy → v.amount a = 0) :
    (lastOf coinPolicy coinName v.assets.entries).getD 0 = 0 := by
  cases hlast : lastOf coinPolicy coinName v.assets.entries with
  | none => rfl
  | some amount =>
    obtain ⟨e, he, hpolicy, -, rfl⟩ := exists_of_lastOf hlast
    have hzero := h ⟨e.1⟩ (contains_of_mem he) hpolicy
    rwa [amount_of_mem he] at hzero

/-- A retained value keeps its coins, -/
theorem coins_reread_of_retained {v : Value} (h : v.Retained) : v.reread.coins = v.coins := by
  rw [coins_reread]
  split
  · next hsome =>
    obtain ⟨e, he, hpolicy⟩ := (get?_byPolicy_isSome v.assets coinPolicy).1 hsome
    rw [lastOf_coins_eq_zero fun a ha hcoin => ((h a ha).1 hcoin).2]
    exact ((h ⟨e.1⟩ (contains_of_mem he)).1 hpolicy).1.symm
  · rfl

/-- What is lost of a retained value is no amount. -/
theorem amount_eq_zero_of_retained {v : Value} (h : v.Retained) {a : AssetId}
    (hlost : a.Dangling ∨ a.policy = coinPolicy) : v.amount a = 0 := by
  cases hcontains : v.assets.contains a.text with
  | false => exact amount_of_not_contains hcontains
  | true =>
    rcases hlost with hdangling | hcoin
    · exact ((h a hcontains).2 hdangling).1
    · exact ((h a hcontains).1 hcoin).2

/-- and each of its amounts. -/
theorem amount_reread_of_retained {v : Value} (h : v.Retained) (a : AssetId) :
    v.reread.amount a = v.amount a := by
  by_cases hlost : a.Dangling ∨ a.policy = coinPolicy
  · rw [amount_reread_eq_zero v hlost, amount_eq_zero_of_retained h hlost]
  · obtain ⟨hclean, hne⟩ := not_or.1 hlost
    rw [amount_reread v hclean hne]
    by_cases hother : ∃ e ∈ v.assets.entries, AssetId.Dangling ⟨e.1⟩ ∧
        AssetId.policy ⟨e.1⟩ = a.policy ∧ AssetId.name ⟨e.1⟩ = a.name
    · -- The amount of the dangling id takes the place of the other, and both are zero.
      obtain ⟨e, he, hdangling, hpolicy, hname⟩ := hother
      have hzero := (h ⟨e.1⟩ (contains_of_mem he)).2 hdangling
      have hlast := lastOf_dangling v.assets.ascending he hdangling
      rw [hpolicy, hname] at hlast
      rw [hlast, hdangling.eq_policy hclean hpolicy hname, hzero.2, ← hzero.1, amount_of_mem he]
      rfl
    · rw [lastOf_parts v.assets.ascending hclean fun e he hdangling hparts =>
        hother ⟨e, he, hdangling, hparts⟩]
      rfl

/-- What is retained is read back the same, -/
theorem same_of_retained {v : Value} (h : v.Retained) : (v.reread == v) = true := by
  apply (same_iff _ _).2
  exact ⟨coins_reread_of_retained h, amount_reread_of_retained h⟩

/-- and what is read back the same has been retained. -/
theorem retained_of_same {v : Value} (h : (v.reread == v) = true) : v.Retained := by
  obtain ⟨hcoins, hamounts⟩ := (same_iff _ _).1 h
  have hcoin : ∀ a : AssetId, a.policy = coinPolicy → v.amount a = 0 := fun a ha => by
    rw [← hamounts, amount_reread_eq_zero v (.inr ha)]
  intro a ha
  obtain ⟨amount, hget⟩ := Option.isSome_iff_exists.1 ha
  have hmem := (Dict.mem_entries_iff v.assets).2 hget
  constructor
  · intro hpolicy
    refine ⟨?_, hcoin a hpolicy⟩
    have hsome := (get?_byPolicy_isSome v.assets coinPolicy).2 ⟨_, hmem, hpolicy⟩
    rw [← hcoins, coins_reread, if_pos hsome]
    exact lastOf_coins_eq_zero fun b _ hb => hcoin b hb
  · -- The amount of a dangling id comes back as that of its policy, where it is not lost.
    intro hdangling
    have hzero : v.amount a = 0 := by rw [← hamounts, amount_reread_eq_zero v (.inl hdangling)]
    refine ⟨hzero, ?_⟩
    obtain ⟨hclean, hpolicy, hname⟩ := AssetId.parts_ofParts a
    have hwhole : AssetId.ofParts a.policy a.name = ⟨a.policy⟩ := by
      rw [hdangling.parts.2.2]
      rfl
    rw [hwhole] at hclean hpolicy hname
    by_cases hcoinPolicy : AssetId.policy ⟨a.policy⟩ = coinPolicy
    · exact hcoin _ hcoinPolicy
    · have hlast := lastOf_dangling v.assets.ascending hmem hdangling
      rw [← hamounts, amount_reread v hclean hcoinPolicy, hpolicy, hname, hlast, ← hzero,
        ← amount_of_mem hmem]
      rfl

/-- No asset is one of the policy that stands for the coins, and no id is dangling. -/
def Plain (v : Value) : Prop :=
  ∀ a : AssetId, v.assets.contains a.text = true → a.policy ≠ coinPolicy ∧ ¬ a.Dangling

/-- Coins alone are plain. -/
theorem plain_ofCoins (coins : Int) : (ofCoins coins).Plain := fun _ h => nomatch h

/-- A plain value stays plain when an asset of another kind than the excluded ones is added. -/
theorem Plain.set {v : Value} {a : AssetId} (h : v.Plain) (hpolicy : a.policy ≠ coinPolicy)
    (hdangling : ¬ a.Dangling) (amount : Int) : (v.set a amount).Plain := by
  intro b hb
  rw [Value.set, Dict.contains, Dict.get?_insert] at hb
  by_cases heq : b.text = a.text
  · obtain rfl : b = a := congrArg AssetId.mk heq
    exact ⟨hpolicy, hdangling⟩
  · rw [if_neg heq] at hb
    exact h b hb

/-- A plain value is read back entry by entry. -/
theorem reread_eq {v : Value} (h : v.Plain) : v.reread = v := by
  have hcoins : v.reread.coins = v.coins := by
    rw [coins_reread, if_neg]
    intro hsome
    obtain ⟨e, he, hpolicy⟩ := (get?_byPolicy_isSome v.assets coinPolicy).1 hsome
    exact (h ⟨e.1⟩ (contains_of_mem he)).1 hpolicy
  -- Without dangling ids every id has the parts of no other.
  have hlast : ∀ {a : AssetId}, ¬ a.Dangling →
      lastOf a.policy a.name v.assets.entries = v.assets.get? a.text := fun ha =>
    lastOf_parts v.assets.ascending ha fun e he hdangling _ =>
      (h ⟨e.1⟩ (contains_of_mem he)).2 hdangling
  have hassets : v.reread.assets = v.assets := by
    apply Dict.ext_get?
    intro key
    apply Option.ext
    intro amount
    refine (get?_reread v ⟨key⟩ amount).trans ⟨?_, ?_⟩
    · rintro ⟨hclean, -, hamount⟩
      rwa [hlast hclean] at hamount
    · intro hamount
      have hcontains : v.assets.contains key = true := by
        rw [Dict.contains, hamount]
        rfl
      obtain ⟨hne, hclean⟩ := h ⟨key⟩ hcontains
      exact ⟨hclean, hne, (hlast hclean).trans hamount⟩
  obtain ⟨coins, assets⟩ := v
  exact congr (congrArg Value.mk hcoins) hassets

/-! ## Encodings -/

/-- Sorting the document form of a value puts its groups in order. -/
theorem sorted_toJson (v : Value) : (toJson v).sorted =
    .object ((Entries.sort v.members).map fun e => (e.1, toJson e.2)) := by
  -- Amounts have no members and groups are sorted already, so only the outer order changes.
  have hamount : ∀ n : Int, (toJson n).sorted = toJson n := by
    intro n
    show (Json.ofInt n).sorted = Json.ofInt n
    unfold Json.ofInt
    split <;> rfl
  have hgroup : ∀ d : Dict Int, (toJson d).sorted = toJson d := by
    intro d
    rw [Dict.sorted_toJson]
    simp only [hamount]
    rfl
  rw [toJson_eq, Json.sorted, Json.sortedMembers_eq, List.map_map, ← Entries.sort_map]
  simp only [Function.comp_def, hgroup]

/-- A value goes two levels down, -/
theorem fits (v : Value) : (toJson v).Fits 2 := by
  rw [toJson_eq]
  exact fits_groups v.members

/-- and holds no float. -/
theorem floatFree (v : Value) : (toJson v).FloatFree := by
  rw [toJson_eq]
  exact floatFree_groups v.members

/-- The text of a value is decoded to what its document is read as, -/
theorem decode_encode (v : Value) : Json.decode (Json.encode v) = .ok v.reread := by
  apply Json.decode_encode (v.fits.mono (by decide)) v.floatFree.legible
  rw [toJson_eq]
  exact read_groups v.members

/-- and so are its bytes, unless they are too many for any head. -/
theorem decode_encodeValue (v : Value) (room : (Cbor.encodeValue v).length < 0x10000000000000000) :
    Cbor.decode (Cbor.encodeValue v) = .ok v.reread := by
  have hfits := v.fits.mono (show 2 ≤ Cbor.maxLevels by decide)
  apply Cbor.decode_encodeValue (fun _ => rfl) (hfits.kept v.floatFree) room
  refine (Reader.firstOf_binary _ hfits.depth).trans ?_
  rw [toJson_eq]
  exact read_groups v.members

/-- Both encodings of a value are decoded to one and the same value, and that is the value itself
exactly if nothing gets in its way. -/
theorem decode_encodings (v : Value) : ∃ w : Value, Json.decode (Json.encode v) = .ok w ∧
    ((Cbor.encodeValue v).length < 0x10000000000000000 → Cbor.decode (Cbor.encodeValue v) = .ok w) ∧
    ((w == v) = true ↔ v.Retained) :=
  ⟨v.reread, v.decode_encode, v.decode_encodeValue, retained_of_same, same_of_retained⟩

/-- Beside an asset of the policy that stands for the coins the coins are lost. -/
theorem decode_encodings_of_coinPolicy : ∃ w : Value,
    Json.decode (Json.encode ((ofCoins 5).set ⟨"ada.58"⟩ 7)) = .ok w ∧
    Cbor.decode (Cbor.encodeValue ((ofCoins 5).set ⟨"ada.58"⟩ 7)) = .ok w ∧
    (w == (ofCoins 5).set ⟨"ada.58"⟩ 7) = false := by
  obtain ⟨w, hjson, hcbor, hsame⟩ := decode_encodings ((ofCoins 5).set ⟨"ada.58"⟩ 7)
  refine ⟨w, hjson, hcbor (by decide), ?_⟩
  apply Bool.eq_false_iff.2
  intro h
  have hcoins := ((hsame.1 h ⟨"ada.58"⟩ (by decide)).1 (by decide)).1
  exact absurd hcoins (by decide)

end Value

end ChainFollower
