import ChainFollower.Proofs.Ledger.Sums
import ChainFollower.Proofs.Text.Utf8

/-!
# Shortfalls

A shortfall is found by a search over the entries of the value that is wanted, which stops at the
first one that is short.  The places that are short are those where the difference of the two values
is negative, and the search names the first of them: coins before assets, assets in the order of the
bytes of their ids.

Whoever adds what is missing in the place that is named, and asks again, is told the short places
one after the other, each of them once, and then that nothing is short.

Main statements: `shortfall?_eq`, which says what is found of the places that are short, and from it
`shortfall?_iff_negative` for one search, `topsUp_shortPlaces` and `topping_up_converges` for the
search after search.
-/

namespace ChainFollower.Value

/-! ## Places -/

/-- The amount in a place: of the coins, or of an asset. -/
def amountAt (v : Value) : Option AssetId → Int
  | none => v.coins
  | some a => v.amount a

/-- Whether a value says something of a place: always of the coins, and of an asset by an entry. -/
def Lists (v : Value) : Option AssetId → Prop
  | none => True
  | some a => v.assets.contains a.text = true

/-- Coins come before all assets, and assets in the order of the bytes of their ids. -/
inductive Precedes : Option AssetId → Option AssetId → Prop
  | coins (a : AssetId) : Precedes none (some a)
  | assets {a b : AssetId} (h : Octets.ofText a.text < Octets.ofText b.text) :
      Precedes (some a) (some b)

/-- The places of a value, in their order. -/
def places (v : Value) : List (Option AssetId) := none :: v.assets.keys.map fun id => some ⟨id⟩

/-- Whether less is held in a place than wanted. -/
def isShort (held wanted : Value) (p : Option AssetId) : Bool :=
  held.amountAt p < wanted.amountAt p

/-- The places in which less is held than wanted. -/
def shortPlaces (held wanted : Value) : List (Option AssetId) :=
  wanted.places.filter (isShort held wanted)

/-- What is short in a place. -/
def shortfallAt (held wanted : Value) : Option AssetId → Shortfall
  | none => .coins held.coins wanted.coins
  | some a => .asset a (held.amount a) (wanted.amount a)

namespace Shortfall

/-- The amount that is held. -/
def held : Shortfall → Int
  | .coins held _ | .asset _ held _ => held

/-- The amount that is wanted. -/
def wanted : Shortfall → Int
  | .coins _ wanted | .asset _ _ wanted => wanted

/-- What is missing in the place that is short, and nothing else. -/
def lack (s : Shortfall) : Value :=
  match s.asset? with
  | none => .ofCoins s.missing
  | some a => .set (.ofCoins 0) a s.missing

/-- A shortfall is known by its place and its two amounts. -/
theorem ext_amounts {s t : Shortfall} (place : s.asset? = t.asset?) (held : s.held = t.held)
    (wanted : s.wanted = t.wanted) : s = t := by
  cases s <;> cases t <;> simp_all [asset?, Shortfall.held, Shortfall.wanted]

theorem missing_eq (s : Shortfall) : s.missing = s.wanted - s.held := by
  cases s <;> rfl

end Shortfall

section Places

variable {held wanted : Value} {p q : Option AssetId}

@[simp] theorem asset?_shortfallAt (held wanted : Value) (p : Option AssetId) :
    (shortfallAt held wanted p).asset? = p := by
  cases p <;> rfl

@[simp] theorem held_shortfallAt (held wanted : Value) (p : Option AssetId) :
    (shortfallAt held wanted p).held = held.amountAt p := by
  cases p <;> rfl

@[simp] theorem wanted_shortfallAt (held wanted : Value) (p : Option AssetId) :
    (shortfallAt held wanted p).wanted = wanted.amountAt p := by
  cases p <;> rfl

theorem Precedes.asymm (h : Precedes p q) : ¬ Precedes q p := by
  intro back
  cases h with
  | coins => cases back
  | assets h =>
    cases back with
    | assets back => exact List.lt_irrefl _ (List.lt_trans h back)

theorem Precedes.ne (h : Precedes p q) : p ≠ q := by
  rintro rfl
  exact h.asymm h

theorem mem_places (v : Value) (p : Option AssetId) : p ∈ v.places ↔ v.Lists p := by
  cases p with
  | none => exact iff_of_true List.mem_cons_self trivial
  | some a =>
    simp only [places, Dict.keys, List.map_map, List.mem_cons, List.mem_map, reduceCtorEq, false_or]
    constructor
    · rintro ⟨e, entry, ⟨⟩⟩
      exact contains_of_mem entry
    · intro listed
      obtain ⟨amount, entry⟩ := Option.isSome_iff_exists.1 listed
      exact ⟨(a.text, amount), (Dict.mem_entries_iff _).2 entry, rfl⟩

/-- The places of a value stand in their order. -/
theorem pairwise_places (v : Value) : v.places.Pairwise Precedes := by
  refine List.pairwise_cons.2 ⟨fun p asset => ?_, ?_⟩
  · obtain ⟨id, -, rfl⟩ := List.mem_map.1 asset
    exact .coins _
  · rw [Dict.keys, List.map_map]
    refine List.pairwise_map.2 (v.assets.ascending.imp fun before => ?_)
    exact .assets (Octets.ofText_lt_ofText.2 before)

theorem amountAt_subtract (v w : Value) (p : Option AssetId) :
    (v - w).amountAt p = v.amountAt p - w.amountAt p := by
  cases p with
  | none => rfl
  | some a => exact getD_combine Int.sub_zero v.assets w.assets a.text

theorem amountAt_add (v w : Value) (p : Option AssetId) :
    (v + w).amountAt p = v.amountAt p + w.amountAt p := by
  cases p with
  | none => rfl
  | some a => exact getD_combine Int.add_zero v.assets w.assets a.text

/-- The places that are short are those in which the difference is negative. -/
theorem mem_shortPlaces :
    p ∈ shortPlaces held wanted ↔ wanted.Lists p ∧ (held - wanted).amountAt p < 0 := by
  rw [shortPlaces, List.mem_filter, mem_places, isShort, decide_eq_true_iff, amountAt_subtract]
  exact and_congr_right fun _ => by omega

theorem pairwise_shortPlaces (held wanted : Value) : (shortPlaces held wanted).Pairwise Precedes :=
  (pairwise_places wanted).filter _

end Places

/-! ## What is found -/

section Search

variable {held wanted : Value}

/-- Along entries of the value that is wanted, what is found is the first place that is short. -/
theorem findSome?_entries {entries : List (String × Int)}
    (listed : ∀ e ∈ entries, wanted.amount ⟨e.1⟩ = e.2) :
    (entries.findSome? fun (id, amount) =>
        let there := held.assets.getD id 0
        if there < amount then some (.asset ⟨id⟩ there amount) else none) =
      ((entries.map fun e => some (AssetId.mk e.1)).filter (isShort held wanted)).head?.map
        (shortfallAt held wanted) := by
  induction entries with
  | nil => rfl
  | cons e rest ih =>
    obtain ⟨id, amount⟩ := e
    obtain ⟨here, later⟩ := List.forall_mem_cons.1 listed
    obtain rfl : wanted.amount ⟨id⟩ = amount := here
    rw [List.findSome?_cons, List.map_cons, ih later]
    -- The first entry is the answer or drops out of both sides.
    by_cases short : held.assets.getD id 0 < wanted.amount ⟨id⟩
    · have first : isShort held wanted (some ⟨id⟩) = true := decide_eq_true short
      rw [List.filter_cons_of_pos first]
      simp only [short, if_true]
      rfl
    · have passed : isShort held wanted (some ⟨id⟩) ≠ true := mt of_decide_eq_true short
      rw [List.filter_cons_of_neg passed]
      simp only [short, if_false]

/-- What is found is the first place that is short. -/
theorem shortfall?_eq (held wanted : Value) :
    shortfall? held wanted = (shortPlaces held wanted).head?.map (shortfallAt held wanted) := by
  rw [shortfall?, shortPlaces, places]
  by_cases short : held.coins < wanted.coins
  · have first : isShort held wanted none = true := decide_eq_true short
    rw [if_pos short, List.filter_cons_of_pos first]
    rfl
  · have passed : isShort held wanted none ≠ true := mt of_decide_eq_true short
    rw [if_neg short, List.filter_cons_of_neg passed,
      findSome?_entries fun e entry => amount_of_mem entry, Dict.keys, List.map_map]
    rfl

/-- A shortfall in the first place in which the difference of the two values is negative, with their
amounts there. -/
structure FirstShort (held wanted : Value) (s : Shortfall) : Prop where
  listed : wanted.Lists s.asset?
  negative : (held - wanted).amountAt s.asset? < 0
  first : ∀ p, wanted.Lists p → (held - wanted).amountAt p < 0 →
    p = s.asset? ∨ Precedes s.asset? p
  held_eq : s.held = held.amountAt s.asset?
  wanted_eq : s.wanted = wanted.amountAt s.asset?

theorem shortfall?_eq_some_iff {s : Shortfall} :
    shortfall? held wanted = some s ↔ FirstShort held wanted s := by
  rw [shortfall?_eq, Option.map_eq_some_iff]
  have sorted := pairwise_shortPlaces held wanted
  constructor
  · rintro ⟨p, first, rfl⟩
    obtain ⟨rest, places⟩ := List.head?_eq_some_iff.1 first
    rw [places] at sorted
    obtain ⟨listed, negative⟩ := mem_shortPlaces.1 (places ▸ List.mem_cons_self)
    refine ⟨by simpa using listed, by simpa using negative, fun q listed negative => ?_, by simp,
      by simp⟩
    rw [asset?_shortfallAt]
    have short := mem_shortPlaces.2 ⟨listed, negative⟩
    rw [places] at short
    exact (List.mem_cons.1 short).imp_right ((List.pairwise_cons.1 sorted).1 q)
  · rintro ⟨listed, negative, first, held_eq, wanted_eq⟩
    have short := mem_shortPlaces.2 ⟨listed, negative⟩
    refine ⟨s.asset?, ?_, Shortfall.ext_amounts (by simp) (by simp [held_eq]) (by simp [wanted_eq])⟩
    -- The first short place of all does not come before the one that comes before all others.
    cases places : shortPlaces held wanted with
    | nil => simp [places] at short
    | cons p rest =>
      rw [places] at short sorted
      obtain ⟨listed', negative'⟩ := mem_shortPlaces.1 (places ▸ List.mem_cons_self)
      rcases first p listed' negative' with rfl | before
      · rfl
      · rcases List.mem_cons.1 short with here | later
        · exact congrArg some here.symm
        · exact absurd before ((List.pairwise_cons.1 sorted).1 _ later).asymm

theorem isSome_shortfall?_iff :
    (shortfall? held wanted).isSome = true ↔
      ∃ p, wanted.Lists p ∧ (held - wanted).amountAt p < 0 := by
  simp only [shortfall?_eq, Option.isSome_map, ← mem_shortPlaces]
  cases shortPlaces held wanted with
  | nil => simp
  | cons p rest => exact iff_of_true rfl ⟨p, List.mem_cons_self⟩

theorem FirstShort.missing_eq {s : Shortfall} (h : FirstShort held wanted s) :
    s.missing = -(held - wanted).amountAt s.asset? := by
  rw [s.missing_eq, h.held_eq, h.wanted_eq, amountAt_subtract]
  omega

end Search

/-- Something is short exactly if the difference of the two values is negative in the coins, or in
an asset that is listed in the value that is wanted.  What is found is the first such place, with
the amounts of both values there; what is missing is what the difference lacks. -/
theorem shortfall?_iff_negative (held wanted : Value) :
    ((shortfall? held wanted).isSome = true ↔ (held - wanted).coins < 0 ∨
      ∃ a : AssetId, wanted.assets.contains a.text = true ∧ (held - wanted).amount a < 0) ∧
    (∀ s, shortfall? held wanted = some s ↔ FirstShort held wanted s) ∧
    ∀ s, shortfall? held wanted = some s →
      0 < s.missing ∧ s.missing = -(held - wanted).amountAt s.asset? := by
  refine ⟨?_, fun s => shortfall?_eq_some_iff, fun s found => ?_⟩
  · rw [isSome_shortfall?_iff, Option.exists]
    exact or_congr_left (and_iff_right trivial)
  -- The amounts found are the ones compared, so the gap is what the difference lacks.
  · have short := shortfall?_eq_some_iff.1 found
    have negative := short.negative
    have missing := short.missing_eq
    omega

/-- The coins and the first asset are held, the second is not, and the third is a deficit. -/
theorem shortfall?_iff_negative_second :
    shortfall? (.set (.set (.ofCoins 5) ⟨"aa"⟩ 3) ⟨"cc"⟩ (-2))
      (.set (.set (.set (.ofCoins 5) ⟨"cc"⟩ 4) ⟨"bb"⟩ 1) ⟨"aa"⟩ 3) = some (.asset ⟨"bb"⟩ 0 1) ∧
    0 < (Shortfall.asset ⟨"bb"⟩ 0 1).missing := by
  have found : shortfall? (.set (.set (.ofCoins 5) ⟨"aa"⟩ 3) ⟨"cc"⟩ (-2))
      (.set (.set (.set (.ofCoins 5) ⟨"cc"⟩ 4) ⟨"bb"⟩ 1) ⟨"aa"⟩ 3) = some (.asset ⟨"bb"⟩ 0 1) := by
    decide
  exact ⟨found, ((shortfall?_iff_negative _ _).2.2 _ found).1⟩

/-! ## Adding what is missing -/

/-- What is missing is added and the search made again, until nothing is short: what was found, in
this order, and the value in the end. -/
inductive TopsUp (wanted : Value) : Value → List Shortfall → Value → Prop
  | done {held : Value} (h : shortfall? held wanted = none) : TopsUp wanted held [] held
  | round {held final : Value} {s : Shortfall} {found : List Shortfall}
      (h : shortfall? held wanted = some s) (hrest : TopsUp wanted (held + s.lack) found final) :
      TopsUp wanted held (s :: found) final

section Rounds

variable {held wanted : Value} {p q : Option AssetId} {rest : List (Option AssetId)}

/-- There is one way to go on, and one end. -/
theorem TopsUp.unique {found others : List Shortfall} {final last : Value}
    (h : TopsUp wanted held found final) (h' : TopsUp wanted held others last) :
    others = found ∧ last = final := by
  induction h generalizing others with
  | done ended =>
    cases h' with
    | done => exact ⟨rfl, rfl⟩
    -- One run cannot have ended where the other still finds a shortfall.
    | round short => cases ended.symm.trans short
  | round short _ ih =>
    cases h' with
    | done ended => cases ended.symm.trans short
    | round short' rest =>
      cases short.symm.trans short'
      obtain ⟨rfl, rfl⟩ := ih rest
      exact ⟨rfl, rfl⟩

/-- It goes on until nothing is short. -/
theorem TopsUp.shortfall?_eq_none {found : List Shortfall} {final : Value}
    (h : TopsUp wanted held found final) : shortfall? final wanted = none := by
  induction h with
  | done ended => exact ended
  | round _ _ ih => exact ih

theorem amountAt_lack (s : Shortfall) (q : Option AssetId) :
    s.lack.amountAt q = if q = s.asset? then s.missing else 0 := by
  cases s with
  | coins held wanted => cases q <;> rfl
  | asset a held wanted =>
    cases q with
    | none => rfl
    | some b =>
      show (Dict.insert _ _ _).getD b.text 0 = _
      rw [Dict.getD_eq, Dict.get?_insert]
      -- Asset ids are equal exactly when their texts are.
      by_cases same : b = a
      · subst same
        simp [Shortfall.asset?]
      · have texts : b.text ≠ a.text := fun h => same (AssetId.mk.injEq .. ▸ h)
        simp [Shortfall.asset?, same, texts]
        rfl

/-- A round repairs the place that is short and disturbs no other. -/
theorem amountAt_round (held wanted : Value) (p q : Option AssetId) :
    (held + (shortfallAt held wanted p).lack).amountAt q =
      if q = p then wanted.amountAt q else held.amountAt q := by
  rw [amountAt_add, amountAt_lack, asset?_shortfallAt]
  split
  · next here =>
    subst here
    rw [Shortfall.missing_eq, held_shortfallAt, wanted_shortfallAt]
    omega
  · exact Int.add_zero _

theorem shortfallAt_round (h : q ≠ p) :
    shortfallAt (held + (shortfallAt held wanted p).lack) wanted q = shortfallAt held wanted q :=
  Shortfall.ext_amounts (by simp) (by simp [amountAt_round, h]) (by simp)

/-- After a round the other places are short that were, in their order. -/
theorem shortPlaces_round (h : shortPlaces held wanted = p :: rest) :
    shortPlaces (held + (shortfallAt held wanted p).lack) wanted = rest := by
  -- The places come in strict order, so the repaired one does not come again.
  have sorted := pairwise_shortPlaces held wanted
  rw [h] at sorted
  -- One round changes the amount at its own place only.
  have repaired : isShort (held + (shortfallAt held wanted p).lack) wanted =
      fun q => q != p && isShort held wanted q := by
    funext q
    rw [isShort, amountAt_round]
    by_cases here : q = p <;> simp [here, isShort]
  rw [shortPlaces, repaired, ← List.filter_filter]
  show (shortPlaces held wanted).filter (· != p) = rest
  rw [h, List.filter_cons_of_neg (by simp), List.filter_eq_self]
  exact fun q later => bne_iff_ne.2 ((List.pairwise_cons.1 sorted).1 q later).ne.symm

/-- All the places that are short are found, one after the other, and each gets what is wanted. -/
theorem topsUp_shortPlaces {short : List (Option AssetId)} (h : shortPlaces held wanted = short) :
    ∃ final, TopsUp wanted held (short.map (shortfallAt held wanted)) final ∧
      ∀ q, final.amountAt q = if q ∈ short then wanted.amountAt q else held.amountAt q := by
  induction short generalizing held with
  | nil =>
    have ended : shortfall? held wanted = none := by
      rw [shortfall?_eq, h]
      rfl
    exact ⟨held, .done ended, fun q => by simp⟩
  | cons p rest ih =>
    have found : shortfall? held wanted = some (shortfallAt held wanted p) := by
      rw [shortfall?_eq, h]
      rfl
    have sorted := pairwise_shortPlaces held wanted
    rw [h] at sorted
    have later : ∀ q ∈ rest, q ≠ p := fun q hq => ((List.pairwise_cons.1 sorted).1 q hq).ne.symm
    obtain ⟨final, run, amounts⟩ := ih (shortPlaces_round h)
    -- What is found later stands where nothing has been added.
    have same : rest.map (shortfallAt (held + (shortfallAt held wanted p).lack) wanted) =
        rest.map (shortfallAt held wanted) :=
      List.map_congr_left fun q hq => shortfallAt_round (later q hq)
    rw [same] at run
    refine ⟨final, .round found run, fun q => ?_⟩
    rw [amounts, amountAt_round]
    by_cases here : q = p
    · simp [here]
    · simp [here]

/-- To give every short place what is wanted is to give every place that is listed the greater of
both amounts. -/
theorem repaired_eq_max (listed : wanted.Lists p) :
    (if p ∈ shortPlaces held wanted then wanted.amountAt p else held.amountAt p) =
      max (held.amountAt p) (wanted.amountAt p) := by
  -- A listed place is short exactly where the held amount is the smaller one.
  have short : p ∈ shortPlaces held wanted ↔ held.amountAt p < wanted.amountAt p := by
    rw [mem_shortPlaces, amountAt_subtract, and_iff_right listed]
    omega
  split
  · next inside =>
    have less := short.1 inside
    omega
  · next outside =>
    have enough := mt short.2 outside
    omega

/-- An asset that is not listed is not short. -/
theorem not_mem_shortPlaces {a : AssetId} (unlisted : wanted.assets.contains a.text = false) :
    some a ∉ shortPlaces held wanted := by
  intro short
  have listed : wanted.assets.contains a.text = true := (mem_shortPlaces.1 short).1
  rw [unlisted] at listed
  cases listed

theorem map_asset?_shortfallAt (held wanted : Value) (ps : List (Option AssetId)) :
    (ps.map (shortfallAt held wanted)).map Shortfall.asset? = ps := by
  rw [List.map_map]
  exact (List.map_congr_left fun p _ => asset?_shortfallAt held wanted p).trans (List.map_id _)

end Rounds

/-- Whatever is held and wanted: to add what is missing, again and again, comes to an end, and to
one only, after at most as many rounds as there are places; nothing is short then.  The places are
found in their order, none of them twice.  In the end there is the greater of both amounts in every
place of the value that is wanted, and what was there in every other one. -/
theorem topping_up_converges (held wanted : Value) :
    ∃ found final, TopsUp wanted held found final ∧
      (∀ others last, TopsUp wanted held others last → others = found ∧ last = final) ∧
      found.length ≤ 1 + wanted.assets.entries.length ∧
      shortfall? final wanted = none ∧
      (found.map Shortfall.asset?).Pairwise Precedes ∧ (found.map Shortfall.asset?).Nodup ∧
      final.coins = max held.coins wanted.coins ∧
      (∀ a : AssetId, wanted.assets.contains a.text = true →
        final.amount a = max (held.amount a) (wanted.amount a)) ∧
      ∀ a : AssetId, wanted.assets.contains a.text = false → final.amount a = held.amount a := by
  -- The run repairs the short places of the start, one a round, in their order.
  obtain ⟨final, run, amounts⟩ := topsUp_shortPlaces (Eq.refl (shortPlaces held wanted))
  have sorted := pairwise_shortPlaces held wanted
  have repaired : ∀ p, wanted.Lists p →
      final.amountAt p = max (held.amountAt p) (wanted.amountAt p) :=
    fun p listed => (amounts p).trans (repaired_eq_max listed)
  refine ⟨_, final, run, fun others last run' => run.unique run', ?_, run.shortfall?_eq_none, ?_,
    ?_, repaired none trivial, fun a listed => repaired (some a) listed, fun a unlisted => ?_⟩
  -- The short places are some of the listed places and the coins.
  · rw [List.length_map]
    refine Nat.le_trans (List.length_filter_le _ _) ?_
    simp [Value.places, Dict.keys, Nat.add_comm]
  · rw [map_asset?_shortfallAt]
    exact sorted
  · rw [map_asset?_shortfallAt]
    exact sorted.imp Precedes.ne
  · exact (amounts (some a)).trans (if_neg (not_mem_shortPlaces unlisted))

/-- A deficit is repaired, and so are the coins; what nobody wants stays as it is, and so does what
there is enough of. -/
theorem topping_up_converges_deficit :
    ∃ found final, TopsUp (.set (.set (.set (.ofCoins 5) ⟨"cc"⟩ 4) ⟨"bb"⟩ 0) ⟨"aa"⟩ 1)
        (.set (.set (.set (.ofCoins 2) ⟨"aa"⟩ (-3)) ⟨"cc"⟩ 7) ⟨"zz"⟩ 9) found final ∧
      found.length ≤ 4 ∧ final.coins = 5 ∧ final.amount ⟨"aa"⟩ = 1 ∧ final.amount ⟨"bb"⟩ = 0 ∧
        final.amount ⟨"cc"⟩ = 7 ∧ final.amount ⟨"zz"⟩ = 9 := by
  obtain ⟨found, final, run, -, rounds, -, -, -, coins, listed, others⟩ := topping_up_converges
    (.set (.set (.set (.ofCoins 2) ⟨"aa"⟩ (-3)) ⟨"cc"⟩ 7) ⟨"zz"⟩ 9)
    (.set (.set (.set (.ofCoins 5) ⟨"cc"⟩ 4) ⟨"bb"⟩ 0) ⟨"aa"⟩ 1)
  refine ⟨found, final, run, rounds, coins, ?_, ?_, ?_, ?_⟩
  · rw [listed ⟨"aa"⟩ (by decide)]
    decide
  · rw [listed ⟨"bb"⟩ (by decide)]
    decide
  · rw [listed ⟨"cc"⟩ (by decide)]
    decide
  -- An asset that is not wanted keeps its amount.
  · rw [others ⟨"zz"⟩ (by decide)]
    decide

end ChainFollower.Value
