import ChainFollower.Ledger.Arithmetic
import ChainFollower.Proofs.Ledger.Values

/-!
# What covers what

Coverage looks at the entries of the value that is wanted, and at no others.  So long as nothing
held is negative that makes no difference: an asset of which nothing is wanted is covered.  Of a
deficit an entry of amount zero asks more than no entry does, although the two values are the same,
and a value between two others can hide the deficit of the first one from the last.

Main statements: `covers_iff`, `covers_iff_meets` and `coverage_laws`, with the values that break
both laws in `deficit_breaks_coverage`.
-/

namespace ChainFollower.Value

/-! ## What coverage asks -/

/-- The coins that are wanted are held, and so is every amount that is wanted and is not zero. -/
def Meets (held wanted : Value) : Prop :=
  wanted.coins ≤ held.coins ∧ ∀ a, wanted.amount a ≠ 0 → wanted.amount a ≤ held.amount a

/-- There is a deficit of an asset of which nothing is wanted, but which has an entry. -/
def Exposes (held wanted : Value) : Prop :=
  ∃ a : AssetId, wanted.assets.contains a.text = true ∧ wanted.amount a = 0 ∧ held.amount a < 0

variable {held other wanted demanded : Value}

/-- Coverage is about the coins, and the amounts that have an entry in the value that is wanted. -/
theorem covers_iff (held wanted : Value) :
    covers held wanted = true ↔ wanted.coins ≤ held.coins ∧
      ∀ a : AssetId, wanted.assets.contains a.text = true → wanted.amount a ≤ held.amount a := by
  rw [covers, Option.isNone_iff_eq_none, shortfall?]
  split
  · next short => exact iff_of_false nofun fun covered => absurd covered.1 (Int.not_le.2 short)
  · next enough =>
    rw [List.findSome?_eq_none_iff]
    constructor
    -- No entry of the wanted value is short; each listed asset is one of these entries.
    · intro none
      refine ⟨Int.not_lt.1 enough, fun a listed => ?_⟩
      obtain ⟨amount, entry⟩ := Option.isSome_iff_exists.1 listed
      have fits := none (a.text, amount) ((Dict.mem_entries_iff _).2 entry)
      rw [Value.amount, Dict.getD_eq, entry]
      exact Int.not_lt.1 fun short => absurd fits (by simp [Value.amount] at short; simp [short])
    -- An entry gives its asset the amount it holds, so the bound at that asset is the bound here.
    · rintro ⟨-, covered⟩ e entry
      have fits := covered ⟨e.1⟩ (contains_of_mem entry)
      rw [amount_of_mem entry] at fits
      exact if_neg (Int.not_lt.2 fits)

/-- An asset with an amount has an entry. -/
theorem contains_of_amount_ne_zero {v : Value} {a : AssetId} (h : v.amount a ≠ 0) :
    v.assets.contains a.text = true :=
  Bool.of_not_eq_false fun none => h (amount_of_not_contains none)

theorem covers_iff_meets (held wanted : Value) :
    covers held wanted = true ↔ Meets held wanted ∧ ¬ Exposes held wanted := by
  rw [covers_iff]
  constructor
  · rintro ⟨coins, covered⟩
    refine ⟨⟨coins, fun a some => covered a (contains_of_amount_ne_zero some)⟩, ?_⟩
    rintro ⟨a, listed, zero, deficit⟩
    have fits := covered a listed
    omega
  -- A listed amount of zero is met unless the holder is in deficit there.
  · rintro ⟨⟨coins, covered⟩, safe⟩
    refine ⟨coins, fun a listed => ?_⟩
    by_cases zero : wanted.amount a = 0
    · exact Int.not_lt.1 fun deficit => safe ⟨a, listed, zero, zero ▸ deficit⟩
    · exact covered a zero

/-- What is met depends on the amounts alone. -/
theorem meets_iff_of_same (sameHeld : (held == other) = true)
    (sameWanted : (wanted == demanded) = true) : Meets held wanted ↔ Meets other demanded := by
  obtain ⟨coins, amounts⟩ := (same_iff _ _).1 sameHeld
  obtain ⟨coins', amounts'⟩ := (same_iff _ _).1 sameWanted
  simp only [Meets, coins, amounts, coins', amounts']

/-- Without a deficit nothing is exposed. -/
theorem not_exposes (h : ∀ a, 0 ≤ held.amount a) : ¬ Exposes held wanted := by
  rintro ⟨a, -, -, deficit⟩
  exact absurd deficit (Int.not_lt.2 (h a))

/-! ## The laws of coverage, and their limits -/

/-- Values that are the same are covered alike, unless one of them exposes a deficit. -/
theorem covers_eq_iff_of_same (sameHeld : (held == other) = true)
    (sameWanted : (wanted == demanded) = true) :
    covers held wanted = covers other demanded ↔
      (Meets held wanted → (Exposes held wanted ↔ Exposes other demanded)) := by
  rw [Bool.eq_iff_iff, covers_iff_meets, covers_iff_meets,
    ← meets_iff_of_same sameHeld sameWanted, and_congr_right_iff]
  have := Classical.propDecidable
  exact imp_congr_right fun _ => Decidable.not_iff_not

/-- What the first of three values covers of the last one, by way of the second, is all for which
the second has an entry. -/
theorem covers_iff_of_covers {a b c : Value} (first : covers a b = true)
    (rest : covers b c = true) :
    covers a c = true ↔ ∀ x : AssetId, c.assets.contains x.text = true →
      b.assets.contains x.text = false → c.amount x ≤ a.amount x := by
  obtain ⟨coins, covered⟩ := (covers_iff a b).1 first
  obtain ⟨coins', covered'⟩ := (covers_iff b c).1 rest
  rw [covers_iff]
  constructor
  · rintro ⟨-, through⟩ x listed -
    exact through x listed
  · intro unlisted
    refine ⟨Int.le_trans coins' coins, fun x listed => ?_⟩
    -- Only an asset the middle value does not list can break the chain.
    cases between : b.assets.contains x.text with
    | false => exact unlisted x listed between
    | true => exact Int.le_trans (covered' x listed) (covered x between)

/-- What covers a value covers one that is the same exactly if both expose a deficit or neither
does, or too little is held anyway; and it covers what that value covers exactly if it has enough of
all that has an entry in the last one and none between.  Without a deficit it does both, always. -/
theorem coverage_laws (held : Value) :
    (∀ other wanted demanded : Value, (held == other) = true → (wanted == demanded) = true →
      (covers held wanted = covers other demanded ↔
        (Meets held wanted → (Exposes held wanted ↔ Exposes other demanded)))) ∧
    (∀ wanted last : Value, covers held wanted = true → covers wanted last = true →
      (covers held last = true ↔ ∀ a : AssetId, last.assets.contains a.text = true →
        wanted.assets.contains a.text = false → last.amount a ≤ held.amount a)) ∧
    ((∀ a, 0 ≤ held.amount a) →
      (∀ other wanted demanded : Value, (held == other) = true → (wanted == demanded) = true →
        covers held wanted = covers other demanded) ∧
      ∀ wanted last : Value, covers held wanted = true → covers wanted last = true →
        covers held last = true) := by
  refine ⟨fun _ _ _ => covers_eq_iff_of_same, fun _ _ => covers_iff_of_covers, fun safe => ⟨?_, ?_⟩⟩
  · intro other wanted demanded sameHeld sameWanted
    have safe' : ∀ a, 0 ≤ other.amount a := fun a =>
      ((same_iff _ _).1 sameHeld).2 a ▸ safe a
    exact (covers_eq_iff_of_same sameHeld sameWanted).2 fun _ =>
      iff_of_false (not_exposes safe) (not_exposes safe')
  · intro wanted last first rest
    refine (covers_iff_of_covers first rest).2 fun a listed unlisted => ?_
    -- The value between has nothing of such an asset, and covers the last one.
    have fits := ((covers_iff wanted last).1 rest).2 a listed
    rw [amount_of_not_contains unlisted] at fits
    exact Int.le_trans fits (safe a)

/-- An amount that is wanted may have an entry of amount zero beside it, and what it covers may hold
a deficit of another asset. -/
theorem coverage_laws_no_deficit :
    covers (.set (.ofCoins 2) ⟨"aa"⟩ 5) (.set (.ofCoins 1) ⟨"aa"⟩ 4) =
      covers (.set (.ofCoins 2) ⟨"aa"⟩ 5) (.set (.set (.ofCoins 1) ⟨"aa"⟩ 4) ⟨"bb"⟩ 0) ∧
    covers (.set (.ofCoins 2) ⟨"aa"⟩ 5) (.set (.set (.ofCoins 1) ⟨"aa"⟩ 3) ⟨"bb"⟩ (-1)) = true := by
  -- The holder has no deficit, for its one asset stands at 5 and every other at 0.
  have safe : ∀ a, 0 ≤ (Value.set (.ofCoins 2) ⟨"aa"⟩ 5).amount a := fun a => by
    show 0 ≤ (Dict.insert _ _ _).getD a.text 0
    rw [Dict.getD_eq, Dict.get?_insert]
    split
    · exact Int.le_of_lt (by decide)
    · exact Int.le_refl 0
  obtain ⟨-, -, laws⟩ := coverage_laws (.set (.ofCoins 2) ⟨"aa"⟩ 5)
  obtain ⟨same, through⟩ := laws safe
  constructor
  · exact same _ _ _ (by decide) (by decide)
  · exact through (.set (.ofCoins 1) ⟨"aa"⟩ 4) _ (by decide) (by decide)

/-- A deficit breaks both laws: a value that is the same as the covered one, but for an entry of
amount zero, is not covered, and neither is what the covered one covers itself. -/
theorem deficit_breaks_coverage :
    ((.ofCoins 0 : Value) == .set (.ofCoins 0) ⟨"aa"⟩ 0) = true ∧
      covers (.set (.ofCoins 0) ⟨"aa"⟩ (-5)) (.ofCoins 0) = true ∧
      covers (.set (.ofCoins 0) ⟨"aa"⟩ (-5)) (.set (.ofCoins 0) ⟨"aa"⟩ 0) = false ∧
      covers (.ofCoins 0) (.set (.ofCoins 0) ⟨"aa"⟩ (-1)) = true ∧
      covers (.set (.ofCoins 0) ⟨"aa"⟩ (-5)) (.set (.ofCoins 0) ⟨"aa"⟩ (-1)) = false := by
  decide

end ChainFollower.Value
