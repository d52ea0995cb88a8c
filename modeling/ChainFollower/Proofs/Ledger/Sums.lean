import ChainFollower.Ledger.Arithmetic
import ChainFollower.Proofs.Ledger.Values
import Mathlib.Data.List.Forall2

/-!
# Sums of values are exact

Values are added and subtracted one after the other.  What comes out has the exact sum of all coins
and of all amounts of every asset, each with its sign, and the entries of all values that went in,
be their amounts zero or not.  Nothing else is in it: `ext_amounts` says that a value is known by
its coins, its entries and its amounts, and so the order of the terms does not matter.

Main statements: `coins_total`, `amount_total` and `contains_total` for what a sum is made of, and
`total_is_exact`.
-/

namespace ChainFollower.Value

/-! ## One term -/

/-- A term of a sum: a value that is added or subtracted. -/
inductive Term
  | plus (v : Value)
  | minus (v : Value)

namespace Term

/-- The value without the sign. -/
def value : Term → Value
  | .plus v | .minus v => v

/-- A number with the sign of the term. -/
def signed : Term → Int → Int
  | .plus _, n => n
  | .minus _, n => -n

/-- Adds or subtracts a term. -/
def apply (v : Value) : Term → Value
  | .plus w => v + w
  | .minus w => v - w

/-- Whether two terms have the same sign and hold the same. -/
def Same : Term → Term → Prop
  | .plus v, .plus w | .minus v, .minus w => (v == w) = true
  | .plus _, .minus _ | .minus _, .plus _ => False

end Term

/-- The value after a number of terms, one after the other. -/
def total (start : Value) (terms : List Term) : Value := terms.foldl Term.apply start

/-- The exact sum of the coins, or of the amounts of one asset. -/
def exactSum (measure : Value → Int) (start : Value) (terms : List Term) : Int :=
  terms.foldl (fun sum t => sum + t.signed (measure t.value)) (measure start)

/-- The entries of a combination are those of both maps; where the second one has an entry, its
amount is combined. -/
theorem get?_combine (f : Int → Int → Int) (a b : Dict Int) (name : String) :
    (combine f a b).get? name =
      ((b.get? name).map (f (a.getD name 0))).or (a.get? name) := by
  obtain ⟨entries, ascending⟩ := b
  show (entries.foldl _ a).get? name = ((entries.lookup name).map _).or _
  induction entries generalizing a with
  | nil => rfl
  | cons e rest ih =>
    obtain ⟨first, rest_ascending⟩ := List.pairwise_cons.1 ascending
    rw [List.foldl_cons, ih _ rest_ascending, Entries.lookup_cons, Dict.get?_insert, Dict.getD_eq,
      Dict.get?_insert]
    by_cases h : name = e.1
    · -- No other entry has the first name.
      subst h
      rw [if_pos rfl, if_pos rfl, Entries.lookup_eq_none_of_lt first]
      rfl
    · rw [if_neg h, if_neg h]
      rfl

/-- The amounts of a combination, where a missing one leaves the other as it is. -/
theorem getD_combine {f : Int → Int → Int} (hf : ∀ n, f n 0 = n) (a b : Dict Int) (name : String) :
    (combine f a b).getD name 0 = f (a.getD name 0) (b.getD name 0) := by
  rw [Dict.getD_eq, get?_combine, Dict.getD_eq b]
  cases b.get? name with
  | none => exact (hf _).symm
  | some amount => rfl

theorem contains_combine (f : Int → Int → Int) (a b : Dict Int) (name : String) :
    (combine f a b).contains name = (a.contains name || b.contains name) := by
  rw [Dict.contains, get?_combine, Option.isSome_or, Option.isSome_map, Bool.or_comm]
  rfl

theorem coins_apply (v : Value) (t : Term) :
    (t.apply v).coins = v.coins + t.signed t.value.coins := by
  cases t <;> rfl

theorem amount_apply (v : Value) (t : Term) (a : AssetId) :
    (t.apply v).amount a = v.amount a + t.signed (t.value.amount a) := by
  cases t with
  | plus w => exact getD_combine Int.add_zero v.assets w.assets a.text
  | minus w => exact getD_combine Int.sub_zero v.assets w.assets a.text

theorem contains_apply (v : Value) (t : Term) (a : AssetId) :
    (t.apply v).assets.contains a.text =
      (v.assets.contains a.text || t.value.assets.contains a.text) := by
  cases t <;> exact contains_combine _ _ _ _

/-! ## Any number of terms -/

/-- What every term changes by what it holds, a sum has exactly. -/
theorem measure_total (measure : Value → Int)
    (step : ∀ v t, measure (Term.apply v t) = measure v + t.signed (measure t.value))
    (start : Value) (terms : List Term) :
    measure (total start terms) = exactSum measure start terms := by
  induction terms generalizing start with
  | nil => rfl
  | cons t rest ih =>
    show measure (total (t.apply start) rest) = _
    rw [ih, exactSum, exactSum, List.foldl_cons, step]

theorem coins_total (start : Value) (terms : List Term) :
    (total start terms).coins = exactSum coins start terms :=
  measure_total coins coins_apply start terms

theorem amount_total (start : Value) (terms : List Term) (a : AssetId) :
    (total start terms).amount a = exactSum (amount · a) start terms :=
  measure_total (amount · a) (amount_apply · · a) start terms

theorem contains_total (start : Value) (terms : List Term) (a : AssetId) :
    (total start terms).assets.contains a.text =
      (start.assets.contains a.text || terms.any fun t => t.value.assets.contains a.text) := by
  induction terms generalizing start with
  | nil => exact (Bool.or_false _).symm
  | cons t rest ih =>
    show (total (t.apply start) rest).assets.contains a.text = _
    rw [ih, contains_apply, List.any_cons, Bool.or_assoc]

/-- A value is known by its coins, its entries and its amounts. -/
theorem ext_amounts {v w : Value} (coins : v.coins = w.coins)
    (contains : ∀ a : AssetId, v.assets.contains a.text = w.assets.contains a.text)
    (amounts : ∀ a : AssetId, v.amount a = w.amount a) : v = w := by
  -- An absent asset and one listed at zero share their amount, so presence is asked for apart.
  have assets : v.assets = w.assets := Dict.ext_get? fun key => by
    have held := contains ⟨key⟩
    have amount := amounts ⟨key⟩
    simp only [Dict.contains] at held
    simp only [Value.amount, Dict.getD_eq] at amount
    cases hv : v.assets.get? key <;> cases hw : w.assets.get? key <;> simp_all
  cases v
  cases w
  exact congrArg₂ Value.mk coins assets

/-- Two terms may change places. -/
theorem apply_comm (v : Value) (s t : Term) : t.apply (s.apply v) = s.apply (t.apply v) := by
  apply ext_amounts
  · simp only [coins_apply]
    omega
  · intro a
    simp only [contains_apply, Bool.or_assoc]
    rw [Bool.or_comm (s.value.assets.contains a.text)]
  · intro a
    simp only [amount_apply]
    omega

theorem total_perm (start : Value) {terms others : List Term} (h : terms.Perm others) :
    total start terms = total start others :=
  h.foldl_eq' (fun s _ t _ v => apply_comm v s t) start

/-! ## What is the same goes to what is the same -/

/-- To hold the same is an equivalence. -/
theorem same_equivalence : Equivalence fun v w : Value => (v == w) = true where
  refl v := (same_iff v v).2 ⟨rfl, fun _ => rfl⟩
  symm h := by
    obtain ⟨coins, amounts⟩ := (same_iff _ _).1 h
    exact (same_iff _ _).2 ⟨coins.symm, fun a => (amounts a).symm⟩
  trans h₁ h₂ := by
    obtain ⟨coins₁, amounts₁⟩ := (same_iff _ _).1 h₁
    obtain ⟨coins₂, amounts₂⟩ := (same_iff _ _).1 h₂
    exact (same_iff _ _).2 ⟨coins₁.trans coins₂, fun a => (amounts₁ a).trans (amounts₂ a)⟩

/-- Subtracting what has been added leaves the entries, but no amount. -/
theorem add_subtract_same (v w : Value) : (v + w - w == v) = true := by
  refine (same_iff _ _).2 ⟨Int.add_sub_cancel _ _, fun a => ?_⟩
  have added := amount_apply v (.plus w) a
  have subtracted := amount_apply (v + w) (.minus w) a
  simp only [Term.apply, Term.signed, Term.value] at added subtracted
  omega

theorem Term.Same.signed {measure : Value → Int}
    (respects : ∀ {v w : Value}, (v == w) = true → measure v = measure w) {s t : Term}
    (h : s.Same t) : s.signed (measure s.value) = t.signed (measure t.value) := by
  match s, t, h with
  | .plus _, .plus _, h => exact respects h
  | .minus _, .minus _, h => exact congrArg Neg.neg (respects h)

theorem exactSum_congr {measure : Value → Int}
    (respects : ∀ {v w : Value}, (v == w) = true → measure v = measure w) {start other : Value}
    (first : (start == other) = true) {terms others : List Term}
    (h : List.Forall₂ Term.Same terms others) :
    exactSum measure start terms = exactSum measure other others := by
  rw [exactSum, exactSum, respects first]
  -- The sum so far is the same on both sides.
  generalize measure other = sum
  induction h generalizing sum with
  | nil => rfl
  | cons same _ ih =>
    rw [List.foldl_cons, List.foldl_cons, same.signed respects]
    exact ih _

theorem total_same {start other : Value} (first : (start == other) = true)
    {terms others : List Term} (h : List.Forall₂ Term.Same terms others) :
    (total start terms == total other others) = true := by
  refine (same_iff _ _).2 ⟨?_, fun a => ?_⟩
  · rw [coins_total, coins_total]
    exact exactSum_congr (fun h => ((same_iff _ _).1 h).1) first h
  · rw [amount_total, amount_total]
    exact exactSum_congr (fun h => ((same_iff _ _).1 h).2 a) first h

/-! ## Main statement -/

/-- A sum has the exact coins, the exact amount of every asset, and the entries of all its terms.
So it is the same value, entry for entry, in whatever order the terms are taken; to subtract what
has been added gives what was there, up to entries of amount zero; and what holds the same can
stand for the start or for any term, to hold the same being an equivalence. -/
theorem total_is_exact (start : Value) (terms : List Term) :
    (total start terms).coins = exactSum coins start terms ∧
      (∀ a, (total start terms).amount a = exactSum (amount · a) start terms) ∧
      (∀ a : AssetId, (total start terms).assets.contains a.text = true ↔
        start.assets.contains a.text = true ∨
          ∃ t ∈ terms, t.value.assets.contains a.text = true) ∧
      (∀ others, terms.Perm others → total start others = total start terms) ∧
      (∀ v, (total start terms + v - v == total start terms) = true) ∧
      (∀ other others, (start == other) = true → List.Forall₂ Term.Same terms others →
        (total start terms == total other others) = true) ∧
      Equivalence fun v w : Value => (v == w) = true := by
  refine ⟨coins_total start terms, amount_total start terms, fun a => ?_, fun others perm => ?_,
    add_subtract_same (total start terms), fun other others first same => total_same first same,
    same_equivalence⟩
  -- An asset is listed once a term lists it, whichever its sign.
  · rw [contains_total, Bool.or_eq_true, List.any_eq_true]
  · exact (total_perm start perm).symm

/-- Two terms that leave two entries of amount zero, in either order, and with an entry of amount
zero that one of the terms need not have. -/
theorem total_is_exact_zeros :
    total (.set (.ofCoins 5) ⟨"aa"⟩ 3)
        [.plus (.set (.ofCoins 0) ⟨"bb"⟩ 0), .minus (.set (.ofCoins 7) ⟨"aa"⟩ 3)] =
      total (.set (.ofCoins 5) ⟨"aa"⟩ 3)
        [.minus (.set (.ofCoins 7) ⟨"aa"⟩ 3), .plus (.set (.ofCoins 0) ⟨"bb"⟩ 0)] ∧
    (total (.set (.ofCoins 5) ⟨"aa"⟩ 3)
        [.minus (.set (.ofCoins 7) ⟨"aa"⟩ 3), .plus (.set (.ofCoins 0) ⟨"bb"⟩ 0)] ==
      total (.set (.ofCoins 5) ⟨"aa"⟩ 3)
        [.minus (.set (.ofCoins 7) ⟨"aa"⟩ 3), .plus (.ofCoins 0)]) = true := by
  obtain ⟨-, -, -, perm, -, same, -⟩ := total_is_exact (.set (.ofCoins 5) ⟨"aa"⟩ 3)
    [.minus (.set (.ofCoins 7) ⟨"aa"⟩ 3), .plus (.set (.ofCoins 0) ⟨"bb"⟩ 0)]
  refine ⟨perm _ (.swap _ _ _), same _ _ (by decide) (.cons ?_ (.cons ?_ .nil))⟩
  -- Each term equals its partner, the second one although it lists a zero.
  · show (_ == _) = true
    decide
  · show (_ == _) = true
    decide

end ChainFollower.Value
