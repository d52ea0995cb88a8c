import ChainFollower.Proofs.Number.Encodings

/-!
# Integer literals

An integer literal of the grammar is a minus sign or nothing, and then zero or digits that do not
begin with zero.  Every integer has one such literal, the one that is written for it, and zero has a
second one: minus zero, which a reader takes for a floating-point number.

Main statements: `Doc.integerLiteral_iff`, and `Doc.amount_eq_ok_iff`, which says of every tree
which amount it is read as.
-/

namespace ChainFollower

namespace Doc

/-- The literal of an integer, without fraction and exponent. -/
inductive IntegerLiteral : Octets → Int → Prop
  | unsigned {ds : Octets} (h : Whole ds) : IntegerLiteral ds (Json.digitsValue ds)
  -- The minus sign is 0x2d.
  | minus {ds : Octets} (h : Whole ds) : IntegerLiteral (0x2d :: ds) (-(Json.digitsValue ds : Int))

/-- The second literal of zero. -/
def minusZero : Octets := [0x2d, 0x30]

variable {l : Octets} {n : Int}

/-! ## One literal for each integer -/

/-- The value of a digit, and the digit that is written for it. -/
theorem value_of_isDigit {d : UInt8} (h : isDigit d = true) :
    d.toNat - 0x30 < 10 ∧ UInt8.ofNat (0x30 + (d.toNat - 0x30)) = d := by
  simp only [isDigit, Bool.and_eq_true, decide_eq_true_eq, UInt8.le_iff_toNat_le] at h
  have hlow : 0x30 ≤ d.toNat := h.1
  have hhigh : d.toNat ≤ 0x39 := h.2
  exact ⟨by omega, by rw [Nat.add_sub_cancel' hlow, UInt8.ofNat_toNat]⟩

/-- Further digits behind a positive number are written behind its digits. -/
theorem digits_foldl {ds : Octets} (hds : ∀ d ∈ ds, isDigit d = true) {m : Nat} (hm : 0 < m) :
    Octets.ofChars (Decimal.digits (ds.foldl (fun m d => 10 * m + (d.toNat - 0x30)) m)) =
      Octets.ofChars (Decimal.digits m) ++ ds := by
  -- Digit by digit; the value so far is positive, so that no zero is lost.
  induction ds generalizing m with
  | nil => exact (List.append_nil _).symm
  | cons d ds ih =>
    obtain ⟨hd, hds⟩ := List.forall_mem_cons.1 hds
    obtain ⟨hvalue, hbyte⟩ := value_of_isDigit hd
    have hquotient : (10 * m + (d.toNat - 0x30)) / 10 = m := by omega
    have hremainder : (10 * m + (d.toNat - 0x30)) % 10 = d.toNat - 0x30 := by omega
    rw [List.foldl_cons, ih hds (by omega), Decimal.digits_of_le (by omega), hquotient, hremainder,
      hbyte, List.append_assoc]
    rfl

/-- A whole part is written for its value. -/
theorem Whole.eq_digits {ds : Octets} (h : Whole ds) :
    ds = Octets.ofChars (Decimal.digits (Json.digitsValue ds)) := by
  cases h with
  | zero => rfl
  | @digits d ds hd hzero hds =>
    obtain ⟨hvalue, hbyte⟩ := value_of_isDigit hd
    -- The first digit is not zero, so that no digit is lost in the number.
    have hpositive : 0 < d.toNat - 0x30 := by
      apply Nat.pos_of_ne_zero
      intro hnone
      rw [hnone] at hbyte
      exact hzero hbyte.symm
    rw [Json.digitsValue, List.foldl_cons, Nat.mul_zero, Nat.zero_add, digits_foldl hds hpositive,
      Decimal.digits_of_lt hvalue, hbyte]
    rfl

/-- The literals of an integer: what is written for it, and minus zero. -/
theorem integerLiteral_iff :
    IntegerLiteral l n ↔ l = .ofChars (Json.intChars n) ∨ l = minusZero ∧ n = 0 := by
  constructor
  · intro h
    cases h with
    | @unsigned ds h =>
      left
      rw [ofChars_intChars, if_neg (Int.not_lt.2 (Int.natCast_nonneg _)), List.nil_append,
        Int.natAbs_natCast]
      exact h.eq_digits
    | @minus ds h =>
      have hds := h.eq_digits
      -- A minus sign before zero is the literal that no integer is written as.
      cases hvalue : Json.digitsValue ds with
      | zero =>
        right
        rw [hvalue] at hds
        rw [hds]
        exact ⟨rfl, rfl⟩
      | succ m =>
        left
        rw [hvalue] at hds
        rw [ofChars_intChars, if_pos (by omega), Int.natAbs_neg, Int.natAbs_natCast, ← hds]
        rfl
  · rintro (rfl | ⟨rfl, rfl⟩)
    · have hvalue := Decimal.digitsValue_digits n.natAbs
      have hwhole := Decimal.whole_digits n.natAbs
      rw [ofChars_intChars]
      -- What is written for an integer is a literal of it, with a sign if it needs one.
      by_cases hn : n < 0
      · have hliteral := IntegerLiteral.minus hwhole
        rw [hvalue, Int.ofNat_natAbs_of_nonpos (Int.le_of_lt hn), Int.neg_neg] at hliteral
        rwa [if_pos hn, List.singleton_append]
      · have hliteral := IntegerLiteral.unsigned hwhole
        rw [hvalue, Int.natAbs_of_nonneg (Int.not_lt.1 hn)] at hliteral
        rwa [if_neg hn, List.nil_append]
    · exact .minus .zero

theorem IntegerLiteral.numberLiteral (h : IntegerLiteral l n) : NumberLiteral l := by
  rcases integerLiteral_iff.1 h with rfl | ⟨rfl, -⟩
  · exact numberLiteral_intChars n
  · exact .parts (.inr rfl) .zero .absent .absent

end Doc

/-! ## Literals of other numbers -/

namespace Literal

theorem ofParts_ne_int (negative : Bool) (significand : Nat) (power n : Int) :
    ofParts negative significand power ≠ .int n := by
  unfold ofParts
  split <;> simp

/-- A fraction or an exponent makes a number no integer, whatever it amounts to. -/
theorem number_ne_int_of_parts {l : Octets}
    (h : ¬ ((parts l).fraction = none ∧ (parts l).exponent = none)) (n : Int) :
    number l ≠ .int n := by
  unfold number
  dsimp only
  split
  -- Only without a fraction and an exponent an integer is tried.
  · next hfraction hexponent => exact absurd ⟨hfraction, hexponent⟩ h
  · split
    · exact ofParts_ne_int _ _ _ n
    · split
      · exact ofParts_ne_int _ _ _ n
      · split <;> simp

/-- Something other than digits behind the whole part begins a fraction or an exponent. -/
theorem parts_of_mark {sign whole t : Octets} {b : UInt8} (hsign : sign = [] ∨ sign = [0x2d])
    (hwhole : Doc.Whole whole) (hb : Doc.isDigit b = false) :
    ¬ ((parts (sign ++ (whole ++ b :: t))).fraction = none ∧
      (parts (sign ++ (whole ++ b :: t))).exponent = none) := by
  have hdigits : ∀ d ∈ whole, Doc.isDigit d = true := by
    cases hwhole with
    | zero => exact List.forall_mem_singleton.2 (by decide)
    | digits hd _ hds => exact List.forall_mem_cons.2 ⟨hd, hds⟩
  obtain ⟨htake, hdrop⟩ := Doc.span_digits hdigits (s := b :: t) (Doc.avoids_cons (by simp [hb]))
  rintro ⟨hfraction, hexponent⟩
  simp only [parts, Doc.scanSign_append hsign hwhole, htake, hdrop] at hfraction hexponent
  -- If the mark is no point, what is left of the literal begins with it.
  split at hfraction
  · cases hfraction
  · simp only at hexponent
    cases hexponent

end Literal

namespace Doc

variable {l : Octets} {n : Int}

/-- Behind the whole part a number ends or goes on with a mark. -/
theorem exists_mark {fraction exponent : Octets} (hfraction : Fraction fraction)
    (hexponent : Exponent exponent) : fraction ++ exponent = [] ∨
      ∃ b t, fraction ++ exponent = b :: t ∧ isDigit b = false ∧ b ≠ 0x2d := by
  cases hfraction with
  | digits => exact .inr ⟨_, _, rfl, by decide, by decide⟩
  | absent =>
    cases hexponent with
    | absent => exact .inl rfl
    | digits hletter =>
      rcases hletter with rfl | rfl <;> exact .inr ⟨_, _, rfl, by decide, by decide⟩

/-- A number literal is that of an integer, or neither quoted nor read as one. -/
theorem NumberLiteral.integer_or (h : NumberLiteral l) :
    (∃ n, IntegerLiteral l n) ∨ integer? l = none ∧ ∀ n, Literal.number l ≠ .int n := by
  obtain @⟨sign, whole, fraction, exponent, hsign, hwhole, hfraction, hexponent⟩ := h
  rw [List.append_assoc, List.append_assoc]
  -- A point or an exponent makes the literal no integer.
  rcases exists_mark hfraction hexponent with hnone | ⟨b, t, hmark, hdigit, hminus⟩
  · left
    rw [hnone, List.append_nil]
    rcases hsign with rfl | rfl
    · exact ⟨_, .unsigned hwhole⟩
    · exact ⟨_, .minus hwhole⟩
  · right
    rw [hmark]
    exact ⟨Shortest.integer?_eq_none (by simp) hdigit hminus,
      Literal.number_ne_int_of_parts (Literal.parts_of_mark hsign hwhole hdigit)⟩

/-! ## Trees as amounts -/

/-- The amount that a tree stands for: the integer of a literal other than minus zero, or of the
decimal digits of a text. -/
inductive Denotes : Doc → Int → Prop
  | literal {l : Octets} {n : Int} (h : IntegerLiteral l n) (hzero : l ≠ minusZero) :
      Denotes (.number l) n
  | text {raw : Octets} {s : String} {n : Int} (htext : Literal.text? raw = some s)
      (hread : Decimal.readInt s.toList = .ok n) : Denotes (.text raw) n

theorem integerLiteral_intChars (n : Int) : IntegerLiteral (.ofChars (Json.intChars n)) n :=
  integerLiteral_iff.2 (.inl rfl)

/-- The literal of an integer reads like the document form of it. -/
theorem item_quoted_intChars (n : Int) (levels : Nat) :
    (Doc.number (.ofChars (Json.intChars n))).quoted.item levels = (toJson n).item := by
  -- What a word holds is a number, and anything wider a text of the same digits.
  by_cases h : FitsWord n
  · rw [item_intChars h, Amount.toJson_of_fits h]
    rfl
  · have hquoted : quotedLiteral (.ofChars (Json.intChars n)) =
        .text (.ofChars (Json.intChars n)) := by
      rw [quotedLiteral, integer?_intChars]
      exact if_neg h
    rw [quoted, hquoted, item, ← Amount.escaped_intChars, ofRaw_escaped,
      Amount.toJson_of_not_fits h]
    rfl

theorem item_quoted_minusZero (levels : Nat) :
    (Doc.number minusZero).quoted.item levels = .float ⟨0x8000000000000000⟩ := by
  have hquoted : quotedLiteral minusZero = .number minusZero := quotedLiteral_of_not_wide (by decide)
  have hnumber : Literal.number minusZero = .float ⟨0x8000000000000000⟩ := by decide +kernel
  rw [quoted, hquoted, item, Item.ofLiteral, hnumber]

/-- What an integer literal is read as. -/
theorem amount_literal (h : IntegerLiteral l n) (levels : Nat) :
    Reader.amount .document ((Doc.number l).quoted.item levels) =
      if l = minusZero then .error (some (.inexact ⟨0x8000000000000000⟩)) else .ok n := by
  by_cases hzero : l = minusZero
  · rw [if_pos hzero, hzero, item_quoted_minusZero]
    rfl
  · obtain rfl : l = .ofChars (Json.intChars n) :=
      (integerLiteral_iff.1 h).resolve_right fun hboth => hzero hboth.1
    rw [if_neg hzero, item_quoted_intChars]
    exact Reader.amount_ofInt n

theorem amount_number_eq_ok_iff {levels : Nat} (h : NumberLiteral l) :
    Reader.amount .document ((Doc.number l).quoted.item levels) = .ok n ↔
      (Doc.number l).Denotes n := by
  constructor
  · intro hread
    rcases h.integer_or with ⟨m, hm⟩ | ⟨hnone, hnumber⟩
    · rw [amount_literal hm] at hread
      split at hread
      · cases hread
      · next hzero =>
        cases hread
        exact .literal hm hzero
    · -- Any other number is read as it stands, and as no integer.
      have hquoted : quotedLiteral l = .number l := by rw [quotedLiteral, hnone]
      rw [quoted, hquoted, item, Item.ofLiteral] at hread
      cases hvalue : Literal.number l with
      | int m => exact absurd hvalue (hnumber m)
      | float x =>
        rw [hvalue] at hread
        cases hread
      | outOfRange =>
        rw [hvalue] at hread
        cases hread
  · rintro ⟨hliteral, hzero⟩
    rw [amount_literal hliteral, if_neg hzero]

theorem amount_text_eq_ok_iff {raw : Octets} {levels : Nat} :
    Reader.amount .document ((Doc.text raw).quoted.item levels) = .ok n ↔
      (Doc.text raw).Denotes n := by
  show Reader.amount .document (.ofRaw raw) = .ok n ↔ _
  rw [Item.ofRaw]
  constructor
  · intro hread
    -- The text may be broken, or no decimal number.
    cases htext : Literal.text? raw with
    | none =>
      rw [htext] at hread
      cases hread
    | some s =>
      rw [htext] at hread
      refine .text htext ?_
      change Reader.decimal s = .ok n at hread
      unfold Reader.decimal at hread
      split at hread
      · next hdigits =>
        cases hread
        exact hdigits
      · cases hread
  · rintro (_ | ⟨htext, hdigits⟩)
    rw [htext]
    show Reader.decimal _ = .ok n
    rw [Reader.decimal, hdigits]

/-- A spelled tree is read as an amount exactly if it stands for it. -/
theorem amount_eq_ok_iff {d : Doc} {s : Octets} (h : Spells d s) {levels : Nat} :
    Reader.amount .document (d.quoted.item levels) = .ok n ↔ d.Denotes n := by
  obtain ⟨-, h, -⟩ := h
  cases h with
  | number h => exact amount_number_eq_ok_iff h
  | text => exact amount_text_eq_ok_iff
  | null | isTrue | isFalse => constructor <;> intro h <;> cases h
  | emptyArray | array | emptyObject | object =>
    constructor
    · intro hread
      -- Beyond the last level it is a fault, and before it an array or a map.
      cases levels with
      | zero =>
        rw [quoted, item] at hread
        split at hread <;> cases hread
      | succ levels => cases hread
    · intro h
      cases h

end Doc

end ChainFollower
