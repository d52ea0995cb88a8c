import ChainFollower.Number.Shortest
import ChainFollower.Proofs.Number.Decimal

/-!
# Floating-point literals

The text of a finite floating-point number in a document is a number literal, and never one of an
integer: it has a point or an exponent.

Main statement: `Shortest.numberLiteral_text`.
-/

namespace ChainFollower

/-! ## Runs of digits -/

namespace Decimal

theorem utf8EncodeChar_digit {c : Char} (h : isDigit c = true) :
    String.utf8EncodeChar c = [UInt8.ofNat c.toNat] ∧ Doc.isDigit (UInt8.ofNat c.toNat) = true ∧
      (UInt8.ofNat c.toNat).toNat = c.toNat := by
  simp only [isDigit, Bool.and_eq_true, decide_eq_true_eq] at h
  obtain ⟨hlow, hhigh⟩ := h
  have hlow : 48 ≤ c.toNat := hlow
  have hhigh : c.toNat ≤ 57 := hhigh
  -- Digits are below 0x80, so each is a single byte.
  have hbyte : (UInt8.ofNat c.toNat).toNat = c.toNat := by
    rw [UInt8.toNat_ofNat']
    omega
  refine ⟨Octets.utf8EncodeChar_ascii (by omega), ?_, hbyte⟩
  simp only [Doc.isDigit, Bool.and_eq_true, decide_eq_true_eq, UInt8.le_iff_toNat_le, hbyte]
  exact ⟨hlow, hhigh⟩

/-- The bytes of digits are digits. -/
theorem isDigit_ofChars {cs : List Char} (h : ∀ c ∈ cs, isDigit c = true) :
    ∀ b ∈ Octets.ofChars cs, Doc.isDigit b = true := by
  induction cs with
  | nil => exact fun b hb => by cases hb
  | cons c cs ih =>
    obtain ⟨hc, hcs⟩ := List.forall_mem_cons.1 h
    obtain ⟨hbytes, hdigit, -⟩ := utf8EncodeChar_digit hc
    rw [Octets.ofChars_cons, hbytes]
    exact List.forall_mem_cons.2 ⟨hdigit, ih hcs⟩

theorem digits_ofChars {cs : List Char} (hne : cs ≠ []) (h : ∀ c ∈ cs, isDigit c = true) :
    Doc.Digits (Octets.ofChars cs) := by
  refine ⟨?_, isDigit_ofChars h⟩
  obtain ⟨c, cs, rfl⟩ := List.exists_cons_of_ne_nil hne
  rw [Octets.ofChars_cons, (utf8EncodeChar_digit (h c (by simp))).1]
  exact List.cons_ne_nil _ _

theorem isDigit_zeros (k : Nat) : ∀ d ∈ List.replicate k '0', isDigit d = true := by
  intro d hd
  rw [List.eq_of_mem_replicate hd]
  decide

/-- Digits of which the first is not zero are the whole part of a number. -/
theorem whole_ofChars {c : Char} {cs : List Char} (hzero : c ≠ '0')
    (h : ∀ d ∈ c :: cs, isDigit d = true) : Doc.Whole (Octets.ofChars (c :: cs)) := by
  obtain ⟨hc, hcs⟩ := List.forall_mem_cons.1 h
  obtain ⟨hbytes, hdigit, hbyte⟩ := utf8EncodeChar_digit hc
  rw [Octets.ofChars_cons, hbytes]
  refine .digits hdigit (fun heq => hzero ?_) (isDigit_ofChars hcs)
  have hnat : c.toNat = 0x30 := by rw [← hbyte, heq]; rfl
  rw [← Char.ofNat_toNat c, hnat]

/-- A positive number has a first digit, which is not zero. -/
theorem exists_digits {n : Nat} (h : n ≠ 0) :
    ∃ c cs, digits n = c :: cs ∧ c ≠ '0' ∧ ∀ d ∈ c :: cs, isDigit d = true := by
  have hne : digits n ≠ [] := Nat.toDigits_ne_nil
  obtain ⟨c, cs, hcs⟩ := List.exists_cons_of_ne_nil hne
  refine ⟨c, cs, hcs, ?_, fun d hd => (isDigit_of_mem_digits (hcs ▸ hd)).1⟩
  -- A leading zero would make the number zero.
  rintro rfl
  have hwhole := whole_digits n
  have hbytes : Octets.ofChars (digits n) = 0x30 :: Octets.ofChars cs := by
    rw [hcs]
    rfl
  rw [hbytes] at hwhole
  generalize hrest : Octets.ofChars cs = rest at hwhole
  cases hwhole with
  | zero =>
    have hvalue := digitsValue_digits n
    rw [hbytes, hrest] at hvalue
    exact h hvalue.symm
  | digits _ hzero _ => exact hzero rfl

end Decimal

/-! ## The digits of a number -/

namespace Shortest

/-- No number but zero reads back from zero. -/
theorem readsBack_zero {x : Binary64} (hx : x.significand ≠ 0) (k : Int) :
    readsBack x 0 k = false := by
  have hden : 0 < pow10 (-k).toNat := Nat.pow_pos (by decide)
  have hscale : 0 < pow2 (x.exponent - 2).toNat := Nat.pow_pos (by decide)
  -- The lower midpoint of a number that is not zero lies above zero.
  have hlow : ∀ low, 0 < low → ratioLt 0 (pow10 (-k).toNat)
      (low * pow2 (x.exponent - 2).toNat) (pow2 (-(x.exponent - 2)).toNat) = true :=
    fun low hpos => by
      simp only [ratioLt, Nat.zero_mul, decide_eq_true_eq]
      exact Nat.mul_pos (Nat.mul_pos hpos hscale) hden
  have hclose : ∀ close : Bool,
      0 < if close then 4 * x.significand - 1 else 4 * x.significand - 2 := fun close => by
    cases close <;> simp <;> omega
  have hhigh : ∀ low unit, ratioLt low unit 0 (pow10 (-k).toNat) = false := fun low unit => by
    simp [ratioLt]
  simp only [readsBack, Nat.zero_mul, hhigh, hlow _ (hclose _), Bool.not_true, Bool.false_and,
    ite_self]

theorem onGrid?_ne_zero {tie : Tie} {x : Binary64} (hx : x.significand ≠ 0) {k : Int} {d : Nat}
    (h : onGrid? tie x k = some d) : d ≠ 0 := by
  simp only [onGrid?] at h
  generalize x.significand * pow2 x.exponent.toNat * pow10 (-k).toNat = num at h
  generalize pow2 (-x.exponent).toNat * pow10 k.toNat = den at h
  generalize num / den = q at h
  generalize num % den = r at h
  -- Zero does not read back as the number, which is none.
  have hquotient : readsBack x q k = true → q ≠ 0 := fun hq hzero => by
    rw [hzero, readsBack_zero hx] at hq
    cases hq
  split at h
  -- Both neighbours read back: the nearer one is taken, and halfway the tie decides.
  · next hq _ =>
    have hne := hquotient hq
    split at h
    · cases h
      exact hne
    · split at h
      · cases h
        exact Nat.succ_ne_zero _
      · split at h <;> cases h <;> omega
  · next hq _ =>
    cases h
    exact hquotient hq
  · cases h
    exact Nat.succ_ne_zero _
  · cases h

theorem search_ne_zero {tie : Tie} {x : Binary64} (hx : x.significand ≠ 0) {fuel : Nat} {k : Int}
    {d : Decimal} (h : search tie x fuel k = some d) : d.digits ≠ 0 := by
  induction fuel generalizing k with
  | zero => cases h
  | succ fuel ih =>
    rw [search] at h
    split at h
    · next hgrid =>
      cases h
      exact onGrid?_ne_zero hx hgrid
    · exact ih h

theorem stripZeros_ne_zero {fuel : Nat} {d : Decimal} (h : d.digits ≠ 0) :
    (stripZeros fuel d).digits ≠ 0 := by
  induction fuel generalizing d with
  | zero => exact h
  | succ fuel ih =>
    rw [stripZeros]
    split
    · next hzero =>
      -- A zero at the end is not the only digit, since the number is not zero.
      refine ih ?_
      show d.digits / 10 ≠ 0
      omega
    · exact h

theorem digits_ne_zero {tie : Tie} {x : Binary64} (hx : x.significand ≠ 0) :
    (digits tie x).digits ≠ 0 := by
  unfold digits
  -- Neither the search nor the removal of zeros at the end makes a zero of what is none.
  apply stripZeros_ne_zero
  generalize magnitude _ _ + 1 = top
  cases hsearch : search tie x 19 top with
  | none => exact hx
  | some d => exact search_ne_zero hx hsearch

/-! ## Layouts -/

open Doc (Whole Fraction Exponent Digits NumberLiteral)

/-- A whole part and what stands behind it, and somewhere a point or the mark of an exponent. -/
structure Unsigned (cs : List Char) : Prop where
  spelled : ∃ whole fraction exponent, Whole whole ∧ Fraction fraction ∧ Exponent exponent ∧
    Octets.ofChars cs = whole ++ fraction ++ exponent
  marked : 0x2e ∈ Octets.ofChars cs ∨ 0x65 ∈ Octets.ofChars cs

section Digits

variable {c : Char} {cs : List Char}

/-- A whole part, a point, and digits. -/
theorem unsigned_point {whole fraction : List Char} (hwhole : Whole (Octets.ofChars whole))
    (hne : fraction ≠ []) (hdigits : ∀ d ∈ fraction, Decimal.isDigit d = true) :
    Unsigned (whole ++ '.' :: fraction) := by
  have hbytes : Octets.ofChars (whole ++ '.' :: fraction) =
      Octets.ofChars whole ++ 0x2e :: Octets.ofChars fraction := by
    rw [Octets.ofChars_append]
    rfl
  refine ⟨⟨_, _, [], hwhole, .digits (Decimal.digits_ofChars hne hdigits), .absent, ?_⟩, ?_⟩
  · rw [hbytes, List.append_nil]
  · rw [hbytes]
    exact .inl (by simp)

theorem unsigned_positional (hzero : c ≠ '0') (hdigits : ∀ d ∈ c :: cs, Decimal.isDigit d = true)
    (n : Int) : Unsigned (positional true (c :: cs) n) := by
  unfold positional
  by_cases hsmall : n ≤ 0
  · -- Zeros stand between the point and the digits.
    rw [if_pos hsmall, List.append_assoc]
    show Unsigned (['0'] ++ '.' :: (List.replicate (-n).toNat '0' ++ c :: cs))
    have hwhole : Whole (Octets.ofChars ['0']) := .zero
    apply unsigned_point hwhole
    · simp
    · exact List.forall_mem_append.2 ⟨Decimal.isDigit_zeros _, hdigits⟩
  rw [if_neg hsmall]
  by_cases hlarge : ((c :: cs).length : Int) ≤ n
  · -- Zeros stand between the digits and the point.
    rw [if_pos hlarge, if_pos rfl]
    refine @unsigned_point _ ['0'] ?_ ?_ ?_
    · apply Decimal.whole_ofChars hzero
      exact List.forall_mem_append.2 ⟨hdigits, Decimal.isDigit_zeros _⟩
    · simp
    · exact Decimal.isDigit_zeros 1
  · -- The point stands between two of the digits.
    rw [if_neg hlarge]
    obtain ⟨k, hk⟩ : ∃ k, n.toNat = k + 1 := ⟨n.toNat - 1, by omega⟩
    rw [hk, List.take_succ_cons, List.drop_succ_cons, List.append_assoc, List.singleton_append]
    obtain ⟨hfirst, hrest⟩ := List.forall_mem_cons.1 hdigits
    apply unsigned_point
    · apply Decimal.whole_ofChars hzero
      exact List.forall_mem_cons.2 ⟨hfirst, fun d hd => hrest d (List.mem_of_mem_take hd)⟩
    · intro hnil
      have hlength := congrArg List.length hnil
      simp only [List.length_drop, List.length_nil, List.length_cons] at hlength hlarge
      omega
    · intro d hd
      exact hrest d (List.mem_of_mem_drop hd)

theorem unsigned_scientific (hzero : c ≠ '0') (hdigits : ∀ d ∈ c :: cs, Decimal.isDigit d = true)
    (power : Int) : Unsigned (scientific (c :: cs) power) := by
  -- Whole part, fraction and exponent in turn.
  have hwhole : Whole (Octets.ofChars [c]) := by
    apply Decimal.whole_ofChars hzero
    intro d hd
    rw [List.mem_singleton.1 hd]
    exact hdigits c List.mem_cons_self
  obtain ⟨fraction, hfraction, hbytes⟩ : ∃ fraction, Fraction fraction ∧ Octets.ofChars
      (if 1 < (c :: cs).length then ['.'] ++ (c :: cs).drop 1 else []) = fraction := by
    refine ⟨_, ?_, rfl⟩
    split
    · next hmore =>
      have hne : cs ≠ [] := by
        rintro rfl
        exact absurd hmore (Nat.lt_irrefl 1)
      exact .digits (Decimal.digits_ofChars hne fun d hd =>
        hdigits d (List.mem_cons_of_mem _ hd))
    · exact .absent
  obtain ⟨sign, hsign, hsignBytes⟩ : ∃ sign : Octets,
      (sign = [] ∨ sign = [0x2b] ∨ sign = [0x2d]) ∧
        Octets.ofChars [if power < 0 then '-' else '+'] = sign := by
    refine ⟨_, ?_, rfl⟩
    split
    · exact .inr (.inr rfl)
    · exact .inr (.inl rfl)
  have hexponent : Exponent (0x65 :: (sign ++
      Octets.ofChars (ChainFollower.Decimal.digits power.natAbs))) :=
    .digits (.inl rfl) hsign (Doc.digits_digits _)
  have htext : Octets.ofChars (scientific (c :: cs) power) = Octets.ofChars [c] ++ fraction ++
      (0x65 :: (sign ++ Octets.ofChars (ChainFollower.Decimal.digits power.natAbs))) := by
    unfold scientific
    rw [Octets.ofChars_append, Octets.ofChars_append, Octets.ofChars_append, Octets.ofChars_append,
      hbytes, hsignBytes, List.append_assoc, List.append_assoc]
    rfl
  refine ⟨⟨_, _, _, hwhole, hfraction, hexponent, htext⟩, .inr ?_⟩
  rw [htext]
  simp

end Digits

/-- The text of a finite number, its sign apart. -/
theorem exists_unsigned (x : Binary64) : ∃ sign cs, text .document x = sign ++ cs ∧
    (sign = [] ∨ sign = ['-']) ∧ Unsigned cs := by
  have hsign : ∀ sign : List Char, sign = (if x.isNegative then ['-'] else []) →
      sign = [] ∨ sign = ['-'] := by
    rintro _ rfl
    split
    · exact .inr rfl
    · exact .inl rfl
  unfold text
  by_cases hzero : x.isZero = true
  · refine ⟨_, ['0', '.', '0'], ?_, hsign _ rfl, ?_⟩
    · rw [if_pos hzero, List.append_assoc]
      rfl
    · refine @unsigned_point ['0'] ['0'] .zero (List.cons_ne_nil _ _) fun d hd => ?_
      cases List.mem_singleton.1 hd
      rfl
  · have hsignificand : x.significand ≠ 0 := by
      intro h
      apply hzero
      -- A normal number has its leading bit, so only a subnormal one could be zero.
      unfold Binary64.significand at h
      unfold Binary64.isZero
      split at h
      · next hbiased => simp [hbiased, h]
      · have hpos : 0 < pow2 52 := Nat.pow_pos (by decide)
        omega
    obtain ⟨c, cs, hcs, hfirst, hdigits⟩ := Decimal.exists_digits
      (digits_ne_zero hsignificand : (digits Layout.document.tie x).digits ≠ 0)
    refine ⟨_, _, if_neg hzero, hsign _ rfl, ?_⟩
    rw [hcs]
    split
    · exact unsigned_positional hfirst hdigits _
    · exact unsigned_scientific hfirst hdigits _

/-- The text of a number is a literal. -/
theorem numberLiteral_text (x : Binary64) :
    NumberLiteral (Octets.ofChars (text .document x)) := by
  obtain ⟨sign, cs, htext, hsign, ⟨whole, fraction, exponent, hwhole, hfraction, hexponent, hcs⟩,
    -⟩ := exists_unsigned x
  have hbytes : Octets.ofChars (text .document x) =
      Octets.ofChars sign ++ whole ++ fraction ++ exponent := by
    rw [htext, Octets.ofChars_append, hcs]
    simp only [List.append_assoc]
  rw [hbytes]
  -- The sign is the only part that may be missing.
  apply NumberLiteral.parts _ hwhole hfraction hexponent
  rcases hsign with rfl | rfl
  · exact .inl rfl
  · exact .inr rfl

/-- What is neither a digit nor a sign stands in no literal of an integer. -/
theorem integer?_eq_none {l : Octets} {b : UInt8} (hb : b ∈ l) (hdigit : Doc.isDigit b = false)
    (hminus : b ≠ 0x2d) : Doc.integer? l = none := by
  -- One byte that is no digit is enough, wherever it stands.
  have hnot : ∀ ds : Octets, b ∈ ds → ds.all Doc.isDigit = false := by
    intro ds hds
    rw [List.all_eq_false]
    exact ⟨b, hds, by simp [hdigit]⟩
  unfold Doc.integer?
  split
  · next ds =>
    have hds := (List.mem_cons.1 hb).resolve_left hminus
    simp [hnot ds hds]
  · simp [hnot _ hb]

/-- It is no literal of an integer, so that nothing quotes it. -/
theorem integer?_text (x : Binary64) :
    Doc.integer? (Octets.ofChars (text .document x)) = none := by
  obtain ⟨sign, cs, htext, -, -, hmark⟩ := exists_unsigned x
  -- The point or the mark of the exponent gives it away.
  rw [htext, Octets.ofChars_append]
  rcases hmark with h | h
  · exact integer?_eq_none (List.mem_append_right _ h) (by decide) (by decide)
  · exact integer?_eq_none (List.mem_append_right _ h) (by decide) (by decide)

end Shortest

end ChainFollower
