import ChainFollower.Json.Literal
import ChainFollower.Json.Print
import ChainFollower.Proofs.Json.Quoting
import ChainFollower.Proofs.Text.Utf8

/-!
# Integer literals

An integer that is written in decimal digits is a number literal.  The literal denotes the integer,
both to the pass that quotes wide integers and, if a word holds it, to the reader of documents.

Main statements: `Doc.numberLiteral_intChars`, `Doc.integer?_intChars`, `Literal.number_intChars`,
and `Decimal.readInt_intChars`, that a text of the digits is read as the integer, however large;
for counters `Decimal.readWord_digits`.
-/

namespace ChainFollower

/-! ## Digits -/

namespace Decimal

theorem digits_of_lt {n : Nat} (h : n < 10) :
    Octets.ofChars (digits n) = [UInt8.ofNat (0x30 + n)] := by
  rw [digits, Nat.toDigits_of_lt_base h]
  match n with
  | 0 | 1 | 2 | 3 | 4 | 5 | 6 | 7 | 8 | 9 => rfl
  | n + 10 => omega

theorem digits_of_le {n : Nat} (h : 10 ≤ n) :
    Octets.ofChars (digits n) =
      Octets.ofChars (digits (n / 10)) ++ [UInt8.ofNat (0x30 + n % 10)] := by
  have hdigit : Octets.ofChars (digits (n % 10)) = [UInt8.ofNat (0x30 + n % 10)] :=
    digits_of_lt (Nat.mod_lt n (by decide))
  rw [digits, Nat.toDigits_of_lt_base (Nat.mod_lt n (by decide))] at hdigit
  rw [digits, Nat.toDigits_of_base_le (by decide) h, Octets.ofChars_append, hdigit]
  rfl

/-- A digit as a byte, and its value. -/
theorem isDigit_ofNat {k : Nat} (h : k < 10) :
    Doc.isDigit (UInt8.ofNat (0x30 + k)) = true ∧ (UInt8.ofNat (0x30 + k)).toNat - 0x30 = k := by
  match k with
  | 0 | 1 | 2 | 3 | 4 | 5 | 6 | 7 | 8 | 9 => exact ⟨by decide, by decide⟩
  | k + 10 => omega

theorem isDigit_digits (n : Nat) : ∀ d ∈ Octets.ofChars (digits n), Doc.isDigit d = true := by
  -- The last digit is split off; the digits before it are those of `n / 10`.
  induction n using Nat.strongRecOn with
  | _ n ih =>
    intro d hd
    rcases Nat.lt_or_ge n 10 with h | h
    · rw [digits_of_lt h, List.mem_singleton] at hd
      exact hd ▸ (isDigit_ofNat h).1
    · rw [digits_of_le h, List.mem_append, List.mem_singleton] at hd
      rcases hd with hd | hd
      · exact ih (n / 10) (by omega) d hd
      · exact hd ▸ (isDigit_ofNat (Nat.mod_lt n (by decide))).1

theorem digits_ne_nil (n : Nat) : Octets.ofChars (digits n) ≠ [] := by
  rcases Nat.lt_or_ge n 10 with h | h
  · simp [digits_of_lt h]
  · simp [digits_of_le h]

theorem digitsValue_append (ds : Octets) (d : UInt8) :
    Json.digitsValue (ds ++ [d]) = 10 * Json.digitsValue ds + (d.toNat - 0x30) := by
  simp [Json.digitsValue]

/-- Reading the digits gives the number back. -/
theorem digitsValue_digits (n : Nat) : Json.digitsValue (Octets.ofChars (digits n)) = n := by
  induction n using Nat.strongRecOn with
  | _ n ih =>
    rcases Nat.lt_or_ge n 10 with h | h
    · rw [digits_of_lt h]
      show 10 * 0 + ((UInt8.ofNat (0x30 + n)).toNat - 0x30) = n
      rw [(isDigit_ofNat h).2]
      omega
    · rw [digits_of_le h, digitsValue_append, ih (n / 10) (by omega),
        (isDigit_ofNat (Nat.mod_lt n (by decide))).2]
      omega

/-- The digits of a positive number do not begin with zero. -/
theorem whole_digits (n : Nat) : Doc.Whole (Octets.ofChars (digits n)) := by
  suffices hpos : 0 < n → ∃ d ds, Octets.ofChars (digits n) = d :: ds ∧ d ≠ 0x30 by
    rcases Nat.eq_zero_or_pos n with rfl | h
    · exact .zero
    · obtain ⟨d, ds, hds, hzero⟩ := hpos h
      have hall := isDigit_digits n
      rw [hds] at hall ⊢
      exact .digits (hall d (by simp)) hzero fun c hc => hall c (List.mem_cons_of_mem _ hc)
  induction n using Nat.strongRecOn with
  | _ n ih =>
    intro hn
    rcases Nat.lt_or_ge n 10 with h | h
    · refine ⟨_, [], digits_of_lt h, fun hzero => ?_⟩
      have hvalue := (isDigit_ofNat h).2
      rw [hzero] at hvalue
      exact absurd hvalue.symm (Nat.ne_of_gt hn)
    · -- With two digits or more the first one is that of `n / 10`, which is positive.
      obtain ⟨d, ds, hds, hzero⟩ := ih (n / 10) (by omega) (by omega)
      exact ⟨d, ds ++ [_], by rw [digits_of_le h, hds]; rfl, hzero⟩

end Decimal

/-! ## Literals -/

namespace Doc

theorem digits_digits (n : Nat) : Digits (Octets.ofChars (Decimal.digits n)) :=
  ⟨Decimal.digits_ne_nil n, Decimal.isDigit_digits n⟩

/-- The bytes of an integer: a minus sign if it is negative, and the digits of its magnitude. -/
theorem ofChars_intChars (n : Int) :
    Octets.ofChars (Json.intChars n) =
      (if n < 0 then [0x2d] else []) ++ Octets.ofChars (Decimal.digits n.natAbs) := by
  unfold Json.intChars
  split <;> rfl

theorem numberLiteral_intChars (n : Int) : NumberLiteral (Octets.ofChars (Json.intChars n)) := by
  have hsign : ∀ sign : Octets, sign = (if n < 0 then [0x2d] else []) →
      sign = [] ∨ sign = [0x2d] := by
    rintro _ rfl
    split <;> simp
  have hliteral := NumberLiteral.parts (hsign _ rfl) (Decimal.whole_digits n.natAbs) .absent .absent
  rwa [List.append_nil, List.append_nil, ← ofChars_intChars] at hliteral

/-- Digits do not begin with a minus sign. -/
theorem Digits.ne_minus {ds : Octets} (h : Digits ds) (rest : Octets) : ds ≠ 0x2d :: rest := by
  rintro rfl
  exact absurd (h.2 0x2d (by simp)) (by decide)

theorem integer?_minus {ds : Octets} (h : Digits ds) :
    integer? (0x2d :: ds) = some (-(Json.digitsValue ds : Int)) := by
  have hds : (!ds.isEmpty && ds.all isDigit) = true := by simpa [h.1] using h.2
  simp only [integer?, if_pos hds]

theorem integer?_digits {ds : Octets} (h : Digits ds) :
    integer? ds = some (Json.digitsValue ds : Int) := by
  have hds : (!ds.isEmpty && ds.all isDigit) = true := by simpa [h.1] using h.2
  unfold integer?
  split
  · exact absurd rfl (h.ne_minus _)
  · rw [if_pos hds]

/-- The literal of an integer denotes it. -/
theorem integer?_intChars (n : Int) : integer? (Octets.ofChars (Json.intChars n)) = some n := by
  rw [ofChars_intChars]
  by_cases hn : n < 0
  · rw [if_pos hn, List.singleton_append, integer?_minus (digits_digits _),
      Decimal.digitsValue_digits]
    congr 1
    omega
  · rw [if_neg hn, List.nil_append, integer?_digits (digits_digits _), Decimal.digitsValue_digits]
    congr 1
    omega

end Doc

/-! ## Integers as the reader takes them -/

namespace Literal

theorem le_foldl_digits (ds : Octets) (n : Nat) :
    n ≤ ds.foldl (fun n d => 10 * n + (d.toNat - 0x30)) n := by
  induction ds generalizing n with
  | nil => exact Nat.le_refl n
  | cons d ds ih =>
    have hstep : n ≤ 10 * n + (d.toNat - 0x30) := by omega
    exact Nat.le_trans hstep (ih _)

/-- A word takes all the digits of a number that it holds. -/
theorem takeWord_eq {ds : Octets} {n : Nat}
    (h : ds.foldl (fun n d => 10 * n + (d.toNat - 0x30)) n < 0x10000000000000000) :
    takeWord n ds = (ds.foldl (fun n d => 10 * n + (d.toNat - 0x30)) n, []) := by
  -- What has been taken never decreases, so no step goes beyond the bound.
  induction ds generalizing n with
  | nil => rfl
  | cons d ds ih =>
    have hstep : 10 * n + (d.toNat - 0x30) < 0x10000000000000000 :=
      Nat.lt_of_le_of_lt (le_foldl_digits ds _) h
    rw [takeWord, digitValue]
    simp only [hstep, if_true]
    exact ih h

theorem scanSign_digits {ds : Octets} (h : Doc.Digits ds) : Doc.scanSign ds = ([], ds) := by
  unfold Doc.scanSign
  split
  · exact absurd rfl (h.ne_minus _)
  · rfl

/-- A literal of a sign and digits alone has no other parts. -/
theorem parts_digits {ds : Octets} (h : Doc.Digits ds) :
    parts ds = ⟨false, ds, none, none⟩ ∧ parts (0x2d :: ds) = ⟨true, ds, none, none⟩ := by
  have hspan := Doc.span_digits h.2 (Doc.avoids_nil _)
  rw [List.append_nil] at hspan
  constructor
  · simp [parts, scanSign_digits h, hspan]
  · simp [parts, Doc.scanSign, hspan]

/-- An integer that a word holds is read as that integer. -/
theorem number_intChars {n : Int} (h : FitsWord n) :
    number (Octets.ofChars (Json.intChars n)) = .int n := by
  obtain ⟨hlow, hhigh⟩ := h
  have htake : takeWord 0 (Octets.ofChars (Decimal.digits n.natAbs)) = (n.natAbs, []) := by
    have hvalue := Decimal.digitsValue_digits n.natAbs
    rw [Json.digitsValue] at hvalue
    rw [takeWord_eq (by rw [hvalue]; omega), hvalue]
  rw [Doc.ofChars_intChars]
  -- Behind a sign the magnitude may be 2⁶³ at most, and it is not zero.
  by_cases hn : n < 0
  · have hparts := (parts_digits (Doc.digits_digits n.natAbs)).2
    have hrange : ¬ (n.natAbs = 0 ∨ 0x8000000000000000 < n.natAbs) := by omega
    simp only [if_pos hn, List.singleton_append, number, hparts, htake, Bool.not_true,
      Bool.false_eq_true, if_false, if_neg hrange]
    congr 1
    omega
  · have hparts := (parts_digits (Doc.digits_digits n.natAbs)).1
    simp only [if_neg hn, List.nil_append, number, hparts, htake, Bool.not_false, if_true]
    congr 1
    omega

end Literal

/-! ## Amounts in texts -/

namespace Decimal

theorem value_eq (ds : List Char) : value ds = Nat.ofDigitChars 10 ds 0 := by
  rw [Nat.ofDigitChars_eq_foldl]
  rfl

theorem isDigit_of_mem_digits {n : Nat} {c : Char} (h : c ∈ digits n) :
    isDigit c = true ∧ Text.isBlank c = false := by
  have hdigit : c.isDigit = true := Nat.isDigit_of_mem_toDigits (by decide) (by decide) h
  simp only [Char.isDigit, Bool.and_eq_true, decide_eq_true_eq, ge_iff_le, UInt32.le_iff_toNat_le]
    at hdigit
  obtain ⟨hlow, hhigh⟩ := hdigit
  have hlow : 48 ≤ c.toNat := hlow
  have hhigh : c.toNat ≤ 57 := hhigh
  -- The bounds decide both: no blank lies between them.
  refine ⟨?_, ?_⟩
  · simp only [isDigit, Bool.and_eq_true, decide_eq_true_eq]
    exact ⟨hlow, hhigh⟩
  · simp only [Text.isBlank, Text.blankRanges, List.any_cons, List.any_nil, Bool.or_false,
      Bool.or_eq_false_iff, Bool.and_eq_false_iff, decide_eq_false_iff_not]
    omega

/-- A number is shown by its digits. -/
theorem toList_toString (n : Nat) : (toString n).toList = digits n := String.toList_ofList

/-- The digits of a number denote it. -/
theorem value_digits (n : Nat) : value (digits n) = n := by
  rw [value_eq]
  exact Nat.ofDigitChars_ten_toDigits

/-- Digits are the magnitude that they denote. -/
theorem readMagnitude_digits (n : Nat) : readMagnitude (digits n) = .ok n := by
  have hdigits : ∀ c ∈ digits n, isDigit c = true := fun c h => (isDigit_of_mem_digits h).1
  have hfilter : (digits n).filter isDigit = digits n := List.filter_eq_self.2 hdigits
  -- Without separators all the characters count.
  have hall : ((digits n).all fun c => isDigit c || c == '_') = true :=
    List.all_eq_true.2 fun c h => by rw [hdigits c h]; rfl
  unfold readMagnitude
  split
  · next h => exact absurd h Nat.toDigits_ne_nil
  -- A separator in front would be a digit.
  · next rest h =>
    have hunderscore := hdigits '_' (by rw [h]; exact List.mem_cons_self)
    exact absurd hunderscore (by decide)
  · rw [if_pos hall, hfilter, value_digits]

theorem trim_of_all {cs : List Char} (h : ∀ c ∈ cs, Text.isBlank c = false) :
    Text.trim cs = cs := by
  have hkeep : ∀ ds : List Char, (∀ c ∈ ds, Text.isBlank c = false) →
      ds.dropWhile Text.isBlank = ds := by
    intro ds hds
    cases ds with
    | nil => rfl
    | cons d ds => simp [hds d (by simp)]
  rw [Text.trim, hkeep cs h, hkeep cs.reverse fun c hc => h c (List.mem_reverse.1 hc),
    List.reverse_reverse]

/-- The text of an integer is read as the integer. -/
theorem readInt_intChars (n : Int) : readInt (Json.intChars n) = .ok n := by
  have hdigits := fun c => @isDigit_of_mem_digits n.natAbs c
  -- The first digit is neither of the two signs.
  have hminus : ∀ rest, digits n.natAbs ≠ '-' :: rest := fun rest h =>
    absurd (hdigits '-' (by rw [h]; exact List.mem_cons_self)).1 (by decide)
  have hplus : ∀ rest, digits n.natAbs ≠ '+' :: rest := fun rest h =>
    absurd (hdigits '+' (by rw [h]; exact List.mem_cons_self)).1 (by decide)
  unfold readInt Json.intChars
  by_cases hn : n < 0
  · have htrim : Text.trim ('-' :: digits n.natAbs) = '-' :: digits n.natAbs :=
      trim_of_all (List.forall_mem_cons.2 ⟨by decide, fun c hc => (hdigits c hc).2⟩)
    rw [if_pos hn, htrim]
    split
    · next rest h => exact absurd (List.cons.inj h).2 (hplus rest)
    · next rest _ h =>
      rw [← (List.cons.inj h).2, readMagnitude_digits]
      show Except.ok (-(n.natAbs : Int)) = _
      congr 1
      omega
    · next _ h => exact absurd rfl (h (digits n.natAbs))
  · have htrim : Text.trim (digits n.natAbs) = digits n.natAbs :=
      trim_of_all fun c hc => (hdigits c hc).2
    rw [if_neg hn, htrim]
    split
    · next rest h => exact absurd h (hminus _)
    · next rest _ h => exact absurd h (hminus _)
    · have hdrop : dropPlus (digits n.natAbs) = digits n.natAbs := by
        unfold dropPlus
        split
        · next h => exact absurd h (hplus _)
        · next h => exact absurd h (hplus _)
        · rfl
      rw [hdrop, readMagnitude_digits]
      show Except.ok (n.natAbs : Int) = _
      congr 1
      omega

/-! ## Words in texts -/

theorem le_value_from (ds : List Char) (n : Nat) :
    n ≤ ds.foldl (fun n c => 10 * n + digitValue c) n := by
  induction ds generalizing n with
  | nil => exact Nat.le_refl n
  | cons d ds ih =>
    have hstep : n ≤ 10 * n + digitValue d := by omega
    exact Nat.le_trans hstep (ih _)

/-- All digits of a number below the bound are taken. -/
theorem readDigits_eq {bound : Nat} {ds : List Char} {n : Nat} (hall : ∀ c ∈ ds, isDigit c = true)
    (h : ds.foldl (fun n c => 10 * n + digitValue c) n < bound) :
    readDigits bound n ds = .ok (ds.foldl (fun n c => 10 * n + digitValue c) n) := by
  -- What has been read never decreases, so no step goes beyond the bound.
  induction ds generalizing n with
  | nil => rfl
  | cons d ds ih =>
    obtain ⟨hd, hds⟩ := List.forall_mem_cons.1 hall
    have hstep : 10 * n + digitValue d < bound := Nat.lt_of_le_of_lt (le_value_from ds _) h
    rw [readDigits, if_pos hd, if_pos hstep, ih hds h]
    rfl

/-- The digits of a number below the bound are read as the number. -/
theorem readWord_digits {bound n : Nat} (h : n < bound) : readWord bound (digits n) = .ok n := by
  have hall : ∀ c ∈ digits n, isDigit c = true := fun c hc => (isDigit_of_mem_digits hc).1
  -- Digits begin with no sign.
  have hplus : ∀ rest, digits n ≠ '+' :: rest := by
    intro rest heq
    have hsign := hall '+' (by simp [heq])
    exact absurd hsign (by decide)
  have hvalue : value (digits n) < bound := by
    rw [value_digits]
    exact h
  have hread : readDigits bound 0 (digits n) = .ok (value (digits n)) := readDigits_eq hall hvalue
  unfold readWord
  split
  · next heq => exact absurd heq Nat.toDigits_ne_nil
  · next heq => exact absurd heq (hplus _)
  · next heq => exact absurd heq (hplus _)
  · rw [hread, value_digits]

end Decimal

end ChainFollower
