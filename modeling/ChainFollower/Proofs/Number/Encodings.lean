import ChainFollower.Attribute.Storage
import ChainFollower.Proofs.Ledger.Values

/-!
# Integers in every encoding

An integer of any size is written as a number if a word holds it, and as the text of its decimal
digits otherwise.  Neither form loses a digit, so each encoding is read back as the integer.

Main statement: `Amount.exact_in_every_encoding`.
-/

namespace ChainFollower.Amount

variable {n : Int}

/-! ## The two forms -/

/-- What a word holds lies between the least signed and the greatest unsigned one. -/
theorem fitsWord_iff (n : Int) :
    FitsWord n ↔ -0x8000000000000000 ≤ n ∧ n ≤ 0xffffffffffffffff := by
  unfold FitsWord
  omega

theorem toJson_of_fits (h : FitsWord n) : toJson n = .int n := if_pos h

theorem toJson_of_not_fits (h : ¬ FitsWord n) : toJson n = .text (String.ofList (Json.intChars n)) :=
  if_neg h

/-- An integer is written in characters from the minus sign to the last digit. -/
theorem bounds_of_mem_intChars {c : Char} (h : c ∈ Json.intChars n) :
    0x2d ≤ c.toNat ∧ c.toNat ≤ 0x39 := by
  -- The bounds of digits are narrower; the sign lies just below them.
  have hdigit : ∀ c ∈ Decimal.digits n.natAbs, 0x2d ≤ c.toNat ∧ c.toNat ≤ 0x39 := by
    intro c hc
    have hbounds := (Decimal.isDigit_of_mem_digits hc).1
    simp only [Decimal.isDigit, Bool.and_eq_true, decide_eq_true_eq] at hbounds
    have hlow : 0x30 ≤ c.toNat := hbounds.1
    exact ⟨Nat.le_trans (by decide) hlow, hbounds.2⟩
  unfold Json.intChars at h
  split at h
  · rcases List.mem_cons.1 h with rfl | h
    · decide
    · exact hdigit c h
  · exact hdigit c h

/-- No character of an integer is escaped between quotes. -/
theorem escaped_intChars (n : Int) :
    Doc.escaped (String.ofList (Json.intChars n)) = .ofChars (Json.intChars n) := by
  -- Neither the quote nor the backslash lies within the bounds.
  have hplain : ∀ c ∈ Json.intChars n, Json.escapeChar c = [c] := by
    intro c hc
    obtain ⟨hlow, hhigh⟩ := bounds_of_mem_intChars hc
    have hquote : c ≠ '"' := by
      rintro rfl
      exact absurd hlow (by decide)
    have hescape : c ≠ '\\' := by
      rintro rfl
      exact absurd hhigh (by decide)
    rw [Json.escapeChar, if_neg hquote, if_neg hescape, if_pos (by omega)]
  rw [Doc.escaped, String.toList_ofList]
  congr 1
  generalize Json.intChars n = cs at hplain
  induction cs with
  | nil => rfl
  | cons c cs ih =>
    obtain ⟨hc, hcs⟩ := List.forall_mem_cons.1 hplain
    rw [List.flatMap_cons, hc, ih hcs]
    rfl

/-! ## Documents -/

/-- The tree of the text of an integer: its digits, as a number or between quotes. -/
theorem doc_toJson (n : Int) : (toJson n).doc =
    if FitsWord n then .number (.ofChars (Json.intChars n))
    else .text (.ofChars (Json.intChars n)) := by
  by_cases h : FitsWord n
  · rw [toJson_of_fits h, if_pos h]
    rfl
  · rw [toJson_of_not_fits h, if_neg h]
    exact congrArg Doc.text (escaped_intChars n)

theorem decode_encode (n : Int) : Json.decode (Json.encode n) = .ok n :=
  Json.decode_encode (Json.fits_ofInt _ n) (Json.floatFree_ofInt n).legible (Reader.amount_ofInt n)

/-! ## Binary documents -/

/-- The item of an integer: a number, or the text of its digits. -/
theorem item_toJson (n : Int) : (toJson n).item =
    if FitsWord n then .int n else .text (String.ofList (Json.intChars n)) := by
  by_cases h : FitsWord n
  · rw [toJson_of_fits h, if_pos h]
    rfl
  · rw [toJson_of_not_fits h, if_neg h]
    rfl

theorem readFirst_encodeValue (room : (Json.intChars n).length < 0x10000000000000000) :
    Cbor.readFirst (Cbor.encodeValue n) = ((toJson n).item, some []) := by
  have hspells : Cbor.Spells (toJson n).item (Cbor.encodeValue n) := by
    show Cbor.Spells _ (Cbor.encode (toJson n))
    by_cases h : FitsWord n
    · rw [toJson_of_fits h]
      exact Cbor.spells_int h
    · -- Each character is one byte, so that the head of the text holds its length.
      have hbytes : (Octets.ofText (String.ofList (Json.intChars n))).length =
          (Json.intChars n).length := by
        rw [Octets.ofText, String.toList_ofList]
        refine Octets.length_ofChars_ascii fun c hc => ?_
        have hhigh := (bounds_of_mem_intChars hc).2
        omega
      rw [toJson_of_not_fits h]
      exact Cbor.spells_text (hbytes ▸ room)
  have hpasses : Medium.passes (.binary Cbor.maxLevels) (toJson n).item = true := by
    rw [item_toJson]
    split <;> rfl
  have hfirst := hspells.readFirst hpasses []
  rwa [List.append_nil] at hfirst

theorem decode_encodeValue (room : (Json.intChars n).length < 0x10000000000000000) :
    Cbor.decode (Cbor.encodeValue n) = .ok n := by
  have hread : Cbor.read (Cbor.encodeValue n) = (toJson n).item := by
    rw [Cbor.read, readFirst_encodeValue room]
  -- To the reader of an amount a binary document differs only in tags, and there are none.
  have hamount : Reader.amount (.binary Cbor.maxLevels) (toJson n).item = .ok n := by
    have hdocument : Reader.amount .document (toJson n).item = .ok n := Reader.amount_ofInt n
    rw [item_toJson] at hdocument ⊢
    by_cases h : FitsWord n
    · rw [if_pos h]
      rfl
    · rw [if_neg h] at hdocument ⊢
      exact hdocument
  have hbinary : (Portable.ofBinary (Cbor.encodeValue n) : Reading Int) = .ok n := by
    show Reader.amount (.binary Cbor.maxLevels) (Cbor.read (Cbor.encodeValue n)) = .ok n
    rw [hread, hamount]
  rw [Cbor.decode, hbinary]

/-! ## Attributes -/

theorem ofAttribute_toAttribute (n : Int) : ofAttribute (toAttribute n) = .ok n := by
  have hread : Decimal.readInt (String.ofList (Json.intChars n)).toList = .ok n := by
    rw [String.toList_ofList, Decimal.readInt_intChars]
  simp only [toAttribute, ofAttribute, hread]

/-! ## All encodings -/

/-- An integer of any size is read back from its text, from its document, from its binary form and
from its attribute.  Its document is the number of its digits, and its binary form the number
itself, exactly if it lies between the least signed and the greatest unsigned word; otherwise either
is the text of the digits.  A binary text has a length below 2⁶⁴, which its head has to hold. -/
theorem exact_in_every_encoding (n : Int) :
    Decimal.readInt (Json.intChars n) = .ok n ∧
    (Json.decode (Json.encode n) = .ok n ∧
      Doc.Spells
        (if -0x8000000000000000 ≤ n ∧ n ≤ 0xffffffffffffffff then
          .number (.ofChars (Json.intChars n))
        else .text (.ofChars (Json.intChars n))) (Json.encode n)) ∧
    ((Json.intChars n).length < 0x10000000000000000 →
      Cbor.decode (Cbor.encodeValue n) = .ok n ∧
      Cbor.readFirst (Cbor.encodeValue n) =
        (if -0x8000000000000000 ≤ n ∧ n ≤ 0xffffffffffffffff then .int n
          else .text (String.ofList (Json.intChars n)), some [])) ∧
    ofAttribute (toAttribute n) = .ok n := by
  -- The range of the native form is that of words, signed and unsigned.
  simp only [← fitsWord_iff]
  refine ⟨Decimal.readInt_intChars n, ⟨decode_encode n, ?document⟩, fun room => ?binary,
    ofAttribute_toAttribute n⟩
  case document =>
    rw [← doc_toJson]
    exact Doc.spells_octets (toJson n)
  case binary =>
    rw [← item_toJson]
    exact ⟨decode_encodeValue room, readFirst_encodeValue room⟩

/-- The least integer beyond the unsigned words is written as a text everywhere. -/
theorem exact_in_every_encoding_wide :
    (Json.intChars 0x10000000000000000).length < 0x10000000000000000 ∧
    Doc.Spells (.text (.ofChars (Json.intChars 0x10000000000000000)))
      (Json.encode (0x10000000000000000 : Int)) ∧
    Cbor.decode (Cbor.encodeValue (0x10000000000000000 : Int)) =
      .ok (0x10000000000000000 : Int) := by
  have room : (Json.intChars 0x10000000000000000).length < 0x10000000000000000 := by decide +kernel
  obtain ⟨-, ⟨-, hdocument⟩, hbinary, -⟩ := exact_in_every_encoding 0x10000000000000000
  exact ⟨room, hdocument, (hbinary room).1⟩

end ChainFollower.Amount
