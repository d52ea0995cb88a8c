import ChainFollower.Text.Octets

/-!
# Texts and their bytes

A text and its UTF-8 bytes determine each other.  Characters below U+0080 are one byte, and all
other bytes are 0x80 or more, so that the bytes of the grammar's own characters occur nowhere else.
Texts are in the order of their bytes.

Main statements: `Octets.text?_eq_some_iff` and `Octets.ofText_lt_ofText`.
-/

namespace ChainFollower.Octets

/-! ## Reading back -/

theorem text?_ofChars (cs : List Char) : text? (ofChars cs) = some (String.ofList cs) := by
  have hvalid : (ofChars cs).toByteArray.IsValidUTF8 := ⟨cs, rfl⟩
  have htext : String.fromUTF8 (ofChars cs).toByteArray hvalid = String.ofList cs := by
    rw [← String.toByteArray_inj, String.toByteArray_ofList]
    rfl
  rw [text?, String.fromUTF8?, dif_pos hvalid, htext]

theorem text?_ofText (s : String) : text? (ofText s) = some s := by
  rw [ofText, text?_ofChars, String.ofList_toList]

/-- Only the bytes of a text read as that text. -/
theorem text?_eq_some_iff {bs : Octets} {s : String} : text? bs = some s ↔ bs = ofText s := by
  constructor
  · intro h
    unfold text? String.fromUTF8? at h
    split at h
    · next hvalid =>
      -- The bytes of a valid text are the encoding of its characters.
      have hbytes : bs.toByteArray = (ofText s).toByteArray := by
        obtain rfl := Option.some.inj h
        show bs.toByteArray = (String.fromUTF8 bs.toByteArray hvalid).toList.utf8Encode
        rw [String.utf8Encode_toList]
        rfl
      have hdata := congrArg (fun b : ByteArray => b.data.toList) hbytes
      simpa using hdata
    · cases h
  · rintro rfl
    exact text?_ofText s

theorem length_ofText (s : String) : (ofText s).length = s.utf8ByteSize := by
  have hbytes : s.toByteArray = (ofText s).toByteArray := by
    show _ = s.toList.utf8Encode
    rw [String.utf8Encode_toList]
  rw [String.utf8ByteSize, hbytes]
  simp

/-! ## Characters -/

/-- The bytes of a character below U+0080. -/
theorem utf8EncodeChar_ascii {c : Char} (h : c.toNat < 0x80) :
    String.utf8EncodeChar c = [UInt8.ofNat c.toNat] := by
  have hle : c.val.toNat ≤ 0x7f := Nat.le_of_lt_succ h
  simp only [String.utf8EncodeChar, if_pos hle, Char.toNat]

/-- Characters below U+0080 take as many bytes as they are. -/
theorem length_ofChars_ascii {cs : List Char} (h : ∀ c ∈ cs, c.toNat < 0x80) :
    (ofChars cs).length = cs.length := by
  induction cs with
  | nil => rfl
  | cons c cs ih =>
    obtain ⟨hc, hcs⟩ := List.forall_mem_cons.1 h
    rw [ofChars_cons, List.length_append, utf8EncodeChar_ascii hc, ih hcs, Nat.add_comm]
    rfl

/-- How many bytes the same letter takes several times. -/
theorem length_ofText_replicate (n : Nat) :
    (ofText (String.ofList (List.replicate n 'a'))).length = n := by
  have hascii : ∀ c ∈ List.replicate n 'a', c.toNat < 0x80 := by
    intro c hc
    rw [List.eq_of_mem_replicate hc]
    decide
  rw [ofText, String.toList_ofList, length_ofChars_ascii hascii, List.length_replicate]

/-- The bytes of the other characters. -/
theorem le_of_mem_utf8EncodeChar {c : Char} (h : 0x80 ≤ c.toNat) {b : UInt8}
    (hb : b ∈ String.utf8EncodeChar c) : 0x80 ≤ b := by
  have hgt : ¬ c.val.toNat ≤ 0x7f := Nat.not_le.2 h
  have hbyte : ∀ n, 0x80 ≤ n % 256 → 0x80 ≤ UInt8.ofNat n := fun n hn => by
    rw [UInt8.le_iff_toNat_le, UInt8.toNat_ofNat']
    exact hn
  simp only [String.utf8EncodeChar, if_neg hgt] at hb
  -- Two, three or four bytes, each with its highest bit set.
  split at hb
  · simp only [List.mem_cons, List.not_mem_nil, or_false] at hb
    rcases hb with rfl | rfl <;> exact hbyte _ (by omega)
  · split at hb
    · simp only [List.mem_cons, List.not_mem_nil, or_false] at hb
      rcases hb with rfl | rfl | rfl <;> exact hbyte _ (by omega)
    · simp only [List.mem_cons, List.not_mem_nil, or_false] at hb
      rcases hb with rfl | rfl | rfl | rfl <;> exact hbyte _ (by omega)

/-! ## Order -/

/-- Of two numbers the lesser one has the lesser digit in base 64 where they first differ. -/
theorem digits_of_lt {m n : Nat} (h : m < n) :
    m / 262144 < n / 262144 ∨ m / 262144 = n / 262144 ∧
      (m / 4096 % 64 < n / 4096 % 64 ∨ m / 4096 % 64 = n / 4096 % 64 ∧
        (m / 64 % 64 < n / 64 % 64 ∨ m / 64 % 64 = n / 64 % 64 ∧ m % 64 < n % 64)) := by
  omega

/-- The bytes of characters are in the order of the characters, whatever follows either of them. -/
theorem utf8EncodeChar_append_lt {c d : Char} (h : c < d) (s t : Octets) :
    String.utf8EncodeChar c ++ s < String.utf8EncodeChar d ++ t := by
  have hlt : c.val.toNat < d.val.toNat := h
  have hbound : d.val.toNat < 0x110000 := by
    have hvalid : d.val.toNat < 0xd800 ∨ _ := d.valid
    omega
  simp only [String.utf8EncodeChar]
  generalize c.val.toNat = m at hlt
  generalize d.val.toNat = n at hlt hbound
  have hdigits := digits_of_lt hlt
  have hm : m / 262144 % 8 = m / 262144 := by omega
  have hn : n / 262144 % 8 = n / 262144 := by omega
  have hbyte : ∀ {k l : Nat}, k < 256 → l < 256 → (UInt8.ofNat k < UInt8.ofNat l ↔ k < l) ∧
      (UInt8.ofNat k = UInt8.ofNat l ↔ k = l) := fun hk hl => by
    rw [UInt8.lt_iff_toNat_lt, ← UInt8.toNat_inj, UInt8.toNat_ofNat_of_lt' hk,
      UInt8.toNat_ofNat_of_lt' hl]
    exact ⟨Iff.rfl, Iff.rfl⟩
  -- Either character takes one byte to four, and more bytes begin with a greater one.
  repeat' split
  all_goals
    simp (disch := omega) only [List.cons_append, List.nil_append, List.cons_lt_cons_iff, hbyte, hm,
      hn]
    omega

theorem ofChars_lt_ofChars {cs ds : List Char} (h : cs < ds) : ofChars cs < ofChars ds := by
  induction h with
  | @nil d ds =>
    obtain ⟨b, bs, hbytes⟩ := List.exists_cons_of_ne_nil (String.utf8EncodeChar_ne_nil (c := d))
    rw [ofChars_nil, ofChars_cons, hbytes]
    exact List.nil_lt_cons _ _
  | rel h => exact utf8EncodeChar_append_lt h _ _
  | cons _ ih => exact List.append_left_lt ih

/-- Texts are in the order of their bytes. -/
theorem ofText_lt_ofText {s t : String} : ofText s < ofText t ↔ s < t := by
  constructor
  · intro h
    rcases Std.lt_trichotomy s t with hlt | rfl | hgt
    · exact hlt
    · exact absurd h (List.lt_irrefl _)
    · have hbytes := ofChars_lt_ofChars (String.lt_iff.1 hgt)
      exact absurd (List.lt_trans h hbytes) (List.lt_irrefl _)
  · exact fun h => ofChars_lt_ofChars (String.lt_iff.1 h)

end ChainFollower.Octets
