import ChainFollower.Proofs.Number.Shortest

/-!
# Printed documents

The text on one line of a document value is spelled as the grammar has it: escapes are escapes of
the grammar, and numbers are its literals.

Main statements: `Doc.text?_escaped` and `Doc.spells_octets`.
-/

namespace ChainFollower

/-! ## Texts -/

namespace Doc

/-- The bytes of a text between its quotes. -/
def escaped (s : String) : Octets := .ofChars (s.toList.flatMap Json.escapeChar)

/-- The bytes of one character between quotes, and what is read off them again. -/
def EscapesTo (c : Char) (bytes : Octets) : Prop :=
  ∀ raw, (TextBody raw → TextBody (bytes ++ raw)) ∧
    Literal.unescape (bytes ++ raw) = (Literal.unescape raw).map (String.utf8EncodeChar c ++ ·)

theorem unescape_plain {b : UInt8} (hb : b ≠ 0x5c) (raw : Octets) :
    Literal.unescape (b :: raw) = (Literal.unescape raw).map (b :: ·) := by
  rw [Literal.unescape]
  · rintro _ _ _ _ _ h _
    exact hb h
  · rintro _ _ h _
    exact hb h

theorem unescape_escape {e : UInt8} (he : e ≠ 0x75) (raw : Octets) :
    Literal.unescape (0x5c :: e :: raw) =
      (Literal.unescape raw).map (Literal.plainEscape e :: ·) := by
  rw [Literal.unescape]
  rintro _ _ _ _ _ h _
  exact he h

/-- Bytes that need no escape stand for themselves. -/
theorem escapesTo_plain {c : Char}
    (h : ∀ b ∈ String.utf8EncodeChar c, ¬ b < 0x20 ∧ b ≠ 0x22 ∧ b ≠ 0x5c) :
    EscapesTo c (String.utf8EncodeChar c) := by
  intro raw
  suffices ∀ bs : Octets, (∀ b ∈ bs, ¬ b < 0x20 ∧ b ≠ 0x22 ∧ b ≠ 0x5c) →
      (TextBody raw → TextBody (bs ++ raw)) ∧
        Literal.unescape (bs ++ raw) = (Literal.unescape raw).map (bs ++ ·) from this _ h
  intro bs hbs
  -- Along the bytes of the character: each of them passes as it stands.
  induction bs with
  | nil => exact ⟨id, (Option.map_id' (x := Literal.unescape raw)).symm⟩
  | cons b bs ih =>
    obtain ⟨hcontrol, hquote, hescape⟩ := hbs b (by simp)
    obtain ⟨hbody, htext⟩ := ih fun b hb => hbs b (List.mem_cons_of_mem _ hb)
    refine ⟨fun hraw => .plain hcontrol hquote hescape (hbody hraw), ?_⟩
    rw [List.cons_append, unescape_plain hescape, htext, Option.map_map]
    rfl

/-- One letter after a backslash. -/
theorem escapesTo_letter {c : Char} {e : UInt8} (he : isPlainEscape e = true)
    (hc : String.utf8EncodeChar c = [Literal.plainEscape e]) : EscapesTo c [0x5c, e] := by
  intro raw
  have hletter : e ≠ 0x75 := by
    rintro rfl
    exact absurd he (by decide)
  refine ⟨.escape he, ?_⟩
  rw [List.cons_append, List.singleton_append, unescape_escape hletter, hc]
  rfl

/-- Four hexadecimal digits after a backslash, for a character that is no surrogate. -/
theorem escapesTo_codePoint {c : Char} {w x y z : UInt8}
    (hw : isHexDigit w = true) (hx : isHexDigit x = true) (hy : isHexDigit y = true)
    (hz : isHexDigit z = true) (hc : Literal.hexNumber w x y z = c.toNat)
    (hlow : c.toNat < 0xd800) : EscapesTo c [0x5c, 0x75, w, x, y, z] := by
  intro raw
  refine ⟨.codePoint hw hx hy hz, ?_⟩
  have hpoint : Literal.codePoint (Literal.hexNumber w x y z) = String.utf8EncodeChar c := by
    rw [Literal.codePoint, hc, Char.ofNat_toNat]
  simp only [List.cons_append, List.nil_append]
  rw [Literal.unescape.eq_def]
  simp only [hc, if_pos (Or.inl hlow), ← hpoint]

/-- The lower-case digit of a number below sixteen. -/
theorem hexDigit_digit {n : Nat} (h : n < 16) :
    ∃ b, String.utf8EncodeChar (Hex.digit n) = [b] ∧ isHexDigit b = true ∧
      Literal.hexValue b = n := by
  match n with
  | 0 | 1 | 2 | 3 | 4 | 5 | 6 | 7 | 8 | 9 | 10 | 11 | 12 | 13 | 14 | 15 =>
    exact ⟨_, rfl, by decide, by decide⟩
  | n + 16 => omega

/-- Every character between quotes is read back. -/
theorem escapesTo_escapeChar (c : Char) : EscapesTo c (Octets.ofChars (Json.escapeChar c)) := by
  have hchar : ∀ n, c.toNat = n → c = Char.ofNat n := fun n hn => by rw [← hn, Char.ofNat_toNat]
  unfold Json.escapeChar
  by_cases hquote : c = '"'
  · rw [if_pos hquote, hquote]
    exact escapesTo_letter (by decide) (by decide)
  rw [if_neg hquote]
  by_cases hescape : c = '\\'
  · rw [if_pos hescape, hescape]
    exact escapesTo_letter (by decide) (by decide)
  rw [if_neg hescape]
  by_cases hplain : 0x20 ≤ c.toNat
  · rw [if_pos hplain, Octets.ofChars_cons, Octets.ofChars_nil, List.append_nil]
    apply escapesTo_plain
    intro b hb
    -- A character below 0x80 is its own byte; the bytes of all others are 0x80 at least.
    rcases Nat.lt_or_ge c.toNat 0x80 with hlow | hhigh
    · rw [Octets.utf8EncodeChar_ascii hlow, List.mem_singleton] at hb
      have hb : b.toNat = c.toNat := by
        rw [hb, UInt8.toNat_ofNat']
        omega
      refine ⟨fun hlt => ?_, ?_, ?_⟩
      · have hlt := UInt8.lt_iff_toNat_lt.1 hlt
        exact absurd (hb ▸ hlt) (Nat.not_lt.2 hplain)
      · rintro rfl
        exact hquote (hchar 0x22 hb.symm)
      · rintro rfl
        exact hescape (hchar 0x5c hb.symm)
    · have hb := UInt8.le_iff_toNat_le.1 (Octets.le_of_mem_utf8EncodeChar hhigh hb)
      refine ⟨fun hlt => ?_, ?_, ?_⟩
      · have hlt := UInt8.lt_iff_toNat_lt.1 hlt
        exact absurd (Nat.lt_of_le_of_lt hb hlt) (by decide)
      · rintro rfl
        exact absurd hb (by decide)
      · rintro rfl
        exact absurd hb (by decide)
  rw [if_neg hplain]
  -- Five of the control characters have a letter of their own.
  by_cases hb : c.toNat = 0x08
  · rw [if_pos hb, hchar _ hb]
    exact escapesTo_letter (by decide) (by decide)
  rw [if_neg hb]
  by_cases ht : c.toNat = 0x09
  · rw [if_pos ht, hchar _ ht]
    exact escapesTo_letter (by decide) (by decide)
  rw [if_neg ht]
  by_cases hn : c.toNat = 0x0a
  · rw [if_pos hn, hchar _ hn]
    exact escapesTo_letter (by decide) (by decide)
  rw [if_neg hn]
  by_cases hf : c.toNat = 0x0c
  · rw [if_pos hf, hchar _ hf]
    exact escapesTo_letter (by decide) (by decide)
  rw [if_neg hf]
  by_cases hr : c.toNat = 0x0d
  · rw [if_pos hr, hchar _ hr]
    exact escapesTo_letter (by decide) (by decide)
  rw [if_neg hr]
  -- The others are below 0x20, so two zeros stand before their two digits.
  obtain ⟨y, hy, hydigit, hyvalue⟩ := hexDigit_digit (n := c.toNat / 16) (by omega)
  obtain ⟨z, hz, hzdigit, hzvalue⟩ := hexDigit_digit (n := c.toNat % 16) (by omega)
  have hbytes : Octets.ofChars
      ['\\', 'u', '0', '0', Hex.digit (c.toNat / 16), Hex.digit (c.toNat % 16)] =
        [0x5c, 0x75, 0x30, 0x30, y, z] := by
    simp only [Octets.ofChars_cons, Octets.ofChars_nil, hy, hz]
    rfl
  have hvalue : Literal.hexNumber 0x30 0x30 y z = c.toNat := by
    have hzero : Literal.hexValue 0x30 = 0 := by decide
    rw [Literal.hexNumber, hyvalue, hzvalue, hzero]
    omega
  rw [hbytes]
  exact escapesTo_codePoint (by decide) (by decide) hydigit hzdigit hvalue (by omega)

/-- The inside of a printed text's quotes. -/
theorem textBody_escaped (s : String) : TextBody (escaped s) := by
  unfold escaped
  induction s.toList with
  | nil => exact .nil
  | cons c cs ih =>
    rw [List.flatMap_cons, Octets.ofChars_append]
    exact (escapesTo_escapeChar c _).1 ih

theorem unescape_ofChars (cs : List Char) :
    Literal.unescape (Octets.ofChars (cs.flatMap Json.escapeChar)) = some (Octets.ofChars cs) := by
  induction cs with
  | nil => rfl
  | cons c cs ih =>
    rw [List.flatMap_cons, Octets.ofChars_append, (escapesTo_escapeChar c _).2, ih]
    rfl

/-- A printed text is read back. -/
theorem text?_escaped (s : String) : Literal.text? (escaped s) = some s := by
  rw [Literal.text?, escaped, unescape_ofChars]
  exact Octets.text?_ofText s

end Doc

/-! ## Values and their trees -/

namespace Json

mutual

/-- The tree of a value's text. -/
def doc : Json → Doc
  | .null => .null
  | .bool b => .bool b
  | .int n => .number (.ofChars (intChars n))
  | .float x => .number (.ofChars (Shortest.text .document x))
  | .text s => .text (Doc.escaped s)
  | .array items => .array (itemDocs items)
  | .object members => .object (memberDocs members)

/-- `doc` of each item. -/
def itemDocs : List Json → List Doc
  | [] => []
  | j :: rest => j.doc :: itemDocs rest

/-- `doc` of each value with its name. -/
def memberDocs : List (String × Json) → List (Octets × Doc)
  | [] => []
  | (k, j) :: rest => (Doc.escaped k, j.doc) :: memberDocs rest

end

mutual

/-- Whether the text of a value keeps it: no floating-point number is in it, a word holds each of
its integers, and arrays and objects lie at most `levels` deep in one another. -/
def Kept (levels : Nat) : Json → Prop
  | .int n => FitsWord n
  | .float _ => False
  | .array items =>
    match levels with
    | 0 => False
    | levels + 1 => KeptItems levels items
  | .object members =>
    match levels with
    | 0 => False
    | levels + 1 => KeptMembers levels members
  | _ => True

/-- `Kept` of each item. -/
def KeptItems (levels : Nat) : List Json → Prop
  | [] => True
  | j :: rest => j.Kept levels ∧ KeptItems levels rest

/-- `Kept` of each value. -/
def KeptMembers (levels : Nat) : List (String × Json) → Prop
  | [] => True
  | (_, j) :: rest => j.Kept levels ∧ KeptMembers levels rest

end

end Json

namespace Doc

open Json (doc itemDocs memberDocs Kept KeptItems KeptMembers)

/-- A text without blanks around it. -/
theorem SpellsBare.spells {d : Doc} {s : Octets} (h : SpellsBare d s) : Spells d s := by
  have hblanks : Blanks [] := fun _ hb => by cases hb
  have hspells := Spells.padded hblanks h hblanks
  rwa [List.append_nil, List.nil_append] at hspells

theorem ofChars_textChars (s : String) :
    Octets.ofChars (Json.textChars s) = 0x22 :: (escaped s ++ [0x22]) := by
  simp only [Json.textChars, Octets.ofChars_append, List.append_assoc]
  rfl

mutual

/-- The text of a value spells its tree. -/
theorem spells_chars : ∀ j : Json, SpellsBare j.doc (Octets.ofChars j.chars)
  | .null => .null
  | .bool true => .isTrue
  | .bool false => .isFalse
  | .int n => .number (numberLiteral_intChars n)
  | .float x => .number (Shortest.numberLiteral_text x)
  | .text s => by
    show SpellsBare (.text (escaped s)) (Octets.ofChars (Json.textChars s))
    rw [ofChars_textChars]
    exact .text (textBody_escaped s)
  | .array [] => .emptyArray fun _ hb => by cases hb
  -- What stands between brackets is printed without blanks.
  | .array (j :: rest) => by
    have hbytes : Octets.ofChars (Json.array (j :: rest)).chars =
        0x5b :: (Octets.ofChars (Json.itemChars (j :: rest)) ++ [0x5d]) := by
      simp only [Json.chars, Octets.ofChars_append, List.append_assoc]
      rfl
    rw [hbytes]
    exact .array (spells_itemChars (j :: rest) (List.cons_ne_nil _ _))
  | .object [] => .emptyObject fun _ hb => by cases hb
  | .object ((k, j) :: rest) => by
    have hbytes : Octets.ofChars (Json.object ((k, j) :: rest)).chars =
        0x7b :: (Octets.ofChars (Json.memberChars ((k, j) :: rest)) ++ [0x7d]) := by
      simp only [Json.chars, Octets.ofChars_append, List.append_assoc]
      rfl
    rw [hbytes]
    exact .object (spells_memberChars ((k, j) :: rest) (List.cons_ne_nil _ _))

theorem spells_itemChars : ∀ items : List Json, items ≠ [] →
    SpellsItems (itemDocs items) (Octets.ofChars (Json.itemChars items))
  | [], h => absurd rfl h
  | [j], _ => .one (spells_chars j).spells
  | j :: k :: rest, _ => by
    have hbytes : Octets.ofChars (Json.itemChars (j :: k :: rest)) =
        Octets.ofChars j.chars ++ 0x2c :: Octets.ofChars (Json.itemChars (k :: rest)) := by
      simp only [Json.itemChars, Octets.ofChars_append, List.append_assoc]
      rfl
    rw [hbytes]
    exact .more (spells_chars j).spells (spells_itemChars (k :: rest) (List.cons_ne_nil _ _))

theorem spells_memberChars : ∀ members : List (String × Json), members ≠ [] →
    SpellsMembers (memberDocs members) (Octets.ofChars (Json.memberChars members))
  | [], h => absurd rfl h
  | [(k, j)], _ => by
    -- The two empty texts are the blanks that the grammar allows around a name.
    have hbytes : Octets.ofChars (Json.memberChars [(k, j)]) =
        [] ++ 0x22 :: (escaped k ++ 0x22 :: ([] ++ 0x3a :: Octets.ofChars j.chars)) := by
      simp only [Json.memberChars, Octets.ofChars_append, ofChars_textChars, List.append_assoc]
      rw [List.cons_append, List.append_assoc]
      rfl
    rw [hbytes]
    exact .one (fun _ hb => by cases hb) (textBody_escaped k) (fun _ hb => by cases hb)
      (spells_chars j).spells
  | (k, j) :: (l, i) :: rest, _ => by
    have hbytes : Octets.ofChars (Json.memberChars ((k, j) :: (l, i) :: rest)) =
        [] ++ 0x22 :: (escaped k ++ 0x22 :: ([] ++ 0x3a :: (Octets.ofChars j.chars ++
          0x2c :: Octets.ofChars (Json.memberChars ((l, i) :: rest))))) := by
      simp only [Json.memberChars, Octets.ofChars_append, ofChars_textChars, List.append_assoc]
      rw [List.cons_append, List.append_assoc]
      rfl
    rw [hbytes]
    exact .more (fun _ hb => by cases hb) (textBody_escaped k) (fun _ hb => by cases hb)
      (spells_chars j).spells (spells_memberChars ((l, i) :: rest) (List.cons_ne_nil _ _))

end

theorem spells_octets (j : Json) : Spells j.doc j.octets := (spells_chars j).spells

end Doc

end ChainFollower
