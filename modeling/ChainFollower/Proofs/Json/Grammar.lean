import ChainFollower.Json.Doc

/-!
# The grammar of documents

Which texts are documents, and of which trees, said without the reader: `Doc.Spells d s` holds if
the text `s` spells the tree `d`, with blanks between tokens as the grammar allows them.

Main statement: `Doc.read_eq_iff`, which says that the reader accepts exactly the spelled texts,
each as the tree that it spells.
-/

namespace ChainFollower.Doc

/-! ## Tokens -/

/-- Blanks only. -/
def Blanks (s : Octets) : Prop := ∀ b ∈ s, isBlank b = true

/-- Digits, at least one. -/
def Digits (s : Octets) : Prop := s ≠ [] ∧ ∀ d ∈ s, isDigit d = true

/-- The whole part of a number: zero, or digits of which the first is not zero. -/
inductive Whole : Octets → Prop
  | zero : Whole [0x30]
  | digits {d : UInt8} {ds : Octets} (hd : isDigit d = true) (hzero : d ≠ 0x30)
      (hds : ∀ c ∈ ds, isDigit c = true) : Whole (d :: ds)

/-- The fraction of a number, if it has one. -/
inductive Fraction : Octets → Prop
  | absent : Fraction []
  -- A point, and digits behind it.
  | digits {ds : Octets} (hds : Digits ds) : Fraction (0x2e :: ds)

/-- The exponent of a number, if it has one. -/
inductive Exponent : Octets → Prop
  | absent : Exponent []
  -- `e` or `E`, then a sign if there is one, then digits.
  | digits {e : UInt8} {sign ds : Octets} (he : e = 0x65 ∨ e = 0x45)
      (hsign : sign = [] ∨ sign = [0x2b] ∨ sign = [0x2d]) (hds : Digits ds) :
      Exponent (e :: (sign ++ ds))

/-- A number literal. -/
inductive NumberLiteral : Octets → Prop
  | parts {sign whole fraction exponent : Octets} (hsign : sign = [] ∨ sign = [0x2d])
      (hwhole : Whole whole) (hfraction : Fraction fraction) (hexponent : Exponent exponent) :
      NumberLiteral (sign ++ whole ++ fraction ++ exponent)

/-- What may stand between the quotes of a text. -/
inductive TextBody : Octets → Prop
  | nil : TextBody []
  -- Any byte but control characters, the quote and the backslash stands for itself.
  | plain {b : UInt8} {raw : Octets} (hcontrol : ¬ b < 0x20) (hquote : b ≠ 0x22)
      (hescape : b ≠ 0x5c) (hraw : TextBody raw) : TextBody (b :: raw)
  | escape {e : UInt8} {raw : Octets} (he : isPlainEscape e = true) (hraw : TextBody raw) :
      TextBody (0x5c :: e :: raw)
  -- `\u` and four hexadecimal digits.
  | codePoint {a b c d : UInt8} {raw : Octets} (ha : isHexDigit a = true)
      (hb : isHexDigit b = true) (hc : isHexDigit c = true) (hd : isHexDigit d = true)
      (hraw : TextBody raw) : TextBody (0x5c :: 0x75 :: a :: b :: c :: d :: raw)

/-! ## Trees -/

mutual

/-- The text spells the tree, without blanks around it. -/
inductive SpellsBare : Doc → Octets → Prop
  | null : SpellsBare .null [0x6e, 0x75, 0x6c, 0x6c]
  | isTrue : SpellsBare (.bool true) [0x74, 0x72, 0x75, 0x65]
  | isFalse : SpellsBare (.bool false) [0x66, 0x61, 0x6c, 0x73, 0x65]
  | number {literal : Octets} (h : NumberLiteral literal) : SpellsBare (.number literal) literal
  | text {raw : Octets} (h : TextBody raw) : SpellsBare (.text raw) (0x22 :: (raw ++ [0x22]))
  -- Brackets are 0x5b and 0x5d, braces 0x7b and 0x7d, and the quote is 0x22.
  | emptyArray {b : Octets} (h : Blanks b) : SpellsBare (.array []) (0x5b :: (b ++ [0x5d]))
  | array {items : List Doc} {s : Octets} (h : SpellsItems items s) :
      SpellsBare (.array items) (0x5b :: (s ++ [0x5d]))
  | emptyObject {b : Octets} (h : Blanks b) : SpellsBare (.object []) (0x7b :: (b ++ [0x7d]))
  | object {members : List (Octets × Doc)} {s : Octets} (h : SpellsMembers members s) :
      SpellsBare (.object members) (0x7b :: (s ++ [0x7d]))

/-- The text spells the tree. -/
inductive Spells : Doc → Octets → Prop
  | padded {d : Doc} {b s c : Octets} (hb : Blanks b) (h : SpellsBare d s)
      (hc : Blanks c) : Spells d (b ++ (s ++ c))

/-- The text spells items with commas between them. -/
inductive SpellsItems : List Doc → Octets → Prop
  | one {d : Doc} {s : Octets} (h : Spells d s) : SpellsItems [d] s
  -- The comma is 0x2c.
  | more {d : Doc} {items : List Doc} {s t : Octets} (h : Spells d s)
      (hrest : SpellsItems items t) : SpellsItems (d :: items) (s ++ 0x2c :: t)

/-- The text spells members with commas between them. -/
inductive SpellsMembers : List (Octets × Doc) → Octets → Prop
  -- The colon is 0x3a; blanks stand around the name as well as around the value.
  | one {name : Octets} {d : Doc} {b c s : Octets} (hb : Blanks b) (hname : TextBody name)
      (hc : Blanks c) (h : Spells d s) :
      SpellsMembers [(name, d)] (b ++ 0x22 :: (name ++ 0x22 :: (c ++ 0x3a :: s)))
  | more {name : Octets} {d : Doc} {members : List (Octets × Doc)} {b c s t : Octets}
      (hb : Blanks b) (hname : TextBody name) (hc : Blanks c) (h : Spells d s)
      (hrest : SpellsMembers members t) :
      SpellsMembers ((name, d) :: members)
        (b ++ 0x22 :: (name ++ 0x22 :: (c ++ 0x3a :: (s ++ 0x2c :: t))))

end

/-! ## Scanning tokens -/

/-- A byte that number literals are made of. -/
def InNumber (b : UInt8) : Prop :=
  isDigit b = true ∨ b = 0x2e ∨ b = 0x65 ∨ b = 0x45 ∨ b = 0x2b ∨ b = 0x2d

instance : DecidablePred InNumber := fun _ => inferInstanceAs (Decidable (_ ∨ _))

/-- A text that does not begin with such a byte. -/
def Avoids (p : UInt8 → Prop) (s : Octets) : Prop := ∀ b t, s = b :: t → ¬ p b

/-- A text before which a number literal ends. -/
abbrev Stops (s : Octets) : Prop := Avoids InNumber s

/-- The empty text begins with nothing, -/
theorem avoids_nil (p : UInt8 → Prop) : Avoids p [] := fun _ _ h => by cases h

/-- and any other with its first byte. -/
theorem avoids_cons {p : UInt8 → Prop} {b : UInt8} {s : Octets} (h : ¬ p b) :
    Avoids p (b :: s) := by
  intro c t hc
  cases hc
  exact h

/-- A text that avoids some bytes avoids any of them. -/
theorem Avoids.mono {p q : UInt8 → Prop} {s : Octets} (h : Avoids p s) (hq : ∀ b, q b → p b) :
    Avoids q s := fun b t hs hb => h b t hs (hq b hb)

/-- A blank is no byte of a number. -/
theorem not_inNumber_of_isBlank {b : UInt8} (h : isBlank b = true) : ¬ InNumber b := by
  simp only [isBlank, Bool.or_eq_true, beq_iff_eq] at h
  rcases h with ((rfl | rfl) | rfl) | rfl <;> simp [InNumber, isDigit]

/-- What a number may begin with is a byte of numbers. -/
theorem inNumber_of_first {b : UInt8} (h : (b == 0x2d || isDigit b) = true) : InNumber b := by
  rcases (by simpa using h : b = 0x2d ∨ isDigit b = true) with rfl | hd
  · decide
  · exact .inl hd

/-- A number ends before blanks. -/
theorem Stops.blanks {b s : Octets} (hb : Blanks b) (h : Stops s) : Stops (b ++ s) := by
  cases b with
  | nil => exact h
  | cons c b => exact avoids_cons (not_inNumber_of_isBlank (hb c (by simp)))

/-- The digits at the start of a text, when they are followed by something else. -/
theorem span_digits {ds s : Octets} (hds : ∀ d ∈ ds, isDigit d = true)
    (h : Avoids (isDigit · = true) s) :
    (ds ++ s).takeWhile isDigit = ds ∧ (ds ++ s).dropWhile isDigit = s := by
  have hs : s.takeWhile isDigit = [] ∧ s.dropWhile isDigit = s := by
    cases s with
    | nil => exact ⟨rfl, rfl⟩
    | cons b t =>
      have hb : isDigit b = false := by simpa using h b t rfl
      simp [hb]
  rw [List.takeWhile_append_of_pos hds, List.dropWhile_append_of_pos hds, hs.1, hs.2]
  simp

/-- The digits in front are digits. -/
theorem digits_takeWhile (s : Octets) : ∀ d ∈ s.takeWhile isDigit, isDigit d = true :=
  List.all_eq_true.1 List.all_takeWhile

/-! ### Blanks -/

/-- Blanks are skipped, -/
theorem skipBlanks_append {b s : Octets} (hb : Blanks b) : skipBlanks (b ++ s) = skipBlanks s :=
  List.dropWhile_append_of_pos hb

/-- and nothing else. -/
theorem skipBlanks_cons {b : UInt8} {s : Octets} (h : isBlank b = false) :
    skipBlanks (b :: s) = b :: s := by
  simp [skipBlanks, h]

/-- A text is blanks and what is left after them. -/
theorem exists_blanks (s : Octets) : ∃ b, Blanks b ∧ s = b ++ skipBlanks s :=
  ⟨s.takeWhile isBlank, List.all_eq_true.1 List.all_takeWhile, by simp [skipBlanks]⟩

/-! ### Numbers -/

/-- A digit is not a byte that is none. -/
theorem isDigit_ne {d b : UInt8} (hd : isDigit d = true) (hb : isDigit b = false) : d ≠ b := by
  rintro rfl
  simp [hd] at hb

/-- A whole part is scanned up to what is no digit. -/
theorem scanWhole_of_whole {w s : Octets} (h : Whole w) (hs : Avoids (isDigit · = true) s) :
    scanWhole (w ++ s) = some (w, s) := by
  -- Behind a zero no digit may follow, and behind any other they all belong to it.
  cases h with
  | zero =>
    cases s with
    | nil => rfl
    | cons b t =>
      have hb : isDigit b = false := by simpa using hs b t rfl
      simp [scanWhole, hb]
  | @digits d ds hd hzero hds =>
    have hall : ∀ c ∈ d :: ds, isDigit c = true := by simpa using ⟨hd, hds⟩
    obtain ⟨htake, hdrop⟩ := span_digits hall hs
    rw [scanWhole.eq_def]
    split
    · next heq => exact absurd (List.cons.inj heq).1 hzero
    · simp only [htake, hdrop, List.isEmpty_cons, Bool.false_eq_true, if_false]

/-- A fraction is scanned, or its absence. -/
theorem scanFraction_of_fraction {f s : Octets} (h : Fraction f)
    (hs : Avoids (fun b => isDigit b = true ∨ b = 0x2e) s) :
    scanFraction (f ++ s) = some (f, s) := by
  cases h with
  | absent =>
    rw [List.nil_append, scanFraction.eq_def]
    split
    · next t => exact absurd (.inr rfl) (hs _ t rfl)
    · rfl
  -- The digits end where the rest begins, since the rest does not start with one.
  | digits hds =>
    obtain ⟨htake, hdrop⟩ := span_digits hds.2 (hs.mono fun _ => .inl)
    simp [scanFraction, htake, hdrop, hds.1]

/-- So is an exponent, whose sign may be absent as well. -/
theorem scanExponent_of_exponent {e s : Octets} (h : Exponent e) (hs : Stops s) :
    scanExponent (e ++ s) = some (e, s) := by
  cases h with
  | absent =>
    cases s with
    | nil => rfl
    | cons b t =>
      have hb : ¬ InNumber b := hs b t rfl
      simp only [InNumber, not_or] at hb
      simp [scanExponent, hb]
  | @digits b sign ds hb hsign hds =>
    obtain ⟨htake, hdrop⟩ := span_digits hds.2 (hs.mono fun _ => .inl)
    have hletter : (b == 0x65 || b == 0x45) = true := by simpa using hb
    -- The digits begin with no sign, so the absent sign is not mistaken for one.
    have hscan : scanExponentSign (sign ++ (ds ++ s)) = (sign, ds ++ s) := by
      obtain ⟨hne, hall⟩ := hds
      rcases hsign with rfl | rfl | rfl
      · cases ds with
        | nil => exact absurd rfl hne
        | cons d ds =>
          have hd := hall d (by simp)
          rw [List.nil_append, List.cons_append, scanExponentSign.eq_def]
          split
          · next heq => exact absurd (List.cons.inj heq).1 (isDigit_ne hd (by decide))
          · next heq => exact absurd (List.cons.inj heq).1 (isDigit_ne hd (by decide))
          · rfl
      · rfl
      · rfl
    simp [scanExponent, hletter, hscan, htake, hdrop, hds.1]

/-- Before an exponent, or what follows the number, a fraction ends. -/
theorem Exponent.avoids {e s : Octets} (h : Exponent e) (hs : Stops s) :
    Avoids (fun b => isDigit b = true ∨ b = 0x2e) (e ++ s) := by
  cases h with
  | absent => exact hs.mono fun b hb => hb.imp_right .inl
  | digits hb =>
    apply avoids_cons
    rcases hb with rfl | rfl <;> decide

/-- And before a fraction a whole part ends. -/
theorem Fraction.avoids {f s : Octets} (h : Fraction f)
    (hs : Avoids (fun b => isDigit b = true ∨ b = 0x2e) s) :
    Avoids (isDigit · = true) (f ++ s) := by
  cases h with
  | absent => exact hs.mono fun _ => .inl
  | digits => exact avoids_cons (by decide)

/-- A whole part begins with a digit. -/
theorem Whole.exists_cons {w : Octets} (h : Whole w) :
    ∃ d ds, w = d :: ds ∧ isDigit d = true := by
  cases h with
  | zero => exact ⟨_, _, rfl, by decide⟩
  | digits hd => exact ⟨_, _, rfl, hd⟩

/-- A number literal begins with a minus sign or a digit. -/
theorem NumberLiteral.exists_cons {l : Octets} (h : NumberLiteral l) :
    ∃ b t, l = b :: t ∧ (b == 0x2d || isDigit b) = true := by
  cases h with
  | parts hsign hw =>
    rcases hsign with rfl | rfl
    · obtain ⟨d, ds, rfl, hd⟩ := hw.exists_cons
      exact ⟨d, _, rfl, by simp [hd]⟩
    · exact ⟨0x2d, _, rfl, rfl⟩

/-- Without a sign a number begins with a digit, which is left where it is. -/
theorem scanSign_append {sign w s : Octets} (hsign : sign = [] ∨ sign = [0x2d]) (hw : Whole w) :
    scanSign (sign ++ (w ++ s)) = (sign, w ++ s) := by
  rcases hsign with rfl | rfl
  · obtain ⟨d, ds, rfl, hd⟩ := hw.exists_cons
    rw [List.nil_append, List.cons_append, scanSign.eq_def]
    split
    · next heq => exact absurd (List.cons.inj heq).1 (isDigit_ne hd (by decide))
    · rfl
  · rfl

/-- A number literal is scanned as a whole if nothing of a number follows it. -/
theorem scanNumber_of_literal {l s : Octets} (h : NumberLiteral l) (hs : Stops s) :
    scanNumber (l ++ s) = some (l, s) := by
  cases h with
  | @parts sign w f e hsign hw hf he =>
    have hexponent := scanExponent_of_exponent he hs
    have hfraction := scanFraction_of_fraction hf (he.avoids hs)
    have hwhole := scanWhole_of_whole hw (hf.avoids (he.avoids hs))
    simp [scanNumber, List.append_assoc, scanSign_append hsign hw, hwhole, hfraction, hexponent]

/-- What is scanned as a whole part is one, -/
theorem whole_of_scanWhole {s w t : Octets} (h : scanWhole s = some (w, t)) :
    Whole w ∧ s = w ++ t := by
  rw [scanWhole.eq_def] at h
  split at h
  · split at h
    · split at h <;> cases h
      exact ⟨.zero, rfl⟩
    · cases h
      exact ⟨.zero, rfl⟩
  · next hzero =>
    dsimp only at h
    split at h <;> cases h
    next hne =>
    refine ⟨?_, (List.takeWhile_append_dropWhile).symm⟩
    cases s with
    | nil => simp at hne
    | cons d ds =>
      -- The run is not empty, so its first character is a digit, and not zero.
      cases hd : isDigit d with
      | false => simp [hd] at hne
      | true =>
        have hall := digits_takeWhile (d :: ds)
        simp only [List.takeWhile_cons, hd, if_true] at hall ⊢
        exact .digits hd (fun h0 => hzero ds (h0 ▸ rfl)) fun c hc => hall c (by simp [hc])

/-- what is scanned as a fraction is one, -/
theorem fraction_of_scanFraction {s f t : Octets} (h : scanFraction s = some (f, t)) :
    Fraction f ∧ s = f ++ t := by
  rw [scanFraction.eq_def] at h
  split at h
  · next rest =>
    dsimp only at h
    split at h <;> cases h
    next hne =>
    exact ⟨.digits ⟨by simpa using hne, digits_takeWhile rest⟩,
      by rw [List.cons_append, List.takeWhile_append_dropWhile]⟩
  · cases h
    exact ⟨.absent, rfl⟩

/-- a sign is scanned only where it stands, -/
theorem scanExponentSign_eq (s : Octets) :
    ((scanExponentSign s).1 = [] ∨ (scanExponentSign s).1 = [0x2b] ∨
      (scanExponentSign s).1 = [0x2d]) ∧
      s = (scanExponentSign s).1 ++ (scanExponentSign s).2 := by
  rw [scanExponentSign.eq_def]
  split <;> simp

/-- and what is scanned as an exponent is one. -/
theorem exponent_of_scanExponent {s e t : Octets} (h : scanExponent s = some (e, t)) :
    Exponent e ∧ s = e ++ t := by
  cases s with
  | nil =>
    cases h
    exact ⟨.absent, rfl⟩
  | cons b rest =>
    -- The sign is split off before the digits are taken.
    obtain ⟨hsign, hsplit⟩ := scanExponentSign_eq rest
    simp only [scanExponent] at h
    split at h
    · next hletter =>
      split at h <;> cases h
      next hne =>
      refine ⟨.digits (by simpa using hletter) hsign ⟨by simpa using hne, digits_takeWhile _⟩, ?_⟩
      rw [List.cons_append, List.append_assoc, List.takeWhile_append_dropWhile, ← hsplit]
    · cases h
      exact ⟨.absent, rfl⟩

/-- What is scanned as a number literal is one. -/
theorem literal_of_scanNumber {s l t : Octets} (h : scanNumber s = some (l, t)) :
    NumberLiteral l ∧ s = l ++ t := by
  -- The four parts are scanned one after another; each is a part of the grammar.
  have hsign : ((scanSign s).1 = [] ∨ (scanSign s).1 = [0x2d]) ∧
      s = (scanSign s).1 ++ (scanSign s).2 := by
    rw [scanSign.eq_def]
    split <;> simp
  simp only [scanNumber, Option.bind_eq_bind, Option.bind_eq_some_iff, Option.pure_def,
    Option.some.injEq, Prod.mk.injEq, Prod.exists] at h
  obtain ⟨w, s₁, hw, f, s₂, hf, e, s₃, he, rfl, rfl⟩ := h
  obtain ⟨hwhole, h₁⟩ := whole_of_scanWhole hw
  obtain ⟨hfraction, rfl⟩ := fraction_of_scanFraction hf
  obtain ⟨hexponent, rfl⟩ := exponent_of_scanExponent he
  refine ⟨.parts hsign.1 hwhole hfraction hexponent, ?_⟩
  have hs : s = (scanSign s).1 ++ (w ++ (f ++ (e ++ s₃))) := hsign.2.trans (congrArg _ h₁)
  simpa only [List.append_assoc] using hs

/-! ### Texts -/

/-- The inside of a text is scanned up to the closing quote. -/
theorem scanText_of_body {raw : Octets} (h : TextBody raw) (s : Octets) :
    scanText (raw ++ 0x22 :: s) = some (raw, s) := by
  -- Along the body: each kind of piece is what the scanner takes next.
  induction h with
  | nil => rfl
  | @plain b raw hcontrol hquote hescape hraw ih =>
    rw [List.cons_append, scanText.eq_def]
    split
    · next heq => cases heq
    · next heq => exact absurd (List.cons.inj heq).1 hquote
    · next heq => exact absurd (List.cons.inj heq).1 hescape
    · next heq => exact absurd (List.cons.inj heq).1 hescape
    · next heq =>
      cases heq
      simp [hcontrol, hescape, ih]
  | @escape e raw he hraw ih =>
    rw [List.cons_append, List.cons_append, scanText.eq_def]
    split
    · next heq => cases heq
    · next heq => exact absurd (List.cons.inj heq).1 (by decide)
    · next heq =>
      have : e = 0x75 := (List.cons.inj (List.cons.inj heq).2).1
      subst this
      simp [isPlainEscape] at he
    · next heq =>
      cases heq
      simp [he, ih]
    · next hne heq =>
      cases heq
      exact (hne e _ rfl rfl).elim
  | codePoint ha hb hc hd hraw ih => simp [scanText, ha, hb, hc, hd, ih]

/-- What is scanned as the inside of a text is one. -/
theorem body_of_scanText {s raw t : Octets} (h : scanText s = some (raw, t)) :
    TextBody raw ∧ s = raw ++ 0x22 :: t := by
  fun_induction scanText s generalizing raw t with
  | case1 => cases h
  | case2 rest =>
    cases h
    exact ⟨.nil, rfl⟩
  -- A code point of four hex digits.
  | case3 a b c d rest hhex ih =>
    obtain ⟨⟨r, u⟩, hr, heq⟩ := Option.map_eq_some_iff.1 h
    cases heq
    obtain ⟨hbody, rfl⟩ := ih hr
    simp only [Bool.and_eq_true] at hhex
    obtain ⟨⟨⟨ha, hb⟩, hc⟩, hd⟩ := hhex
    exact ⟨.codePoint ha hb hc hd hbody, rfl⟩
  | case4 => cases h
  -- A simple escape.
  | case5 e rest _ he ih =>
    obtain ⟨⟨r, u⟩, hr, heq⟩ := Option.map_eq_some_iff.1 h
    cases heq
    obtain ⟨hbody, rfl⟩ := ih hr
    exact ⟨.escape he hbody, rfl⟩
  | case6 => cases h
  | case7 => cases h
  -- A plain octet: no quote, no backslash, no control character.
  | case8 b rest hquote _ _ hcontrol ih =>
    obtain ⟨⟨r, u⟩, hr, heq⟩ := Option.map_eq_some_iff.1 h
    cases heq
    obtain ⟨hbody, rfl⟩ := ih hr
    simp only [Bool.or_eq_true, decide_eq_true_eq, beq_iff_eq, not_or] at hcontrol
    exact ⟨.plain hcontrol.1 (fun h => hquote h) hcontrol.2 hbody, rfl⟩

/-! ## Reading trees -/

/-- What a number begins with is no blank and closes nothing. -/
theorem opens_of_first {b : UInt8} (h : (b == 0x2d || isDigit b) = true) :
    isBlank b = false ∧ b ≠ 0x5d := by
  have hin := inNumber_of_first h
  constructor
  · rw [← Bool.not_eq_true]
    exact fun hblank => not_inNumber_of_isBlank hblank hin
  · rintro rfl
    exact absurd hin (by decide)

/-- What the reader looks at first in a tree's text: no blank, and nothing that closes. -/
theorem SpellsBare.exists_cons {d : Doc} {s : Octets} (h : SpellsBare d s) :
    ∃ b t, s = b :: t ∧ isBlank b = false ∧ b ≠ 0x5d := by
  cases h with
  | null | isTrue | isFalse => exact ⟨_, _, rfl, by decide, by decide⟩
  | text | emptyArray | array | emptyObject | object => exact ⟨_, _, rfl, by decide, by decide⟩
  | number hl =>
    obtain ⟨b, t, rfl, hb⟩ := hl.exists_cons
    exact ⟨b, t, rfl, opens_of_first hb⟩

/-- Blanks before a token are passed over. -/
theorem skipBlanks_token {b t : Octets} {c : UInt8} (hb : Blanks b) (hc : isBlank c = false) :
    skipBlanks (b ++ c :: t) = c :: t := by
  rw [skipBlanks_append hb, skipBlanks_cons hc]

/-- Blanks before a tree are passed over. -/
theorem skipBlanks_padded {d : Doc} {b s c t : Octets} (hb : Blanks b) (h : SpellsBare d s) :
    skipBlanks (b ++ (s ++ c) ++ t) = s ++ (c ++ t) := by
  obtain ⟨v, w, rfl, hblank, -⟩ := h.exists_cons
  simp only [List.append_assoc, List.cons_append, skipBlanks_token hb hblank]

/-- Items begin with something other than a bracket that closes them, -/
theorem SpellsItems.exists_cons {ds : List Doc} {s : Octets} (h : SpellsItems ds s) (t : Octets) :
    ∃ b u, skipBlanks (s ++ t) = b :: u ∧ b ≠ 0x5d := by
  have padded : ∀ {d s}, Spells d s → ∀ t, ∃ b u, skipBlanks (s ++ t) = b :: u ∧ b ≠ 0x5d := by
    rintro d s ⟨hb, hs, -⟩ t
    rw [skipBlanks_padded hb hs]
    obtain ⟨b, u, rfl, -, hclose⟩ := hs.exists_cons
    exact ⟨b, _, rfl, hclose⟩
  cases h with
  | one h => exact padded h t
  | more h => simpa only [List.append_assoc] using padded h _

/-- and members with the quote of a name. -/
theorem SpellsMembers.exists_cons {ms : List (Octets × Doc)} {s : Octets} (h : SpellsMembers ms s)
    (t : Octets) : ∃ u, skipBlanks (s ++ t) = 0x22 :: u := by
  cases h with
  | one hb | more hb =>
    rw [List.append_assoc, List.cons_append, skipBlanks_token hb (by decide)]
    exact ⟨_, rfl⟩

/-! ### The reader by the first byte of a tree -/

section

variable {fuel : Nat} {u v w : Octets} {b : UInt8}

/-- Behind a quote a text is scanned. -/
theorem readValue_text (hu : skipBlanks u = 0x22 :: v) :
    readValue (fuel + 1) u =
      match scanText v with
      | some (raw, rest) => (.text raw, some rest)
      | none => (.broken, none) := by
  cases htext : scanText v with
  | none => simp only [readValue, hu, htext]
  | some p =>
    obtain ⟨raw, rest⟩ := p
    simp only [readValue, hu, htext]

/-- An array that is closed at once is empty, -/
theorem readValue_emptyArray (hu : skipBlanks u = 0x5b :: v) (hv : skipBlanks v = 0x5d :: w) :
    readValue (fuel + 1) u = (.array [], some w) := by
  simp [readValue, hu, hv]

/-- and items are read in any other. -/
theorem readValue_array (hu : skipBlanks u = 0x5b :: v) (hv : ∀ w, skipBlanks v ≠ 0x5d :: w) :
    readValue (fuel + 1) u = (.array (readItems fuel v).1, (readItems fuel v).2) := by
  simp only [readValue, hu]

/-- So is an object that is closed at once, -/
theorem readValue_emptyObject (hu : skipBlanks u = 0x7b :: v) (hv : skipBlanks v = 0x7d :: w) :
    readValue (fuel + 1) u = (.object [], some w) := by
  simp [readValue, hu, hv]

/-- and members are read in any other. -/
theorem readValue_object (hu : skipBlanks u = 0x7b :: v) (hv : ∀ w, skipBlanks v ≠ 0x7d :: w) :
    readValue (fuel + 1) u = (.object (readMembers fuel v).1, (readMembers fuel v).2) := by
  simp only [readValue, hu]

/-- A sign or a digit begins a number. -/
theorem readValue_number (hu : skipBlanks u = b :: v) (hb : (b == 0x2d || isDigit b) = true) :
    readValue (fuel + 1) u =
      match scanNumber (b :: v) with
      | some (literal, rest) => (.number literal, some rest)
      | none => (.broken, none) := by
  rw [readValue.eq_def]
  simp only [hu]
  -- None of the marks of texts, arrays and objects begins a number.
  split
  · next heq => cases heq
  · next heq =>
    cases heq
    exact absurd hb (by decide)
  · next heq =>
    cases heq
    exact absurd hb (by decide)
  · next heq =>
    cases heq
    exact absurd hb (by decide)
  · next heq =>
    cases heq
    exact (if_pos hb).trans (by cases scanNumber (b :: v) <;> rfl)

end

mutual

/-- A spelled tree is read, with fuel of twice the length of its text. -/
theorem readValue_of_spells {d : Doc} {s : Octets} (h : SpellsBare d s) {t u : Octets} {n : Nat}
    (ht : Stops t) (hfuel : 2 * s.length ≤ n + 1) (hu : skipBlanks u = s ++ t) :
    readValue n u = (d, some t) := by
  have hlen : 0 < s.length := by
    obtain ⟨_, _, rfl, -, -⟩ := h.exists_cons
    simp
  -- The text is not empty, so there is fuel for one more level.
  obtain ⟨k, rfl⟩ : ∃ k, n = k + 1 := ⟨n - 1, by omega⟩
  cases h with
  | null => simp [readValue, hu, isDigit, stripWord]
  | isTrue => simp [readValue, hu, isDigit, stripWord]
  | isFalse => simp [readValue, hu, isDigit, stripWord]
  | number hl =>
    obtain ⟨b, v, rfl, hb⟩ := hl.exists_cons
    rw [readValue_number (v := v ++ t) hu hb, ← List.cons_append, scanNumber_of_literal hl ht]
  | @text raw hraw =>
    rw [readValue_text (v := raw ++ 0x22 :: t) (by simpa using hu), scanText_of_body hraw t]
  | @emptyArray b hb =>
    exact readValue_emptyArray (v := b ++ 0x5d :: t) (by simpa using hu)
      (skipBlanks_token hb (by decide))
  | @array ds v hitems =>
    obtain ⟨c, w, hv, hc⟩ := hitems.exists_cons (0x5d :: t)
    rw [readValue_array (v := v ++ 0x5d :: t) (by simpa using hu)
        (by rw [hv]; rintro w' ⟨⟩; exact hc rfl),
      readItems_of_spells hitems (by simp at hfuel; omega)]
  | @emptyObject b hb =>
    exact readValue_emptyObject (v := b ++ 0x7d :: t) (by simpa using hu)
      (skipBlanks_token hb (by decide))
  | @object ms v hmembers =>
    obtain ⟨w, hv⟩ := hmembers.exists_cons (0x7d :: t)
    rw [readValue_object (v := v ++ 0x7d :: t) (by simpa using hu)
        (by rw [hv]; rintro w' ⟨⟩),
      readMembers_of_spells hmembers (by simp at hfuel; omega)]

/-- Spelled items are read up to the bracket that closes them. -/
theorem readItems_of_spells {ds : List Doc} {s : Octets} (h : SpellsItems ds s) {t : Octets}
    {n : Nat} (hfuel : 2 * s.length ≤ n) :
    readItems n (s ++ 0x5d :: t) = (ds, some t) := by
  -- Items are not empty either, so each of them has fuel left.
  have hlen : 0 < s.length := by
    obtain ⟨b, u, hs, -⟩ := h.exists_cons []
    cases s <;> simp_all [skipBlanks]
  obtain ⟨k, rfl⟩ : ∃ k, n = k + 1 := ⟨n - 1, by omega⟩
  cases h with
  -- What follows the last item is the bracket, before which a number ends.
  | one h =>
    obtain @⟨d, b, s, c, hb, hs, hc⟩ := h
    have hvalue := readValue_of_spells hs (t := c ++ 0x5d :: t) (n := k)
      (.blanks hc (avoids_cons (by decide))) (by simp at hfuel; omega) (skipBlanks_padded hb hs)
    simp only [readItems, hvalue, skipBlanks_token hc (show isBlank 0x5d = false by decide)]
  | @more d ds s r h hrest =>
    obtain @⟨d, b, s, c, hb, hs, hc⟩ := h
    have hvalue := readValue_of_spells hs (t := c ++ 0x2c :: (r ++ 0x5d :: t)) (n := k)
      (.blanks hc (avoids_cons (by decide))) (by simp at hfuel; omega) (skipBlanks_padded hb hs)
    have hitems := readItems_of_spells hrest (t := t) (n := k) (by simp at hfuel; omega)
    simp only [readItems, List.append_assoc, List.cons_append] at hvalue ⊢
    simp only [hvalue, skipBlanks_token hc (show isBlank 0x2c = false by decide), hitems]

/-- Spelled members are read up to the brace that closes them. -/
theorem readMembers_of_spells {ms : List (Octets × Doc)} {s : Octets} (h : SpellsMembers ms s)
    {t : Octets} {n : Nat} (hfuel : 2 * s.length ≤ n) :
    readMembers n (s ++ 0x7d :: t) = (ms, some t) := by
  -- A member takes at least one octet, so fuel is left for it.
  have hlen : 0 < s.length := by
    obtain ⟨u, hs⟩ := h.exists_cons []
    cases s <;> simp_all [skipBlanks]
  obtain ⟨k, rfl⟩ : ∃ k, n = k + 1 := ⟨n - 1, by omega⟩
  cases h with
  | @one name d a e s ha hname he h =>
    obtain @⟨d, b, s, c, hb, hs, hc⟩ := h
    have hvalue := readValue_of_spells hs (t := c ++ 0x7d :: t) (n := k)
      (.blanks hc (avoids_cons (by decide))) (by simp at hfuel; omega) (skipBlanks_padded hb hs)
    have hquote := skipBlanks_token (c := 0x22) (t := name ++ 0x22 :: (e ++ 0x3a ::
      (b ++ (s ++ (c ++ 0x7d :: t))))) ha (by decide)
    simp only [readMembers, List.append_assoc, List.cons_append] at hvalue ⊢
    simp only [hquote, scanText_of_body hname,
      skipBlanks_token he (show isBlank 0x3a = false by decide), hvalue,
      skipBlanks_token hc (show isBlank 0x7d = false by decide)]
  | @more name d ms a e s r ha hname he h hrest =>
    obtain @⟨d, b, s, c, hb, hs, hc⟩ := h
    have hvalue := readValue_of_spells hs (t := c ++ 0x2c :: (r ++ 0x7d :: t)) (n := k)
      (.blanks hc (avoids_cons (by decide))) (by simp at hfuel; omega) (skipBlanks_padded hb hs)
    have hmembers := readMembers_of_spells hrest (t := t) (n := k) (by simp at hfuel; omega)
    have hquote := skipBlanks_token (c := 0x22) (t := name ++ 0x22 :: (e ++ 0x3a ::
      (b ++ (s ++ (c ++ 0x2c :: (r ++ 0x7d :: t)))))) ha (by decide)
    simp only [readMembers, List.append_assoc, List.cons_append] at hvalue ⊢
    simp only [hquote, scanText_of_body hname,
      skipBlanks_token he (show isBlank 0x3a = false by decide), hvalue,
      skipBlanks_token hc (show isBlank 0x2c = false by decide), hmembers]

end

/-! ### What is read is spelled -/

/-- The text after a word. -/
theorem eq_of_stripWord {word s t : Octets} (h : stripWord word s = some t) : s = word ++ t := by
  simp only [stripWord] at h
  split at h
  · next hprefix =>
    obtain ⟨u, rfl⟩ := List.isPrefixOf_iff_prefix.1 hprefix
    simp at h
    rw [h]
  · cases h

/-- What `Spells` says of the reader with some fuel: the tree that it reads is spelled by what it
has passed over. -/
def Sound (fuel : Nat) : Prop :=
  (∀ s d t, readValue fuel s = (d, some t) → ∃ b u, Blanks b ∧ SpellsBare d u ∧ s = b ++ (u ++ t)) ∧
    (∀ s ds t, readItems fuel s = (ds, some t) →
      ∃ u, SpellsItems ds u ∧ s = u ++ 0x5d :: t) ∧
    ∀ s ms t, readMembers fuel s = (ms, some t) →
      ∃ u, SpellsMembers ms u ∧ s = u ++ 0x7d :: t

/-- A tree that is read has been spelled, -/
theorem sound_value {fuel : Nat} (ih : Sound fuel) {s t : Octets} {d : Doc}
    (h : readValue (fuel + 1) s = (d, some t)) :
    ∃ b u, Blanks b ∧ SpellsBare d u ∧ s = b ++ (u ++ t) := by
  obtain ⟨b, hb, hs⟩ := exists_blanks s
  -- The reader looks only at the text behind the blanks.
  suffices ∃ u, SpellsBare d u ∧ skipBlanks s = u ++ t by
    obtain ⟨u, hu, hskip⟩ := this
    exact ⟨b, u, hb, hu, hskip ▸ hs⟩
  rw [readValue.eq_def] at h
  simp only at h
  split at h
  · cases h
  · next v hv =>
    obtain ⟨c, hc, hv'⟩ := exists_blanks v
    split at h
    · next w hw =>
      cases h
      exact ⟨_, .emptyArray hc, by rw [hv, hv', hw]; simp⟩
    · obtain ⟨rfl, hrest⟩ := Prod.mk.inj h
      obtain ⟨u, hu, rfl⟩ := ih.2.1 v _ t (Prod.ext rfl hrest)
      exact ⟨_, .array hu, by rw [hv]; simp⟩
  · next v hv =>
    obtain ⟨c, hc, hv'⟩ := exists_blanks v
    split at h
    · next w hw =>
      cases h
      exact ⟨_, .emptyObject hc, by rw [hv, hv', hw]; simp⟩
    · obtain ⟨rfl, hrest⟩ := Prod.mk.inj h
      obtain ⟨u, hu, rfl⟩ := ih.2.2 v _ t (Prod.ext rfl hrest)
      exact ⟨_, .object hu, by rw [hv]; simp⟩
  · next v hv =>
    split at h
    · next raw rest hscan =>
      cases h
      obtain ⟨hraw, rfl⟩ := body_of_scanText hscan
      exact ⟨_, .text hraw, by rw [hv]; simp⟩
    · cases h
  · next c v _ _ _ hv =>
    rw [hv]
    split at h
    · split at h
      · next literal rest hscan =>
        cases h
        obtain ⟨hl, heq⟩ := literal_of_scanNumber hscan
        exact ⟨_, .number hl, heq⟩
      · cases h
    · split at h
      · next hword =>
        cases h
        exact ⟨_, .null, eq_of_stripWord hword⟩
      · split at h
        · next hword =>
          cases h
          exact ⟨_, .isTrue, eq_of_stripWord hword⟩
        · split at h
          · next hword =>
            cases h
            exact ⟨_, .isFalse, eq_of_stripWord hword⟩
          · cases h

/-- items have, -/
theorem sound_items {fuel : Nat} (ih : Sound fuel) {s t : Octets} {ds : List Doc}
    (h : readItems (fuel + 1) s = (ds, some t)) :
    ∃ u, SpellsItems ds u ∧ s = u ++ 0x5d :: t := by
  rw [readItems] at h
  split at h
  · cases h
  · next d v hvalue =>
    -- The item, its blanks, and then a comma or the closing bracket.
    obtain ⟨b, u, hb, hu, rfl⟩ := ih.1 _ _ _ hvalue
    obtain ⟨c, hc, hv⟩ := exists_blanks v
    split at h
    · next w hw =>
      obtain ⟨rfl, hrest⟩ := Prod.mk.inj h
      obtain ⟨r, hr, rfl⟩ := ih.2.1 w _ t (Prod.ext rfl hrest)
      exact ⟨_, .more (.padded hb hu hc) hr, by rw [hv, hw]; simp⟩
    · next w hw =>
      cases h
      exact ⟨_, .one (.padded hb hu hc), by rw [hv, hw]; simp⟩
    · cases h

/-- and members have. -/
theorem sound_members {fuel : Nat} (ih : Sound fuel) {s t : Octets} {ms : List (Octets × Doc)}
    (h : readMembers (fuel + 1) s = (ms, some t)) :
    ∃ u, SpellsMembers ms u ∧ s = u ++ 0x7d :: t := by
  obtain ⟨a, ha, hs⟩ := exists_blanks s
  rw [readMembers] at h
  split at h
  · next v hv =>
    split at h
    · cases h
    · next name w hscan =>
      -- The name, the colon, the value, and then a comma or the closing brace.
      obtain ⟨hname, rfl⟩ := body_of_scanText hscan
      obtain ⟨e, he, hw⟩ := exists_blanks w
      split at h
      · next x hx =>
        split at h
        · cases h
        · next d y hvalue =>
          obtain ⟨b, u, hb, hu, rfl⟩ := ih.1 _ _ _ hvalue
          obtain ⟨c, hc, hy⟩ := exists_blanks y
          split at h
          · next z hz =>
            obtain ⟨rfl, hrest⟩ := Prod.mk.inj h
            obtain ⟨r, hr, rfl⟩ := ih.2.2 z _ t (Prod.ext rfl hrest)
            exact ⟨_, .more ha hname he (.padded hb hu hc) hr,
              by rw [hs, hv, hw, hx, hy, hz]; simp⟩
          · next z hz =>
            cases h
            exact ⟨_, .one ha hname he (.padded hb hu hc),
              by rw [hs, hv, hw, hx, hy, hz]; simp⟩
          · cases h
      · cases h
  · cases h

/-- Whatever the fuel, what is read has been spelled. -/
theorem sound (fuel : Nat) : Sound fuel := by
  -- The fuel bounds how often the three readers call one another.
  induction fuel with
  | zero =>
    refine ⟨?_, ?_, ?_⟩ <;> intro s d t h
    · simp [readValue] at h
    · simp [readItems] at h
    · simp [readMembers] at h
  | succ fuel ih =>
    exact ⟨fun _ _ _ => sound_value ih, fun _ _ _ => sound_items ih,
      fun _ _ _ => sound_members ih⟩

/-! ## Documents -/

/-- The reader accepts exactly the spelled texts, each as the tree that it spells. -/
theorem read_eq_iff {d : Doc} {s : Octets} : read s = (d, true) ↔ Spells d s := by
  constructor
  · intro h
    rw [read] at h
    split at h
    · next doc t hvalue =>
      obtain ⟨rfl, hclean⟩ := Prod.mk.inj h
      obtain ⟨b, u, hb, hu, rfl⟩ := (sound _).1 _ _ _ hvalue
      obtain ⟨c, hc, ht⟩ := exists_blanks t
      rw [List.isEmpty_iff.1 hclean, List.append_nil] at ht
      exact .padded hb hu (ht ▸ hc)
    · cases h
  · rintro @⟨d, b, u, c, hb, hu, hc⟩
    -- Only blanks follow the tree, and no number goes on into them.
    have hstops : Stops c := by simpa using Stops.blanks hc (avoids_nil _)
    have hskip : skipBlanks (b ++ (u ++ c)) = u ++ c := by
      simpa using skipBlanks_padded (t := []) hb hu
    rw [read, readValue_of_spells hu hstops (by simp; omega) hskip]
    have hclean : skipBlanks c = [] := by
      rw [← List.append_nil c, skipBlanks_append hc]
      rfl
    simp [hclean]

/-- A text spells one tree at most. -/
theorem Spells.unique {d e : Doc} {s : Octets} (hd : Spells d s) (he : Spells e s) : d = e := by
  have h := (read_eq_iff.2 hd).symm.trans (read_eq_iff.2 he)
  exact (Prod.mk.inj h).1

end ChainFollower.Doc
