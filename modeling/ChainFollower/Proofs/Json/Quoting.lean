import ChainFollower.Json.Basic
import ChainFollower.Json.Wide
import ChainFollower.Proofs.Json.Grammar

/-!
# Quoting keeps the structure of a document

The pass that quotes wide integers looks at bytes alone.  On a text that spells a tree it does
exactly what `Doc.quoted` does to the tree: integer literals that no word holds become texts of the
same characters, and nothing else changes.

Main statement: `quoteWide_keeps_structure`.
-/

namespace ChainFollower.Doc

open Json (quoteFrom quoteWide quoteToken isWide digitsValue Scan)

/-! ## Trees with wide integers quoted -/

/-- The integer that a literal without fraction and exponent denotes. -/
def integer? (literal : Octets) : Option Int :=
  match literal with
  | 0x2d :: ds => if !ds.isEmpty && ds.all isDigit then some (-(digitsValue ds : Int)) else none
  | ds => if !ds.isEmpty && ds.all isDigit then some (digitsValue ds) else none

/-- The leaf of a number literal: a text of the same characters if no word holds the integer. -/
def quotedLiteral (literal : Octets) : Doc :=
  match integer? literal with
  | some n => if FitsWord n then .number literal else .text literal
  | none => .number literal

mutual

/-- The tree with every integer literal that no word holds replaced by a text. -/
def quoted : Doc → Doc
  | .number literal => quotedLiteral literal
  | .array items => .array (quotedItems items)
  | .object members => .object (quotedMembers members)
  | d => d

/-- `quoted` of each item. -/
def quotedItems : List Doc → List Doc
  | [] => []
  | d :: rest => d.quoted :: quotedItems rest

/-- `quoted` of each value; names stay as they are. -/
def quotedMembers : List (Octets × Doc) → List (Octets × Doc)
  | [] => []
  | (k, d) :: rest => (k, d.quoted) :: quotedMembers rest

end

/-! ## Wide literals -/

/-- The tokens that are quoted are the integers that no word holds. -/
theorem isWide_eq (literal : Octets) :
    isWide literal = true ↔ ∃ n, integer? literal = some n ∧ ¬ FitsWord n := by
  unfold isWide integer?
  split
  · next ds =>
    by_cases hds : (!ds.isEmpty && ds.all isDigit) = true
    · simp only [hds, if_true, Bool.true_and, decide_eq_true_eq, Option.some.injEq,
        exists_eq_left', FitsWord]
      omega
    · simp [hds]
  · by_cases hds : (!literal.isEmpty && literal.all isDigit) = true
    · simp only [hds, if_true, Bool.true_and, decide_eq_true_eq, Option.some.injEq,
        exists_eq_left', FitsWord]
      omega
    · simp [hds]

/-- A wide integer becomes the text of its characters, -/
theorem quotedLiteral_of_wide {literal : Octets} (h : isWide literal = true) :
    quotedLiteral literal = .text literal := by
  obtain ⟨n, hn, hwide⟩ := (isWide_eq literal).1 h
  simp [quotedLiteral, hn, hwide]

/-- and every other literal stays a number. -/
theorem quotedLiteral_of_not_wide {literal : Octets} (h : isWide literal = false) :
    quotedLiteral literal = .number literal := by
  have hnot : ¬ ∃ n, integer? literal = some n ∧ ¬ FitsWord n := by
    rw [← isWide_eq, h]
    exact Bool.false_ne_true
  simp only [quotedLiteral]
  split
  · next n hn =>
    have hfits : FitsWord n := Classical.not_not.1 fun hwide => hnot ⟨n, hn, hwide⟩
    rw [if_pos hfits]
  · rfl

/-! ## Literals as runs of bytes -/

/-- Digits are bytes of numbers, -/
theorem Digits.inNumber {ds : Octets} (h : Digits ds) : ∀ b ∈ ds, InNumber b :=
  fun b hb => .inl (h.2 b hb)

/-- and so are all bytes of a literal. -/
theorem NumberLiteral.inNumber {l : Octets} (h : NumberLiteral l) : ∀ b ∈ l, InNumber b := by
  cases h with
  | @parts sign w f e hsign hw hf he =>
    intro b hb
    simp only [List.mem_append] at hb
    -- The sign, the whole part, the fraction and the exponent.
    rcases hb with ((hb | hb) | hb) | hb
    · rcases hsign with rfl | rfl
      · cases hb
      · rw [List.mem_singleton.1 hb]
        decide
    · cases hw with
      | zero =>
        rw [List.mem_singleton.1 hb]
        decide
      | @digits d ds hd _ hds =>
        have hall : ∀ c ∈ d :: ds, isDigit c = true := List.forall_mem_cons.2 ⟨hd, hds⟩
        exact .inl (hall b hb)
    · cases hf with
      | absent => cases hb
      | digits hds => exact List.forall_mem_cons.2 ⟨.inr (.inl rfl), hds.inNumber⟩ b hb
    · cases he with
      | absent => cases hb
      | digits hletter hsign hds =>
        refine List.forall_mem_cons.2 ⟨?_, List.forall_mem_append.2 ⟨?_, hds.inNumber⟩⟩ b hb
        · rcases hletter with rfl | rfl <;> decide
        · rcases hsign with rfl | rfl | rfl
          · exact List.forall_mem_nil _
          · exact List.forall_mem_singleton.2 (by decide)
          · exact List.forall_mem_singleton.2 (by decide)

/-- Bytes of numbers need no escape. -/
theorem textBody_of_inNumber {s : Octets} (h : ∀ b ∈ s, InNumber b) : TextBody s := by
  induction s with
  | nil => exact .nil
  | cons b s ih =>
    obtain ⟨hb, hs⟩ := List.forall_mem_cons.1 h
    refine .plain ?_ ?_ ?_ (ih hs)
    · intro hcontrol
      -- Every byte of a number is greater than the control characters.
      rcases hb with hd | rfl | rfl | rfl | rfl | rfl
      · simp only [isDigit, Bool.and_eq_true, decide_eq_true_eq] at hd
        exact absurd hd.1 (UInt8.not_le.2 (UInt8.lt_trans hcontrol (by decide)))
      all_goals exact absurd hcontrol (by decide)
    · rintro rfl
      exact absurd hb (by decide)
    · rintro rfl
      exact absurd hb (by decide)

/-! ## The scan over tokens -/

/-- The bytes that the scan takes for those of a number. -/
theorem isNumberByte_iff {b : UInt8} : Json.isNumberByte b = true ↔ InNumber b := by
  simp [Json.isNumberByte, InNumber, or_assoc]

/-- A byte outside texts and numbers, which opens neither. -/
theorem quoteWide_plain {b : UInt8} {s : Octets} (hquote : b ≠ 0x22) (hminus : b ≠ 0x2d)
    (hdigit : isDigit b = false) : quoteWide (b :: s) = b :: quoteWide s := by
  simp [quoteWide, quoteFrom, Scan.step, Scan.fresh, hquote, hminus, hdigit]

/-- Blanks are passed on. -/
theorem quoteWide_blanks {b s : Octets} (hb : Blanks b) :
    quoteWide (b ++ s) = b ++ quoteWide s := by
  induction b with
  | nil => rfl
  | cons c b ih =>
    obtain ⟨hc, hb⟩ := List.forall_mem_cons.1 hb
    rw [List.cons_append, List.cons_append, quoteWide_plain, ih hb]
    -- A blank is no quote, no minus sign and no digit.
    · rintro rfl
      exact absurd hc (by decide)
    · rintro rfl
      exact absurd hc (by decide)
    · rw [← Bool.not_eq_true]
      exact fun hd => not_inNumber_of_isBlank hc (.inl hd)

/-- Inside of a text the scan passes everything on, up to the closing quote. -/
theorem quoteFrom_inText {raw s : Octets} (h : TextBody raw) :
    quoteFrom .inText (raw ++ 0x22 :: s) = raw ++ 0x22 :: quoteWide s := by
  -- Piece by piece, as an escape hides the byte behind it.
  induction h with
  | nil => rfl
  | plain hcontrol hquote hescape hraw ih =>
    simp [quoteFrom, Scan.step, hquote, hescape, ih]
  | escape he hraw ih => simp [quoteFrom, Scan.step, ih]
  | codePoint ha hb hc hd hraw ih =>
    -- The four digits are read as plain bytes of the text.
    have plain : ∀ {b : UInt8}, isHexDigit b = true → b ≠ 0x22 ∧ b ≠ 0x5c := by
      intro b hb
      constructor <;> rintro rfl <;> exact absurd hb (by decide)
    simp [quoteFrom, Scan.step, ih, plain ha, plain hb, plain hc, plain hd]

/-- A text is passed on, quotes and all. -/
theorem quoteWide_text {raw s : Octets} (h : TextBody raw) :
    quoteWide (0x22 :: (raw ++ 0x22 :: s)) = 0x22 :: (raw ++ 0x22 :: quoteWide s) := by
  simp [quoteWide, quoteFrom, Scan.step, Scan.fresh, quoteFrom_inText h]

/-- The bytes of a number are held back until it ends. -/
theorem quoteFrom_inNumber {r l s : Octets} (h : ∀ b ∈ l, InNumber b) :
    quoteFrom (.inNumber r) (l ++ s) = quoteFrom (.inNumber (l.reverse ++ r)) s := by
  -- The bytes that are held back lie in reverse order.
  induction l generalizing r with
  | nil => rfl
  | cons b l ih =>
    obtain ⟨hb, hl⟩ := List.forall_mem_cons.1 h
    simp [quoteFrom, Scan.step, isNumberByte_iff.2 hb, ih hl]

/-- A number token ends where no byte of a number follows. -/
theorem quoteFrom_stops {held s : Octets} (hs : Stops s) :
    quoteFrom (.inNumber held) s = quoteToken held.reverse ++ quoteWide s := by
  cases s with
  | nil => simp [quoteFrom, quoteWide, Scan.flush]
  | cons b s =>
    have hb : Json.isNumberByte b = false := by
      rw [← Bool.not_eq_true, isNumberByte_iff]
      exact hs b s rfl
    simp [quoteFrom, quoteWide, Scan.step, hb]

/-- A run of bytes of numbers that begins like a number is one token. -/
theorem quoteWide_token {l s : Octets} (hfirst : ∃ b t, l = b :: t ∧ (b == 0x2d || isDigit b) = true)
    (hall : ∀ b ∈ l, InNumber b) (hs : Stops s) :
    quoteWide (l ++ s) = quoteToken l ++ quoteWide s := by
  obtain ⟨b, t, rfl, hb⟩ := hfirst
  -- The first byte opens a number; all that follow are held back until something else comes.
  have hfresh : Scan.step .outside b = (.inNumber [b], []) := by
    have hquote : b ≠ 0x22 := by
      rintro rfl
      exact absurd hb (by decide)
    simp only [Scan.step, Scan.fresh, beq_iff_eq, hquote, hb, if_false, if_true]
  have hrest := quoteFrom_inNumber (r := [b]) (s := s) (List.forall_mem_cons.1 hall).2
  rw [quoteWide, List.cons_append, quoteFrom, hfresh]
  simp only [List.nil_append, hrest, quoteFrom_stops hs]
  simp

/-- A number literal is one token. -/
theorem quoteWide_literal {l s : Octets} (h : NumberLiteral l) (hs : Stops s) :
    quoteWide (l ++ s) = quoteToken l ++ quoteWide s :=
  quoteWide_token h.exists_cons h.inNumber hs

/-! ## The scan over trees -/

/-- A number ends before any other byte. -/
theorem Stops.of_not {b : UInt8} {s : Octets} (h : Json.isNumberByte b = false) :
    Stops (b :: s) :=
  avoids_cons (by rw [← isNumberByte_iff, h]; exact Bool.false_ne_true)

/-- The scan of `s`, up to where a number would end, gives a text of which `p` holds. -/
def QuotesTo (s : Octets) (p : Octets → Prop) : Prop :=
  ∃ u, p u ∧ ∀ t, Stops t → quoteWide (s ++ t) = u ++ quoteWide t

/-- The blanks around a tree stay where they are. -/
theorem QuotesTo.padded {d : Doc} {b s c : Octets} (hb : Blanks b) (hc : Blanks c)
    (h : QuotesTo s (SpellsBare d)) : QuotesTo (b ++ (s ++ c)) (Spells d) := by
  obtain ⟨u, hu, hquote⟩ := h
  refine ⟨_, .padded hb hu hc, fun t ht => ?_⟩
  simp only [List.append_assoc]
  rw [quoteWide_blanks hb, hquote _ (.blanks hc ht), quoteWide_blanks hc]

/-- The scan passes a bracket or a comma on, and looks at what follows afresh. -/
theorem quoteWide_mark {b : UInt8} (hb : b ∈ [0x5b, 0x5d, 0x7b, 0x7d, 0x2c, 0x3a]) (s : Octets) :
    Stops (b :: s) ∧ quoteWide (b :: s) = b :: quoteWide s := by
  simp only [List.mem_cons, List.not_mem_nil, or_false] at hb
  rcases hb with rfl | rfl | rfl | rfl | rfl | rfl <;>
    exact ⟨.of_not (by decide), quoteWide_plain (by decide) (by decide) (by decide)⟩

section Trees

variable {d : Doc} {ds : List Doc} {ms : List (Octets × Doc)} {s t : Octets}

/-- The scan of an array passes its brackets on, -/
theorem QuotesTo.array (h : QuotesTo s (SpellsItems ds)) :
    QuotesTo (0x5b :: (s ++ [0x5d])) (SpellsBare (.array ds)) := by
  obtain ⟨u, hu, hquote⟩ := h
  refine ⟨_, .array hu, fun t _ => ?_⟩
  -- Before the closing bracket a number would end, as the statement for the items asks.
  obtain ⟨hstops, hclose⟩ := quoteWide_mark (b := 0x5d) (by decide) t
  simp only [List.cons_append, List.append_assoc, List.nil_append]
  rw [(quoteWide_mark (by decide) _).2, hquote _ hstops, hclose]

/-- and that of an object its braces. -/
theorem QuotesTo.object (h : QuotesTo s (SpellsMembers ms)) :
    QuotesTo (0x7b :: (s ++ [0x7d])) (SpellsBare (.object ms)) := by
  obtain ⟨u, hu, hquote⟩ := h
  refine ⟨_, .object hu, fun t _ => ?_⟩
  obtain ⟨hstops, hclose⟩ := quoteWide_mark (b := 0x7d) (by decide) t
  simp only [List.cons_append, List.append_assoc, List.nil_append]
  rw [(quoteWide_mark (by decide) _).2, hquote _ hstops, hclose]

/-- The scan of an item is that of a list of it, -/
theorem QuotesTo.oneItem (h : QuotesTo s (Spells d)) : QuotesTo s (SpellsItems [d]) := by
  obtain ⟨u, hu, hquote⟩ := h
  exact ⟨u, .one hu, hquote⟩

/-- and of more items a comma stands between them. -/
theorem QuotesTo.moreItems (h : QuotesTo s (Spells d)) (hrest : QuotesTo t (SpellsItems ds)) :
    QuotesTo (s ++ 0x2c :: t) (SpellsItems (d :: ds)) := by
  obtain ⟨u, hu, hquote⟩ := h
  obtain ⟨v, hv, hquotes⟩ := hrest
  refine ⟨_, .more hu hv, fun r hr => ?_⟩
  -- A number at the end of the item ends before the comma.
  obtain ⟨hstops, hcomma⟩ := quoteWide_mark (b := 0x2c) (by decide) (t ++ r)
  simp only [List.append_assoc, List.cons_append]
  rw [hquote _ hstops, hcomma, hquotes r hr]

/-- The scan of what stands for a name, up to where a number would end, is the name in quotes. -/
def QuotesToName (n name : Octets) : Prop :=
  TextBody name ∧ ∀ t, Stops t → quoteWide (n ++ t) = 0x22 :: (name ++ 0x22 :: quoteWide t)

/-- A name in quotes is passed on. -/
theorem quotesToName_text {name : Octets} (h : TextBody name) :
    QuotesToName (0x22 :: (name ++ [0x22])) name :=
  ⟨h, fun t _ => by simp [quoteWide_text h]⟩

section Members

variable {a n e name : Octets}

/-- A name and the colon behind it. -/
theorem QuotesToName.colon (h : QuotesToName n name) (ha : Blanks a) (he : Blanks e)
    (t : Octets) : quoteWide (a ++ (n ++ (e ++ 0x3a :: t))) =
      a ++ 0x22 :: (name ++ 0x22 :: (e ++ 0x3a :: quoteWide t)) := by
  obtain ⟨hstops, hcolon⟩ := quoteWide_mark (b := 0x3a) (by decide) t
  rw [quoteWide_blanks ha, h.2 _ (.blanks he hstops), quoteWide_blanks he, hcolon]

/-- The scan of a member passes its name and the colon on, -/
theorem QuotesTo.oneMember (hname : QuotesToName n name) (ha : Blanks a) (he : Blanks e)
    (h : QuotesTo s (Spells d)) :
    QuotesTo (a ++ (n ++ (e ++ 0x3a :: s))) (SpellsMembers [(name, d)]) := by
  obtain ⟨u, hu, hquote⟩ := h
  refine ⟨_, .one ha hname.1 he hu, fun t ht => ?_⟩
  simp only [List.append_assoc, List.cons_append]
  rw [hname.colon ha he, hquote t ht]

/-- and a comma before the next. -/
theorem QuotesTo.moreMembers (hname : QuotesToName n name) (ha : Blanks a) (he : Blanks e)
    (h : QuotesTo s (Spells d)) (hrest : QuotesTo t (SpellsMembers ms)) :
    QuotesTo (a ++ (n ++ (e ++ 0x3a :: (s ++ 0x2c :: t)))) (SpellsMembers ((name, d) :: ms)) := by
  obtain ⟨u, hu, hquote⟩ := h
  obtain ⟨v, hv, hquotes⟩ := hrest
  refine ⟨_, .more ha hname.1 he hu hv, fun r hr => ?_⟩
  obtain ⟨hstops, hcomma⟩ := quoteWide_mark (b := 0x2c) (by decide) (t ++ r)
  simp only [List.append_assoc, List.cons_append]
  rw [hname.colon ha he, hquote _ hstops, hcomma, hquotes r hr]

end Members

/-- At the end of a text the scan has nothing left to pass on. -/
theorem QuotesTo.of_whole {p : Octets → Prop} (h : QuotesTo s p) : p (quoteWide s) := by
  obtain ⟨u, hu, hquote⟩ := h
  have hs := hquote [] (avoids_nil _)
  rw [List.append_nil] at hs
  rw [hs]
  simpa [Json.quoteWide, quoteFrom, Scan.flush] using hu

end Trees

mutual

/-- The scan of a tree's text is a text of the quoted tree. -/
theorem quoteWide_bare {d : Doc} {s : Octets} (h : SpellsBare d s) :
    QuotesTo s (SpellsBare d.quoted) := by
  cases h with
  | null => exact ⟨_, .null, fun t _ => rfl⟩
  | isTrue => exact ⟨_, .isTrue, fun t _ => rfl⟩
  | isFalse => exact ⟨_, .isFalse, fun t _ => rfl⟩
  | number hl =>
    -- The literal is one token of the scan, because a number ends before what follows it.
    cases hwide : isWide s with
    | true =>
      refine ⟨0x22 :: (s ++ [0x22]), ?_, fun t ht => ?_⟩
      · rw [quoted, quotedLiteral_of_wide hwide]
        exact .text (textBody_of_inNumber hl.inNumber)
      · rw [quoteWide_literal hl ht, quoteToken, if_pos hwide]
        simp
    | false =>
      refine ⟨s, ?_, fun t ht => ?_⟩
      · rw [quoted, quotedLiteral_of_not_wide hwide]
        exact .number hl
      · rw [quoteWide_literal hl ht, quoteToken, hwide]
        rfl
  | @text raw hraw => exact ⟨_, .text hraw, fun t _ => by simp [quoteWide_text hraw]⟩
  | @emptyArray b hb =>
    refine ⟨_, .emptyArray hb, fun t _ => ?_⟩
    simp only [List.cons_append, List.append_assoc, List.nil_append]
    rw [(quoteWide_mark (by decide) _).2, quoteWide_blanks hb, (quoteWide_mark (by decide) _).2]
  | array hitems => exact (quoteWide_items hitems).array
  | @emptyObject b hb =>
    refine ⟨_, .emptyObject hb, fun t _ => ?_⟩
    simp only [List.cons_append, List.append_assoc, List.nil_append]
    rw [(quoteWide_mark (by decide) _).2, quoteWide_blanks hb, (quoteWide_mark (by decide) _).2]
  | object hmembers => exact (quoteWide_members hmembers).object

/-- The scan of items is a text of the quoted items, -/
theorem quoteWide_items {ds : List Doc} {s : Octets} (h : SpellsItems ds s) :
    QuotesTo s (SpellsItems (quotedItems ds)) := by
  cases h with
  | one h =>
    obtain ⟨hb, hs, hc⟩ := h
    exact ((quoteWide_bare hs).padded hb hc).oneItem
  | more h hrest =>
    obtain ⟨hb, hs, hc⟩ := h
    exact ((quoteWide_bare hs).padded hb hc).moreItems (quoteWide_items hrest)

/-- and that of members has their names as they were. -/
theorem quoteWide_members {ms : List (Octets × Doc)} {s : Octets} (h : SpellsMembers ms s) :
    QuotesTo s (SpellsMembers (quotedMembers ms)) := by
  cases h with
  -- Names are quoted already, so only the value changes.
  | one ha hname he h =>
    obtain ⟨hb, hs, hc⟩ := h
    have hmember := ((quoteWide_bare hs).padded hb hc).oneMember (quotesToName_text hname) ha he
    simp only [List.append_assoc, List.cons_append, List.nil_append] at hmember ⊢
    exact hmember
  | more ha hname he h hrest =>
    obtain ⟨hb, hs, hc⟩ := h
    have hmembers := ((quoteWide_bare hs).padded hb hc).moreMembers (quotesToName_text hname) ha he
      (quoteWide_members hrest)
    simp only [List.append_assoc, List.cons_append, List.nil_append] at hmembers ⊢
    exact hmembers

end

/-- The quoted text of a document spells the quoted tree. -/
theorem Spells.quoteWide {d : Doc} {s : Octets} (h : Spells d s) :
    Spells d.quoted (quoteWide s) := by
  obtain ⟨hb, hs, hc⟩ := h
  exact ((quoteWide_bare hs).padded hb hc).of_whole

/-- Quoting a text that spells a tree gives a text that spells the tree with exactly the wide
integer literals replaced by texts of the same characters, and no other tree; and so it is read. -/
theorem quoteWide_keeps_structure {d : Doc} {s : Octets} (h : Spells d s) :
    Spells d.quoted (Json.quoteWide s) ∧ (∀ e, Spells e (Json.quoteWide s) → e = d.quoted) ∧
      read (Json.quoteWide s) = (d.quoted, true) :=
  ⟨h.quoteWide, fun _ he => he.unique h.quoteWide, read_eq_iff.2 h.quoteWide⟩

/-- A wide integer behind an escaped quote stays, one outside of texts is quoted, and a float that
is as wide is not. -/
theorem quoteWide_keeps_escaped_digits :
    ∃ d s,
      s = Octets.ofText "\x7b\"\\\"18446744073709551616\": [18446744073709551616,-9e99]\x7d" ∧
      Spells d s ∧ Spells d.quoted (Json.quoteWide s) ∧ Json.quoteWide s =
        Octets.ofText "\x7b\"\\\"18446744073709551616\": [\"18446744073709551616\",-9e99]\x7d" := by
  obtain ⟨s, hs⟩ : ∃ s,
      s = Octets.ofText "\x7b\"\\\"18446744073709551616\": [18446744073709551616,-9e99]\x7d" :=
    ⟨_, rfl⟩
  -- The reader accepts the text, which makes it a spelling of what was read.
  have hread : (read s).2 = true := by
    rw [hs]
    decide +kernel
  have hspells : Spells (read s).1 s := read_eq_iff.1 (Prod.ext rfl hread)
  refine ⟨_, s, hs, hspells, (quoteWide_keeps_structure hspells).1, ?_⟩
  rw [hs]
  decide +kernel

end ChainFollower.Doc
