import ChainFollower.Proofs.Json.Quoting
import ChainFollower.Proofs.Json.Reading
import ChainFollower.Protocol.Envelope

/-!
# What quoting lets in

The pass that quotes wide integers turns some texts into documents that were none before.  There are
two ways in which it does: a wide integer may have leading zeros, and it may stand without quotes
where a name has to.  `Doc.Admits` is the grammar with these two slips added, and it is exactly what
is decoded.

Main statements: `Doc.spells_quoteWide_iff` and `Json.decode_admits`.
-/

namespace ChainFollower

namespace Doc

open Json (quoteFrom quoteWide quoteToken isWide Scan)

/-! ## The grammar with slips -/

/-- A departure from the grammar that quoting makes good. -/
inductive Slip
  /-- A wide integer with leading zeros. -/
  | zeros (token : Octets)
  /-- A wide integer where a name has to stand. -/
  | name (token : Octets)

/-- The text is a member's name with its quotes, or a wide integer in the place of one. -/
inductive AdmitsName : Octets → Octets → List Slip → Prop
  | text {raw : Octets} (h : TextBody raw) : AdmitsName raw (0x22 :: (raw ++ [0x22])) []
  | wide {token : Octets} (h : isWide token = true) : AdmitsName token token [.name token]

mutual

/-- The text spells the tree but for some slips, without blanks around it. -/
inductive AdmitsBare : Doc → Octets → List Slip → Prop
  | spelled {d : Doc} {s : Octets} (h : SpellsBare d s) : AdmitsBare d s []
  | wide {token : Octets} (h : isWide token = true) (hzeros : ¬ NumberLiteral token) :
      AdmitsBare (.number token) token [.zeros token]
  | array {items : List Doc} {s : Octets} {slips : List Slip} (h : AdmitsItems items s slips) :
      AdmitsBare (.array items) (0x5b :: (s ++ [0x5d])) slips
  | object {members : List (Octets × Doc)} {s : Octets} {slips : List Slip}
      (h : AdmitsMembers members s slips) :
      AdmitsBare (.object members) (0x7b :: (s ++ [0x7d])) slips

/-- The text spells the tree but for some slips. -/
inductive Admits : Doc → Octets → List Slip → Prop
  | padded {d : Doc} {b s c : Octets} {slips : List Slip} (hb : Blanks b)
      (h : AdmitsBare d s slips) (hc : Blanks c) : Admits d (b ++ (s ++ c)) slips

/-- The text spells items but for some slips. -/
inductive AdmitsItems : List Doc → Octets → List Slip → Prop
  | one {d : Doc} {s : Octets} {slips : List Slip} (h : Admits d s slips) :
      AdmitsItems [d] s slips
  | more {d : Doc} {items : List Doc} {s t : Octets} {slips others : List Slip}
      (h : Admits d s slips) (hrest : AdmitsItems items t others) :
      AdmitsItems (d :: items) (s ++ 0x2c :: t) (slips ++ others)

/-- The text spells members but for some slips. -/
inductive AdmitsMembers : List (Octets × Doc) → Octets → List Slip → Prop
  | one {name : Octets} {d : Doc} {b n c s : Octets} {slips others : List Slip} (hb : Blanks b)
      (hname : AdmitsName name n slips) (hc : Blanks c) (h : Admits d s others) :
      AdmitsMembers [(name, d)] (b ++ (n ++ (c ++ 0x3a :: s))) (slips ++ others)
  | more {name : Octets} {d : Doc} {members : List (Octets × Doc)} {b n c s t : Octets}
      {slips others more : List Slip} (hb : Blanks b) (hname : AdmitsName name n slips)
      (hc : Blanks c) (h : Admits d s others) (hrest : AdmitsMembers members t more) :
      AdmitsMembers ((name, d) :: members) (b ++ (n ++ (c ++ 0x3a :: (s ++ 0x2c :: t))))
        (slips ++ (others ++ more))

end

/-! ## Wide tokens -/

/-- A wide token is a sign, or none, and digits. -/
theorem digits_of_wide {token : Octets} (h : isWide token = true) :
    ∃ sign ds, (sign = [] ∨ sign = [0x2d]) ∧ token = sign ++ ds ∧ Digits ds := by
  unfold isWide at h
  split at h
  all_goals
    simp only [Bool.and_eq_true, Bool.not_eq_true', List.isEmpty_eq_false_iff,
      List.all_eq_true] at h
  · exact ⟨[0x2d], _, .inr rfl, rfl, h.1⟩
  · exact ⟨[], _, .inl rfl, rfl, h.1⟩

/-- A wide token begins like a number. -/
theorem exists_cons_of_wide {token : Octets} (h : isWide token = true) :
    ∃ b t, token = b :: t ∧ (b == 0x2d || isDigit b) = true := by
  obtain ⟨sign, ds, hsign, rfl, hne, hds⟩ := digits_of_wide h
  rcases hsign with rfl | rfl
  · obtain ⟨d, ds, rfl⟩ := List.exists_cons_of_ne_nil hne
    exact ⟨d, ds, rfl, by simp [hds d List.mem_cons_self]⟩
  · exact ⟨_, _, rfl, rfl⟩

/-- All its bytes are those of numbers. -/
theorem inNumber_of_wide {token : Octets} (h : isWide token = true) :
    ∀ b ∈ token, InNumber b := by
  obtain ⟨sign, ds, hsign, rfl, hds⟩ := digits_of_wide h
  refine List.forall_mem_append.2 ⟨?_, hds.inNumber⟩
  rcases hsign with rfl | rfl
  · exact List.forall_mem_nil _
  · exact List.forall_mem_singleton.2 (by decide)

/-- A wide token is put between quotes. -/
theorem quoteWide_wide {token s : Octets} (h : isWide token = true) (hs : Stops s) :
    quoteWide (token ++ s) = 0x22 :: (token ++ 0x22 :: quoteWide s) := by
  rw [quoteWide_token (exists_cons_of_wide h) (inNumber_of_wide h) hs, quoteToken, if_pos h]
  simp

/-! ## Admitted texts are quoted to documents -/

/-- What is admitted as a name is scanned to the name in quotes. -/
theorem quotesToName_of_admitsName {name n : Octets} {slips : List Slip}
    (h : AdmitsName name n slips) : QuotesToName n name := by
  cases h with
  | text h => exact quotesToName_text h
  | wide h =>
    exact ⟨textBody_of_inNumber (inNumber_of_wide h), fun t ht => quoteWide_wide h ht⟩

mutual

/-- The scan of what is admitted is a text of the quoted tree. -/
theorem quotesTo_of_admitsBare {d : Doc} {s : Octets} {slips : List Slip}
    (h : AdmitsBare d s slips) : QuotesTo s (SpellsBare d.quoted) := by
  cases h with
  | spelled h => exact quoteWide_bare h
  -- The wide literal is quoted as a token, leading zeros and all.
  | wide h =>
    refine ⟨0x22 :: (s ++ [0x22]), ?_, fun t ht => ?_⟩
    · rw [quoted, quotedLiteral_of_wide h]
      exact .text (textBody_of_inNumber (inNumber_of_wide h))
    · rw [quoteWide_wide h ht]
      simp
  | array hitems => exact (quotesTo_of_admitsItems hitems).array
  | object hmembers => exact (quotesTo_of_admitsMembers hmembers).object

/-- The scan of admitted items is a text of the quoted items, -/
theorem quotesTo_of_admitsItems {ds : List Doc} {s : Octets} {slips : List Slip}
    (h : AdmitsItems ds s slips) : QuotesTo s (SpellsItems (quotedItems ds)) := by
  cases h with
  | one h =>
    obtain ⟨hb, hs, hc⟩ := h
    exact ((quotesTo_of_admitsBare hs).padded hb hc).oneItem
  | more h hrest =>
    obtain ⟨hb, hs, hc⟩ := h
    exact ((quotesTo_of_admitsBare hs).padded hb hc).moreItems (quotesTo_of_admitsItems hrest)

/-- and that of admitted members has a name for each. -/
theorem quotesTo_of_admitsMembers {ms : List (Octets × Doc)} {s : Octets} {slips : List Slip}
    (h : AdmitsMembers ms s slips) : QuotesTo s (SpellsMembers (quotedMembers ms)) := by
  cases h with
  | one ha hname he h =>
    obtain ⟨hb, hs, hc⟩ := h
    exact ((quotesTo_of_admitsBare hs).padded hb hc).oneMember (quotesToName_of_admitsName hname)
      ha he
  | more ha hname he h hrest =>
    obtain ⟨hb, hs, hc⟩ := h
    exact ((quotesTo_of_admitsBare hs).padded hb hc).moreMembers
      (quotesToName_of_admitsName hname) ha he (quotesTo_of_admitsMembers hrest)

end

/-- What is admitted is quoted to a text of the quoted tree. -/
theorem Admits.quoteWide {d : Doc} {s : Octets} {slips : List Slip} (h : Admits d s slips) :
    Spells d.quoted (quoteWide s) := by
  obtain ⟨hb, h, hc⟩ := h
  exact ((quotesTo_of_admitsBare h).padded hb hc).of_whole

/-! ## The scan read backwards -/

/-- A byte outside texts that opens neither a text nor a number. -/
def Plain (b : UInt8) : Prop := b ≠ 0x22 ∧ b ≠ 0x2d ∧ isDigit b = false

instance : DecidablePred Plain := fun _ => inferInstanceAs (Decidable (_ ∧ _))

/-- The bytes of numbers at the start of a text, as many as there are. -/
theorem exists_run (s : Octets) : ∃ l t, s = l ++ t ∧ (∀ b ∈ l, InNumber b) ∧ Stops t := by
  induction s with
  | nil => exact ⟨[], [], rfl, List.forall_mem_nil _, avoids_nil _⟩
  | cons b s ih =>
    by_cases hb : InNumber b
    · obtain ⟨l, t, rfl, hl, ht⟩ := ih
      exact ⟨b :: l, t, rfl, List.forall_mem_cons.2 ⟨hb, hl⟩, ht⟩
    · exact ⟨[], b :: s, rfl, List.forall_mem_nil _, avoids_cons hb⟩

/-- Two runs of bytes of numbers that begin the same text, as long as can be, are the same. -/
theorem eq_of_runs {l m t r : Octets} (hl : ∀ b ∈ l, InNumber b) (ht : Stops t)
    (hm : ∀ b ∈ m, InNumber b) (hr : Stops r) (h : l ++ t = m ++ r) : l = m ∧ t = r := by
  -- Neither run can end before the other, for what follows a run is no part of a number.
  induction l generalizing m with
  | nil =>
    cases m with
    | nil => exact ⟨rfl, h⟩
    | cons b m => exact absurd (hm b List.mem_cons_self) (ht b _ h)
  | cons b l ih =>
    cases m with
    | nil => exact absurd (hl b List.mem_cons_self) (hr b _ h.symm)
    | cons c m =>
      obtain ⟨rfl, hrest⟩ := List.cons.inj h
      obtain ⟨rfl, rfl⟩ := ih (List.forall_mem_cons.1 hl).2 (List.forall_mem_cons.1 hm).2 hrest
      exact ⟨rfl, rfl⟩

/-- What the scan of a text begins with, and what it goes on with. -/
inductive Emits : Octets → UInt8 → Octets → Prop
  | quote (t : Octets) : Emits (0x22 :: t) 0x22 (quoteFrom .inText t)
  | wide {token t : Octets} (h : isWide token = true) :
      Emits (token ++ t) 0x22 (token ++ 0x22 :: quoteWide t)
  | number {b : UInt8} {l t : Octets} (hb : ¬ Plain b) (hall : ∀ c ∈ b :: l, InNumber c)
      (hnarrow : isWide (b :: l) = false) (ht : Stops t) :
      Emits (b :: l ++ t) b (l ++ quoteWide t)
  | plain {b : UInt8} {t : Octets} (hb : Plain b) : Emits (b :: t) b (quoteWide t)

section Backwards

variable {s u v : Octets}

/-- The scan of a text that is not empty puts something out. -/
theorem exists_emits (c : UInt8) (s : Octets) :
    ∃ b v, quoteWide (c :: s) = b :: v ∧ Emits (c :: s) b v := by
  by_cases hquote : c = 0x22
  · subst hquote
    exact ⟨_, _, rfl, .quote s⟩
  by_cases hnumber : (c == 0x2d || isDigit c) = true
  · -- A number takes all bytes of numbers that follow.
    obtain ⟨l, t, rfl, hl, ht⟩ := exists_run s
    have hall : ∀ b ∈ c :: l, InNumber b :=
      List.forall_mem_cons.2 ⟨inNumber_of_first hnumber, hl⟩
    rw [← List.cons_append, quoteWide_token ⟨c, l, rfl, hnumber⟩ hall ht, quoteToken]
    split
    · next hwide => exact ⟨_, _, by simp, .wide hwide⟩
    · next hnarrow =>
      refine ⟨_, _, rfl, .number (fun hplain => ?_) hall (Bool.eq_false_iff.2 hnarrow) ht⟩
      simp [hplain.2.1, hplain.2.2] at hnumber
  · simp only [Bool.or_eq_true, beq_iff_eq, not_or, Bool.not_eq_true] at hnumber
    exact ⟨_, _, quoteWide_plain hquote hnumber.1 hnumber.2, .plain ⟨hquote, hnumber⟩⟩

/-- What the scan begins with tells what the text begins with. -/
theorem emits {b : UInt8} (h : quoteWide s = b :: v) : Emits s b v := by
  cases s with
  | nil => cases h
  | cons c s =>
    obtain ⟨b', v', hs, hemits⟩ := exists_emits c s
    rw [h] at hs
    obtain ⟨rfl, rfl⟩ := List.cons.inj hs
    exact hemits

/-- Nothing is put out only for nothing. -/
theorem eq_nil_of_quoteWide (h : quoteWide s = []) : s = [] := by
  cases s with
  | nil => rfl
  | cons c s =>
    obtain ⟨b, v, hs, -⟩ := exists_emits c s
    rw [h] at hs
    cases hs

/-- What the scan puts out begins with a byte of a number only if the text does. -/
theorem Stops.quoteWide (h : Stops s) : Stops (quoteWide s) := by
  intro b v hv
  cases emits hv with
  | quote | wide => decide
  | number _ hall => exact absurd (hall b List.mem_cons_self) (h b _ rfl)
  | plain => exact h b _ rfl

/-- Plain bytes that are put out stand in the text. -/
theorem quoteWide_eq_plain (hu : ∀ b ∈ u, Plain b) (h : quoteWide s = u ++ v) :
    ∃ t, s = u ++ t ∧ quoteWide t = v := by
  induction u generalizing s with
  | nil => exact ⟨s, rfl, h⟩
  | cons b u ih =>
    obtain ⟨hb, hu⟩ := List.forall_mem_cons.1 hu
    rw [List.cons_append] at h
    generalize hrest : u ++ v = rest at h
    -- Plain octets are copied one for one; a quote or a digit cannot have produced them.
    cases emits h with
    | quote => exact absurd rfl hb.1
    | wide => exact absurd rfl hb.1
    | number hnot => exact absurd hb hnot
    | plain =>
      obtain ⟨t, rfl, ht⟩ := ih hu hrest.symm
      exact ⟨t, rfl, ht⟩

/-- A number that is put out stands in the text, and no word is too small for it. -/
theorem quoteWide_eq_number {l : Octets} (hl : NumberLiteral l) (hv : Stops v)
    (h : quoteWide s = l ++ v) : isWide l = false ∧ ∃ t, s = l ++ t ∧ quoteWide t = v := by
  have hruns := hl.inNumber
  obtain ⟨b, r, rfl, hb⟩ := hl.exists_cons
  rw [List.cons_append] at h
  generalize hrest : r ++ v = rest at h
  cases emits h with
  | quote => exact absurd hb (by decide)
  | wide => exact absurd hb (by decide)
  | @number _ l t _ hall hnarrow ht =>
    -- Both are all bytes of numbers at the start of what is put out.
    obtain ⟨heq, rfl⟩ := eq_of_runs hruns hv hall ht.quoteWide (congrArg (b :: ·) hrest)
    obtain ⟨-, rfl⟩ := List.cons.inj heq
    exact ⟨hnarrow, t, rfl, rfl⟩
  | plain hplain => simp [hplain.2.1, hplain.2.2] at hb

/-! ### Texts -/

/-- Where the scan of a text's inside stands after a byte of it. -/
def within (b : UInt8) : Scan :=
  if b == 0x5c then .escaped else if b == 0x22 then .outside else .inText

/-- Inside of a text each byte that is put out stands there, -/
theorem quoteFrom_inText_eq {b : UInt8} (h : quoteFrom .inText s = b :: v) :
    ∃ t, s = b :: t ∧ quoteFrom (within b) t = v := by
  cases s with
  | nil => cases h
  | cons c s =>
    have hstep : Scan.step .inText c = (within c, [c]) := by
      simp only [Scan.step, within]
      split
      · rfl
      · split <;> rfl
    rw [quoteFrom, hstep] at h
    obtain ⟨rfl, hrest⟩ := List.cons.inj h
    exact ⟨s, rfl, hrest⟩

/-- and so does one behind a backslash. -/
theorem quoteFrom_escaped_eq {b : UInt8} (h : quoteFrom .escaped s = b :: v) :
    ∃ t, s = b :: t ∧ quoteFrom .inText t = v := by
  cases s with
  | nil => cases h
  | cons c s =>
    obtain ⟨rfl, hrest⟩ := List.cons.inj (show c :: quoteFrom .inText s = b :: v from h)
    exact ⟨s, rfl, hrest⟩

/-- The inside of a text that is put out is the inside of a text. -/
theorem quoteFrom_eq_body {raw : Octets} (hraw : TextBody raw)
    (h : quoteFrom .inText s = raw ++ 0x22 :: v) : ∃ t, s = raw ++ 0x22 :: t ∧ quoteWide t = v := by
  -- Along the body: after each piece the scan is inside of the text again.
  induction hraw generalizing s with
  | nil =>
    obtain ⟨t, rfl, ht⟩ := quoteFrom_inText_eq h
    exact ⟨t, rfl, ht⟩
  | @plain b raw _ hquote hescape _ ih =>
    obtain ⟨t, rfl, ht⟩ := quoteFrom_inText_eq h
    rw [within, if_neg (by simpa using hescape), if_neg (by simpa using hquote)] at ht
    obtain ⟨r, rfl, hr⟩ := ih ht
    exact ⟨r, rfl, hr⟩
  | escape _ _ ih =>
    obtain ⟨s₁, rfl, h₁⟩ := quoteFrom_inText_eq h
    obtain ⟨s₂, rfl, h₂⟩ := quoteFrom_escaped_eq h₁
    obtain ⟨r, rfl, hr⟩ := ih h₂
    exact ⟨r, rfl, hr⟩
  | @codePoint a b c d raw ha hb hc hd _ ih =>
    -- The four digits are put out as plain bytes of the text.
    have hdigit : ∀ {x : UInt8} {s v : Octets}, isHexDigit x = true →
        quoteFrom .inText s = x :: v → ∃ t, s = x :: t ∧ quoteFrom .inText t = v := by
      intro x s v hx hs
      have hwithin : within x = .inText := by
        rw [within, if_neg, if_neg]
        · rw [beq_iff_eq]
          rintro rfl
          exact absurd hx (by decide)
        · rw [beq_iff_eq]
          rintro rfl
          exact absurd hx (by decide)
      obtain ⟨t, rfl, ht⟩ := quoteFrom_inText_eq hs
      exact ⟨t, rfl, hwithin ▸ ht⟩
    obtain ⟨s₁, rfl, h₁⟩ := quoteFrom_inText_eq h
    obtain ⟨s₂, rfl, h₂⟩ := quoteFrom_escaped_eq h₁
    obtain ⟨s₃, rfl, h₃⟩ := hdigit ha h₂
    obtain ⟨s₄, rfl, h₄⟩ := hdigit hb h₃
    obtain ⟨s₅, rfl, h₅⟩ := hdigit hc h₄
    obtain ⟨s₆, rfl, h₆⟩ := hdigit hd h₅
    obtain ⟨r, rfl, hr⟩ := ih h₆
    exact ⟨r, rfl, hr⟩

/-- A text that is put out stands in the text, or a wide integer stands there. -/
theorem quoteWide_eq_text {raw : Octets} (hraw : TextBody raw)
    (h : quoteWide s = 0x22 :: (raw ++ 0x22 :: v)) :
    ∃ n t, s = n ++ t ∧ quoteWide t = v ∧
      (n = 0x22 :: (raw ++ [0x22]) ∨ n = raw ∧ isWide raw = true) := by
  generalize hrest : raw ++ 0x22 :: v = rest at h
  generalize hq : (0x22 : UInt8) = q at h
  cases emits h with
  | quote t =>
    obtain ⟨t, rfl, ht⟩ := quoteFrom_eq_body hraw hrest.symm
    exact ⟨_, t, by simp, ht, .inl rfl⟩
  | @wide token t hwide =>
    -- A text ends at its first quote, so what is put out in quotes is the token.
    have hscan := scanText_of_body hraw v
    rw [hrest, scanText_of_body (textBody_of_inNumber (inNumber_of_wide hwide))] at hscan
    obtain ⟨rfl, rfl⟩ := Prod.mk.inj (Option.some.inj hscan)
    exact ⟨_, t, rfl, rfl, .inr ⟨rfl, hwide⟩⟩
  | number _ hall => exact absurd (hq ▸ hall _ List.mem_cons_self) (by decide)
  | plain hplain => exact absurd hq.symm hplain.1

end Backwards

/-! ## Documents are quoted from admitted texts -/

/-- The text is admitted as some tree that is quoted to this one. -/
def Admitted (e : Doc) (r : Octets) : Prop := ∃ d slips, Admits d r slips ∧ d.quoted = e

/-- `Admitted` without blanks around the text. -/
def AdmittedBare (e : Doc) (r : Octets) : Prop := ∃ d slips, AdmitsBare d r slips ∧ d.quoted = e

/-- `Admitted` for items. -/
def AdmittedItems (es : List Doc) (r : Octets) : Prop :=
  ∃ ds slips, AdmitsItems ds r slips ∧ quotedItems ds = es

/-- `Admitted` for members. -/
def AdmittedMembers (es : List (Octets × Doc)) (r : Octets) : Prop :=
  ∃ ms slips, AdmitsMembers ms r slips ∧ quotedMembers ms = es

/-- What the scan puts out as `u`, up to where a number would end, it puts out for a text of which
`p` holds. -/
def QuotesFrom (u : Octets) (p : Octets → Prop) : Prop :=
  ∀ s v, Stops v → quoteWide s = u ++ v → ∃ r t, p r ∧ s = r ++ t ∧ quoteWide t = v

/-- Blanks are plain, -/
theorem plain_of_blanks {b : Octets} (hb : Blanks b) : ∀ c ∈ b, Plain c := by
  intro c hc
  have hblank := hb c hc
  simp only [isBlank, Bool.or_eq_true, beq_iff_eq] at hblank
  rcases hblank with ((rfl | rfl) | rfl) | rfl <;> decide

/-- and whether some bytes are can be tested. -/
theorem plain_of_all {u : Octets} (h : u.all (fun b => decide (Plain b)) = true) :
    ∀ b ∈ u, Plain b := fun b hb => of_decide_eq_true (List.all_eq_true.1 h b hb)

section Trees

variable {e : Doc} {es : List Doc} {ms : List (Octets × Doc)} {b c u w name : Octets}

/-- Plain bytes that spell a tree are put out for themselves. -/
theorem QuotesFrom.of_spelled (hu : ∀ b ∈ u, Plain b) (h : SpellsBare e u) (hquoted : e.quoted = e) :
    QuotesFrom u (AdmittedBare e) := by
  intro s v _ hs
  obtain ⟨t, rfl, ht⟩ := quoteWide_eq_plain hu hs
  exact ⟨u, t, ⟨e, [], .spelled h, hquoted⟩, rfl, ht⟩

/-- Blanks around a tree stood there before. -/
theorem QuotesFrom.padded (hb : Blanks b) (hc : Blanks c) (h : QuotesFrom u (AdmittedBare e)) :
    QuotesFrom (b ++ (u ++ c)) (Admitted e) := by
  intro s v hv hs
  simp only [List.append_assoc] at hs
  obtain ⟨s₁, rfl, h₁⟩ := quoteWide_eq_plain (plain_of_blanks hb) hs
  obtain ⟨r, s₂, ⟨d, slips, hd, rfl⟩, rfl, h₂⟩ := h _ _ (.blanks hc hv) h₁
  obtain ⟨t, rfl, ht⟩ := quoteWide_eq_plain (plain_of_blanks hc) h₂
  exact ⟨b ++ (r ++ c), t, ⟨d, slips, .padded hb hd hc, rfl⟩, by simp, ht⟩

/-- A bracket that is put out stands in the text. -/
theorem quoteWide_eq_mark {b : UInt8} (hb : Plain b) {s v : Octets} (h : quoteWide s = b :: v) :
    ∃ t, s = b :: t ∧ quoteWide t = v :=
  quoteWide_eq_plain (u := [b]) (List.forall_mem_singleton.2 hb) h

/-- So did the brackets of an array, around what is admitted as its items, -/
theorem QuotesFrom.array (h : QuotesFrom u (AdmittedItems es)) :
    QuotesFrom (0x5b :: (u ++ [0x5d])) (AdmittedBare (.array es)) := by
  intro s v _ hs
  simp only [List.cons_append, List.append_assoc, List.nil_append] at hs
  obtain ⟨s₁, rfl, h₁⟩ := quoteWide_eq_mark (by decide) hs
  obtain ⟨r, s₂, ⟨ds, slips, hds, rfl⟩, rfl, h₂⟩ := h _ _ (.of_not (by decide)) h₁
  obtain ⟨t, rfl, ht⟩ := quoteWide_eq_mark (by decide) h₂
  exact ⟨0x5b :: (r ++ [0x5d]), t, ⟨.array ds, slips, .array hds, rfl⟩, by simp, ht⟩

/-- and the braces of an object. -/
theorem QuotesFrom.object (h : QuotesFrom u (AdmittedMembers ms)) :
    QuotesFrom (0x7b :: (u ++ [0x7d])) (AdmittedBare (.object ms)) := by
  intro s v _ hs
  simp only [List.cons_append, List.append_assoc, List.nil_append] at hs
  obtain ⟨s₁, rfl, h₁⟩ := quoteWide_eq_mark (by decide) hs
  obtain ⟨r, s₂, ⟨ds, slips, hds, rfl⟩, rfl, h₂⟩ := h _ _ (.of_not (by decide)) h₁
  obtain ⟨t, rfl, ht⟩ := quoteWide_eq_mark (by decide) h₂
  exact ⟨0x7b :: (r ++ [0x7d]), t, ⟨.object ds, slips, .object hds, rfl⟩, by simp, ht⟩

/-- An item that is put out was admitted as one, -/
theorem QuotesFrom.oneItem (h : QuotesFrom u (Admitted e)) :
    QuotesFrom u (AdmittedItems [e]) := by
  intro s v hv hs
  obtain ⟨r, t, ⟨d, slips, hd, rfl⟩, rfl, ht⟩ := h s v hv hs
  exact ⟨r, t, ⟨[d], slips, .one hd, rfl⟩, rfl, ht⟩

/-- and more items were admitted one by one. -/
theorem QuotesFrom.moreItems (h : QuotesFrom u (Admitted e))
    (hrest : QuotesFrom w (AdmittedItems es)) :
    QuotesFrom (u ++ 0x2c :: w) (AdmittedItems (e :: es)) := by
  intro s v hv hs
  simp only [List.append_assoc, List.cons_append] at hs
  obtain ⟨r, s₁, ⟨d, slips, hd, rfl⟩, rfl, h₁⟩ := h _ _ (.of_not (by decide)) hs
  obtain ⟨s₂, rfl, h₂⟩ := quoteWide_eq_mark (by decide) h₁
  obtain ⟨q, t, ⟨ds, others, hds, rfl⟩, rfl, ht⟩ := hrest _ _ hv h₂
  exact ⟨r ++ 0x2c :: q, t, ⟨d :: ds, slips ++ others, .more hd hds, rfl⟩, by simp, ht⟩

/-- What is put out as a name and a colon. -/
theorem quoteWide_eq_name (hb : Blanks b) (hname : TextBody name) (hc : Blanks c) {s v : Octets}
    (h : quoteWide s = b ++ 0x22 :: (name ++ 0x22 :: (c ++ 0x3a :: v))) :
    ∃ n slips t, AdmitsName name n slips ∧ s = b ++ (n ++ (c ++ 0x3a :: t)) ∧ quoteWide t = v := by
  obtain ⟨s₁, rfl, h₁⟩ := quoteWide_eq_plain (plain_of_blanks hb) h
  obtain ⟨n, s₂, rfl, h₂, hn⟩ := quoteWide_eq_text hname h₁
  obtain ⟨s₃, rfl, h₃⟩ := quoteWide_eq_plain (plain_of_blanks hc) h₂
  obtain ⟨t, rfl, ht⟩ := quoteWide_eq_mark (by decide) h₃
  rcases hn with rfl | ⟨rfl, hwide⟩
  · exact ⟨_, [], t, .text hname, rfl, ht⟩
  · exact ⟨n, _, t, .wide hwide, rfl, ht⟩

/-- A member that is put out was admitted, its name perhaps without quotes, -/
theorem QuotesFrom.oneMember (hb : Blanks b) (hname : TextBody name) (hc : Blanks c)
    (h : QuotesFrom u (Admitted e)) :
    QuotesFrom (b ++ 0x22 :: (name ++ 0x22 :: (c ++ 0x3a :: u))) (AdmittedMembers [(name, e)]) := by
  intro s v hv hs
  simp only [List.append_assoc, List.cons_append] at hs
  obtain ⟨n, slips, s₁, hn, rfl, h₁⟩ := quoteWide_eq_name hb hname hc hs
  obtain ⟨r, t, ⟨d, others, hd, rfl⟩, rfl, ht⟩ := h _ _ hv h₁
  exact ⟨_, t, ⟨[(name, d)], slips ++ others, .one hb hn hc hd, rfl⟩, by simp, ht⟩

/-- and so were more members. -/
theorem QuotesFrom.moreMembers (hb : Blanks b) (hname : TextBody name) (hc : Blanks c)
    (h : QuotesFrom u (Admitted e)) (hrest : QuotesFrom w (AdmittedMembers ms)) :
    QuotesFrom (b ++ 0x22 :: (name ++ 0x22 :: (c ++ 0x3a :: (u ++ 0x2c :: w))))
      (AdmittedMembers ((name, e) :: ms)) := by
  intro s v hv hs
  simp only [List.append_assoc, List.cons_append] at hs
  obtain ⟨n, slips, s₁, hn, rfl, h₁⟩ := quoteWide_eq_name hb hname hc hs
  obtain ⟨r, s₂, ⟨d, others, hd, rfl⟩, rfl, h₂⟩ := h _ _ (.of_not (by decide)) h₁
  obtain ⟨s₃, rfl, h₃⟩ := quoteWide_eq_mark (by decide) h₂
  obtain ⟨q, t, ⟨ds, more, hds, rfl⟩, rfl, ht⟩ := hrest _ _ hv h₃
  exact ⟨_, t, ⟨(name, d) :: ds, slips ++ (others ++ more), .more hb hn hc hd hds, rfl⟩, by simp, ht⟩

end Trees

mutual

/-- The scan puts out the text of a tree only for what is admitted as one. -/
theorem quotesFrom_bare {e : Doc} {u : Octets} (h : SpellsBare e u) :
    QuotesFrom u (AdmittedBare e) := by
  cases h with
  | null => exact .of_spelled (plain_of_all (by decide)) .null rfl
  | isTrue => exact .of_spelled (plain_of_all (by decide)) .isTrue rfl
  | isFalse => exact .of_spelled (plain_of_all (by decide)) .isFalse rfl
  | number hl =>
    intro s v hv hs
    obtain ⟨hnarrow, t, rfl, ht⟩ := quoteWide_eq_number hl hv hs
    exact ⟨u, t, ⟨.number u, [], .spelled (.number hl), quotedLiteral_of_not_wide hnarrow⟩, rfl, ht⟩
  | @text raw hraw =>
    intro s v _ hs
    simp only [List.cons_append, List.append_assoc, List.nil_append] at hs
    obtain ⟨n, t, rfl, ht, rfl | ⟨rfl, hwide⟩⟩ := quoteWide_eq_text hraw hs
    · exact ⟨_, t, ⟨.text raw, [], .spelled (.text hraw), rfl⟩, rfl, ht⟩
    · -- A wide integer is a number of the grammar, or it has leading zeros.
      refine ⟨n, t, ?_, rfl, ht⟩
      by_cases hl : NumberLiteral n
      · exact ⟨.number n, [], .spelled (.number hl), quotedLiteral_of_wide hwide⟩
      · exact ⟨.number n, _, .wide hwide hl, quotedLiteral_of_wide hwide⟩
  | emptyArray hb =>
    refine .of_spelled (List.forall_mem_cons.2 ⟨by decide, List.forall_mem_append.2
      ⟨plain_of_blanks hb, plain_of_all (by decide)⟩⟩) (.emptyArray hb) rfl
  | array hitems => exact (quotesFrom_items hitems).array
  | emptyObject hb =>
    refine .of_spelled (List.forall_mem_cons.2 ⟨by decide, List.forall_mem_append.2
      ⟨plain_of_blanks hb, plain_of_all (by decide)⟩⟩) (.emptyObject hb) rfl
  | object hmembers => exact (quotesFrom_members hmembers).object

/-- The scan puts out the text of items only for what is admitted as items, -/
theorem quotesFrom_items {es : List Doc} {u : Octets} (h : SpellsItems es u) :
    QuotesFrom u (AdmittedItems es) := by
  cases h with
  | one h =>
    obtain ⟨hb, hs, hc⟩ := h
    exact ((quotesFrom_bare hs).padded hb hc).oneItem
  | more h hrest =>
    obtain ⟨hb, hs, hc⟩ := h
    exact ((quotesFrom_bare hs).padded hb hc).moreItems (quotesFrom_items hrest)

/-- and that of members only for what is admitted as members. -/
theorem quotesFrom_members {ms : List (Octets × Doc)} {u : Octets} (h : SpellsMembers ms u) :
    QuotesFrom u (AdmittedMembers ms) := by
  cases h with
  | one ha hname he h =>
    obtain ⟨hb, hs, hc⟩ := h
    exact ((quotesFrom_bare hs).padded hb hc).oneMember ha hname he
  | more ha hname he h hrest =>
    obtain ⟨hb, hs, hc⟩ := h
    exact ((quotesFrom_bare hs).padded hb hc).moreMembers ha hname he (quotesFrom_members hrest)

end

/-- The quoted text spells a tree exactly if the text is admitted as a tree that is quoted to it. -/
theorem spells_quoteWide_iff {e : Doc} {s : Octets} :
    Spells e (quoteWide s) ↔ ∃ d slips, Admits d s slips ∧ d.quoted = e := by
  constructor
  · intro h
    generalize hu : quoteWide s = u at h
    obtain ⟨hb, h, hc⟩ := h
    -- Nothing is left behind the tree, so the whole text has been admitted.
    obtain ⟨r, t, hr, rfl, ht⟩ := (quotesFrom_bare h).padded hb hc s [] (avoids_nil _)
      (by rw [hu, List.append_nil])
    obtain rfl := eq_nil_of_quoteWide ht
    rw [List.append_nil]
    exact hr
  · rintro ⟨d, slips, h, rfl⟩
    exact h.quoteWide

/-! ## Slips are no part of the grammar -/

mutual

/-- What is admitted without slips is spelled. -/
theorem AdmitsBare.spells {d : Doc} {s : Octets} {slips : List Slip} (h : AdmitsBare d s slips)
    (hnone : slips = []) : SpellsBare d s := by
  cases h with
  | spelled h => exact h
  | wide => cases hnone
  | array h => exact .array (h.spells hnone)
  | object h => exact .object (h.spells hnone)

/-- Items without slips are spelled, -/
theorem AdmitsItems.spells {ds : List Doc} {s : Octets} {slips : List Slip}
    (h : AdmitsItems ds s slips) (hnone : slips = []) : SpellsItems ds s := by
  cases h with
  | one h =>
    obtain ⟨hb, h, hc⟩ := h
    exact .one (.padded hb (h.spells hnone) hc)
  | more h hrest =>
    obtain ⟨hb, h, hc⟩ := h
    obtain ⟨hfirst, hothers⟩ := List.append_eq_nil_iff.1 hnone
    exact .more (.padded hb (h.spells hfirst) hc) (hrest.spells hothers)

/-- and so are members: each of their names stands in quotes. -/
theorem AdmitsMembers.spells {ms : List (Octets × Doc)} {s : Octets} {slips : List Slip}
    (h : AdmitsMembers ms s slips) (hnone : slips = []) : SpellsMembers ms s := by
  cases h with
  | one ha hname he h =>
    obtain ⟨hb, h, hc⟩ := h
    obtain ⟨hfirst, hothers⟩ := List.append_eq_nil_iff.1 hnone
    cases hname with
    -- An unquoted name is a slip, and there is none.
    | wide => cases hfirst
    | text hname =>
      have hmembers := SpellsMembers.one ha hname he (.padded hb (h.spells hothers) hc)
      simp only [List.append_assoc, List.cons_append, List.nil_append] at hmembers ⊢
      exact hmembers
  | more ha hname he h hrest =>
    obtain ⟨hb, h, hc⟩ := h
    obtain ⟨hfirst, hnone⟩ := List.append_eq_nil_iff.1 hnone
    obtain ⟨hsecond, hothers⟩ := List.append_eq_nil_iff.1 hnone
    cases hname with
    | wide => cases hfirst
    | text hname =>
      have hmembers := SpellsMembers.more ha hname he (.padded hb (h.spells hsecond) hc)
        (hrest.spells hothers)
      simp only [List.append_assoc, List.cons_append, List.nil_append] at hmembers ⊢
      exact hmembers

end

/-- Without slips a text is spelled, blanks included. -/
theorem Admits.spells {d : Doc} {s : Octets} (h : Admits d s []) : Spells d s := by
  generalize hnone : ([] : List Slip) = slips at h
  obtain ⟨hb, h, hc⟩ := h
  exact .padded hb (h.spells hnone.symm) hc

/-- Leading zeros are no number. -/
theorem scanNumber_zeros {token : Octets} (h : isWide token = true) (hzeros : ¬ NumberLiteral token)
    (t : Octets) : scanNumber (token ++ t) = none := by
  obtain ⟨sign, ds, hsign, rfl, hne, hds⟩ := digits_of_wide h
  -- A wide run that is no literal starts with a zero and goes on, which stops the scanner.
  have hliteral : ¬ Whole ds := by
    intro hwhole
    have hnumber := NumberLiteral.parts hsign hwhole .absent .absent
    rw [List.append_nil, List.append_nil] at hnumber
    exact hzeros hnumber
  obtain ⟨d, ds, rfl⟩ := List.exists_cons_of_ne_nil hne
  obtain ⟨hd, hds⟩ := List.forall_mem_cons.1 hds
  obtain rfl : d = 0x30 := Classical.not_not.1 fun hzero => hliteral (.digits hd hzero hds)
  cases ds with
  | nil => exact absurd .zero hliteral
  | cons c ds =>
    have hc : isDigit c = true := hds c (by simp)
    rcases hsign with rfl | rfl <;> simp [scanNumber, scanSign, scanWhole, hc]

/-- What is admitted begins neither with a blank nor with a closing bracket. -/
theorem AdmitsBare.exists_cons {d : Doc} {s : Octets} {slips : List Slip}
    (h : AdmitsBare d s slips) : ∃ b t, s = b :: t ∧ isBlank b = false ∧ b ≠ 0x5d := by
  cases h with
  | spelled h => exact h.exists_cons
  | array | object => exact ⟨_, _, rfl, by decide, by decide⟩
  | wide h =>
    obtain ⟨b, t, rfl, hb⟩ := exists_cons_of_wide h
    exact ⟨b, t, rfl, opens_of_first hb⟩

section Reading

variable {s t u : Octets} {slips : List Slip} {n : Nat}

/-- Blanks before an admitted tree are passed over. -/
theorem AdmitsBare.skipBlanks_padded {d : Doc} {b c : Octets} (hb : Blanks b)
    (h : AdmitsBare d s slips) : skipBlanks (b ++ (s ++ c) ++ t) = s ++ (c ++ t) := by
  obtain ⟨v, w, rfl, hblank, -⟩ := h.exists_cons
  simp only [List.append_assoc, List.cons_append, skipBlanks_token hb hblank]

/-- Admitted items begin with nothing that closes them, -/
theorem AdmitsItems.exists_cons {ds : List Doc} (h : AdmitsItems ds s slips) (t : Octets) :
    ∃ b u, skipBlanks (s ++ t) = b :: u ∧ b ≠ 0x5d := by
  have padded : ∀ {d s slips}, Admits d s slips → ∀ t, ∃ b u,
      skipBlanks (s ++ t) = b :: u ∧ b ≠ 0x5d := by
    rintro d s slips ⟨hb, hs, -⟩ t
    rw [hs.skipBlanks_padded hb]
    obtain ⟨b, u, rfl, -, hclose⟩ := hs.exists_cons
    exact ⟨b, _, rfl, hclose⟩
  cases h with
  | one h => exact padded h t
  | more h => simpa only [List.append_assoc] using padded h _

/-- and so do admitted members. -/
theorem AdmitsMembers.exists_cons {ms : List (Octets × Doc)} (h : AdmitsMembers ms s slips)
    (t : Octets) : ∃ b u, skipBlanks (s ++ t) = b :: u ∧ b ≠ 0x7d := by
  -- A name begins with a quote, or with what a number begins with.
  have named : ∀ {a name w slips}, Blanks a → AdmitsName name w slips → ∀ t, ∃ b u,
      skipBlanks (a ++ (w ++ t)) = b :: u ∧ b ≠ 0x7d := by
    intro a name w slips ha hname t
    cases hname with
    | text => exact ⟨_, _, skipBlanks_token ha (by decide), by decide⟩
    | wide h =>
      obtain ⟨b, v, rfl, hb⟩ := exists_cons_of_wide h
      refine ⟨b, _, skipBlanks_token ha (opens_of_first hb).1, ?_⟩
      rintro rfl
      exact absurd hb (by decide)
  cases h with
  | one ha hname | more ha hname =>
    rw [List.append_assoc, List.append_assoc]
    exact named ha hname _

/-- Where an item is broken the list is, -/
theorem readItems_of_broken (h : (readValue n u).2 = none) : (readItems (n + 1) u).2 = none := by
  rw [readItems]
  split
  · rfl
  · next heq =>
    rw [heq] at h
    cases h

/-- Where a name has to stand, only a quote is read on. -/
theorem readMembers_of_wide {a token : Octets} (ha : Blanks a) (h : isWide token = true) :
    (readMembers n (a ++ (token ++ u))).2 = none := by
  obtain ⟨b, v, rfl, hb⟩ := exists_cons_of_wide h
  cases n with
  | zero => rfl
  | succ n =>
    rw [readMembers, List.cons_append, skipBlanks_token ha (opens_of_first hb).1]
    split
    · next heq =>
      cases heq
      exact absurd hb (by decide)
    · rfl

/-- and where a value is broken the object is. -/
theorem readMembers_of_broken {a name e : Octets} (ha : Blanks a) (hname : TextBody name)
    (he : Blanks e) (h : (readValue n u).2 = none) :
    (readMembers (n + 1) (a ++ 0x22 :: (name ++ 0x22 :: (e ++ 0x3a :: u)))).2 = none := by
  rw [readMembers, skipBlanks_token ha (by decide)]
  simp only [scanText_of_body hname, skipBlanks_token he (show isBlank 0x3a = false by decide)]
  split
  · rfl
  · next heq =>
    rw [heq] at h
    cases h

mutual

/-- What is admitted with a slip is no tree to the reader. -/
theorem readValue_of_slip {d : Doc} {s t u : Octets} {slips : List Slip} {n : Nat}
    (h : AdmitsBare d s slips) (hslips : slips ≠ []) (hfuel : 2 * s.length ≤ n + 1)
    (hu : skipBlanks u = s ++ t) : (readValue n u).2 = none := by
  cases n with
  | zero => rfl
  | succ k =>
    cases h with
    | spelled => exact absurd rfl hslips
    | wide h hzeros =>
      obtain ⟨b, v, rfl, hb⟩ := exists_cons_of_wide h
      rw [readValue_number (v := v ++ t) hu hb, ← List.cons_append, scanNumber_zeros h hzeros]
    | @array ds v slips hitems =>
      obtain ⟨c, w, hv, hc⟩ := hitems.exists_cons (0x5d :: t)
      rw [readValue_array (v := v ++ 0x5d :: t) (by simpa using hu)
        (by rw [hv]; rintro w' ⟨⟩; exact hc rfl)]
      exact readItems_of_slip hitems hslips (by simp at hfuel; omega)
    | @object ms v slips hmembers =>
      obtain ⟨c, w, hv, hc⟩ := hmembers.exists_cons (0x7d :: t)
      rw [readValue_object (v := v ++ 0x7d :: t) (by simpa using hu)
        (by rw [hv]; rintro w' ⟨⟩; exact hc rfl)]
      exact readMembers_of_slip hmembers hslips (by simp at hfuel; omega)

/-- Items with a slip in them are none, -/
theorem readItems_of_slip {ds : List Doc} {s t : Octets} {slips : List Slip} {n : Nat}
    (h : AdmitsItems ds s slips) (hslips : slips ≠ []) (hfuel : 2 * s.length ≤ n) :
    (readItems n (s ++ 0x5d :: t)).2 = none := by
  cases n with
  | zero => rfl
  | succ k =>
    cases h with
    | one h =>
      obtain ⟨hb, hs, hc⟩ := h
      exact readItems_of_broken (readValue_of_slip hs hslips (by simp at hfuel; omega)
        (hs.skipBlanks_padded hb))
    | @more d ds s r slips others h hrest =>
      obtain @⟨d, b, s, c, slips, hb, hs, hc⟩ := h
      simp only [List.append_assoc, List.cons_append]
      -- The first slip breaks the reading: it is in the first item, or all before it is read.
      by_cases hfirst : slips = []
      · -- The first item is read, and the slip is behind it.
        have hothers : others ≠ [] := fun hnone => hslips (by rw [hfirst, hnone]; rfl)
        have hvalue := readValue_of_spells (hs.spells hfirst) (t := c ++ 0x2c :: (r ++ 0x5d :: t))
          (n := k) (.blanks hc (avoids_cons (by decide))) (by simp at hfuel; omega)
          (skipBlanks_padded hb (hs.spells hfirst))
        have hitems := readItems_of_slip hrest hothers (t := t) (n := k) (by simp at hfuel; omega)
        simp only [List.append_assoc] at hvalue
        simp only [readItems, hvalue, skipBlanks_token hc (show isBlank 0x2c = false by decide)]
        exact hitems
      · have hvalue := readValue_of_slip hs hfirst (t := c ++ 0x2c :: (r ++ 0x5d :: t)) (n := k)
          (by simp at hfuel; omega) (hs.skipBlanks_padded hb)
        simp only [List.append_assoc] at hvalue
        exact readItems_of_broken hvalue

/-- and members with one are none, be it in a name or in a value. -/
theorem readMembers_of_slip {ms : List (Octets × Doc)} {s t : Octets} {slips : List Slip} {n : Nat}
    (h : AdmitsMembers ms s slips) (hslips : slips ≠ []) (hfuel : 2 * s.length ≤ n) :
    (readMembers n (s ++ 0x7d :: t)).2 = none := by
  cases n with
  | zero => rfl
  | succ k =>
    cases h with
    | one ha hname he h =>
      obtain @⟨d, b, s, c, others, hb, hs, hc⟩ := h
      cases hname with
      | wide h =>
        rw [List.append_assoc, List.append_assoc]
        exact readMembers_of_wide ha h
      | text hname =>
        have hvalue := readValue_of_slip hs hslips (n := k) (by simp at hfuel; omega)
          (hs.skipBlanks_padded (c := c) (t := 0x7d :: t) hb)
        have hbroken := readMembers_of_broken ha hname he hvalue
        simp only [List.append_assoc, List.cons_append, List.nil_append] at hbroken ⊢
        exact hbroken
    | @more name d ms a w e s r slips others more ha hname he h hrest =>
      obtain @⟨d, b, s, c, others, hb, hs, hc⟩ := h
      cases hname with
      | wide h =>
        rw [List.append_assoc, List.append_assoc]
        exact readMembers_of_wide ha h
      | text hname =>
        simp only [List.append_assoc, List.cons_append, List.nil_append]
        by_cases hvalue : others = []
        · -- The first member is read, and the slip is behind it.
          have hmore : more ≠ [] := fun hnone => hslips (by rw [hvalue, hnone]; rfl)
          have hvalue := readValue_of_spells (hs.spells hvalue)
            (t := c ++ 0x2c :: (r ++ 0x7d :: t)) (n := k)
            (.blanks hc (avoids_cons (by decide))) (by simp at hfuel; omega)
            (skipBlanks_padded hb (hs.spells hvalue))
          have hmembers := readMembers_of_slip hrest hmore (t := t) (n := k)
            (by simp at hfuel; omega)
          simp only [List.append_assoc] at hvalue
          simp only [readMembers, skipBlanks_token ha (show isBlank 0x22 = false by decide),
            scanText_of_body hname, skipBlanks_token he (show isBlank 0x3a = false by decide),
            hvalue, skipBlanks_token hc (show isBlank 0x2c = false by decide)]
          exact hmembers
        · have hvalue := readValue_of_slip hs hvalue (t := c ++ 0x2c :: (r ++ 0x7d :: t)) (n := k)
            (by simp at hfuel; omega) (hs.skipBlanks_padded hb)
          simp only [List.append_assoc] at hvalue
          exact readMembers_of_broken ha hname he hvalue

end

end Reading

/-- What is admitted is spelled unless there is a slip in it. -/
theorem Admits.spells_iff {d : Doc} {s : Octets} {slips : List Slip} (h : Admits d s slips) :
    (∃ e, Spells e s) ↔ slips = [] := by
  constructor
  · rintro ⟨e, he⟩
    refine Classical.byContradiction fun hslips => ?_
    obtain @⟨d, b, s, c, slips, hb, hs, hc⟩ := h
    -- With a slip the reader fails, and without one it reads what is spelled.
    have hbroken := readValue_of_slip hs hslips (t := c) (u := b ++ (s ++ c))
      (n := 2 * (b ++ (s ++ c)).length + 2) (by simp; omega)
      (by simpa using hs.skipBlanks_padded hb (t := []))
    have hread := read_eq_iff.2 he
    rw [read] at hread
    split at hread
    · next heq =>
      rw [heq] at hbroken
      cases hbroken
    · cases hread
  · rintro rfl
    exact ⟨d, h.spells⟩

end Doc

/-! ## What is decoded -/

/-- Without quoting what is decoded is a text of a tree. -/
theorem Json.decodePlain_eq_ok_iff_spells {α : Type} [Portable α] {s : Octets} {a : α} :
    decodePlain s = .ok a ↔ ∃ e, Doc.Spells e s ∧
      Portable.read .document (e.item documentLevels) = .ok a := by
  simp only [← Doc.read_eq_iff]
  constructor
  -- Both a value and a clean end are asked for, in this order.
  · intro h
    rw [decodePlain] at h
    split at h
    next doc clean hread =>
    split at h
    · cases h
    · next hvalue =>
      split at h
      · next hclean =>
        cases h
        exact ⟨doc, by rw [hread, hclean], hvalue⟩
      · cases h
  · rintro ⟨e, hread, hvalue⟩
    simp only [decodePlain, hread, hvalue, if_true]

/-- What is decoded is a text of a tree, as far as quoting makes it one. -/
theorem Json.decode_eq_ok_iff_spells {α : Type} [Portable α] {s : Octets} {a : α} :
    decode s = .ok a ↔ ∃ e, Doc.Spells e (quoteWide s) ∧
      Portable.read .document (e.item documentLevels) = .ok a :=
  decodePlain_eq_ok_iff_spells

/-- The decoders accept exactly the admitted texts whose trees their types are read from, and an
admitted text is a document unless there is a slip in it. -/
theorem Json.decode_admits (s : Octets) :
    (∀ {α : Type} [Portable α] (a : α), decode s = .ok a ↔ ∃ d slips, Doc.Admits d s slips ∧
      Portable.read .document (d.quoted.item documentLevels) = .ok a) ∧
    (∀ r, Response.decode s = .ok r → ∃ d slips, Doc.Admits d s slips) ∧
    ((∃ e, Doc.Spells e (quoteWide s)) ↔ ∃ d slips, Doc.Admits d s slips) ∧
    ∀ {d : Doc} {slips : List Doc.Slip}, Doc.Admits d s slips →
      ((∃ e, Doc.Spells e s) ↔ slips = []) := by
  -- Decoding reads the quoted text, and what that text spells is the quoted document.
  have hdecode : ∀ {α : Type} [Portable α] (a : α), decode s = .ok a ↔
      ∃ d slips, Doc.Admits d s slips ∧
        Portable.read .document (d.quoted.item documentLevels) = .ok a := by
    intro α _ a
    simp only [decode_eq_ok_iff_spells, Doc.spells_quoteWide_iff]
    constructor
    · rintro ⟨e, ⟨d, slips, h, rfl⟩, hread⟩
      exact ⟨d, slips, h, hread⟩
    · rintro ⟨d, slips, h, hread⟩
      exact ⟨_, ⟨d, slips, h, rfl⟩, hread⟩
  refine ⟨hdecode, ?_, ?_, fun h => h.spells_iff⟩
  -- A response is read from raw data first.
  · intro r hr
    rw [Response.decode] at hr
    cases hraw : (decode s : Except DecodeError Json) with
    | error e =>
      rw [hraw] at hr
      cases hr
    | ok raw =>
      obtain ⟨d, slips, h, -⟩ := (hdecode raw).1 hraw
      exact ⟨d, slips, h⟩
  · simp only [Doc.spells_quoteWide_iff]
    constructor
    · rintro ⟨e, d, slips, h, -⟩
      exact ⟨d, slips, h⟩
    · rintro ⟨d, slips, h⟩
      exact ⟨_, d, slips, h, rfl⟩

/-- Zeros before a wide integer are a slip: the integer is decoded from what is no document. -/
theorem Json.decode_admits_zeros :
    (Json.decode (Octets.ofText "0018446744073709551616") : Except DecodeError Int) =
      .ok 18446744073709551616 ∧
    ¬ ∃ e, Doc.Spells e (Octets.ofText "0018446744073709551616") := by
  have hwide : isWide (Octets.ofText "0018446744073709551616") = true := by decide +kernel
  -- The scanner stops after the first zero, so the run is not a literal.
  have hzeros : ¬ Doc.NumberLiteral (Octets.ofText "0018446744073709551616") := by
    intro h
    have hscan := Doc.scanNumber_of_literal h (Doc.avoids_nil _)
    exact absurd hscan (by decide +kernel)
  have hblanks : Doc.Blanks [] := List.forall_mem_nil _
  have hadmits : Doc.Admits (.number (Octets.ofText "0018446744073709551616"))
      (Octets.ofText "0018446744073709551616")
      [.zeros (Octets.ofText "0018446744073709551616")] := by
    simpa using Doc.Admits.padded hblanks (.wide hwide hzeros) hblanks
  constructor
  · exact ((decode_admits _).1 _).2 ⟨_, _, hadmits, rfl⟩
  · rw [(decode_admits _).2.2.2 hadmits]
    exact List.cons_ne_nil _ _

end ChainFollower
