import ChainFollower.Proofs.Json.Quoting

/-!
# Quoting any bytes, once and again

The pass that quotes wide integers has to do with all bytes, documents or not: texts may break off,
backslashes may stand anywhere, and a number token may be no number.  On any bytes it does nothing
but put quotes around some runs of digits, which are the wide ones among the number tokens outside
of texts.  `InQuotes` says so, and names the runs.

A second pass finds nothing left to quote.  Where the first one stood inside a token it held back
what it had read, so that the second one stands before the token there; it then meets the token
itself, or a text of the same characters, and both lead on to where the first one went.

Main statement: `quoteWide_only_inserts`.
-/

namespace ChainFollower.Json

open Doc (Digits InNumber Stops isDigit)

/-! ## Runs of digits -/

/-- Some digits, or a minus sign and some digits. -/
inductive DigitRun : Octets → Prop
  | unsigned {ds : Octets} (h : Digits ds) : DigitRun ds
  | negative {ds : Octets} (h : Digits ds) : DigitRun (0x2d :: ds)

/-- The second text is the first one with these runs of digits between quotes, in their order. -/
inductive InQuotes : Octets → List Octets → Octets → Prop
  | done : InQuotes [] [] []
  /-- A byte that stays. -/
  | byte {s t : Octets} {runs : List Octets} (b : UInt8) (h : InQuotes s runs t) :
      InQuotes (b :: s) runs (b :: t)
  /-- A run that is put between quotes. -/
  | run {r s t : Octets} {runs : List Octets} (hr : DigitRun r) (h : InQuotes s runs t) :
      InQuotes (r ++ s) (r :: runs) (0x22 :: (r ++ 0x22 :: t))

namespace InQuotes

variable {s t : Octets} {runs : List Octets}

theorem append_left (l : Octets) (h : InQuotes s runs t) : InQuotes (l ++ s) runs (l ++ t) := by
  induction l with
  | nil => exact h
  | cons b l ih => exact ih.byte b

/-- Every run brings two bytes. -/
theorem length_eq (h : InQuotes s runs t) : t.length = s.length + 2 * runs.length := by
  induction h with
  | done => rfl
  | byte b h ih =>
    simp only [List.length_cons, ih]
    omega
  | run hr h ih =>
    simp only [List.length_cons, List.length_append, ih]
    omega

theorem eq_of_no_runs (h : InQuotes s [] t) : t = s := by
  generalize hnone : ([] : List Octets) = none at h
  induction h with
  | done => rfl
  | byte b h ih => rw [ih hnone]
  | run hr h => cases hnone

/-- Nothing is put between quotes where the text stays the same. -/
theorem eq_iff (h : InQuotes s runs t) : t = s ↔ runs = [] := by
  constructor
  · intro heq
    have hlength := h.length_eq
    rw [heq] at hlength
    exact List.length_eq_zero_iff.1 (by omega)
  · intro hnone
    rw [hnone] at h
    exact h.eq_of_no_runs

end InQuotes

/-! ## One pass -/

/-- What a scan has read and not passed on. -/
def Scan.held : Scan → Octets
  | .inNumber token => token.reverse
  | _ => []

/-- Whether a scan has passed on all that it has read. -/
def Scan.hasPassed : Scan → Bool
  | .inNumber _ => false
  | _ => true

theorem Scan.held_of_hasPassed {scan : Scan} (h : scan.hasPassed = true) : scan.held = [] := by
  cases scan with
  | inNumber token => cases h
  | _ => rfl

/-- Inside a text every byte is passed on, and none begins a token. -/
theorem Scan.step_inText (b : UInt8) :
    ∃ next : Scan, next.hasPassed = true ∧ Scan.inText.step b = (next, [b]) := by
  simp only [Scan.step]
  split
  · exact ⟨.escaped, rfl, rfl⟩
  · split
    · exact ⟨.outside, rfl, rfl⟩
    · exact ⟨.inText, rfl, rfl⟩

/-- Between tokens a byte is passed on, or begins a token. -/
theorem Scan.fresh_cases (b : UInt8) :
    (∃ next : Scan, next.hasPassed = true ∧ Scan.fresh b = (next, [b])) ∨
      (b == 0x2d || isDigit b) = true ∧ Scan.fresh b = (.inNumber [b], []) := by
  unfold Scan.fresh
  split
  · exact .inl ⟨.inText, rfl, rfl⟩
  · split
    · next first => exact .inr ⟨first, rfl⟩
    · exact .inl ⟨.outside, rfl, rfl⟩

/-- The runs that a scan puts between quotes in the rest of a text. -/
def wideRunsFrom (scan : Scan) (s : Octets) : List Octets := (tokensFrom scan s).filter isWide

/-- The runs that are put between quotes. -/
def wideRuns (s : Octets) : List Octets := wideRunsFrom .outside s

theorem digitRun_of_isWide {token : Octets} (h : isWide token = true) : DigitRun token := by
  unfold isWide at h
  split at h
  · next ds =>
    simp only [Bool.and_eq_true, Bool.not_eq_true', List.isEmpty_eq_false_iff, List.all_eq_true]
      at h
    exact .negative h.1
  · simp only [Bool.and_eq_true, Bool.not_eq_true', List.isEmpty_eq_false_iff, List.all_eq_true]
      at h
    exact .unsigned h.1

/-- A token is passed on between quotes if it is wide, and as it is if not. -/
theorem InQuotes.token {s t : Octets} {runs : List Octets} (token : Octets)
    (h : InQuotes s runs t) :
    InQuotes (token ++ s) ([token].filter isWide ++ runs) (quoteToken token ++ t) := by
  -- A wide token is one run between two inserted quotes; any other stays as it is.
  cases hwide : isWide token with
  | true =>
    have hquoted : quoteToken token ++ t = 0x22 :: (token ++ 0x22 :: t) := by
      simp [quoteToken, hwide]
    rw [hquoted, List.filter_cons_of_pos hwide]
    exact .run (digitRun_of_isWide hwide) h
  | false =>
    rw [quoteToken, hwide, List.filter_cons_of_neg (Bool.eq_false_iff.1 hwide)]
    exact h.append_left token

/-- A scan puts between quotes the wide runs of what it has held back and of what comes. -/
theorem inQuotes_quoteFrom (scan : Scan) (s : Octets) :
    InQuotes (scan.held ++ s) (wideRunsFrom scan s) (quoteFrom scan s) := by
  induction s generalizing scan with
  | nil =>
    cases scan with
    | outside => exact .done
    | inText => exact .done
    | escaped => exact .done
    | inNumber token =>
      have h := InQuotes.done.token token.reverse
      rw [List.append_nil, List.append_nil, List.append_nil] at h
      show InQuotes (token.reverse ++ []) _ _
      rw [List.append_nil]
      exact h
  | cons b s ih =>
    have passed {next : Scan} (hnext : next.hasPassed = true) :
        InQuotes (b :: s) (wideRunsFrom next s) (b :: quoteFrom next s) := by
      have h := (ih next).byte b
      rwa [Scan.held_of_hasPassed hnext] at h
    have fresh : InQuotes (b :: s) (wideRunsFrom (Scan.fresh b).1 s)
        ((Scan.fresh b).2 ++ quoteFrom (Scan.fresh b).1 s) := by
      obtain ⟨next, hnext, hstep⟩ | ⟨-, hstep⟩ := Scan.fresh_cases b
      · rw [hstep]
        exact passed hnext
      · rw [hstep]
        exact ih (.inNumber [b])
    cases scan with
    | outside => exact fresh
    | escaped => exact passed rfl
    | inText =>
      obtain ⟨next, hnext, hstep⟩ := Scan.step_inText b
      show InQuotes (b :: s) (wideRunsFrom (Scan.inText.step b).1 s)
        ((Scan.inText.step b).2 ++ quoteFrom (Scan.inText.step b).1 s)
      rw [hstep]
      exact passed hnext
    | inNumber token =>
      cases number : isNumberByte b with
      | true =>
        have hruns : wideRunsFrom (.inNumber token) (b :: s) =
            wideRunsFrom (.inNumber (b :: token)) s := by
          simp [wideRunsFrom, tokensFrom, number]
        have hquote : quoteFrom (.inNumber token) (b :: s) =
            quoteFrom (.inNumber (b :: token)) s := by
          simp [quoteFrom, Scan.step, number]
        have hheld : Scan.held (.inNumber token) ++ b :: s =
            Scan.held (.inNumber (b :: token)) ++ s := by
          simp [Scan.held]
        rw [hruns, hquote, hheld]
        exact ih (.inNumber (b :: token))
      | false =>
        -- The token ends, and the byte is looked at afresh.
        have hruns : wideRunsFrom (.inNumber token) (b :: s) =
            [token.reverse].filter isWide ++ wideRunsFrom (Scan.fresh b).1 s := by
          rw [wideRunsFrom, wideRunsFrom, ← List.filter_append, tokensFrom, number]
          rfl
        have hquote : quoteFrom (.inNumber token) (b :: s) =
            quoteToken token.reverse ++ ((Scan.fresh b).2 ++ quoteFrom (Scan.fresh b).1 s) := by
          simp [quoteFrom, Scan.step, number]
        rw [hruns, hquote]
        exact fresh.token token.reverse

/-! ## A second pass -/

/-- A token: it begins like a number, and all its bytes are of numbers. -/
def IsToken (token : Octets) : Prop :=
  (∃ b t, token = b :: t ∧ (b == 0x2d || isDigit b) = true) ∧ ∀ b ∈ token, InNumber b

/-- What is held back is a token so far. -/
def Scan.Sound : Scan → Prop
  | .inNumber token => IsToken token.reverse
  | _ => True

/-- Where a second pass over what a scan puts out stands, when the first one stands here: before the
token that is held back. -/
def Scan.again : Scan → Scan
  | .inNumber _ => .outside
  | scan => scan

theorem isToken_singleton {b : UInt8} (h : (b == 0x2d || isDigit b) = true) : IsToken [b] :=
  ⟨⟨b, [], rfl, h⟩, List.forall_mem_singleton.2 (Doc.inNumber_of_first h)⟩

theorem IsToken.concat {token : Octets} {b : UInt8} (h : IsToken token) (hb : InNumber b) :
    IsToken (token ++ [b]) := by
  obtain ⟨⟨c, t, rfl, hfirst⟩, hall⟩ := h
  have hbytes : ∀ d ∈ c :: t ++ [b], InNumber d :=
    List.forall_mem_append.2 ⟨hall, List.forall_mem_singleton.2 hb⟩
  exact ⟨⟨c, t ++ [b], rfl, hfirst⟩, hbytes⟩

/-- A second pass leaves a token as the first one has put it out. -/
theorem quoteWide_quoteToken {token t : Octets} (h : IsToken token) (ht : Stops t) :
    quoteWide (quoteToken token ++ t) = quoteToken token ++ quoteWide t := by
  cases hwide : isWide token with
  -- Once quoted the token is a text, which quoting does not enter.
  | true =>
    have hquoted (u : Octets) : quoteToken token ++ u = 0x22 :: (token ++ 0x22 :: u) := by
      simp [quoteToken, hwide]
    rw [hquoted, hquoted, Doc.quoteWide_text (Doc.textBody_of_inNumber h.2)]
  | false =>
    have hsame : quoteToken token = token := by simp [quoteToken, hwide]
    have htoken := Doc.quoteWide_token h.1 h.2 ht
    rw [hsame] at htoken ⊢
    exact htoken

/-- Behind a token the scan goes on with a byte that it passes on, since a byte of a number would
have been part of the token. -/
theorem exists_quoteWide_eq_cons {b : UInt8} (h : isNumberByte b = false) (s : Octets) :
    ∃ u, quoteWide (b :: s) = b :: u := by
  obtain ⟨next, -, hstep⟩ | ⟨first, -⟩ := Scan.fresh_cases b
  · refine ⟨quoteFrom next s, ?_⟩
    show (Scan.fresh b).2 ++ quoteFrom (Scan.fresh b).1 s = _
    rw [hstep]
    rfl
  · rw [Doc.isNumberByte_iff.2 (Doc.inNumber_of_first first)] at h
    cases h

/-- A second pass changes nothing, from wherever the first one has started. -/
theorem quoteFrom_again (scan : Scan) (hscan : scan.Sound) (s : Octets) :
    quoteFrom scan.again (quoteFrom scan s) = quoteFrom scan s := by
  induction s generalizing scan with
  | nil =>
    cases scan with
    | outside => rfl
    | inText => rfl
    | escaped => rfl
    | inNumber token =>
      have h := quoteWide_quoteToken hscan (Doc.avoids_nil InNumber)
      rw [List.append_nil] at h
      exact h.trans (List.append_nil _)
  | cons b s ih =>
    have passed {next : Scan} (hnext : next.hasPassed = true) :
        quoteFrom next (quoteFrom next s) = quoteFrom next s := by
      cases next with
      | inNumber token => cases hnext
      | outside => exact ih .outside trivial
      | inText => exact ih .inText trivial
      | escaped => exact ih .escaped trivial
    have fresh : quoteWide (quoteWide (b :: s)) = quoteWide (b :: s) := by
      obtain ⟨next, hnext, hstep⟩ | ⟨first, hstep⟩ := Scan.fresh_cases b
      · have hquote (u : Octets) : quoteWide (b :: u) = b :: quoteFrom next u := by
          show (Scan.fresh b).2 ++ quoteFrom (Scan.fresh b).1 u = _
          rw [hstep]
          rfl
        rw [hquote, hquote, passed hnext]
      · have hquote : quoteWide (b :: s) = quoteFrom (.inNumber [b]) s := by
          show (Scan.fresh b).2 ++ quoteFrom (Scan.fresh b).1 s = _
          rw [hstep]
          rfl
        rw [hquote]
        exact ih (.inNumber [b]) (isToken_singleton first)
    cases scan with
    | outside => exact fresh
    | escaped =>
      show b :: quoteFrom .inText (quoteFrom .inText s) = b :: quoteFrom .inText s
      rw [passed rfl]
    | inText =>
      obtain ⟨next, hnext, hstep⟩ := Scan.step_inText b
      have hquote (u : Octets) : quoteFrom .inText (b :: u) = b :: quoteFrom next u := by
        rw [quoteFrom, hstep]
        rfl
      show quoteFrom .inText (quoteFrom .inText (b :: s)) = _
      rw [hquote, hquote, passed hnext]
    | inNumber token =>
      cases number : isNumberByte b with
      | true =>
        have hquote : quoteFrom (.inNumber token) (b :: s) =
            quoteFrom (.inNumber (b :: token)) s := by
          simp [quoteFrom, Scan.step, number]
        have hlonger : IsToken (b :: token).reverse := by
          rw [List.reverse_cons]
          exact IsToken.concat hscan (Doc.isNumberByte_iff.1 number)
        rw [hquote]
        exact ih (.inNumber (b :: token)) hlonger
      | false =>
        -- The token ends here, and the second pass meets the byte that ends it too.
        obtain ⟨u, hu⟩ := exists_quoteWide_eq_cons number s
        have hstops : Stops (quoteWide (b :: s)) := by
          rw [hu]
          exact .of_not number
        show quoteWide _ = _
        rw [Doc.quoteFrom_stops (.of_not number), quoteWide_quoteToken hscan hstops, fresh]

theorem hasWide_eq_false_iff (s : Octets) : hasWide s = false ↔ wideRuns s = [] := by
  simp [hasWide, wideRuns, wideRunsFrom]

/-- On any bytes quoting does nothing but put some runs of digits, with a sign or without, between
quotes: the wide ones among the number tokens outside of texts.  A second pass changes nothing any
more, and the bytes are passed on as they are exactly if no token is wide. -/
theorem quoteWide_only_inserts (s : Octets) :
    InQuotes s (wideRuns s) (quoteWide s) ∧ quoteWide (quoteWide s) = quoteWide s ∧
      (hasWide s = false ↔ quoteWide s = s) := by
  have inQuotes : InQuotes s (wideRuns s) (quoteWide s) := inQuotes_quoteFrom .outside s
  refine ⟨inQuotes, quoteFrom_again .outside trivial s, ?_⟩
  rw [hasWide_eq_false_iff, inQuotes.eq_iff]

/-- A text that breaks off behind a backslash: its digits stay, and so does a token that is no
integer. -/
example :
    wideRuns (Octets.ofText "-9223372036854775809,18446744073709551616.,\"\\18446744073709551616") =
      [Octets.ofText "-9223372036854775809"] := by decide +kernel

end ChainFollower.Json
