import ChainFollower.Item.Basic
import ChainFollower.Proofs.Json.Grammar

/-!
# Values below a path of names

A value deep inside a document's text, below a path of members' names: `Doc.Leads` says of a text
that it ends where such a value has to come.  Whatever value then comes, and whatever text comes
behind it, the text is a document with one value exactly if it is one with another, and the trees
differ in this value alone.

Main statements: `Doc.Leads.spells` and `Doc.Spells.exists_leads`.
-/

namespace ChainFollower.Doc

/-! ## Texts that lead to a value -/

/-- Members with a comma behind them, or none. -/
inductive Preceding : List (Octets × Doc) → Octets → Prop
  | none : Preceding [] []
  | some {ms : List (Octets × Doc)} {s : Octets} (h : SpellsMembers ms s) :
      Preceding ms (s ++ [0x2c])

/-- The text opens an object and ends where the value of a member of that name has to come. -/
inductive Opens (name : String) : Octets → Prop
  | object {ms : List (Octets × Doc)} {b s c raw e : Octets} (hb : Blanks b)
      (hs : Preceding ms s) (hc : Blanks c) (hraw : TextBody raw)
      (hname : Literal.text? raw = some name) (he : Blanks e) :
      Opens name (b ++ 0x7b :: (s ++ (c ++ 0x22 :: (raw ++ 0x22 :: (e ++ [0x3a])))))

/-- The text ends where the value below a path of names has to come. -/
inductive Leads : List String → Octets → Prop
  | here : Leads [] []
  | inside {name : String} {path : List String} {p q : Octets} (h : Opens name p)
      (hrest : Leads path q) : Leads (name :: path) (p ++ q)

/-- The two trees are the two values, or differ in these values below a path of names. -/
inductive Apart (b b' : Doc) : List String → Doc → Doc → Prop
  | here : Apart b b' [] b b'
  | inside {name : String} {path : List String} {raw : Octets} {before after : List (Octets × Doc)}
      {d d' : Doc} (hname : Literal.text? raw = some name) (h : Apart b b' path d d') :
      Apart b b' (name :: path) (.object (before ++ (raw, d) :: after))
        (.object (before ++ (raw, d') :: after))

/-- The value stands in the tree, below a path of names. -/
inductive Contains (b : Doc) : List String → Doc → Prop
  | here : Contains b [] b
  | inside {name : String} {path : List String} {raw : Octets} {ms : List (Octets × Doc)} {d : Doc}
      (hname : Literal.text? raw = some name) (hm : (raw, d) ∈ ms) (h : Contains b path d) :
      Contains b (name :: path) (.object ms)

/-! ## Reading along the path -/

section Reading

variable {n k : Nat} {ms : List (Octets × Doc)} {s t u c raw e : Octets}

/-- What is left behind a value is shorter than the text. -/
theorem length_of_readValue {d : Doc} (h : readValue n s = (d, some t)) :
    (skipBlanks t).length ≤ s.length := by
  obtain ⟨b, u, -, -, rfl⟩ := (sound n).1 _ _ _ h
  have hskip : (skipBlanks t).length ≤ t.length := (List.dropWhile_sublist _).length_le
  simp only [List.length_append]
  omega

/-- Members that are read to their end are read so with any fuel of twice the length of the text. -/
theorem readMembers_of_fuel (h : readMembers n s = (ms, some t)) (hfuel : 2 * s.length ≤ k) :
    readMembers k s = (ms, some t) := by
  obtain ⟨u, hu, rfl⟩ := (sound n).2.2 _ _ _ h
  refine readMembers_of_spells hu ?_
  simp only [List.length_append, List.length_cons] at hfuel
  omega

/-- What is read of a member whose name is there: its value, and the members behind it. -/
theorem readMembers_member (hc : Blanks c) (hraw : TextBody raw) (he : Blanks e) :
    readMembers (n + 1) (c ++ 0x22 :: (raw ++ 0x22 :: (e ++ 0x3a :: u))) =
      match readValue n u with
      | (value, none) => ([(raw, value)], none)
      | (value, some rest) =>
        match skipBlanks rest with
        | 0x2c :: rest => ((raw, value) :: (readMembers n rest).1, (readMembers n rest).2)
        | 0x7d :: rest => ([(raw, value)], some rest)
        | _ => ([(raw, value), ([], .broken)], none) := by
  have quote := skipBlanks_token hc (show isBlank 0x22 = false by decide)
    (t := raw ++ 0x22 :: (e ++ 0x3a :: u))
  have colon := skipBlanks_token he (show isBlank 0x3a = false by decide) (t := u)
  -- The name is read, and then what its value leaves tells how the members go on.
  split
  · next value hvalue => simp only [readMembers, quote, scanText_of_body hraw, colon, hvalue]
  · next value rest hvalue =>
    split
    · next more hmore =>
      simp only [readMembers, quote, scanText_of_body hraw, colon, hvalue, hmore]
    · next more hmore =>
      simp only [readMembers, quote, scanText_of_body hraw, colon, hvalue, hmore]
    · simp only [readMembers, quote, scanText_of_body hraw, colon, hvalue]

/-- What is read of members behind others. -/
theorem readMembers_append {ms : List (Octets × Doc)} {s : Octets} (h : SpellsMembers ms s)
    {n : Nat} (hfuel : 2 * s.length ≤ n) : ∃ k, n ≤ k + s.length ∧
      readMembers n (s ++ 0x2c :: t) = (ms ++ (readMembers k t).1, (readMembers k t).2) := by
  have hlen : 0 < s.length := by
    obtain ⟨u, hs⟩ := h.exists_cons []
    cases s <;> simp_all [skipBlanks]
  obtain ⟨n, rfl⟩ : ∃ m, n = m + 1 := ⟨n - 1, by omega⟩
  cases h with
  -- The last member, followed by the comma that joins the two lists.
  | @one name d a e s ha hname he h =>
    obtain @⟨d, b, s, c, hb, hs, hc⟩ := h
    have hvalue := readValue_of_spells hs (t := c ++ 0x2c :: t) (n := n)
      (.blanks hc (avoids_cons (by decide))) (by simp at hfuel; omega) (skipBlanks_padded hb hs)
    refine ⟨n, by omega, ?_⟩
    simp only [List.append_assoc, List.cons_append] at hvalue ⊢
    rw [readMembers_member ha hname he, hvalue]
    simp only [skipBlanks_token hc (show isBlank 0x2c = false by decide), List.nil_append]
  -- The induction is on the members; each costs one unit of fuel.
  | @more name d ms a e s r ha hname he h hrest =>
    obtain @⟨d, b, s, c, hb, hs, hc⟩ := h
    have hvalue := readValue_of_spells hs (t := c ++ 0x2c :: (r ++ 0x2c :: t)) (n := n)
      (.blanks hc (avoids_cons (by decide))) (by simp at hfuel; omega) (skipBlanks_padded hb hs)
    simp only [List.length_append, List.length_cons] at hfuel
    obtain ⟨k, hk, hmembers⟩ := readMembers_append hrest (n := n) (by omega)
    refine ⟨k, by simp; omega, ?_⟩
    simp only [List.append_assoc, List.cons_append] at hvalue ⊢
    rw [readMembers_member ha hname he, hvalue]
    simp only [skipBlanks_token hc (show isBlank 0x2c = false by decide), hmembers]

theorem Preceding.readMembers (h : Preceding ms s) (hfuel : 2 * s.length ≤ n) :
    ∃ k, n ≤ k + s.length ∧
      readMembers n (s ++ t) = (ms ++ (Doc.readMembers k t).1, (Doc.readMembers k t).2) := by
  cases h with
  | none => exact ⟨n, Nat.le_refl n, rfl⟩
  | some h =>
    simp only [List.length_append, List.length_cons, List.length_nil] at hfuel ⊢
    obtain ⟨k, hk, hread⟩ := readMembers_append (n := n) (t := t) h (by omega)
    exact ⟨k, by omega, by simpa using hread⟩

theorem Preceding.exists_cons (h : Preceding ms s) (hc : Blanks c) (t : Octets) :
    ∃ u, skipBlanks (s ++ (c ++ 0x22 :: t)) = 0x22 :: u := by
  cases h with
  | none => exact ⟨t, skipBlanks_token hc (by decide)⟩
  | some h =>
    rw [List.append_assoc]
    exact h.exists_cons _

/-- If one value may stand in the place of another, it may in a member; what stands behind the member
is read as before. -/
theorem readMembers_replace {k' : Nat} {u' : Octets} {p : Doc → Doc → Prop} (hc : Blanks c)
    (hraw : TextBody raw) (he : Blanks e)
    (hvalue : ∀ d rest, readValue k u = (d, some rest) → ∃ d' rest',
      readValue k' u' = (d', some rest') ∧ p d d' ∧ skipBlanks rest' = skipBlanks rest)
    (hfuel : 2 * u'.length ≤ k')
    (h : readMembers (k + 1) (c ++ 0x22 :: (raw ++ 0x22 :: (e ++ 0x3a :: u))) = (ms, some t)) :
    ∃ d d' after, ms = (raw, d) :: after ∧
      readMembers (k' + 1) (c ++ 0x22 :: (raw ++ 0x22 :: (e ++ 0x3a :: u'))) =
        ((raw, d') :: after, some t) ∧ p d d' := by
  -- Both readings take the same name and then their own value.
  rw [readMembers_member hc hraw he] at h ⊢
  cases hread : readValue k u with
  | mk d rest =>
  rw [hread] at h
  cases rest with
  | none => cases h
  | some rest =>
    obtain ⟨d', rest', hread', hp, hskip⟩ := hvalue d rest hread
    have hlength := length_of_readValue hread'
    simp only [hskip] at hlength
    simp only [hread', hskip] at h ⊢
    split at h
    · next more hmore =>
      obtain ⟨rfl, hend⟩ := Prod.mk.inj h
      -- What follows the value is the same text, and more fuel reads the same from it.
      have hafter : readMembers k' more = ((readMembers k more).1, some t) :=
        readMembers_of_fuel (Prod.ext rfl hend) (by
          rw [hmore, List.length_cons] at hlength
          omega)
      exact ⟨d, d', _, rfl, by rw [hafter], hp⟩
    · cases h
      exact ⟨d, d', [], rfl, rfl, hp⟩
    · cases h

/-- A document's value below a path of names may be another one: what was read to its end is read
so again, and differs in this value alone. -/
theorem Leads.readValue {path : List String} {p q : Octets} (h : Leads path p) {b b' : Doc}
    {s s' : Octets} (hs : Spells b s) (hs' : Spells b' s') (hq : Stops q) {n l : Nat} {d : Doc}
    {t : Octets} (hfuel : 2 * (p ++ (s ++ q)).length < n) (hfuel' : 2 * (p ++ (s' ++ q)).length < l)
    (hread : readValue n (p ++ (s ++ q)) = (d, some t)) :
    ∃ d' t', Doc.readValue l (p ++ (s' ++ q)) = (d', some t') ∧ Apart b b' path d d' ∧
      skipBlanks t' = skipBlanks t := by
  induction h generalizing n l d t with
  | here =>
    obtain @⟨b, x, u, c, hx, hu, hc⟩ := hs
    obtain @⟨b', x', u', c', hx', hu', hc'⟩ := hs'
    simp only [List.nil_append, List.length_append] at hread hfuel hfuel'
    rw [readValue_of_spells hu (.blanks hc hq) (by omega) (skipBlanks_padded hx hu)] at hread
    cases hread
    refine ⟨b', c' ++ q, ?_, .here, ?_⟩
    · exact readValue_of_spells hu' (.blanks hc' hq) (by omega) (skipBlanks_padded hx' hu')
    · rw [skipBlanks_append hc, skipBlanks_append hc']
  | @inside name path p₁ p₂ h hrest ih =>
    obtain @⟨ms, x, u, c, raw, e, hx, hu, hc, hraw, hname, he⟩ := h
    obtain ⟨m, rfl⟩ : ∃ m, n = m + 1 := ⟨n - 1, by omega⟩
    obtain ⟨m', rfl⟩ : ∃ m', l = m' + 1 := ⟨l - 1, by omega⟩
    simp only [List.append_assoc, List.cons_append, List.nil_append, List.length_append,
      List.length_cons] at hread hfuel hfuel' ⊢
    -- The brace is open, and behind the members before it the member's name stands.
    have hopen : ∀ t, ∀ w, skipBlanks (u ++ (c ++ 0x22 :: t)) ≠ 0x7d :: w := by
      rintro t w hclose
      obtain ⟨v, hv⟩ := hu.exists_cons hc t
      rw [hv] at hclose
      cases hclose
    rw [readValue_object (skipBlanks_token hx (by decide)) (hopen _)] at hread ⊢
    obtain ⟨k, hk, hmembers⟩ := hu.readMembers (n := m) (by omega)
    obtain ⟨k', hk', hmembers'⟩ := hu.readMembers (n := m') (by omega)
    obtain ⟨k, rfl⟩ : ∃ j, k = j + 1 := ⟨k - 1, by omega⟩
    obtain ⟨k', rfl⟩ : ∃ j, k' = j + 1 := ⟨k' - 1, by omega⟩
    rw [hmembers] at hread
    rw [hmembers']
    obtain ⟨rfl, hend⟩ := Prod.mk.inj hread
    obtain ⟨value, value', after, hbefore, hafter, hapart⟩ := readMembers_replace hc hraw he
      (fun value rest => ih (n := k) (l := k') (by simp; omega) (by simp; omega))
      (by simp; omega) (Prod.ext rfl hend)
    simp only [hbefore, hafter]
    exact ⟨_, t, rfl, .inside hname hapart, rfl⟩

end Reading

section Documents

variable {path : List String} {p q s s' : Octets} {b b' d : Doc}

/-- A document stays one if another value stands below the path, and differs in this value alone. -/
theorem Leads.spells (h : Leads path p) (hs : Spells b s) (hs' : Spells b' s') (hq : Stops q)
    (hd : Spells d (p ++ (s ++ q))) :
    ∃ d', Spells d' (p ++ (s' ++ q)) ∧ Apart b b' path d d' := by
  -- The grammar has one reading a text, so the replacement is followed in the reader.
  have hread := read_eq_iff.2 hd
  rw [read] at hread
  split at hread
  · next d t hvalue =>
    obtain ⟨rfl, hclean⟩ := Prod.mk.inj hread
    obtain ⟨d', t', hvalue', hapart, hskip⟩ := h.readValue hs hs' hq (by omega)
      (l := 2 * (p ++ (s' ++ q)).length + 2) (by omega) hvalue
    refine ⟨d', read_eq_iff.1 ?_, hapart⟩
    simp only [read, hvalue', hskip, hclean]
  · cases hread

/-! ## Finding the path -/

theorem Stops.append {s t : Octets} (hs : Stops s) (ht : Stops t) : Stops (s ++ t) := by
  cases s with
  | nil => exact ht
  | cons c s => exact avoids_cons (hs c s rfl)

/-- A member is spelled behind the members before it and in front of what no number goes on into. -/
theorem SpellsMembers.exists_split {raw : Octets} {ms : List (Octets × Doc)} {s : Octets}
    (h : SpellsMembers ms s) (hm : (raw, d) ∈ ms) :
    ∃ before u c e v w, Preceding before u ∧ Blanks c ∧ TextBody raw ∧ Blanks e ∧ Spells d v ∧
      Stops w ∧ s ++ [0x7d] = u ++ (c ++ 0x22 :: (raw ++ 0x22 :: (e ++ 0x3a :: (v ++ w)))) := by
  cases h with
  -- The only member is the one sought.
  | @one name d' c e v hc hname he hv =>
    cases List.mem_singleton.1 hm
    exact ⟨[], [], c, e, v, [0x7d], .none, hc, hname, he, hv, avoids_cons (by decide), by simp⟩
  | @more name d' ms c e v r hc hname he hv hrest =>
    rcases List.mem_cons.1 hm with heq | hm
    · cases heq
      exact ⟨[], [], c, e, v, 0x2c :: (r ++ [0x7d]), .none, hc, hname, he, hv,
        avoids_cons (by decide), by simp⟩
    -- The member lies further on; what was passed joins the text before it.
    · obtain ⟨before, u, c', e', v', w, hu, hc', hraw, he', hv', hw, hsplit⟩ := hrest.exists_split hm
      refine ⟨(name, d') :: before, c ++ 0x22 :: (name ++ 0x22 :: (e ++ 0x3a :: (v ++ 0x2c :: u))),
        c', e', v', w, ?_, hc', hraw, he', hv', hw, by simp [hsplit]⟩
      cases hu with
      | none => simpa using Preceding.some (.one hc hname he hv)
      | some hbefore => simpa using Preceding.some (.more hc hname he hv hbefore)

/-- In a document's text something leads to every value that the document contains. -/
theorem Spells.exists_leads (h : Spells d s) (hcontains : Contains b path d) :
    ∃ p v q, s = p ++ (v ++ q) ∧ Leads path p ∧ Spells b v ∧ Stops q := by
  -- One object is entered at each name of the path.
  induction hcontains generalizing s with
  | here => exact ⟨[], s, [], by simp, .here, h, avoids_nil _⟩
  | @inside name path raw ms d hname hm _ ih =>
    obtain @⟨_, x, t, y, hx, ht, hy⟩ := h
    cases ht with
    | emptyObject => cases hm
    | @object _ t hmembers =>
      obtain ⟨before, u, c, e, v, w, hu, hc, hraw, he, hv, hw, hsplit⟩ := hmembers.exists_split hm
      obtain ⟨p, v, q, rfl, hp, hv, hq⟩ := ih hv
      refine ⟨_, v, q ++ (w ++ y), ?_, .inside (.object hx hu hc hraw hname he) hp, hv,
        hq.append (hw.append (by simpa using Stops.blanks hy (avoids_nil _)))⟩
      simp [hsplit]

end Documents

end ChainFollower.Doc
