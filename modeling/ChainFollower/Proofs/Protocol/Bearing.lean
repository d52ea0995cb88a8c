import ChainFollower.Proofs.Protocol.Envelopes
import ChainFollower.Proofs.Protocol.Records
import ChainFollower.Proofs.Protocol.Sight

/-!
# Where decoding finds the tip

The tip of a decoded response stands in its result, below a member `tip` or below the name of a
legacy result, or in the data of an error in the place of a result.

Main statement: `Response.tip_of_ofJson`.
-/

namespace ChainFollower

open Record (field? exists_holds shape_of_read getWith_eq_ok getRequired_eq_ok)

/-! ## Results of the legacy shape -/

namespace Legacy

/-- The body of a legacy result that bears a tip: under `tip`, or in an intersection under either
spelling. -/
def Bears (name : String) (body : Json) (t : Legacy.Tip) : Prop :=
  ∃ members key j, body = .object members ∧ body.member? key = some j ∧
    Portable.read .document j.item = .ok t ∧
      (key = "tip" ∨ key = "Tip" ∧ name ∈ [foundName, notFoundName])

/-- A record with a tip among its fields has been read from a body that bears the tip. -/
theorem bears_of_readMap {α : Type} {names : FieldNames} {fields : Record → Placed α}
    {name : String} {body : Json} {a : α} {p : Legacy.Tip → Prop}
    (h : Record.readMap names fields .document body.item = .ok a)
    (hspelling : ∀ key, field? names key = some "tip" →
      key = "tip" ∨ key = "Tip" ∧ name ∈ [foundName, notFoundName])
    (htip : ∀ r : Record, (fields r).outcome = .ok a → ∃ t, (r.get "tip").outcome = .ok t ∧ p t) :
    ∃ t, Bears name body t ∧ p t := by
  obtain ⟨members, values, r, rfl, hshape, hr, hfields⟩ := Record.exists_of_readMap h
  obtain ⟨t, ht, hp⟩ := htip r hfields
  -- The value of the field stands in the body under one of the spellings of its name.
  obtain ⟨v, hv, hread⟩ := (getRequired_eq_ok hr).1 ht
  obtain ⟨key, j, hkey, hmember, rfl⟩ := Json.member?_of_value hshape hv
  exact ⟨t, ⟨members, key, j, rfl, hmember, hread, hspelling key hkey⟩, hp⟩

/-- An intersection is read from an object of one of its two names, the body of which bears its tip.
-/
theorem readIntersection_eq_ok {members : List (String × Json)} {i : Intersection}
    (h : readIntersection .document (Json.object members).item = .ok i) :
    ∃ name body, members = [(name, body)] ∧ name ∈ [foundName, notFoundName] ∧
      ∃ t, Bears name body t ∧ i.tip = some t.current := by
  unfold readIntersection at h
  obtain ⟨⟨name, beside⟩, hchoice, h⟩ := bind_eq_ok.1 h
  obtain ⟨body, rfl, rfl⟩ := Reader.choice_object_eq_ok hchoice
  refine ⟨name, body, rfl, ?_⟩
  -- In either intersection the tip has one other spelling.
  have hspelling : ∀ {names : FieldNames}, (∀ spellings, ("tip", spellings) ∈ names →
      spellings = ["Tip"]) → name ∈ [foundName, notFoundName] → ∀ key,
        field? names key = some "tip" →
          key = "tip" ∨ key = "Tip" ∧ name ∈ [foundName, notFoundName] := by
    intro names hnames hmem key hkey
    obtain ⟨spellings, hspellings, hkey⟩ := Record.spelling_of_field? hkey
    rw [hnames spellings hspellings] at hkey
    exact hkey.imp_right fun hkey => ⟨List.mem_singleton.1 hkey, hmem⟩
  simp only at h
  -- The two names are tried one after the other.
  split at h
  · next hname =>
    have hmem : name ∈ [foundName, notFoundName] := by simp [hname]
    refine ⟨hmem, bears_of_readMap h (hspelling (by simp) hmem) fun r hfields => ?_⟩
    simp only [Placed.seq_eq_ok, Placed.map_eq_ok] at hfields
    obtain ⟨_, t, ⟨_, _, rfl⟩, ht, rfl⟩ := hfields
    exact ⟨t, ht, rfl⟩
  · split at h
    · next hname =>
      have hmem : name ∈ [foundName, notFoundName] := by simp [hname]
      refine ⟨hmem, bears_of_readMap h (hspelling (by simp) hmem) fun r hfields => ?_⟩
      simp only [Placed.map_eq_ok] at hfields
      obtain ⟨t, ht, rfl⟩ := hfields
      exact ⟨t, ht, rfl⟩
    · cases h

/-- A step forward keeps the tip that stands beside its block. -/
theorem tip_of_current_forward {blocks : Dict EraBlock} {t : Legacy.Tip} {step : ChainStep}
    (h : (Step.forward blocks t).current = .ok step) : step.tip = t.current := by
  simp only [Step.current] at h
  split at h
  · cases h
  · obtain ⟨b, -, h⟩ := bind_eq_ok.1 h
    cases h
    rfl

/-- A step is read from an object of one of its two names. -/
theorem readStep_eq_ok {members : List (String × Json)} {s : Step}
    (h : readStep .document (Json.object members).item = .ok s) :
    ∃ name body, members = [(name, body)] ∧ name ∈ ["RollForward", "RollBackward"] ∧
      ∃ t, Bears name body t ∧ ∀ step, s.current = .ok step → step.tip = t.current := by
  unfold readStep at h
  obtain ⟨⟨name, beside⟩, hchoice, h⟩ := bind_eq_ok.1 h
  obtain ⟨body, rfl, rfl⟩ := Reader.choice_object_eq_ok hchoice
  refine ⟨name, body, rfl, ?_⟩
  -- In a step it has none.
  have hplain : ∀ {names : FieldNames}, names.all (·.2.isEmpty) = true → ∀ key,
      field? names key = some "tip" →
        key = "tip" ∨ key = "Tip" ∧ name ∈ [foundName, notFoundName] :=
    fun hnames key hkey => .inl (Record.eq_of_field? hnames hkey).symm
  -- Forward and backward both require the tip, beside the blocks or the point.
  split at h
  · next hname =>
    cases hname
    refine ⟨by simp, bears_of_readMap h (hplain rfl) fun r hfields => ?_⟩
    simp only [Placed.seq_eq_ok, Placed.map_eq_ok] at hfields
    obtain ⟨_, t, ⟨blocks, _, rfl⟩, ht, rfl⟩ := hfields
    exact ⟨t, ht, fun step hstep => tip_of_current_forward hstep⟩
  · next hname =>
    cases hname
    refine ⟨by simp, bears_of_readMap h (hplain rfl) fun r hfields => ?_⟩
    simp only [Placed.seq_eq_ok, Placed.map_eq_ok] at hfields
    obtain ⟨_, t, ⟨point, _, rfl⟩, ht, rfl⟩ := hfields
    refine ⟨t, ht, fun step hstep => ?_⟩
    cases hstep
    rfl
  · cases h

end Legacy

/-! ## Results of either shape -/

/-- A result of either shape that bears a tip. -/
inductive Json.BearsTip (members : List (String × Json)) : Tip → Prop
  | current {j : Json} {t : Tip} (hmember : (Json.object members).member? "tip" = some j)
      (h : Portable.read .document j.item = .ok t) : BearsTip members t
  | legacy {name : String} {body : Json} {t : Legacy.Tip} (hmembers : members = [(name, body)])
      (hname : name ∈ Peek.legacyNames) (h : Legacy.Bears name body t) : BearsTip members t.current

/-- The current shape takes an intersection only if a tip has been read. -/
theorem Intersection.read_of_current {raw : Json} {i : Intersection}
    (h : Intersection.current raw = .ok (some i)) :
    Portable.read .document raw.item = .ok i ∧ ∃ t, i.tip = some t := by
  unfold Intersection.current at h
  split at h
  · next found hdecode =>
    split at h
    · next hsome =>
      cases h
      exact ⟨Json.read_of_decodeValue hdecode, Option.isSome_iff_exists.1 hsome⟩
    · cases h
  · cases h

/-- The legacy shape takes what it has read. -/
theorem Intersection.read_of_legacy {raw : Json} {i : Intersection}
    (h : Legacy.intersection raw = .ok (some i)) :
    Legacy.readIntersection .document raw.item = .ok i := by
  unfold Legacy.intersection at h
  split at h
  · split at h
    · next hread =>
      cases h
      exact hread
    · cases h
  · cases h

/-- The tip of an intersection of the current shape is its member `tip`. -/
theorem Intersection.bearsTip_of_read {members : List (String × Json)} {i : Intersection} {t : Tip}
    (h : Portable.read .document (Json.object members).item = .ok i) (htip : i.tip = some t) :
    Json.BearsTip members t := by
  have hitem := Json.item_object members
  obtain ⟨values, hshape⟩ := shape_of_read (hitem ▸ .named _) h
  obtain ⟨r, hr, hread⟩ := exists_holds hshape
  have hfields := (hread _ i).1 h
  simp only [Placed.seq_eq_ok, Placed.map_eq_ok, Record.getD, getWith_eq_ok hr] at hfields
  obtain ⟨_, _, ⟨_, _, ⟨_, tip, ⟨_, _, rfl⟩, hgiven, rfl⟩, _, rfl⟩, _, rfl⟩ := hfields
  subst htip
  -- The field may be missing, but then there would be no tip.
  cases hv : values "tip" with
  | none =>
    rw [hv] at hgiven
    cases hgiven
  | some v =>
    obtain ⟨key, j, hkey, hmember, rfl⟩ := Json.member?_of_value hshape hv
    rw [← Record.eq_of_field? rfl hkey] at hmember
    rw [hv] at hgiven
    exact .current hmember (Reader.read_of_option hgiven)

/-- Every intersection has a tip, which stands in the result that it was read from. -/
theorem Intersection.bearsTip {raw : Json} {i : Intersection}
    (h : Intersection.ofJson raw = .ok i) :
    ∃ t, i.tip = some t ∧ ∀ members, raw = .object members → Json.BearsTip members t := by
  unfold Intersection.ofJson Attempt.resolve Attempt.resolve Attempt.resolve at h
  -- The current shape is tried first, and the legacy one if it declines.
  split at h
  · next hcurrent =>
    cases h
    obtain ⟨hread, t, ht⟩ := Intersection.read_of_current hcurrent
    refine ⟨t, ht, ?_⟩
    rintro members rfl
    exact Intersection.bearsTip_of_read hread ht
  · split at h
    · next hlegacy =>
      cases h
      cases raw with
      | object members =>
        obtain ⟨name, body, hmembers, hname, t, hbears, ht⟩ :=
          Legacy.readIntersection_eq_ok (Intersection.read_of_legacy hlegacy)
        refine ⟨t.current, ht, ?_⟩
        rintro _ ⟨⟩
        exact .legacy hmembers (List.mem_append_left _ hname) hbears
      | _ => cases hlegacy
    · cases h
    · cases h
  · cases h

/-- The tip of a step of the current shape is its member `tip`. -/
theorem ChainStep.bearsTip {members : List (String × Json)} {s : ChainStep}
    (h : Portable.read .document (Json.object members).item = .ok s) :
    Json.BearsTip members s.tip := by
  rw [Json.item_object] at h
  obtain ⟨tag, direction, -, -, -, hread⟩ := ChainStep.read_named_eq_ok.1 h
  obtain ⟨values, hshape⟩ := shape_of_read (.named _) hread
  obtain ⟨r, hr, hiff⟩ := exists_holds hshape
  -- Both directions require a tip.
  have htip : (r.get "tip").outcome = .ok s.tip := by
    have hfields := (hiff _ s).1 hread
    cases direction with
    | forward =>
      simp only [ofRecord, Placed.seq_eq_ok, Placed.map_eq_ok] at hfields
      obtain ⟨_, _, ⟨tip, htip, rfl⟩, _, rfl⟩ := hfields
      exact htip
    | backward =>
      simp only [ofRecord, Placed.seq_eq_ok, Placed.map_eq_ok] at hfields
      obtain ⟨_, _, ⟨tip, htip, rfl⟩, _, rfl⟩ := hfields
      exact htip
  obtain ⟨v, hv, hread⟩ := (getRequired_eq_ok hr).1 htip
  obtain ⟨key, hkey, hlookup⟩ := hshape.lookup hv
  rw [← Record.eq_of_field? (by cases direction <;> rfl) hkey,
    ChainStep.lookup_besides tip_ne_directionName, Json.lookup_fields] at hlookup
  obtain ⟨j, hj, rfl⟩ := Option.map_eq_some_iff.1 hlookup
  exact .current hj hread

/-- The tip of a step of the legacy shape stands in the body below its name. -/
theorem Legacy.bearsTip {members : List (String × Json)} {s : ChainStep}
    (h : Legacy.step (.object members) = .ok s) : Json.BearsTip members s.tip := by
  unfold Legacy.step at h
  split at h
  · next step hread =>
    obtain ⟨name, body, hmembers, hname, t, hbears, htip⟩ := readStep_eq_ok hread
    rw [htip s h]
    exact .legacy hmembers (List.mem_append_right [foundName, notFoundName] hname) hbears
  · cases h

/-! ## Responses -/

/-- Where the tip of a response is: in its result, or with the error in the place of a result. -/
theorem Response.tip_of_ofJson {raw : Json} {r : Response} (h : ofJson raw = .ok r) :
    (∃ result t, raw.present? "result" = some result ∧ r.tip = some t ∧
        ∀ members, result = .object members → Json.BearsTip members t) ∨
      raw.present? "result" = none ∧ ∃ error e, raw.present? "error" = some error ∧
        Portable.read .document error.item = .ok e ∧ r.tip = ResultError.tip e := by
  -- The frame has been read in the current shape, or else in the legacy one.
  rcases ofJson_eq_ok.1 h with h | ⟨-, h⟩
  · obtain ⟨method, error, answer, -, herror, hanswer, rfl⟩ := current_eq_ok.1 h
    cases hresult : raw.present? "result" with
    | some result =>
      refine .inl ⟨result, ?_⟩
      cases method with
      | findIntersection =>
        simp only [answerOf, hresult] at hanswer
        obtain ⟨i, hi, rfl⟩ := map_eq_ok.1 hanswer
        obtain ⟨t, ht, hbears⟩ := Intersection.bearsTip hi
        exact ⟨t, rfl, ht, hbears⟩
      | nextBlock =>
        simp only [answerOf, hresult] at hanswer
        obtain ⟨s, hs, rfl⟩ := map_eq_ok.1 hanswer
        refine ⟨s.tip, rfl, rfl, ?_⟩
        rintro members rfl
        exact ChainStep.bearsTip (Json.read_of_decodeValue hs)
    | none =>
      -- Without a result only an intersection is left, and only with an error.
      refine .inr ⟨rfl, ?_⟩
      cases method with
      | nextBlock =>
        simp only [answerOf, hresult] at hanswer
        cases hanswer
      | findIntersection =>
        cases error with
        | none =>
          simp only [answerOf, hresult] at hanswer
          cases hanswer
        | some e =>
          simp only [answerOf, hresult, Except.ok.injEq] at hanswer
          subst hanswer
          -- The error is the one of the frame, so that the tip is found in its data.
          unfold errorOf at herror
          cases hpresent : raw.present? "error" with
          | none =>
            rw [hpresent] at herror
            cases herror
          | some error =>
            simp only [hpresent] at herror
            obtain ⟨e', he', hsame⟩ := map_eq_ok.1 herror
            cases hsame
            exact ⟨error, e, rfl, Json.read_of_decodeValue he', rfl⟩
  · obtain ⟨result, hresult, henvelope⟩ := legacy_eq_ok.1 h
    refine .inl ⟨result, ?_⟩
    -- A frame of the legacy shape always has a result.
    cases henvelope with
    | intersection _ hi =>
      obtain ⟨t, ht, hbears⟩ := Intersection.bearsTip hi
      exact ⟨t, hresult, ht, hbears⟩
    | @step s _ hs =>
      refine ⟨s.tip, hresult, rfl, ?_⟩
      rintro members rfl
      exact Legacy.bearsTip hs

end ChainFollower
