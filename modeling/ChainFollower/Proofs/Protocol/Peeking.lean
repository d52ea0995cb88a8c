import ChainFollower.Proofs.Json.Unread
import ChainFollower.Proofs.Protocol.Bearing

/-!
# When peeking sees the tip that decoding finds

A frame is decoded with its wide integers quoted and its objects sorted; peeking reads its bytes as
they stand, by records of its own.  The two agree on the tip exactly if the frame is one to peeking
and the tip is in sight there, or decoding finds no tip at all.

Main statement: `Peek.tip?_eq_iff`.
-/

namespace ChainFollower

open Record (field? shape_of_read shape_sorted primary_of_plain)
open Json (present?_eq_some present?_eq_none object_of_present?)

/-! ## The tip of a result -/

section Tips

variable {α : Type} {make : UInt64 → String → UInt64 → α} {hash height : String} {j : Json} {t : α}

/-- A tip that is read from an item as it stands is read from the settled value. -/
theorem Settles.read_tip {i : Item} (h : Settles i j) (names : TipNames hash height)
    (ht : readTip make hash height .document i = .ok t) :
    readTip make hash height .document j.item = .ok t := by
  obtain ⟨values, hshape⟩ := shape_of_read h.documented ht
  obtain ⟨values', hshape', hrel⟩ := h.shape hshape rfl
  obtain ⟨n, s, m, hn, hs, hm, hmake⟩ := (readTip_eq_ok make hshape).1 ht
  have hfield := fun name hname => hrel name (names.field?_eq name hname)
  refine (readTip_eq_ok make hshape').2 ⟨n, s, m, ?_, ?_, ?_, hmake⟩
  · exact given_of_held Held.word64 (hfield "slot" (by simp)) hn
  · exact given_of_held Held.text (hfield hash (by simp)) hs
  · exact given_of_held Held.word64 (hfield height (by simp)) hm

/-- What settles to a tip shows the tip, if it is one or `null` to peeking. -/
theorem Peek.readTip_of_settles {v : Item} (h : Settles v j) (names : TipNames hash height)
    (hj : readTip make hash height .document j.item = .ok t)
    (hv : v.Nullable (IsTip hash height)) :
    (readTip make hash height .document v).toOption = some t := by
  rcases hv with rfl | hv
  · rw [h.eq_null] at hj
    cases hj
  · obtain ⟨t', ht'⟩ := (exists_tip_iff make names h).2 hv
    have hsame := h.read_tip names ht'
    rw [hj] at hsame
    cases hsame
    rw [ht']
    rfl

end Tips

namespace Peek

/-- The body of a legacy result shows the tip that it bears under the name that peeking knows. -/
theorem heldTip_of_bears {v : Item} {name : String} {body : Json} {t : Legacy.Tip}
    (h : Settles v body) (hv : v.Nullable IsHolder) (hbears : Legacy.Bears name body t)
    (hspelling : name ∈ [Legacy.foundName, Legacy.notFoundName] → v.last? "Tip" = none) :
    heldTip v = some t := by
  obtain ⟨members, key, j, rfl, hmember, hread, hkey⟩ := hbears
  obtain ⟨entries, rfl⟩ := h.exists_named
  rcases hv with hv | ⟨values, hshape, hok⟩
  · cases hv
  -- The other spelling is there only where the tip is out of sight.
  have htip : key = "tip" := by
    rcases hkey with hkey | ⟨rfl, hname⟩
    · exact hkey
    · have hrel := h.last? "Tip"
      rw [hspelling hname, hmember] at hrel
      cases hrel
  subst htip
  have hrel := h.member_of_shape hshape rfl (show field? [("tip", [])] "tip" = some "tip" by decide)
  rw [hmember] at hrel
  obtain ⟨w, hw, hsettles⟩ := exists_of_rel_some hrel
  rw [heldTip, hshape.valueAt, hw]
  exact readTip_of_settles hsettles .legacy hread (hok ("tip", []) (by simp) w hw)

theorem findSome?_of_unique {α β : Type} {f : α → Option β} {l : List α} {a : α} {b : β}
    (ha : a ∈ l) (hb : f a = some b) (hrest : ∀ c ∈ l, c ≠ a → f c = none) :
    l.findSome? f = some b := by
  induction l with
  | nil => cases ha
  | cons c l ih =>
    rw [List.findSome?_cons]
    by_cases hc : c = a
    · rw [hc, hb]
    · rw [hrest c (by simp) hc]
      exact ih ((List.mem_cons.1 ha).resolve_left (Ne.symm hc)) fun d hd =>
        hrest d (List.mem_cons_of_mem _ hd)

/-- A result that decoding finds the tip in shows it, unless it is spelled in a way that only
decoding knows. -/
theorem resultTip_of_bearsTip {w : Item} {members : List (String × Json)} {t : Tip}
    (h : Settles w (.object members)) (hw : IsResult w) (hbears : Json.BearsTip members t)
    (hspelling : ∀ name ∈ [Legacy.foundName, Legacy.notFoundName], ∀ body,
      w.valueAt resultFields name = some body → body.last? "Tip" = none) :
    resultTip w = some t := by
  obtain ⟨values, hshape, hok⟩ := hw
  rw [hshape.valueAt] at hspelling
  rw [resultTip, hshape.valueAt]
  -- Each field that peeking looks at settles like the member that decoding looks at.
  have hrel := fun field (hfield : field? resultFields field = some field) =>
    h.member_of_shape hshape rfl hfield
  have hknown : ∀ name ∈ legacyNames, field? resultFields name = some name ∧ name ≠ "tip" := by
    decide
  cases hbears with
  | current hmember hread =>
    have htip := hrel "tip" (by decide)
    rw [hmember] at htip
    obtain ⟨v, hv, hsettles⟩ := exists_of_rel_some htip
    have hshown : tipOf v = some t := readTip_of_settles hsettles .current hread
      (hok ("tip", []) (by simp [resultFields]) v hv)
    rw [hv, Option.bind_some, hshown]
    rfl
  | @legacy name body t hmembers hname hbears =>
    subst hmembers
    -- The result has no other member, so that nothing else can show a tip before this one.
    have hnone : ∀ field, field? resultFields field = some field → field ≠ name →
        values field = none := by
      intro field hfield hne
      have hother := hrel field hfield
      have hlookup : (Json.object [(name, body)]).member? field = none := by
        show [(name, body)].lookup field = none
        rw [Entries.lookup_cons, if_neg hne]
        rfl
      rw [hlookup] at hother
      exact eq_none_of_rel_none hother
    have hsome := hrel name (hknown name hname).1
    have hlookup : (Json.object [(name, body)]).member? name = some body := by
      show [(name, body)].lookup name = some body
      rw [Entries.lookup_cons, if_pos rfl]
    rw [hlookup] at hsome
    obtain ⟨v, hv, hsettles⟩ := exists_of_rel_some hsome
    have hholder := hok (name, []) (by simp [resultFields, hname]) v hv
    simp only [if_neg (hknown name hname).2] at hholder
    have hheld := heldTip_of_bears hsettles hholder hbears fun hmem => hspelling name hmem v hv
    have hfirst : (legacyNames.findSome? fun name => (values name).bind heldTip) = some t := by
      refine findSome?_of_unique hname (by rw [hv]; exact hheld) fun other hother hne => ?_
      rw [hnone other (hknown other hother).1 hne]
      rfl
    rw [hnone "tip" (by decide) (Ne.symm (hknown name hname).2), hfirst]
    rfl

end Peek

/-! ## The tip of an error -/

section Unread

variable {i : Item} {j k : Json}

/-- What stands for the tip in data: its member `tip`, or the data itself. -/
theorem candidate_unread (hj : Reader.unread .document i = .ok j) (hk : Settles i k) :
    Reader.unread .document ((i.last? "tip").getD i) = .ok ((j.member? "tip").getD j) ∧
      Settles ((i.last? "tip").getD i) ((k.member? "tip").getD k) := by
  -- Either has a member `tip` exactly if the other one has.
  have hrel := last?_unread hj hk "tip"
  have hrel' := hk.last? "tip"
  revert hrel hrel'
  generalize j.member? "tip" = a
  generalize k.member? "tip" = b
  generalize i.last? "tip" = v
  rintro (h | ⟨⟩) hrel'
  · cases hrel' with
    | some h' => exact ⟨h, h'⟩
  · cases hrel' with
    | none => exact ⟨hj, hk⟩

/-- An object that is passed on as it stands is a tip exactly if the settled one is, unless its hash
is a wide integer. -/
theorem read_tip_unread {entries : List (String × Item)}
    (hj : Reader.unread .document (.named entries) = .ok j) (hk : Settles (.named entries) k)
    (hhash : ∀ v, (Item.named entries).last? "id" = some v → v.IsText) {t : Tip} :
    Portable.read .document j.item = .ok t ↔ Portable.read .document k.item = .ok t := by
  obtain ⟨members, rfl, hrel⟩ := unread_named hj
  obtain ⟨members', rfl, -⟩ := hk.exists_object
  have hsettled := hk.member?
  simp only [Json.member?_sorted] at hrel hsettled
  rw [Tip.read_object_eq_ok, Tip.read_object_eq_ok,
    given_unread (hrel "slot") (hsettled "slot") fun _ _ _ _ => word64_unread,
    given_unread (hrel "height") (hsettled "height") fun _ _ _ _ => word64_unread,
    given_unread (hrel "id") (hsettled "id") fun v _ _ hv hj hk =>
      text_unread hj hk (hhash v ((Item.last?_named "id" entries).trans hv))]

/-- The data of an error shows the same tip as it stands and settled, if its hash is a text. -/
theorem tipOfData_unread (hj : Reader.unread .document i = .ok j) (hk : Settles i k)
    (hhash : ∀ v, ((i.last? "tip").getD i).last? "id" = some v → v.IsText) :
    ResultError.tipOfData j = ResultError.tipOfData k := by
  obtain ⟨hj', hk'⟩ := candidate_unread hj hk
  apply Option.ext
  intro t
  rw [ResultError.tipOfData_eq_some, ResultError.tipOfData_eq_some]
  constructor
  -- Both forms come from one list of entries, and a tip is read from these alone.
  · rintro ⟨hobject, hread⟩
    obtain ⟨entries, hnamed⟩ := named_of_isObject hj' hk' (.inl hobject)
    rw [hnamed] at hj' hk' hhash
    obtain ⟨members, hmembers, -⟩ := hk'.exists_object
    exact ⟨hmembers ▸ rfl, (read_tip_unread hj' hk' hhash).1 hread⟩
  · rintro ⟨hobject, hread⟩
    obtain ⟨entries, hnamed⟩ := named_of_isObject hj' hk' (.inr hobject)
    rw [hnamed] at hj' hk' hhash
    obtain ⟨members, hmembers, -⟩ := unread_named hj'
    exact ⟨hmembers ▸ rfl, (read_tip_unread hj' hk' hhash).2 hread⟩

/-- If data shows a tip as it stands, its hash is a text. -/
theorem isText_of_tipOfData (hj : Reader.unread .document i = .ok j) (hk : Settles i k) {t : Tip}
    (ht : ResultError.tipOfData j = some t) {v : Item}
    (hv : ((i.last? "tip").getD i).last? "id" = some v) : v.IsText := by
  obtain ⟨hj', hk'⟩ := candidate_unread hj hk
  obtain ⟨hobject, hread⟩ := ResultError.tipOfData_eq_some.1 ht
  obtain ⟨entries, hnamed⟩ := named_of_isObject hj' hk' (.inl hobject)
  rw [hnamed] at hj' hk' hv
  obtain ⟨members, hmembers, hrel⟩ := unread_named hj'
  -- The id the tip was given is the last one of its entries.
  have hid := hrel "id"
  have hid' := hk'.member? "id"
  rw [Item.last?_named] at hv
  rw [hv, hmembers, Json.member?_sorted] at hid
  rw [hv] at hid'
  rw [hmembers, Tip.read_object_eq_ok] at hread
  exact isText_of_given hid hid' hread.2.1

end Unread

namespace Peek

/-- The tip of settled data that may be `null`. -/
theorem tip_of_option {data : Item} {k : Json} (h : Settles data k) {d : Option Json}
    (hd : Reader.option Reader.json .document k.item = .ok d) :
    d.bind ResultError.tipOfData = ResultError.tipOfData k := by
  -- Null data is no data; any other data is kept and asked.
  by_cases hk : k = .null
  · subst hk
    cases hd
    rfl
  · have hitem : k.item ≠ .null := by
      intro hnull
      cases k <;> first | exact hk rfl | cases hnull
    have hread : Reader.option Reader.json .document k.item = .ok (some k) :=
      Reader.option_of_read h.unread_item hitem
    rw [hread] at hd
    cases hd
    rfl

/-- The data that peeking looks at and the data of the decoded error: there is no tip in either, or
they are one item, passed on as it stands and settled. -/
def SameData (v : Item) (e : ResultError) : Prop :=
  (errorTip v = none ∧ e.tip = none) ∨
    ∃ data j k, v.valueAt [("data", [])] "data" = some data ∧
      Reader.unread .document data = .ok j ∧ Settles data k ∧
        errorTip v = ResultError.tipOfData j ∧ e.tip = ResultError.tipOfData k

theorem sameData_of_object {v : Item} {members : List (String × Json)} {e : ResultError}
    (h : Settles v (.object (Entries.sort members))) (hv : IsError v)
    (he : Portable.read .document (Json.object (Entries.sort members)).item = .ok e) :
    SameData v e := by
  obtain ⟨values, hshape, hok⟩ := hv
  obtain ⟨values', hshape', hvalue⟩ := shape_sorted
    [("code", []), ("message", []), ("data", [])] members (primary_of_plain rfl _)
  have hgiven := (ResultError.of_read hshape' he).2
  rw [hvalue "data" (by decide)] at hgiven
  have hrel := h.member_of_shape hshape rfl
    (show field? [("data", [])] "data" = some "data" by decide)
  rw [Json.member?_sorted] at hrel
  unfold SameData
  rw [errorTip, errorData, hshape.valueAt, ResultError.tip]
  -- Without data neither side has a tip to tell.
  cases hdata : values "data" with
  | none =>
    rw [hdata] at hrel
    generalize members.reverse.lookup "data" = k at *
    cases hrel
    have hnone : e.data = none := hgiven
    rw [hnone]
    exact .inl ⟨rfl, rfl⟩
  | some data =>
    rw [hdata] at hrel
    generalize members.reverse.lookup "data" = k at *
    cases hrel with
    | @some _ k hk =>
      rw [tip_of_option hk hgiven]
      obtain ⟨j, hj⟩ := hok ("data", []) (by simp) data hdata
      refine .inr ⟨data, j, k, rfl, hj, hk, ?_, rfl⟩
      rw [Option.bind_some]
      -- The peeked error drops null data, and the kept null is no object.
      cases hnull : data.isNull with
      | true =>
        obtain rfl : data = .null := by cases data <;> first | rfl | cases hnull
        cases hj
        rfl
      | false =>
        rw [hj]
        rfl

/-- An error that is written as an array has a code and nothing else that peeking takes. -/
theorem sameData_of_array {items : List Item} {js : List Json} {e : ResultError}
    (h : SettlesItems items js) (hv : IsError (.array items))
    (he : Portable.read .document (Json.array js).item = .ok e) : SameData (.array items) e := by
  obtain ⟨values, hshape, -⟩ := hv
  have hlength : items.length ≤ 1 := by
    cases hshape with
    | positional hlength => exact hlength
  obtain ⟨values', hshape'⟩ := shape_of_read (.other rfl) he
  obtain ⟨⟨w, hw, hcode⟩, hdata⟩ := ResultError.of_read hshape' he
  rw [← hshape'.valueAt] at hw hdata
  -- The code comes first, and to peeking an array has no more than one item.
  match items, js, h with
  | [], [], .nil => cases hw
  | [v], [j], .cons h .nil =>
    have hnone : e.data = none := hdata
    cases hw
    refine .inl ⟨?_, by rw [ResultError.tip, hnone]; rfl⟩
    obtain ⟨n, rfl⟩ : ∃ n, v = .int n := by
      cases h with
      | int _ => exact ⟨_, rfl⟩
      | _ => cases hcode
    have hfits : FitsWord n := by
      cases h with
      | int hfits => exact hfits
      | wide h s => rcases h with h | ⟨x, h⟩ <;> cases h
    show ((Reader.unread .document (.int n)).toOption).bind ResultError.tipOfData = none
    rw [Reader.unread, if_pos hfits]
    rfl
  | _ :: _ :: _, _, _ =>
    rw [List.length_cons, List.length_cons] at hlength
    omega

theorem sameData {v : Item} {j : Json} {e : ResultError} (h : Settles v j) (hv : IsError v)
    (he : Portable.read .document j.item = .ok e) : SameData v e := by
  have hshape := hv
  obtain ⟨values, hshape, -⟩ := hshape
  cases hshape with
  | named _ =>
    obtain ⟨members, rfl, -⟩ := h.exists_object
    exact sameData_of_object h hv he
  | positional _ =>
    obtain ⟨js, rfl, hitems⟩ := h.exists_array
    exact sameData_of_array hitems hv he

theorem SameData.eq_of_isText {v : Item} {e : ResultError} (h : SameData v e)
    (hhash : ∀ data, v.valueAt [("data", [])] "data" = some data → ∀ hash,
      ((data.last? "tip").getD data).last? "id" = some hash → hash.IsText) :
    errorTip v = e.tip := by
  rcases h with ⟨hv, he⟩ | ⟨data, j, k, hdata, hj, hk, hv, he⟩
  · rw [hv, he]
  · rw [hv, he]
    exact tipOfData_unread hj hk (hhash data hdata)

theorem SameData.eq_none {v : Item} {e : ResultError} (h : SameData v e) (he : e.tip = none) :
    errorTip v = none := by
  rcases h with ⟨hv, -⟩ | ⟨data, j, k, hdata, hj, hk, hv, hk'⟩
  · exact hv
  · rw [hv]
    cases ht : ResultError.tipOfData j with
    | none => rfl
    | some t =>
      -- A tip that shows as it stands has a text for its hash, and so it shows settled.
      have hsame := tipOfData_unread hj hk fun v => isText_of_tipOfData hj hk ht
      rw [ht, ← hk', he] at hsame
      cases hsame

/-! ## Frames -/

/-- A result that settles to `null` is none. -/
theorem null_of_settles {v : Item} (h : Settles v .null) (hv : v.Nullable IsResult) :
    v = .null := by
  rcases hv with rfl | ⟨values, hshape, -⟩
  · rfl
  · cases hshape with
    | named _ =>
      obtain ⟨members, hmembers, -⟩ := h.exists_object
      cases hmembers
    | positional _ => cases h

/-- The frame of an error in the place of a result shows the tip of the error. -/
theorem shownTip_of_error {v : Item} {members : List (String × Json)} {error : Json}
    {e : ResultError} (h : Settles v (.object members)) (hv : IsFrame v)
    (hresult : (Json.object members).present? "result" = none)
    (herror : (Json.object members).present? "error" = some error)
    (he : Portable.read .document error.item = .ok e) :
    ∃ w, v.valueAt frameFields "error" = some w ∧ SameData w e ∧ shownTip v = errorTip w := by
  obtain ⟨values, hshape, hok⟩ := hv
  rw [shownTip, hshape.valueAt]
  have hrel := fun field (hfield : field? frameFields field = some field) =>
    h.member_of_shape hshape rfl hfield
  -- A result can be there all the same, if it is `null`.
  have hshown : (values "result").bind resultTip = none := by
    have hresultRel := hrel "result" (by decide)
    cases hw : values "result" with
    | none => rfl
    | some w =>
      rw [hw] at hresultRel
      obtain ⟨k, hk, hsettles⟩ := exists_of_some_rel hresultRel
      rw [present?_eq_none.1 hresult k hk] at hsettles
      have hnull := null_of_settles hsettles (hok ("result", []) (by simp [frameFields]) w hw)
      rw [hnull]
      rfl
  obtain ⟨hmember, hnull⟩ := present?_eq_some.1 herror
  have herrorRel := hrel "error" (by decide)
  rw [hmember] at herrorRel
  obtain ⟨w, hw, hsettles⟩ := exists_of_rel_some herrorRel
  rcases hok ("error", []) (by simp [frameFields]) w hw with rfl | hisError
  · rw [hsettles.eq_null] at hnull
    cases hnull
  · refine ⟨w, hw, sameData hsettles hisError he, ?_⟩
    rw [hshown, hw]
    rfl

/-- A tip in sight is the tip that decoding finds. -/
theorem shownTip_of_inSight {v : Item} {j : Json} {r : Response} (h : Settles v j)
    (hr : Response.ofJson j = .ok r) (hv : IsFrame v) (hsight : TipInSight v) :
    shownTip v = r.tip := by
  obtain ⟨members, rfl⟩ : ∃ members, j = .object members := by
    rcases Response.tip_of_ofJson hr with ⟨result, t, h, -⟩ | ⟨-, error, e, h, -⟩
    · exact object_of_present? h
    · exact object_of_present? h
  obtain ⟨values, hshape, hok⟩ := id hv
  have hrel := h.member_of_shape hshape rfl
    (show field? frameFields "result" = some "result" by decide)
  -- The tip is in the result, or there is no result and the error tells it.
  cases hsight with
  | @result entries hresult hspelling =>
    rw [shownTip, hresult]
    rw [hshape.valueAt] at hresult
    rw [hresult] at hrel
    obtain ⟨k, hk, hsettles⟩ := exists_of_some_rel hrel
    obtain ⟨ms, rfl⟩ := hsettles.object_of_map
    have hpresent : (Json.object members).present? "result" = some (.object ms) :=
      present?_eq_some.2 ⟨hk, rfl⟩
    rcases Response.tip_of_ofJson hr with ⟨result, t, hresult', ht, hbears⟩ | ⟨hresult', -⟩
    · rw [hpresent] at hresult'
      cases hresult'
      rcases hok ("result", []) (by simp [frameFields]) _ hresult with hnull | hisResult
      · cases hnull
      · rw [Option.bind_some, ht,
          resultTip_of_bearsTip hsettles hisResult (hbears ms rfl) hspelling]
        rfl
    · rw [hpresent] at hresult'
      cases hresult'
  | error hresult hhash =>
    -- A null result counts as absent to the decoder, as it does here.
    have hnone : (Json.object members).present? "result" = none := by
      rw [hshape.valueAt] at hresult
      refine present?_eq_none.2 fun k hk => ?_
      rw [hk] at hrel
      obtain ⟨w, hw, hsettles⟩ := exists_of_rel_some hrel
      rw [hresult w hw] at hsettles
      exact hsettles.eq_null
    rcases Response.tip_of_ofJson hr with ⟨result, t, hresult', -⟩ | ⟨-, error, e, herror, he, ht⟩
    · rw [hnone] at hresult'
      cases hresult'
    · obtain ⟨w, hw, hsame, hshown⟩ := shownTip_of_error h hv hnone herror he
      rw [hshown, ht]
      exact hsame.eq_of_isText (hhash w hw)

/-- If decoding finds no tip, none is shown. -/
theorem shownTip_of_tip_eq_none {v : Item} {j : Json} {r : Response} (h : Settles v j)
    (hr : Response.ofJson j = .ok r) (hv : IsFrame v) (htip : r.tip = none) :
    shownTip v = none := by
  rcases Response.tip_of_ofJson hr with ⟨result, t, -, ht, -⟩ | ⟨hresult, error, e, herror, he, ht⟩
  · rw [ht] at htip
    cases htip
  · obtain ⟨members, rfl⟩ := object_of_present? herror
    obtain ⟨w, -, hsame, hshown⟩ := shownTip_of_error h hv hresult herror he
    rw [hshown]
    exact hsame.eq_none (ht ▸ htip)

theorem tip?_of_spells {d : Doc} {f : Octets} (h : Doc.Spells d f) :
    tip? f = (readFrame .document (d.item documentLevels)).toOption.join := by
  rw [tip?, Doc.read_eq_iff.2 h]

theorem tip?_of_not_spells {f : Octets} (h : ¬ ∃ d, Doc.Spells d f) : tip? f = none := by
  unfold tip?
  split
  · next d hread => exact absurd ⟨d, Doc.read_eq_iff.1 hread⟩ h
  · rfl

theorem exists_of_decode {f : Octets} {t : Option Tip}
    (h : (Response.decode f).toOption.map Response.tip = some t) :
    ∃ r, Response.decode f = .ok r ∧ r.tip = t := by
  cases hdecode : Response.decode f with
  | error e =>
    rw [hdecode] at h
    cases h
  | ok r =>
    rw [hdecode] at h
    exact ⟨r, rfl, Option.some.inj h⟩

/-- Peeking sees the tip of a response without any, in every frame that is decoded to it. -/
theorem tip?_of_tip_eq_none {d : Doc} {f : Octets} {j : Json} {r : Response}
    (hd : Doc.Spells d f) (h : Settles (d.item documentLevels) j) (hr : Response.ofJson j = .ok r)
    (htip : r.tip = none) : tip? f = none := by
  rw [tip?_of_spells hd]
  cases hread : readFrame .document (d.item documentLevels) with
  | error e => rfl
  | ok shown =>
    obtain ⟨hframe, hshown⟩ := (readFrame_eq_ok h shown).1 hread
    rw [← hshown, shownTip_of_tip_eq_none h hr hframe htip]
    rfl

/-- A tip is seen in a text exactly if the text is a frame to peeking that shows it. -/
theorem tip?_eq_some_iff {d : Doc} {f : Octets} {j : Json} (hd : Doc.Spells d f)
    (h : Settles (d.item documentLevels) j) {t : Tip} :
    tip? f = some t ↔
      IsFrame (d.item documentLevels) ∧ shownTip (d.item documentLevels) = some t := by
  rw [tip?_of_spells hd, ← readFrame_eq_ok h]
  cases readFrame .document (d.item documentLevels) with
  | error e => simp [Except.toOption]
  | ok shown => simp [Except.toOption]

/-- Peeking at a frame that is decoded sees the tip of the response exactly if the response has
none, or if the frame is one to peeking as well, and the tip is in sight or some other tip that is
shown happens to be the same. -/
theorem tip?_eq_iff {f : Octets} {r : Response} (h : Response.decode f = .ok r) :
    tip? f = r.tip ↔
      r.tip = none ∨ ∃ d, Doc.Spells d f ∧ IsFrame (d.item documentLevels) ∧
        (TipInSight (d.item documentLevels) ∨ shownTip (d.item documentLevels) = r.tip) := by
  by_cases hspells : ∃ d, Doc.Spells d f
  · obtain ⟨d, hd⟩ := hspells
    obtain ⟨j, hvalue, hr⟩ := Response.exists_value_of_decode hd h
    have hsettles := Doc.settles_of_value hvalue
    cases htip : r.tip with
    | none =>
      have hpeek := tip?_of_tip_eq_none hd hsettles hr htip
      exact ⟨fun _ => .inl rfl, fun _ => hpeek⟩
    | some t =>
      rw [tip?_eq_some_iff hd hsettles]
      constructor
      · rintro ⟨hframe, hshown⟩
        exact .inr ⟨d, hd, hframe, .inr hshown⟩
      · rintro (hnone | ⟨d', hd', hframe, hsight⟩)
        · cases hnone
        · -- The frame spells one tree only.
          obtain rfl := hd'.unique hd
          rcases hsight with hsight | hshown
          · exact ⟨hframe, (shownTip_of_inSight hsettles hr hframe hsight).trans htip⟩
          · exact ⟨hframe, hshown⟩
  · -- A frame that is a document only after quoting is none to peeking.
    rw [tip?_of_not_spells hspells]
    constructor
    · intro htip
      exact .inl htip.symm
    · rintro (htip | ⟨d, hd, -⟩)
      · exact htip.symm
      · exact absurd ⟨d, hd⟩ hspells

/-- An older node's intersection with its tip in either spelling: both are decoded to the tip, and
one of the two is out of sight. -/
theorem sees_one_of_two_spellings :
    ∃ f g r s,
      f = Octets.ofText ("\x7b\"methodname\":\"FindIntersect\",\"result\":" ++
        "\x7b\"IntersectionFound\":\x7b\"Point\":\"origin\"," ++
        "\"Tip\":\x7b\"slot\":1,\"hash\":\"a\",\"blockNo\":2\x7d\x7d\x7d\x7d") ∧
      g = Octets.ofText ("\x7b\"methodname\":\"FindIntersect\",\"result\":" ++
        "\x7b\"IntersectionFound\":\x7b\"Point\":\"origin\"," ++
        "\"tip\":\x7b\"slot\":1,\"hash\":\"a\",\"blockNo\":2\x7d\x7d\x7d\x7d") ∧
      (Response.decode f = .ok r ∧ r.tip = some ⟨1, "a", 2⟩ ∧ tip? f = none ∧
        ¬ ∃ d, Doc.Spells d f ∧ IsFrame (d.item documentLevels) ∧
          TipInSight (d.item documentLevels)) ∧
      (Response.decode g = .ok s ∧ s.tip = some ⟨1, "a", 2⟩ ∧ tip? g = s.tip ∧
        ∃ d, Doc.Spells d g ∧ IsFrame (d.item documentLevels)) := by
  obtain ⟨f, hf⟩ : ∃ f, f = Octets.ofText ("\x7b\"methodname\":\"FindIntersect\",\"result\":" ++
    "\x7b\"IntersectionFound\":\x7b\"Point\":\"origin\"," ++
    "\"Tip\":\x7b\"slot\":1,\"hash\":\"a\",\"blockNo\":2\x7d\x7d\x7d\x7d") := ⟨_, rfl⟩
  obtain ⟨g, hg⟩ : ∃ g, g = Octets.ofText ("\x7b\"methodname\":\"FindIntersect\",\"result\":" ++
    "\x7b\"IntersectionFound\":\x7b\"Point\":\"origin\"," ++
    "\"tip\":\x7b\"slot\":1,\"hash\":\"a\",\"blockNo\":2\x7d\x7d\x7d\x7d") := ⟨_, rfl⟩
  have hf' : tip? f = none := by
    rw [hf]
    decide +kernel
  have hg' : tip? g = some ⟨1, "a", 2⟩ := by
    rw [hg]
    decide +kernel
  obtain ⟨r, hr, hrtip⟩ : ∃ r, Response.decode f = .ok r ∧ r.tip = some ⟨1, "a", 2⟩ :=
    exists_of_decode (by rw [hf]; decide +kernel)
  obtain ⟨s, hs, hstip⟩ : ∃ s, Response.decode g = .ok s ∧ s.tip = some ⟨1, "a", 2⟩ :=
    exists_of_decode (by rw [hg]; decide +kernel)
  refine ⟨f, g, r, s, hf, hg, ⟨hr, hrtip, hf', ?_⟩, hs, hstip, hg'.trans hstip.symm, ?_⟩
  -- Were the tip in sight, both readings would tell it.
  · rintro ⟨d, hd, hframe, hsight⟩
    have hsees := (tip?_eq_iff hr).2 (.inr ⟨d, hd, hframe, .inl hsight⟩)
    rw [hf', hrtip] at hsees
    cases hsees
  · rcases (tip?_eq_iff hs).1 (hg'.trans hstip.symm) with hnone | ⟨d, hd, hframe, -⟩
    · rw [hstip] at hnone
      cases hnone
    · exact ⟨d, hd, hframe⟩

end Peek

end ChainFollower
