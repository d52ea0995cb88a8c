import ChainFollower.Proofs.Json.Intact
import ChainFollower.Proofs.Protocol.Bearing
import ChainFollower.Proofs.Protocol.Responses
import ChainFollower.Proofs.Protocol.Translation

/-!
# Intersections are read back

A result without a tip is written like any other, and the current shape does not accept it.  So a
response that tells an intersection comes through its own text exactly if it has a tip, is not too
deep, since an error in the place of a result is written into the result as well, and holds no
number that is misread.

Main statement: `Response.decode_encode_intersection_iff`.
-/

namespace ChainFollower

open Record (Restores Shape Given exists_holds shape_of_read getWith_eq_ok)

/-! ## Sound intersections -/

namespace Intersection

/-- What decoding makes sure of: unread parts are decoded documents. -/
structure Sound (levels : Nat) (i : Intersection) : Prop where
  error : ∀ e, i.error = some e → e.Sound levels
  id : Json.Passed (levels + 1) i.id

variable {levels : Nat} {i : Intersection}

/-- More levels do no harm. -/
theorem Sound.mono {more : Nat} (h : i.Sound levels) (hle : levels ≤ more) : i.Sound more :=
  ⟨fun e he => Json.Passed.mono (h.error e he) hle, h.id.mono (by omega)⟩

/-- An intersection of the current shape that is read is sound. -/
theorem sound_of_yields (h : (Portable.read : Reader Intersection).Yields (levels + 2) i) :
    i.Sound levels := by
  obtain ⟨r, hr, hfields⟩ := h.fields
  simp only [Placed.seq_eq_ok, Placed.map_eq_ok] at hfields
  obtain ⟨_, id, ⟨_, error, ⟨_, tip, ⟨point, -, rfl⟩, -, rfl⟩, herror, rfl⟩, hid, rfl⟩ := hfields
  refine ⟨fun e he => ?_, hr.passed hid⟩
  rcases hr.getWith herror with hnone | hyields
  · cases hnone.symm.trans he
  · obtain ⟨j, hj, -, hread⟩ := hyields.of_option e he
    exact ResultError.sound_of_yields ⟨j, hj, hread⟩

/-- The data of the error that tells of no intersection is a tip. -/
theorem sound_notFound (t : Tip) : (ResultError.notFound (some t)).Sound (levels + 1) := by
  intro j hj
  cases hj
  exact ⟨((readBack_tip t).fits.mono (Nat.le_add_left 1 levels)).canonical_sorted, rfl⟩

/-- And so is one of the legacy shape, whatever else stands in it. -/
theorem sound_of_legacy {more : Nat} {j : Json} (hj : j.Canonical (more + 1))
    (h : Legacy.readIntersection .document j.item = .ok i) : i.Sound (levels + 1) := by
  obtain ⟨⟨name, beside⟩, hchoice, h⟩ := bind_eq_ok.1 h
  cases beside with
  | none => cases h
  | some v =>
    obtain ⟨body, -, rfl⟩ := Legacy.body_of_choice hj hchoice
    simp only at h
    split at h
    -- Found: the outcome has no error and no id.
    · obtain ⟨members, values, r, rfl, -, -, hfields⟩ := Record.exists_of_readMap h
      simp only [Placed.seq_eq_ok, Placed.map_eq_ok] at hfields
      obtain ⟨_, tip, ⟨point, -, rfl⟩, -, rfl⟩ := hfields
      exact ⟨fun e he => (by cases he), Json.passed_none _⟩
    · split at h
      · obtain ⟨members, values, r, rfl, -, -, hfields⟩ := Record.exists_of_readMap h
        simp only [Placed.map_eq_ok] at hfields
        obtain ⟨tip, -, rfl⟩ := hfields
        -- Not found: the error is built from the tip.
        refine ⟨fun e he => ?_, Json.passed_none _⟩
        cases he
        exact sound_notFound tip.current
      · cases h

/-- A result is read as one of the current shape or as one of the legacy shape. -/
theorem read_cases {j : Json} (h : ofJson j = .ok i) :
    Portable.read .document j.item = .ok i ∨ Legacy.readIntersection .document j.item = .ok i := by
  -- The current reader is tried first and the legacy one after it.
  unfold ofJson Attempt.resolve Attempt.resolve Attempt.resolve at h
  split at h
  · next hcurrent =>
    cases h
    exact .inl (read_of_current hcurrent).1
  · split at h
    · next hlegacy =>
      cases h
      exact .inr (read_of_legacy hlegacy)
    · cases h
    · cases h
  · cases h

/-- A result of either shape gives a sound intersection. -/
theorem sound_of_ofJson {j : Json} (hj : j.Canonical (levels + 3)) (h : ofJson j = .ok i) :
    i.Sound (levels + 1) := by
  rcases read_cases h with hcurrent | hlegacy
  · exact sound_of_yields ⟨j, hj, hcurrent⟩
  · exact sound_of_legacy hj hlegacy

end Intersection

/-- A sound intersection is read back. -/
theorem readBack_intersection {levels : Nat} {i : Intersection} (h : i.Sound levels) :
    ReadBack (levels + 2) i := by
  -- A point and a tip are never written as null, so each is read back where it is there.
  have hpoint : ∀ p : Point, ReadBack (levels + 1) p ∧ (toJson p).isNull = false := by
    intro p
    refine ⟨(readBack_point p).mono (by omega), ?_⟩
    cases p <;> rfl
  have htip : ∀ t : Tip, ReadBack (levels + 1) t ∧ (toJson t).isNull = false := fun t =>
    ⟨(readBack_tip t).mono (by omega), rfl⟩
  exact (Restores.start Intersection.mk
    |>.ifSome "intersection" (fun p _ => hpoint p)
    |>.ifSome "tip" (fun t _ => htip t)
    |>.ifSome "error" (fun e he => ⟨readBack_error (h.error e he), rfl⟩)
    |>.ifSome "id" h.id.readBack).readBack rfl rfl rfl (by decide)

/-! ## What a text that comes through holds -/

section Legible

variable {levels : Nat} {w : Json}

/-- Points and tips hold no float: a tip has two words and a text, -/
theorem Tip.legible (t : Tip) : (toJson t).Legible := by
  apply Json.legible_record
  simp only [List.forall_mem_cons]
  exact ⟨Member.legible_always _ (Json.legible_int _), Member.legible_always _ (Json.legible_text _),
    Member.legible_always _ (Json.legible_int _), List.forall_mem_nil _⟩

/-- and a point may have no height. -/
theorem Point.legible (p : Point) : (toJson p).Legible := by
  cases p with
  | symbol s => exact Json.legible_text s
  | block b =>
    apply Json.legible_record
    simp only [List.forall_mem_cons]
    exact ⟨Member.legible_always _ (Json.legible_int _),
      Member.legible_always _ (Json.legible_text _),
      Member.legible_ifSome _ (fun _ _ => Json.legible_int _), List.forall_mem_nil _⟩

/-- An error is legible if its data is. -/
theorem ResultError.legible {e : ResultError} (hdata : ∀ d, e.data = some d → d.Legible) :
    (toJson e).Legible := by
  apply Json.legible_record
  simp only [List.forall_mem_cons]
  exact ⟨Member.legible_always _ (Json.legible_int _), Member.legible_always _ (Json.legible_text _),
    Member.legible_ifSome _ hdata, List.forall_mem_nil _⟩

/-- An intersection is legible if what it passes on is, -/
theorem Intersection.legible {i : Intersection}
    (herror : ∀ e, i.error = some e → (toJson e).Legible)
    (hid : ∀ j, i.id = some j → j.Legible) : (toJson i).Legible := by
  apply Json.legible_record
  simp only [List.forall_mem_cons]
  exact ⟨Member.legible_ifSome _ fun p _ => p.legible, Member.legible_ifSome _ fun t _ => t.legible,
    Member.legible_ifSome _ herror, Member.legible_ifSome _ hid, List.forall_mem_nil _⟩

/-- and a response if its parts are. -/
theorem Response.legible {r : Response} (hresult : r.result.document.Legible)
    (herror : ∀ e, r.error = some e → (toJson e).Legible)
    (hid : ∀ j, r.id = some j → j.Legible) : r.document.Legible := by
  apply Json.legible_record
  simp only [List.forall_mem_cons]
  exact ⟨Member.legible_always _ (Json.legible_text _), Member.legible_always _ (Json.legible_text _),
    Member.legible_always _ hresult, Member.legible_ifSome _ herror, Member.legible_ifSome _ hid,
    List.forall_mem_nil _⟩

/-! ### What comes through -/

namespace ResultError

/-- The members that an error is written with, the last one first. -/
def written (e : ResultError) : List (String × Member) :=
  [("data", .ifSome "data" e.data), ("message", .always "message" e.message),
    ("code", .always "code" e.code)]

variable {e : ResultError}

/-- The members of an error's text have the values of what was written. -/
theorem member?_of_value (hvalue : (toJson e).doc.value (levels + 1) = .ok w) {name : String}
    {m : Member} (hm : (name, m) ∈ e.written) :
    Option.Rel (fun j k => j.doc.value levels = .ok k) m.part (w.member? name) :=
  Json.member?_of_value_record (by simp [written])
    (by simp [written, Member.named_always, Member.named_ifSome]) hm hvalue

/-- An error that comes through its own text. -/
theorem legible_of_value (hvalue : (toJson e).doc.value (levels + 1) = .ok w)
    (hread : Portable.read .document w.item = .ok e) : (toJson e).Legible := by
  have hmember : (("data", .ifSome "data" e.data) : String × Member) ∈ e.written := by
    simp [written]
  have hrel := member?_of_value hvalue hmember
  obtain ⟨members, -, rfl⟩ := Json.value_object_eq_ok.1 hvalue
  obtain ⟨values, hshape⟩ := shape_of_read (Json.documented_item _) hread
  apply ResultError.legible
  intro d hd
  obtain ⟨k, hk, hkread⟩ :=
    Json.exists_value_of_given rfl hshape hrel (of_read hshape hread).2 d hd
  exact Json.legible_of_member hk hkread

end ResultError

namespace Intersection

/-- The members that an intersection is written with, the last one first. -/
def written (i : Intersection) : List (String × Member) :=
  [("id", .ifSome "id" i.id), ("error", .ifSome "error" i.error), ("tip", .ifSome "tip" i.tip),
    ("intersection", .ifSome "intersection" i.point)]

variable {i : Intersection}

/-- The members of an intersection's text have the values of what was written. -/
theorem member?_of_value (hvalue : (toJson i).doc.value (levels + 1) = .ok w) {name : String}
    {m : Member} (hm : (name, m) ∈ i.written) :
    Option.Rel (fun j k => j.doc.value levels = .ok k) m.part (w.member? name) :=
  Json.member?_of_value_record (by simp [written]) (by simp [written, Member.named_ifSome]) hm
    hvalue

/-- The members of an intersection that may be unread come from members of its result. -/
theorem of_read {item : Item} {values : String → Option Item}
    (hshape : Shape [("intersection", []), ("tip", []), ("error", []), ("id", [])] item values)
    (h : Portable.read .document item = .ok i) :
    Given (Reader.option Portable.read) none (values "error") i.error ∧
      Given (Reader.option Reader.json) none (values "id") i.id := by
  obtain ⟨r, hr, hread⟩ := exists_holds hshape
  have hfields := (hread _ i).1 h
  simp only [Placed.seq_eq_ok, Placed.map_eq_ok, Record.getD, getWith_eq_ok hr] at hfields
  obtain ⟨_, _, ⟨_, _, ⟨_, _, ⟨_, _, rfl⟩, _, rfl⟩, herror, rfl⟩, hid, rfl⟩ := hfields
  exact ⟨herror, hid⟩

/-- A result that is read as the intersection is one of the current shape: the other one has no
member `tip`. -/
theorem read_of_value (hvalue : (toJson i).doc.value (levels + 1) = .ok w)
    (h : ofJson w = .ok i) : Portable.read .document w.item = .ok i := by
  rcases read_cases h with hcurrent | hlegacy
  · exact hcurrent
  · obtain ⟨t, htip, -⟩ := bearsTip h
    have hmember : (("tip", .ifSome "tip" i.tip) : String × Member) ∈ i.written := by
      simp [written]
    have hrel := member?_of_value hvalue hmember
    rw [Member.part_ifSome, htip] at hrel
    obtain ⟨k, hk, -⟩ := exists_of_some_rel hrel
    obtain ⟨members, -, rfl⟩ := Json.value_object_eq_ok.1 hvalue
    -- A legacy result has one member, which is not called `tip`.
    obtain ⟨name, body, hsingle, hname, -⟩ := Legacy.readIntersection_eq_ok hlegacy
    have hne : "tip" ≠ name := by
      intro heq
      rw [← heq] at hname
      exact absurd hname (by decide)
    rw [hsingle, Json.member?, Entries.lookup_cons, if_neg hne] at hk
    cases hk

/-- An intersection that comes through its own text. -/
theorem legible_of_value (hvalue : (toJson i).doc.value (levels + 2) = .ok w)
    (h : ofJson w = .ok i) : (toJson i).Legible := by
  have hread := read_of_value hvalue h
  have hmemberError : (("error", .ifSome "error" i.error) : String × Member) ∈ i.written := by
    simp [written]
  have hmemberId : (("id", .ifSome "id" i.id) : String × Member) ∈ i.written := by
    simp [written]
  -- The error and the id are the two members that can hold foreign data.
  have hrelError := member?_of_value hvalue hmemberError
  have hrelId := member?_of_value hvalue hmemberId
  obtain ⟨members, -, rfl⟩ := Json.value_object_eq_ok.1 hvalue
  obtain ⟨values, hshape⟩ := shape_of_read (Json.documented_item _) hread
  obtain ⟨hgivenError, hgivenId⟩ := of_read hshape hread
  apply Intersection.legible
  · intro e he
    obtain ⟨k, hk, hkread⟩ := Json.exists_value_of_given rfl hshape hrelError hgivenError e he
    exact ResultError.legible_of_value hk hkread
  · intro j hj
    obtain ⟨k, hk, hkread⟩ := Json.exists_value_of_given rfl hshape hrelId hgivenId j hj
    exact Json.legible_of_member hk hkread

end Intersection

namespace Response

variable {r : Response} {raw : Json}

/-- The members of a response's text have the values of what was written. -/
theorem member?_of_value (hvalue : r.document.doc.value (levels + 1) = .ok raw) {name : String}
    {m : Member} (hm : (name, m) ∈ r.written) :
    Option.Rel (fun j k => j.doc.value levels = .ok k) m.part (raw.member? name) :=
  Json.member?_of_value_record r.written_distinct r.written_named hm hvalue

/-- What a response that is read from its own text comes from: the current envelope. -/
theorem answerOf_of_value (hvalue : r.document.doc.value (levels + 1) = .ok raw)
    (h : ofJson raw = .ok r) : r.id = raw.present? "id" ∧ errorOf raw = .ok r.error ∧
      answerOf raw r.method r.error = .ok r.result := by
  have hmember : (("method", .always "method" r.method) : String × Member) ∈ r.written := by
    simp [written]
  obtain ⟨k, hk, -⟩ := exists_of_some_rel (member?_of_value hvalue hmember)
  rcases ofJson_eq_ok.1 h with hcurrent | ⟨hnone, -⟩
  · obtain ⟨method, error, answer, -, herror, hanswer, hr⟩ := current_eq_ok.1 hcurrent
    rw [hr]
    exact ⟨rfl, herror, hanswer⟩
  · rw [current_eq_none.1 hnone] at hk
    cases hk

/-- An id that comes through is legible, -/
theorem legible_id_of_value (hvalue : r.document.doc.value (levels + 1) = .ok raw)
    (h : r.id = raw.present? "id") : ∀ j, r.id = some j → j.Legible := by
  intro j hj
  have hmember : (("id", .ifSome "id" r.id) : String × Member) ∈ r.written := by
    simp [written]
  have hrel := member?_of_value hvalue hmember
  rw [hj] at h
  rw [Member.part_ifSome, hj, (Json.present?_eq_some.1 h.symm).1] at hrel
  cases hrel with
  | some hvalue => exact Json.legible_of_value hvalue

/-- and so is an error beside the result. -/
theorem legible_error_of_value (hvalue : r.document.doc.value (levels + 2) = .ok raw)
    (h : errorOf raw = .ok r.error) : ∀ e, r.error = some e → (toJson e).Legible := by
  intro e he
  have hmember : (("error", .ifSome "error" r.error) : String × Member) ∈ r.written := by
    simp [written]
  have hrel := member?_of_value hvalue hmember
  rw [he] at h
  unfold errorOf at h
  split at h
  · next k hpresent =>
    rw [Member.part_ifSome, he, (Json.present?_eq_some.1 hpresent).1] at hrel
    obtain ⟨e', hdecode, heq⟩ := map_eq_ok.1 h
    cases heq
    cases hrel with
    | some hvalue => exact ResultError.legible_of_value hvalue (Json.read_of_decodeValue hdecode)
  · cases h

/-- The result is always written, so that the intersection is read from it, and from no error. -/
theorem exists_result_of_value {i : Intersection} (hi : r.result = .intersection i)
    (hvalue : r.document.doc.value (levels + 2) = .ok raw)
    (h : answerOf raw r.method r.error = .ok r.result) :
    ∃ k, (toJson i).doc.value (levels + 1) = .ok k ∧ Intersection.ofJson k = .ok i := by
  have hdocument : r.result.document = toJson i := by
    rw [hi]
    rfl
  have hmember : (("result", .always "result" r.result.document) : String × Member) ∈
      r.written := by
    simp [written]
  have hrel := member?_of_value hvalue hmember
  rw [Member.part_always, hdocument] at hrel
  obtain ⟨k, hk, hresult⟩ := exists_of_some_rel hrel
  refine ⟨k, hresult, ?_⟩
  have hpresent : raw.present? "result" = some k := by
    obtain ⟨members, -, rfl⟩ := Json.value_object_eq_ok.1 hresult
    exact Json.present?_eq_some.2 ⟨hk, rfl⟩
  rw [hi] at h
  -- A step is no intersection, so the method is that of the intersection.
  cases hmethod : r.method with
  | findIntersection =>
    simp only [hmethod, answerOf, hpresent] at h
    obtain ⟨i', hi', heq⟩ := map_eq_ok.1 h
    cases heq
    exact hi'
  | nextBlock =>
    simp only [hmethod, answerOf, hpresent] at h
    obtain ⟨s, -, heq⟩ := map_eq_ok.1 h
    cases heq

/-- A response with an intersection that comes through its own text. -/
theorem legible_of_value {i : Intersection} (hi : r.result = .intersection i)
    (hvalue : r.document.doc.value (levels + 3) = .ok raw) (h : ofJson raw = .ok r) :
    i.tip.isSome = true ∧ r.document.Legible := by
  obtain ⟨hid, herror, hanswer⟩ := answerOf_of_value hvalue h
  obtain ⟨k, hk, hof⟩ := exists_result_of_value hi hvalue hanswer
  obtain ⟨t, htip, -⟩ := Intersection.bearsTip hof
  refine ⟨Option.isSome_iff_exists.2 ⟨t, htip⟩, ?_⟩
  apply legible
  · rw [hi]
    exact Intersection.legible_of_value hk hof
  · exact legible_error_of_value hvalue herror
  · exact legible_id_of_value hvalue hid

end Response

end Legible

/-! ## Responses with an intersection -/

namespace Response

variable {levels : Nat} {raw : Json} {r : Response} {i : Intersection}

/-- The intersection of a decoded response is sound, an error in the place of a result included. -/
theorem sound_of_intersection (hsound : r.Sound (levels + 2)) (hraw : raw.Canonical (levels + 4))
    (h : Answered raw r) (hi : r.result = .intersection i) :
    r.method = .findIntersection ∧ i.Sound (levels + 2) := by
  cases h with
  | intersection hpresent hmethod hresult h =>
    rw [hresult] at hi
    cases hi
    have hresult : i.Sound (levels + 1) := Intersection.sound_of_ofJson (hraw.present? hpresent).1 h
    exact ⟨hmethod, hresult.mono (Nat.le_succ _)⟩
  -- An error on its own is put into the outcome it answers.
  | @error e hmethod herror hresult =>
    rw [hresult] at hi
    cases hi
    refine ⟨hmethod, fun e' he => ?_, hsound.id⟩
    cases he
    exact hsound.error e herror
  | step _ _ hresult _ =>
    rw [hresult] at hi
    cases hi

/-- A response with an intersection that has a tip is read from its document form. -/
theorem ofJson_of_intersection (hmethod : r.method = .findIntersection)
    (hi : r.result = .intersection i) (htip : i.tip.isSome = true)
    (hback : Portable.read .document (toJson i).sorted.item = .ok i)
    (herror : ∀ e, r.error = some e → Portable.read .document (toJson e).sorted.item = .ok e)
    (hid : ∀ j, r.id = some j → j.sorted = j ∧ j.isNull = false) :
    ofJson r.document.sorted = .ok r := by
  apply ofJson_document herror hid
  have hpresent : r.document.sorted.present? "result" = some (toJson i).sorted := by
    rw [Json.present?, (members_document r).result, hi]
    rfl
  obtain ⟨t, ht⟩ := Option.isSome_iff_exists.1 htip
  simp only [hmethod, hi, answerOf, hpresent, Intersection.ofJson_current hback ht]
  rfl

/-- A decoded response with an intersection comes through its own text exactly if it has a tip, is
not too deep for a text, and holds no floating-point number that is misread. -/
theorem decode_encode_intersection_iff {frame : Octets} (h : decode frame = .ok r)
    (hi : r.result = .intersection i) :
    decode (Json.encode r) = .ok r ↔
      i.tip.isSome = true ∧ r.document.item.depth ≤ documentLevels ∧ r.document.Legible := by
  obtain ⟨raw, hraw, hr⟩ := canonical_of_decode h
  obtain ⟨hsound, hanswered⟩ := sound_of_ofJson hraw hr
  obtain ⟨hmethod, hisound⟩ := sound_of_intersection hsound hraw hanswered hi
  obtain ⟨herror, hid⟩ := hsound.readBack
  have hback := readBack_intersection hisound
  constructor
  · -- The text is read as some document: what that holds decides all three.
    intro hdecode
    obtain ⟨raw', hvalue, hof⟩ := exists_value_of_decode (Doc.spells_octets _) hdecode
    obtain ⟨htip, hlegible⟩ := legible_of_value hi hvalue hof
    exact ⟨htip, Json.depth_le_of_value hvalue, hlegible⟩
  · rintro ⟨htip, hdepth, hlegible⟩
    -- An error in the place of the result is written one level deeper than it was read.
    have hdeep : r.document.Fits (documentLevels + 1) := by
      apply fits_document
      · rw [hi]
        exact hback.fits
      · exact fun e he => (herror e he).fits.mono (by decide)
      · exact fun j hj => (hid j hj).1.mono (by decide)
    have hfits : r.document.Fits documentLevels := ⟨hdepth, hdeep.sound⟩
    exact decode_octets hfits hlegible
      (ofJson_of_intersection hmethod hi htip hback.read (fun e he => (herror e he).read)
        fun j hj => (hid j hj).2)

/-! ## Errors in the place of a result -/

/-- A response with an error in the place of its result. -/
def refusal (e : ResultError) : Response :=
  ⟨"2.0", .findIntersection, .intersection ⟨none, e.tip, some e, none⟩, some e, none⟩

/-- The frame of it. -/
def refused (e : ResultError) : Json :=
  .object [("jsonrpc", .text "2.0"), ("method", .text "findIntersection"), ("error", toJson e)]

/-- The members of the frame, in order. -/
theorem member?_refused (e : ResultError) (name : String) : (refused e).sorted.member? name =
    [("error", (toJson e).sorted), ("method", .text "findIntersection"),
      ("jsonrpc", .text "2.0")].lookup name :=
  Json.member?_sorted _ name

/-- The frame goes one level deeper than its error, -/
theorem fits_refused {e : ResultError} (h : (toJson e).Fits 2) : (refused e).Fits 3 := by
  apply Json.fits_object.2
  simp only [List.forall_mem_cons]
  exact ⟨Json.fits_text _ _, Json.fits_text _ _, h, List.forall_mem_nil _⟩

/-- is legible if that is, -/
theorem legible_refused {e : ResultError} (h : (toJson e).Legible) : (refused e).Legible := by
  apply Json.legible_object.2
  simp only [List.forall_mem_cons]
  exact ⟨Json.legible_text _, Json.legible_text _, h, List.forall_mem_nil _⟩

/-- and gives it back. -/
theorem errorOf_refused {e : ResultError}
    (h : Portable.read .document (toJson e).sorted.item = .ok e) :
    errorOf (refused e).sorted = .ok (some e) := by
  have hpresent : (refused e).sorted.present? "error" = some (toJson e).sorted := by
    rw [Json.present?, member?_refused]
    rfl
  rw [errorOf, hpresent]
  show Except.map some (Json.decodeValue (toJson e).sorted) = _
  rw [Json.decodeValue_of_read h]
  rfl

/-- The frame is decoded to a response with the error in the place of its result. -/
theorem decode_refused {e : ResultError} (he : e.Sound 1) (legible : (toJson e).Legible) :
    decode (refused e).octets = .ok (refusal e) := by
  have hback := readBack_error he
  have hversion : versionOf (refused e).sorted = "2.0" := by
    rw [versionOf, member?_refused]
    rfl
  -- Neither a result nor an id was written.
  have habsent : ∀ name, (refused e).sorted.member? name = none →
      (refused e).sorted.present? name = none := by
    intro name hname
    rw [Json.present?, hname]
    rfl
  have hresult := habsent "result" (member?_refused e "result")
  have hid := habsent "id" (member?_refused e "id")
  have hfits := (fits_refused hback.fits).mono (show 3 ≤ documentLevels by decide)
  rw [decode_document hfits (legible_refused legible)]
  apply ofJson_eq_ok.2
  left
  apply current_eq_ok.2
  refine ⟨.findIntersection, some e, .intersection ⟨none, e.tip, some e, none⟩,
    member?_refused e "method", errorOf_refused hback.read, ?_, ?_⟩
  · simp only [answerOf, hresult, hid]
  · rw [hversion, hid]
    rfl

/-- The text of that response is legible if the error is. -/
theorem legible_refusal {e : ResultError} (h : (toJson e).Legible) :
    (refusal e).document.Legible := by
  have herror : ∀ e', some e = some e' → (toJson e').Legible := by
    intro e' he
    cases he
    exact h
  have hid : ∀ j : Json, none = some j → j.Legible := fun j hj => nomatch hj
  exact legible (Intersection.legible herror hid) herror hid

/-- The error that tells of no intersection holds nothing but a tip. -/
theorem legible_notFound (tip : Option Tip) : (toJson (ResultError.notFound tip)).Legible := by
  apply ResultError.legible
  intro d hd
  obtain ⟨t, -, rfl⟩ := Option.map_eq_some_iff.1 hd
  rw [Tip.sorted_eq]
  apply Json.legible_object.2
  simp only [List.forall_mem_cons]
  exact ⟨Json.legible_int _, Json.legible_text _, Json.legible_int _, List.forall_mem_nil _⟩

/-- Without a tip the error that takes the place of a result is lost for good: the response is
written with a result that neither shape accepts. -/
theorem decode_encode_intersection_iff_refusal :
    decode (refused (.notFound none)).octets = .ok (refusal (.notFound none)) ∧
    decode (Json.encode (refusal (.notFound none))) ≠ .ok (refusal (.notFound none)) ∧
    decode (Json.encode (refusal (.notFound (some ⟨1, "a", 2⟩)))) =
      .ok (refusal (.notFound (some ⟨1, "a", 2⟩))) := by
  have hsound : (ResultError.notFound none).Sound 1 := Json.passed_none 1
  have hwithout := decode_refused hsound (legible_notFound none)
  have hwith := decode_refused (Intersection.sound_notFound ⟨1, "a", 2⟩) (legible_notFound _)
  -- With a tip all three conditions hold, and without one the first does not.
  refine ⟨hwithout, fun h => ?_, ?_⟩
  · have htip := ((decode_encode_intersection_iff hwithout rfl).1 h).1
    cases htip
  · apply (decode_encode_intersection_iff hwith rfl).2
    exact ⟨by decide +kernel, by decide +kernel, legible_refusal (legible_notFound _)⟩

end Response

end ChainFollower
