import ChainFollower.Proofs.Json.Admission
import ChainFollower.Proofs.Protocol.Intersections

/-!
# Answers fit their methods

A response is put together from a method, an answer and an id that are read apart from each other,
in either envelope.  Wherever it comes from, its answer is one to its method, so that who looks at
the method first asks for the right one; its id is no null; and it has a tip, unless an error
without one stands in the place of its result.

Main definitions: `Response.Source` for what a response is read from, and `Response.ask` for what it
answers to a method.

Main statement: `Response.well_formed`.
-/

namespace ChainFollower

/-- The method that an answer is one to. -/
def Answer.method : Answer → Method
  | .intersection _ => .findIntersection
  | .step _ => .nextBlock

namespace Response

/-! ## Asking for an answer -/

/-- The answer of a response that must hold one to the method. -/
def ask (r : Response) : Method → Except WrongMethod Answer
  | .findIntersection => r.mustIntersection.map .intersection
  | .nextBlock => r.mustStep.map .step

/-- If the answer is one to the method, it is given to who asks for that and to nobody else. -/
theorem ask_eq {r : Response} (h : r.result.method = r.method) (m : Method) :
    r.ask m = if m = r.method then .ok r.result else .error ⟨m, r.method⟩ := by
  obtain ⟨jsonrpc, method, result, error, id⟩ := r
  obtain rfl : result.method = method := h
  cases result <;> cases m <;> rfl

/-! ## Payloads -/

section Payloads

variable {raw : Json} {r : Response}

/-- In either envelope the answer is taken for one to the method that is named. -/
theorem method_of_ofJson (h : ofJson raw = .ok r) : r.result.method = r.method := by
  rcases ofJson_eq_ok.1 h with h | ⟨-, h⟩
  · obtain ⟨method, error, answer, -, -, hanswer, rfl⟩ := current_eq_ok.1 h
    -- Each way to answer fixes the variant together with the method.
    cases answered_of_answerOf hanswer with
    | intersection _ hmethod hresult _ =>
      rw [hmethod, hresult]
      rfl
    | error hmethod _ hresult =>
      rw [hmethod, hresult]
      rfl
    | step _ hmethod hresult _ =>
      rw [hmethod, hresult]
      rfl
  · obtain ⟨result, -, henvelope⟩ := legacy_eq_ok.1 h
    cases henvelope <;> rfl

/-- An id that is null is none. -/
theorem id_of_ofJson (h : ofJson raw = .ok r) : r.id ≠ some .null := by
  have hpresent : ∀ name, raw.present? name ≠ some .null := by
    intro name hnull
    have hvalue := (Json.present?_eq_some.1 hnull).2
    cases hvalue
  rcases ofJson_eq_ok.1 h with h | ⟨-, h⟩
  · obtain ⟨method, error, answer, -, -, -, rfl⟩ := current_eq_ok.1 h
    exact hpresent "id"
  · obtain ⟨result, -, henvelope⟩ := legacy_eq_ok.1 h
    cases henvelope <;> exact hpresent "reflection"

/-- An error stands in the place of the result of a current envelope, and it has this tip. -/
structure Refuses (raw : Json) (r : Response) (tip : Option Tip) : Prop where
  asked : raw.member? "method" = some (.text Method.findIntersection.name)
  method : r.method = .findIntersection
  result : raw.present? "result" = none
  error : ∃ e, r.error = some e ∧ e.tip = tip

/-- Without a result there is an error, and the tip is that of the error. -/
theorem refuses_of_ofJson (h : ofJson raw = .ok r) (hresult : raw.present? "result" = none) :
    Refuses raw r r.tip := by
  rcases ofJson_eq_ok.1 h with h | ⟨-, h⟩
  · obtain ⟨method, error, answer, hmethod, -, hanswer, rfl⟩ := current_eq_ok.1 h
    cases method with
    | findIntersection =>
      cases error with
      | none =>
        simp only [answerOf, hresult] at hanswer
        cases hanswer
      | some e =>
        simp only [answerOf, hresult] at hanswer
        cases hanswer
        exact ⟨hmethod, rfl, hresult, e, rfl, rfl⟩
    | nextBlock =>
      simp only [answerOf, hresult] at hanswer
      cases hanswer
  -- The legacy envelope always has a result.
  · obtain ⟨result, hpresent, -⟩ := legacy_eq_ok.1 h
    rw [hresult] at hpresent
    cases hpresent

/-- A response without a tip is a refusal without one. -/
theorem tip_eq_none_iff (h : ofJson raw = .ok r) : r.tip = none ↔ Refuses raw r none := by
  constructor
  · intro htip
    rcases tip_of_ofJson h with ⟨result, t, -, ht, -⟩ | ⟨hresult, -⟩
    · rw [ht] at htip
      cases htip
    · exact htip ▸ refuses_of_ofJson h hresult
  · intro hrefuses
    -- The tip of the response and that of the refusal are tips of one error.
    obtain ⟨e, he, htip⟩ := hrefuses.error
    obtain ⟨e', he', htip'⟩ := (refuses_of_ofJson h hrefuses.result).error
    rw [he] at he'
    cases he'
    exact htip'.symm.trans htip

end Payloads

/-! ## Sources -/

/-- What a response is read from: a frame, a payload that was read before, a document in text or in
binary, or an item of one. -/
inductive Source
  | frame (f : Octets)
  | payload (raw : Json)
  | text (s : Octets)
  | binary (s : Octets)
  | item (m : Medium) (i : Item)

namespace Source

/-- The response is read from the source. -/
def Gives : Source → Response → Prop
  | .frame f, r => decode f = .ok r
  | .payload raw, r => ofJson raw = .ok r
  | .text s, r => Json.decode s = .ok r
  | .binary s, r => Cbor.decode s = .ok r
  | .item m i, r => Portable.read m i = .ok r

/-- The payload stands in the source. -/
def Holds : Source → Json → Prop
  | .frame s, raw | .text s, raw => Json.decode s = .ok raw
  | .payload j, raw => j = raw
  | .binary s, raw => Cbor.decode s = .ok raw
  | .item m i, raw => Portable.read m i = .ok raw

theorem read_eq_ok {m : Medium} {i : Item} {r : Response} : Portable.read m i = .ok r ↔
    ∃ raw : Json, Portable.read m i = .ok raw ∧ ofJson raw = .ok r := by
  rw [read_eq, bind_eq_ok]
  simp only [mapError_eq_ok]
  rfl

/-- A response is read from the payload of its source. -/
theorem gives_iff {o : Source} {r : Response} :
    o.Gives r ↔ ∃ raw, o.Holds raw ∧ ofJson raw = .ok r := by
  cases o with
  | frame f => exact bind_eq_ok
  | payload raw => simp [Gives, Holds]
  -- A text and a binary payload are read in one go, the raw data being what they spell.
  | text s =>
    simp only [Gives, Holds, Json.decode_eq_ok_iff_spells, read_eq_ok]
    constructor
    · rintro ⟨d, hd, raw, hraw, h⟩
      exact ⟨raw, ⟨d, hd, hraw⟩, h⟩
    · rintro ⟨raw, ⟨d, hd, hraw⟩, h⟩
      exact ⟨d, hd, raw, hraw, h⟩
  | binary s =>
    have hresponse : Cbor.decode s = .ok r ↔ _ := Cbor.decode_eq_ok fun _ => rfl
    have hpayload : ∀ raw : Json, Cbor.decode s = .ok raw ↔ _ :=
      fun _ => Cbor.decode_eq_ok fun _ => rfl
    simp only [Gives, Holds, hresponse, hpayload, read_eq_ok]
  | item m i => exact read_eq_ok

end Source

/-! ## Well-formed responses -/

/-- Whatever a response is read from, its answer is one to its method, and given to who asks for
that and to nobody else; its id is no null; and it has a tip, except in the one case that an error
without a tip stands in the place of the result of a current envelope. -/
theorem well_formed {o : Source} {r : Response} (h : o.Gives r) :
    r.result.method = r.method ∧
    (∀ m, r.ask m = if m = r.method then .ok r.result else .error ⟨m, r.method⟩) ∧
    r.id ≠ some .null ∧
    ∃ raw, o.Holds raw ∧ (r.tip = none ↔ Refuses raw r none) := by
  obtain ⟨raw, hraw, hread⟩ := Source.gives_iff.1 h
  have hmethod := method_of_ofJson hread
  exact ⟨hmethod, ask_eq hmethod, id_of_ofJson hread, raw, hraw, tip_eq_none_iff hread⟩

/-- The exception: an error that none of the points was found, without a tip. -/
theorem well_formed_refusal :
    Source.Gives (.frame (refused (.notFound none)).octets) (refusal (.notFound none)) ∧
    (refusal (.notFound none)).ask .findIntersection = .ok (refusal (.notFound none)).result ∧
    (refusal (.notFound none)).ask .nextBlock = .error ⟨.nextBlock, .findIntersection⟩ ∧
    ∃ raw, Json.decode (refused (.notFound none)).octets = .ok raw ∧
      Refuses raw (refusal (.notFound none)) none := by
  have hsound : (ResultError.notFound none).Sound 1 := Json.passed_none 1
  have hgives : Source.Gives (.frame (refused (.notFound none)).octets)
      (refusal (.notFound none)) :=
    decode_refused hsound (legible_notFound none)
  obtain ⟨-, hask, -, raw, hraw, htip⟩ := well_formed hgives
  exact ⟨hgives, hask .findIntersection, hask .nextBlock, raw, hraw, htip.1 rfl⟩

end Response

end ChainFollower
