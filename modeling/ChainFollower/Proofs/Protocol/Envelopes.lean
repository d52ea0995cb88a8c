import ChainFollower.Proofs.Item.Fields
import ChainFollower.Proofs.Json.Reading
import ChainFollower.Protocol.Envelope

/-!
# Envelopes

What the two envelopes of a response hold when it is read: the member that names the method, a
result that answers it, and what ties the response to its request.
-/

namespace ChainFollower

namespace Response

/-- The first attempt that does not decline decides. -/
theorem ofJson_eq_ok {raw : Json} {r : Response} :
    ofJson raw = .ok r ↔
      current raw = .ok (some r) ∨ current raw = .ok none ∧ legacy raw = .ok (some r) := by
  unfold ofJson Attempt.resolve Attempt.resolve Attempt.resolve
  cases current raw with
  | error e => simp
  | ok r' =>
    cases r' with
    | some r' => simp
    | none =>
      cases legacy raw with
      | error e => simp
      | ok r' => cases r' <;> simp

/-- What is decoded from a text that spells a frame. -/
theorem decode_of_spells {d : Doc} {f : Octets} (h : Doc.Spells d f) :
    decode f = ((d.value documentLevels).mapError .json).bind ofJson := by
  rw [decode, Json.decode_json_of_spells h]
  rfl

/-- The tree of a frame that is decoded has a value. -/
theorem exists_value_of_decode {d : Doc} {f : Octets} {r : Response} (hd : Doc.Spells d f)
    (h : decode f = .ok r) : ∃ j, d.value documentLevels = .ok j ∧ ofJson j = .ok r := by
  rw [decode_of_spells hd] at h
  cases hvalue : d.value documentLevels with
  | error cause =>
    rw [hvalue] at h
    cases h
  | ok j =>
    rw [hvalue] at h
    exact ⟨j, rfl, h⟩

/-! ## The legacy envelope -/

/-- The legacy envelope of a response: a result that answers the method that is named. -/
inductive LegacyEnvelope (raw result : Json) : Response → Prop
  | intersection {i : Intersection}
      (hname : raw.member? "methodname" = some (.text "FindIntersect"))
      (h : Intersection.ofJson result = .ok i) : LegacyEnvelope raw result
        ⟨"2.0", .findIntersection, .intersection i, none, raw.present? "reflection"⟩
  | step {s : ChainStep} (hname : raw.member? "methodname" = some (.text "RequestNext"))
      (h : Legacy.step result = .ok s) : LegacyEnvelope raw result
        ⟨"2.0", .nextBlock, .step s, none, raw.present? "reflection"⟩

theorem requestNext_ne : "RequestNext" ≠ "FindIntersect" := by decide

theorem legacy_eq_ok {raw : Json} {r : Response} :
    legacy raw = .ok (some r) ↔
      ∃ result, raw.present? "result" = some result ∧ LegacyEnvelope raw result r := by
  constructor
  · intro h
    unfold legacy at h
    cases hname : raw.member? "methodname" with
    | none => simp [hname] at h
    | some named =>
      -- A method that is named by anything but a text is none of the two.
      have htext : ∀ s, s ≠ "" → named.text?.getD "" = s → named = .text s := by
        rintro s hs rfl
        cases named <;> first | rfl | exact absurd rfl hs
      simp only [hname] at h
      split at h
      · next hfind =>
        obtain ⟨result, hresult, h⟩ := bind_eq_ok.1 h
        obtain ⟨i, hi, h⟩ := bind_eq_ok.1 h
        cases h
        cases hpresent : raw.present? "result" with
        | none => simp [hpresent, missingResult] at hresult
        | some j =>
          simp only [hpresent, Except.ok.injEq] at hresult
          subst hresult
          exact ⟨j, rfl, .intersection (hname.trans (congrArg some (htext _ (by decide) hfind))) hi⟩
      · next hfind =>
        split at h
        · next hnext =>
          obtain ⟨result, hresult, h⟩ := bind_eq_ok.1 h
          obtain ⟨s, hs, h⟩ := bind_eq_ok.1 h
          cases h
          cases hpresent : raw.present? "result" with
          | none => simp [hpresent, missingResult] at hresult
          | some j =>
            simp only [hpresent, Except.ok.injEq] at hresult
            subst hresult
            exact ⟨j, rfl, .step (hname.trans (congrArg some (htext _ (by decide) hnext))) hs⟩
        · cases h
  · rintro ⟨result, hresult, h⟩
    cases h with
    | @intersection i hname h =>
      simp only [legacy, hname, hresult, Json.text?, Option.getD_some, if_true]
      show (Intersection.ofJson result >>= fun i => _) = _
      rw [h]
      rfl
    | @step s hname h =>
      simp only [legacy, hname, hresult, Json.text?, Option.getD_some, if_neg requestNext_ne,
        if_true]
      show (Legacy.step result >>= fun s => _) = _
      rw [h]
      rfl

/-! ## The current envelope -/

theorem methodOf_eq_ok {j : Json} {m : Method} : methodOf j = .ok m ↔ j = .text m.name := by
  constructor
  · intro h
    cases j with
    -- The two known names are tried in turn.
    | text name =>
      simp only [methodOf, Method.parse] at h
      split at h
      · next hname =>
        cases h
        rw [hname]
      · split at h
        · next hname =>
          cases h
          rw [hname]
        · cases h
    | _ => cases h
  · rintro rfl
    cases m <;> rfl

/-- The error beside the result of a current envelope. -/
def errorOf (raw : Json) : Except DecodeError (Option ResultError) :=
  match raw.present? "error" with
  | some e => (Json.decodeValue e).map some
  | none => .ok none

/-- The answer to a method, out of the result of an envelope or the error in its place. -/
def answerOf (raw : Json) : Method → Option ResultError → Except DecodeError Answer
  | .findIntersection, error =>
    match raw.present? "result", error with
    | some result, _ => (Intersection.ofJson result).map .intersection
    | none, some e => .ok (.intersection ⟨none, e.tip, some e, raw.present? "id"⟩)
    | none, none => missingResult
  | .nextBlock, _ =>
    match raw.present? "result" with
    | some result => (Json.decodeValue result).map .step
    | none => missingResult

/-- The version that a current envelope names. -/
def versionOf (raw : Json) : String := ((raw.member? "jsonrpc").bind Json.text?).getD "2.0"

/-- The attempt at the current envelope, part by part. -/
theorem current_eq {raw named : Json} (h : raw.member? "method" = some named) :
    current raw = (do
      let method ← methodOf named
      let error ← errorOf raw
      let answer ← answerOf raw method error
      return some ⟨versionOf raw, method, answer, error, raw.present? "id"⟩) := by
  simp only [current, h, errorOf]
  -- The method comes first, then the error, then the result: each is settled before the next.
  cases methodOf named with
  | error e => rfl
  | ok method =>
    cases hpresent : raw.present? "error" with
    | none =>
      cases method <;> cases hresult : raw.present? "result" <;>
        simp only [bind, Except.bind, answerOf, hresult] <;> rfl
    | some j =>
      simp only [bind, Except.bind]
      cases (Json.decodeValue j : Except DecodeError ResultError) with
      | error e => rfl
      | ok e =>
        cases method <;> cases hresult : raw.present? "result" <;>
          simp only [Except.map, answerOf, hresult] <;> rfl

/-- The attempt at the current envelope declines exactly if no method is named. -/
theorem current_eq_none {raw : Json} : current raw = .ok none ↔ raw.member? "method" = none := by
  cases hmethod : raw.member? "method" with
  | none => simp [current, hmethod]
  | some named =>
    simp only [reduceCtorEq, iff_false, current_eq hmethod]
    intro h
    obtain ⟨method, -, h⟩ := bind_eq_ok.1 h
    obtain ⟨error, -, h⟩ := bind_eq_ok.1 h
    obtain ⟨answer, -, h⟩ := bind_eq_ok.1 h
    cases h

/-- The current envelope of a response: a method, an error that reads, and an answer. -/
theorem current_eq_ok {raw : Json} {r : Response} :
    current raw = .ok (some r) ↔
      ∃ method error answer, raw.member? "method" = some (.text (Method.name method)) ∧
        errorOf raw = .ok error ∧ answerOf raw method error = .ok answer ∧
          r = ⟨versionOf raw, method, answer, error, raw.present? "id"⟩ := by
  constructor
  · intro h
    -- Without a method the payload is of the other shape.
    cases hmethod : raw.member? "method" with
    | none =>
      rw [current_eq_none.2 hmethod] at h
      cases h
    | some named =>
      rw [current_eq hmethod] at h
      obtain ⟨method, hnamed, h⟩ := bind_eq_ok.1 h
      obtain ⟨error, herror, h⟩ := bind_eq_ok.1 h
      obtain ⟨answer, hanswer, h⟩ := bind_eq_ok.1 h
      cases h
      exact ⟨method, error, answer, congrArg some (methodOf_eq_ok.1 hnamed), herror, hanswer, rfl⟩
  -- The three readings are put together in the order of the decoder.
  · rintro ⟨method, error, answer, hmethod, herror, hanswer, rfl⟩
    rw [current_eq hmethod, methodOf_eq_ok.2 rfl, herror]
    show (answerOf raw method error >>= _) = _
    rw [hanswer]
    rfl

end Response

end ChainFollower
