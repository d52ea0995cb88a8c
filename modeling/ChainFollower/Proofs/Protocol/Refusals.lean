import ChainFollower.Proofs.Json.Rereading
import ChainFollower.Proofs.Protocol.Envelopes

/-!
# Why a response is refused

A frame is refused because it is no document or holds one that does not fit, because nobody asks for
its method, because a member is missing, or because it has no shape that is known.  Which envelope a
payload comes in is settled by its members alone, and before anything else of it is read.

Main definitions: `Response.Failure` for the ways in which decoding can fail, `Response.Misnames`
and `Response.Unrecognized` for the payloads that are refused for the method that they name, and
for their shape.

Main statement: `Response.decode_classifies`.
-/

namespace ChainFollower

/-! ## Failed attempts -/

/-- Of two attempts the second one is made if the first one declines. -/
theorem Attempt.resolve_eq_error {α : Type} {first second : Attempt α} {raw : Json}
    {e : DecodeError} : Attempt.resolve [first, second] raw = .error e ↔
      first raw = .error e ∨ first raw = .ok none ∧
        (second raw = .error e ∨ second raw = .ok none ∧ e = .refused .unrecognizedShape) := by
  -- Once for each of the two attempts, and once where none is left.
  unfold resolve resolve resolve
  cases first raw with
  | error e' => simp
  | ok a =>
    cases a with
    | some a => simp
    | none =>
      cases second raw with
      | error e' => simp
      | ok b => cases b <;> simp [eq_comm]

namespace Json

variable {α : Type} [Portable α]

/-- A value is refused only because it does not fit. -/
theorem decodeValue_eq_error {j : Json} {e : DecodeError} :
    (decodeValue j : Except DecodeError α) = .error e ↔
      ∃ cause, (Portable.read .document j.item : Reading α) = .error cause ∧ e = .json cause := by
  unfold decodeValue
  cases (Portable.read .document j.item : Reading α) <;> simp [eq_comm]

/-- A text is refused only because it does not fit. -/
theorem exists_cause_of_decode {s : Octets} {e : DecodeError}
    (h : (decode s : Except DecodeError α) = .error e) : ∃ cause, e = .json cause := by
  unfold decode decodePlain at h
  split at h
  split at h
  · cases h
    exact ⟨_, rfl⟩
  · split at h <;> cases h
    exact ⟨_, rfl⟩

end Json

/-! ## Intersections -/

namespace Intersection

/-- A result that is of neither shape: read as one of the current shape it has no tip, and it has no
member of a legacy name. -/
structure Unshaped (result : Json) : Prop where
  current : ∀ i : Intersection, Portable.read .document result.item = .ok i → i.tip = none
  found : result.member? Legacy.foundName = none
  notFound : result.member? Legacy.notFoundName = none

variable {result : Json} {e : DecodeError}

/-- The current shape is declined, and never refused. -/
theorem current_ne_error : Intersection.current result ≠ .error e := by
  unfold Intersection.current
  split <;> simp

/-- It is declined by results that have no tip in it. -/
theorem current_eq_none : Intersection.current result = .ok none ↔
    ∀ i : Intersection, Portable.read .document result.item = .ok i → i.tip = none := by
  unfold Intersection.current Json.decodeValue
  cases (Portable.read .document result.item : Reading Intersection) with
  | error cause => simp
  | ok i => cases htip : i.tip <;> simp [htip]

/-- The legacy shape is declined where neither of its names is a member. -/
theorem legacy_eq_none : Legacy.intersection result = .ok none ↔
    result.member? Legacy.foundName = none ∧ result.member? Legacy.notFoundName = none := by
  unfold Legacy.intersection
  cases result.member? Legacy.foundName <;> cases result.member? Legacy.notFoundName <;>
    simp <;> split <;> simp

/-- A result of the legacy shape is refused only because it does not fit. -/
theorem exists_cause_of_legacy (h : Legacy.intersection result = .error e) :
    ∃ cause, e = .json cause := by
  unfold Legacy.intersection at h
  split at h
  · split at h
    · cases h
    · cases h
      exact ⟨_, rfl⟩
  · cases h

/-- A result is refused for its shape, or because it does not fit the legacy one. -/
theorem ofJson_eq_error : ofJson result = .error e ↔
    Unshaped result ∧ e = .refused .unrecognizedShape ∨
      Intersection.current result = .ok none ∧ Legacy.intersection result = .error e := by
  rw [ofJson, Attempt.resolve_eq_error, legacy_eq_none]
  constructor
  · rintro (h | ⟨hcurrent, h | ⟨⟨hfound, hnotFound⟩, rfl⟩⟩)
    · exact absurd h current_ne_error
    · exact .inr ⟨hcurrent, h⟩
    · exact .inl ⟨⟨current_eq_none.1 hcurrent, hfound, hnotFound⟩, rfl⟩
  · rintro (⟨h, rfl⟩ | ⟨hcurrent, h⟩)
    · exact .inr ⟨current_eq_none.2 h.current, .inr ⟨⟨h.found, h.notFound⟩, rfl⟩⟩
    · exact .inr ⟨hcurrent, .inl h⟩

/-- A result is refused for its shape if it has neither. -/
theorem ofJson_unrecognized :
    ofJson result = .error (.refused .unrecognizedShape) ↔ Unshaped result := by
  rw [ofJson_eq_error]
  constructor
  · rintro (⟨h, -⟩ | ⟨-, h⟩)
    · exact h
    · obtain ⟨cause, hcause⟩ := exists_cause_of_legacy h
      cases hcause
  · intro h
    exact .inl ⟨h, rfl⟩

end Intersection

namespace Response

/-! ## Failures -/

/-- The ways in which a response can fail to be decoded. -/
inductive Failure : DecodeError → Prop
  | json (cause : Fault) : Failure (.json cause)
  | unknownMethod (name : String) : Failure (.refused (.unknownMethod name))
  | unrecognizedShape : Failure (.refused .unrecognizedShape)
  | missingResult : Failure (.refused (.missingField "result"))
  | missingBlock : Failure (.refused (.missingField "block"))

/-- The ways in which an answer can fail to be read, once its method is known. -/
def AnswerFailure (e : DecodeError) : Prop :=
  Failure e ∧ ∀ name, e ≠ .refused (.unknownMethod name)

section Answers

variable {raw result : Json} {e : DecodeError}

/-- A value that does not fit is a failure of the answer. -/
theorem answerFailure_json (cause : Fault) : AnswerFailure (.json cause) :=
  ⟨.json cause, fun _ h => nomatch h⟩

/-- And so is a result that is no intersection. -/
theorem answerFailure_of_intersection (h : Intersection.ofJson result = .error e) :
    AnswerFailure e := by
  rcases Intersection.ofJson_eq_error.1 h with ⟨-, rfl⟩ | ⟨-, h⟩
  · exact ⟨.unrecognizedShape, by simp⟩
  · obtain ⟨cause, rfl⟩ := Intersection.exists_cause_of_legacy h
    exact answerFailure_json cause

/-- A result that is not there is another. -/
theorem answerFailure_missingResult : AnswerFailure (.refused (.missingField "result")) :=
  ⟨.missingResult, by simp⟩

end Answers

end Response

/-! ### Steps of the legacy shape -/

/-- A block of an older node is refused only for transactions that do not fit. -/
theorem Legacy.EraBlock.exists_cause_of_current {era : String} {b : EraBlock} {e : DecodeError}
    (h : b.current era = .error e) : ∃ cause, e = .json cause := by
  rcases bind_eq_error.1 h with h | ⟨ts, -, h⟩
  · unfold transactions at h
    split at h
    · split at h
      · cases h
      · cases h
        exact ⟨_, rfl⟩
    · cases h
  · cases h

/-- A legacy step is refused because it does not fit, or for a block that is not there. -/
theorem Legacy.error_of_step {result : Json} {e : DecodeError} (h : step result = .error e) :
    (∃ cause, e = .json cause) ∨ e = .refused (.missingField "block") := by
  unfold step at h
  split at h
  · next s _ =>
    cases s with
    | backward point tip => cases h
    | forward blocks tip =>
      simp only [Step.current] at h
      split at h
      · cases h
        exact .inr rfl
      -- The transactions of the block did not read.
      · rcases bind_eq_error.1 h with h | ⟨block, -, h⟩
        · exact .inl (EraBlock.exists_cause_of_current h)
        · cases h
  · cases h
    exact .inl ⟨_, rfl⟩

/-! ## Envelopes -/

namespace Method

/-- The name of a method in the legacy shape. -/
def legacyName : Method → String
  | .findIntersection => "FindIntersect"
  | .nextBlock => "RequestNext"

/-- No method has the empty name. -/
theorem legacyName_ne_empty (m : Method) : m.legacyName ≠ "" := by
  cases m <;> decide

end Method

namespace Response

/-- The envelope that a payload comes in names a method: the current one does, or no method is named
there and the legacy one does. -/
inductive Names (raw : Json) : WireShape → Method → Prop
  | current {m : Method} (h : raw.member? "method" = some (.text m.name)) : Names raw .current m
  | legacy {m : Method} (hmethod : raw.member? "method" = none)
      (h : raw.member? "methodname" = some (.text m.legacyName)) : Names raw .legacy m

/-- The envelope names something else, which is told by its text; where the current one has no text
it is told by the document, and where the legacy one has none nothing is. -/
inductive Misnames (raw : Json) : String → Prop
  | current {named : Json} (h : raw.member? "method" = some named)
      (hne : ∀ m : Method, named ≠ .text m.name) :
      Misnames raw (named.text?.getD named.compact)
  | legacy {named : Json} (hmethod : raw.member? "method" = none)
      (h : raw.member? "methodname" = some named)
      (hne : ∀ m : Method, named ≠ .text m.legacyName) : Misnames raw (named.text?.getD "")

/-- There is no envelope of either shape. -/
structure Bare (raw : Json) : Prop where
  current : raw.member? "method" = none
  legacy : raw.member? "methodname" = none

section Envelopes

variable {raw : Json} {e : DecodeError}

/-- A payload has no envelope, or one that names something else than a method, or a method. -/
theorem envelope_cases (raw : Json) :
    Bare raw ∨ (∃ name, Misnames raw name) ∨ ∃ shape m, Names raw shape m := by
  -- The current name first: the other one is looked at only where it is missing.
  cases hmethod : raw.member? "method" with
  | some named =>
    by_cases h : ∃ m : Method, named = .text m.name
    · obtain ⟨m, rfl⟩ := h
      exact .inr (.inr ⟨.current, m, .current hmethod⟩)
    · exact .inr (.inl ⟨_, .current hmethod fun m hm => h ⟨m, hm⟩⟩)
  | none =>
    cases hname : raw.member? "methodname" with
    | none => exact .inl ⟨hmethod, hname⟩
    | some named =>
      by_cases h : ∃ m : Method, named = .text m.legacyName
      · obtain ⟨m, rfl⟩ := h
        exact .inr (.inr ⟨.legacy, m, .legacy hmethod hname⟩)
      · exact .inr (.inl ⟨_, .legacy hmethod hname fun m hm => h ⟨m, hm⟩⟩)

/-! ### Outcomes -/

/-- Without a current envelope the legacy one decides. -/
theorem ofJson_of_no_method (h : raw.member? "method" = none) :
    ofJson raw = Attempt.resolve [legacy] raw := by
  rw [ofJson, Attempt.resolve, current_eq_none.2 h]

/-- With one it decides alone. -/
theorem ofJson_of_method {named : Json} (h : raw.member? "method" = some named) :
    (ofJson raw).map some = current raw := by
  -- The current envelope declines only where there is no method.
  have hdecides : current raw ≠ .ok none := by
    rw [Ne, current_eq_none, h]
    simp
  rw [ofJson, Attempt.resolve]
  cases hcurrent : current raw with
  | error e => rfl
  | ok r =>
    cases r with
    | none => exact absurd hcurrent hdecides
    | some r => rfl

/-- Without an envelope a payload has no shape. -/
theorem ofJson_of_bare (h : Bare raw) : ofJson raw = .error (.refused .unrecognizedShape) := by
  have hlegacy : legacy raw = .ok none := by simp [legacy, h.legacy]
  rw [ofJson_of_no_method h.current, Attempt.resolve, hlegacy]
  rfl

/-- A name that is no method's is told in the complaint. -/
theorem methodOf_of_ne {named : Json} (hne : ∀ m : Method, named ≠ .text m.name) :
    methodOf named = .error (.refused (.unknownMethod (named.text?.getD named.compact))) := by
  cases named with
  | text name =>
    have hfind : name ≠ Method.findIntersection.name := fun h => hne .findIntersection (h ▸ rfl)
    have hnext : name ≠ Method.nextBlock.name := fun h => hne .nextBlock (h ▸ rfl)
    rw [methodOf, Method.parse, if_neg hfind, if_neg hnext]
    rfl
  | _ => rfl

/-- And so is one in the legacy envelope, if it is a text. -/
theorem legacy_of_ne {named : Json} (h : raw.member? "methodname" = some named)
    (hne : ∀ m : Method, named ≠ .text m.legacyName) :
    legacy raw = .error (.refused (.unknownMethod (named.text?.getD ""))) := by
  have hname : ∀ m : Method, named.text?.getD "" ≠ m.legacyName := by
    intro m heq
    -- What is no text counts as the empty one, which no method has for its name.
    cases named with
    | text s => exact hne m (congrArg Json.text heq)
    | _ => exact m.legacyName_ne_empty heq.symm
  have hfind : named.text?.getD "" ≠ "FindIntersect" := hname .findIntersection
  have hnext : named.text?.getD "" ≠ "RequestNext" := hname .nextBlock
  unfold legacy
  simp only [h, if_neg hfind, if_neg hnext]
  rfl

/-- A payload that names something else is refused for that. -/
theorem ofJson_of_misnames {name : String} (h : Misnames raw name) :
    ofJson raw = .error (.refused (.unknownMethod name)) := by
  cases h with
  | current h hne =>
    have hmap := ofJson_of_method h
    rw [current_eq h, methodOf_of_ne hne] at hmap
    exact map_eq_error.1 hmap
  | legacy hmethod h hne =>
    rw [ofJson_of_no_method hmethod, Attempt.resolve, legacy_of_ne h hne]

/-! ### Answers -/

/-- The answer to a method in an envelope of either shape. -/
def answerIn (raw : Json) : WireShape → Method → Except DecodeError Answer
  | .current, m => errorOf raw >>= answerOf raw m
  | .legacy, m =>
    match raw.present? "result", m with
    | none, _ => missingResult
    | some result, .findIntersection => (Intersection.ofJson result).map .intersection
    | some result, .nextBlock => (Legacy.step result).map .step

/-- The attempt at a legacy envelope that names a method. -/
theorem legacy_eq {m : Method} (h : raw.member? "methodname" = some (.text m.legacyName)) :
    legacy raw = (answerIn raw .legacy m).map fun answer =>
      some ⟨"2.0", m, answer, none, raw.present? "reflection"⟩ := by
  unfold legacy answerIn
  simp only [h, Json.text?, Option.getD_some]
  cases m with
  | findIntersection =>
    cases raw.present? "result" with
    | none => rfl
    | some result =>
      simp only [Method.legacyName, if_true, bind, Except.bind]
      cases Intersection.ofJson result <;> rfl
  | nextBlock =>
    cases raw.present? "result" with
    | none => rfl
    | some result =>
      -- The first name is tried first and is another one.
      simp only [Method.legacyName, if_neg requestNext_ne, if_true, bind, Except.bind]
      cases Legacy.step result <;> rfl

/-- Where a method is named, what can go wrong is the answer. -/
theorem ofJson_eq_error_of_names {shape : WireShape} {m : Method} (h : Names raw shape m) :
    ofJson raw = .error e ↔ answerIn raw shape m = .error e := by
  cases h with
  -- Past the method, the first failure is the error's or the answer's.
  | current h =>
    rw [← map_eq_error (f := some), ofJson_of_method h, current_eq h, methodOf_eq_ok.2 rfl,
      answerIn]
    cases errorOf raw with
    | error e' => simp [bind, Except.bind]
    | ok error =>
      show (answerOf raw m error >>= fun _ => _) = _ ↔ answerOf raw m error = _
      simp [bind_eq_error, pure, Except.pure]
  | legacy hmethod h =>
    rw [ofJson_of_no_method hmethod, Attempt.resolve, legacy_eq h]
    cases answerIn raw .legacy m <;> simp [Except.map]

/-- An answer of the current shape fails in one of the known ways, its method being known. -/
theorem answerFailure_of_answerOf {m : Method} {error : Option ResultError}
    (h : answerOf raw m error = .error e) : AnswerFailure e := by
  -- An intersection may come as an error alone, and a step may not.
  cases m with
  | findIntersection =>
    simp only [answerOf] at h
    split at h
    · exact answerFailure_of_intersection (map_eq_error.1 h)
    · cases h
    · cases h
      exact answerFailure_missingResult
  | nextBlock =>
    simp only [answerOf] at h
    split at h
    · obtain ⟨cause, -, rfl⟩ := Json.decodeValue_eq_error.1 (map_eq_error.1 h)
      exact answerFailure_json cause
    · cases h
      exact answerFailure_missingResult

/-- An error is refused only because it does not fit. -/
theorem exists_cause_of_errorOf (h : errorOf raw = .error e) : ∃ cause, e = .json cause := by
  unfold errorOf at h
  split at h
  · obtain ⟨cause, -, rfl⟩ := Json.decodeValue_eq_error.1 (map_eq_error.1 h)
    exact ⟨cause, rfl⟩
  · cases h

/-- An answer of either shape fails in one of the known ways. -/
theorem answerFailure_of_answerIn {shape : WireShape} {m : Method}
    (h : answerIn raw shape m = .error e) : AnswerFailure e := by
  cases shape with
  | current =>
    rcases bind_eq_error.1 h with h | ⟨error, -, h⟩
    · obtain ⟨cause, rfl⟩ := exists_cause_of_errorOf h
      exact answerFailure_json cause
    · exact answerFailure_of_answerOf h
  | legacy =>
    simp only [answerIn] at h
    split at h
    · cases h
      exact answerFailure_missingResult
    · exact answerFailure_of_intersection (map_eq_error.1 h)
    · rcases Legacy.error_of_step (map_eq_error.1 h) with ⟨cause, rfl⟩ | rfl
      · exact answerFailure_json cause
      · exact ⟨.missingBlock, by simp⟩

/-! ### Shapes of answers -/

/-- The result is there, and of neither shape of an intersection. -/
def ResultUnshaped (raw : Json) : Prop :=
  ∃ result, raw.present? "result" = some result ∧ Intersection.Unshaped result

/-- Only results of intersections have a shape that can be unknown. -/
theorem answerOf_unrecognized {m : Method} {error : Option ResultError} :
    answerOf raw m error = .error (.refused .unrecognizedShape) ↔
      m = .findIntersection ∧ ResultUnshaped raw := by
  unfold ResultUnshaped
  cases m with
  | findIntersection =>
    cases hresult : raw.present? "result" with
    | none => cases error <;> simp [answerOf, hresult, missingResult]
    | some result =>
      simp [answerOf, hresult, map_eq_error, Intersection.ofJson_unrecognized]
  -- A step that cannot be read is a data error, never an unrecognized shape.
  | nextBlock =>
    cases hresult : raw.present? "result" with
    | none => simp [answerOf, hresult, missingResult]
    | some result => simp [answerOf, hresult, map_eq_error, Json.decodeValue_eq_error]

/-- See `answerOf_unrecognized`; in the legacy envelope. -/
theorem answerIn_legacy_unrecognized {m : Method} :
    answerIn raw .legacy m = .error (.refused .unrecognizedShape) ↔
      m = .findIntersection ∧ ResultUnshaped raw := by
  unfold ResultUnshaped
  cases hresult : raw.present? "result" with
  | none => simp [answerIn, hresult, missingResult]
  | some result =>
    cases m with
    | findIntersection =>
      simp [answerIn, hresult, map_eq_error, Intersection.ofJson_unrecognized]
    | nextBlock =>
      -- A legacy step is never refused for its shape.
      have hstep : Legacy.step result ≠ .error (.refused .unrecognizedShape) := by
        intro h
        rcases Legacy.error_of_step h with ⟨cause, hcause⟩ | hblock
        · cases hcause
        · cases hblock
      simp [answerIn, hresult, map_eq_error, hstep]

/-- The error beside the result is absent, null or read as one. -/
def ErrorFits (raw : Json) : Prop :=
  ∀ j, raw.present? "error" = some j →
    ∃ error : ResultError, Portable.read .document j.item = .ok error

/-- An error that fits is one that can be read. -/
theorem errorFits_iff : ErrorFits raw ↔ ∃ error, errorOf raw = .ok error := by
  unfold ErrorFits errorOf
  cases raw.present? "error" with
  | none => simp
  | some j =>
    simp only [Option.some.injEq, forall_eq', map_eq_ok]
    constructor
    · rintro ⟨error, h⟩
      exact ⟨some error, error, Json.decodeValue_of_read h, rfl⟩
    · rintro ⟨_, error, h, rfl⟩
      exact ⟨error, Json.read_of_decodeValue h⟩

/-- In a current envelope the error is read before the answer. -/
theorem answerIn_current_unrecognized {m : Method} :
    answerIn raw .current m = .error (.refused .unrecognizedShape) ↔
      ErrorFits raw ∧ m = .findIntersection ∧ ResultUnshaped raw := by
  rw [answerIn, bind_eq_error, errorFits_iff]
  simp only [answerOf_unrecognized]
  constructor
  · rintro (h | ⟨error, herror, h⟩)
    · obtain ⟨cause, hcause⟩ := exists_cause_of_errorOf h
      cases hcause
    · exact ⟨⟨error, herror⟩, h⟩
  · rintro ⟨⟨error, herror⟩, h⟩
    exact .inr ⟨error, herror, h⟩

end Envelopes

/-! ## Classification -/

/-- The shape of a payload is unknown: it has no envelope, or the result in one for an intersection
is of neither shape, and no error in a current envelope is refused before. -/
inductive Unrecognized (raw : Json) : Prop
  | bare (h : Bare raw)
  | current (h : Names raw .current .findIntersection) (herror : ErrorFits raw)
      (hresult : ResultUnshaped raw)
  | legacy (h : Names raw .legacy .findIntersection) (hresult : ResultUnshaped raw)

section Classification

variable {raw : Json} {e : DecodeError}

/-- A payload is refused for its shape exactly if it is not recognized. -/
theorem ofJson_eq_unrecognized_iff :
    ofJson raw = .error (.refused .unrecognizedShape) ↔ Unrecognized raw := by
  constructor
  · intro h
    -- Of the three ways to name a method only a known one leaves the result to be looked at.
    rcases envelope_cases raw with hbare | ⟨name, hname⟩ | ⟨shape, m, hnames⟩
    · exact .bare hbare
    · rw [ofJson_of_misnames hname] at h
      cases h
    · rw [ofJson_eq_error_of_names hnames] at h
      cases shape with
      | current =>
        obtain ⟨herror, rfl, hresult⟩ := answerIn_current_unrecognized.1 h
        exact .current hnames herror hresult
      | legacy =>
        obtain ⟨rfl, hresult⟩ := answerIn_legacy_unrecognized.1 h
        exact .legacy hnames hresult
  · intro h
    cases h with
    | bare h => exact ofJson_of_bare h
    | current h herror hresult =>
      rw [ofJson_eq_error_of_names h]
      exact answerIn_current_unrecognized.2 ⟨herror, rfl, hresult⟩
    | legacy h hresult =>
      rw [ofJson_eq_error_of_names h]
      exact answerIn_legacy_unrecognized.2 ⟨rfl, hresult⟩

/-- A payload is refused for its method exactly if it names something else. -/
theorem ofJson_eq_unknownMethod_iff {name : String} :
    ofJson raw = .error (.refused (.unknownMethod name)) ↔ Misnames raw name := by
  constructor
  · intro h
    rcases envelope_cases raw with hbare | ⟨other, hother⟩ | ⟨shape, m, hnames⟩
    · rw [ofJson_of_bare hbare] at h
      cases h
    · rw [ofJson_of_misnames hother] at h
      cases h
      exact hother
    · rw [ofJson_eq_error_of_names hnames] at h
      exact absurd rfl ((answerFailure_of_answerIn h).2 name)
  · exact ofJson_of_misnames

/-- A payload fails in one of the known ways. -/
theorem failure_of_ofJson (h : ofJson raw = .error e) : Failure e := by
  -- No envelope, a wrong name, or an answer that fails: each has failures of its own.
  rcases envelope_cases raw with hbare | ⟨name, hname⟩ | ⟨shape, m, hnames⟩
  · rw [ofJson_of_bare hbare] at h
    cases h
    exact .unrecognizedShape
  · rw [ofJson_of_misnames hname] at h
    cases h
    exact .unknownMethod name
  · rw [ofJson_eq_error_of_names hnames] at h
    exact (answerFailure_of_answerIn h).1

end Classification

/-! ### Frames -/

/-- The members of which a current envelope is read. -/
def currentNames : List String := ["method", "jsonrpc", "id", "error", "result"]

/-- The current envelope is read of five members, and of nothing else. -/
theorem current_congr {raw other : Json}
    (h : ∀ name ∈ currentNames, other.member? name = raw.member? name) :
    current other = current raw := by
  simp only [currentNames, List.forall_mem_cons] at h
  obtain ⟨hmethod, hversion, hid, herror, hresult, -⟩ := h
  simp only [current, Json.present?, hmethod, hversion, hid, herror, hresult]

section Frames

variable {f : Octets} {raw : Json} {e : DecodeError}

/-- A frame that is a document says what the document says. -/
theorem decode_of_read (h : Json.decode f = .ok raw) : decode f = ofJson raw := by
  rw [decode, h]
  rfl

/-- A frame is refused because it is no document, or for what the document says. -/
theorem decode_eq_error : decode f = .error e ↔
    (Json.decode f : Except DecodeError Json) = .error e ∨
      ∃ raw, Json.decode f = .ok raw ∧ ofJson raw = .error e := bind_eq_error

/-- A complaint about a frame is one about its document. -/
theorem decode_eq_refused {complaint : Complaint} : decode f = .error (.refused complaint) ↔
    ∃ raw, Json.decode f = .ok raw ∧ ofJson raw = .error (.refused complaint) := by
  rw [decode_eq_error]
  apply or_iff_right
  intro h
  obtain ⟨cause, hcause⟩ := Json.exists_cause_of_decode h
  cases hcause

/-- A frame fails in one of the known ways. -/
theorem failure_of_decode (h : decode f = .error e) : Failure e := by
  rcases decode_eq_error.1 h with h | ⟨raw, -, h⟩
  · obtain ⟨cause, rfl⟩ := Json.exists_cause_of_decode h
    exact .json cause
  · exact failure_of_ofJson h

/-- Where the current envelope names a method the members of another one are not looked at. -/
theorem ofJson_congr {named : Json} (hmethod : raw.member? "method" = some named) {other : Json}
    (h : ∀ name ∈ currentNames, other.member? name = raw.member? name) :
    ofJson other = ofJson raw := by
  have hother : other.member? "method" = some named := by
    rw [h "method" (by simp [currentNames]), hmethod]
  -- Both payloads are read by the current envelope alone, which finds the same members.
  have hsame : (ofJson other).map some = (ofJson raw).map some := by
    rw [ofJson_of_method hother, ofJson_of_method hmethod, current_congr h]
  revert hsame
  cases ofJson other <;> cases ofJson raw <;> simp [Except.map]

end Frames

/-- Every frame is decoded or fails in one of the five ways of `Failure`, of which the missing
members are `result` and `block`.  It fails for its shape exactly if it holds a payload that is not
recognized, and for its method exactly if it holds one that names something else than a method.
With a member `method` a payload is taken for a current envelope, whatever else it holds. -/
theorem decode_classifies (f : Octets) :
    (∀ e, decode f = .error e → Failure e) ∧
    (decode f = .error (.refused .unrecognizedShape) ↔
      ∃ raw, Json.decode f = .ok raw ∧ Unrecognized raw) ∧
    (∀ name, decode f = .error (.refused (.unknownMethod name)) ↔
      ∃ raw, Json.decode f = .ok raw ∧ Misnames raw name) ∧
    (∀ name, decode f = .error (.refused (.missingField name)) → name = "result" ∨ name = "block") ∧
    ∀ raw named, Json.decode f = .ok raw → raw.member? "method" = some named →
      (decode f).map some = current raw ∧
      ∀ other, (∀ name ∈ currentNames, other.member? name = raw.member? name) →
        ofJson other = decode f := by
  refine ⟨fun e h => failure_of_decode h, ?shape, fun name => ?method, fun name h => ?missing,
    fun raw named hraw hmethod => ?current⟩
  case shape => simp only [decode_eq_refused, ofJson_eq_unrecognized_iff]
  case method => simp only [decode_eq_refused, ofJson_eq_unknownMethod_iff]
  case missing =>
    cases failure_of_decode h with
    | missingResult => exact .inl rfl
    | missingBlock => exact .inr rfl
  case current =>
    rw [decode_of_read hraw]
    exact ⟨ofJson_of_method hmethod, fun other h => ofJson_congr hmethod h⟩

/-- A payload of both envelopes, the method of the current one being null. -/
def bothNamed : Json := .object [("method", .null), ("methodname", .text "RequestNext")]

/-- The method of the legacy envelope is not asked for. -/
theorem decode_classifies_both :
    Json.decode bothNamed.octets = .ok bothNamed ∧ bothNamed.member? "method" = some .null ∧
    decode bothNamed.octets = .error (.refused (.unknownMethod "null")) ∧
    ofJson (.object [("method", .null)]) = decode bothNamed.octets := by
  have hfits : bothNamed.Fits documentLevels := by
    apply Json.fits_object.2
    simp [Json.fits_text, Json.fits_null]
  have hlegible : bothNamed.Legible := by
    simp [bothNamed, Json.legible_object, (Json.floatFree_text _).legible,
      Json.floatFree_null.legible]
  have hread : Json.decode bothNamed.octets = .ok bothNamed :=
    Json.decode_octets_json hfits hlegible
  have hmethod : bothNamed.member? "method" = some .null := rfl
  obtain ⟨-, -, hname, -, hcurrent⟩ := decode_classifies bothNamed.octets
  have hmisnames : Misnames bothNamed "null" := .current hmethod (by simp)
  refine ⟨hread, hmethod, (hname "null").2 ⟨bothNamed, hread, hmisnames⟩, ?_⟩
  apply (hcurrent bothNamed .null hread hmethod).2
  simp [currentNames, bothNamed, Json.member?, Entries.lookup_cons]

end Response

end ChainFollower
