import ChainFollower.Proofs.Cbor.Rereading
import ChainFollower.Proofs.Protocol.Steps

/-!
# Responses are read back

The document form of a response is read as the response again if its parts are, and both encodings
carry that form.

Main statement: `Response.decode_encodings_step`.
-/

namespace ChainFollower

open Record (Restores)

/-! ## Errors -/

/-- What decoding makes sure of: the data of an error is a decoded document. -/
def ResultError.Sound (levels : Nat) (e : ResultError) : Prop := Json.Passed levels e.data

theorem ResultError.sound_of_yields {levels : Nat} {e : ResultError}
    (h : (Portable.read : Reader ResultError).Yields (levels + 1) e) : e.Sound levels := by
  obtain ⟨r, hr, hfields⟩ := h.fields
  simp only [Placed.seq_eq_ok, Placed.map_eq_ok] at hfields
  obtain ⟨_, data, ⟨_, message, ⟨code, -, rfl⟩, -, rfl⟩, hdata, rfl⟩ := hfields
  exact hr.passed hdata

theorem readBack_error {levels : Nat} {e : ResultError} (h : e.Sound levels) :
    ReadBack (levels + 1) e :=
  (Restores.start ResultError.mk
    |>.must "code" (readBack_signed64 levels e.code)
    |>.always "message" "" (readBack_text levels e.message)
    |>.ifSome "data" h.readBack).readBack rfl rfl rfl (by decide)

namespace Response

/-! ## The document form -/

/-- The members that a response is written with, the last one first. -/
def written (r : Response) : List (String × Member) :=
  [("id", .ifSome "id" r.id), ("error", .ifSome "error" r.error),
    ("result", .always "result" r.result.document), ("method", .always "method" r.method),
    ("jsonrpc", .always "jsonrpc" r.jsonrpc)]

theorem written_named (r : Response) : ∀ m ∈ r.written, m.2.Named m.1 := by
  simp [written, Member.named_always, Member.named_ifSome]

theorem written_distinct (r : Response) : (r.written.map (·.1)).Nodup := by
  simp [written]

/-- The members of the document form of a response, sorted. -/
structure Members (raw : Json) (r : Response) : Prop where
  jsonrpc : raw.member? "jsonrpc" = some (.text r.jsonrpc)
  method : raw.member? "method" = some (.text r.method.name)
  result : raw.member? "result" = some r.result.document.sorted
  error : raw.member? "error" = r.error.map fun e => (toJson e).sorted
  id : raw.member? "id" = r.id.map Json.sorted

theorem members_document (r : Response) : Members r.document.sorted r := by
  have hmember : ∀ {name m}, (name, m) ∈ r.written →
      r.document.sorted.member? name = m.part.map Json.sorted := fun hm =>
    Json.member?_record r.written_distinct r.written_named hm
  constructor
  · exact hmember (m := .always "jsonrpc" r.jsonrpc) (by simp [written])
  · exact hmember (m := .always "method" r.method) (by simp [written])
  · exact hmember (m := .always "result" r.result.document) (by simp [written])
  · rw [hmember (m := .ifSome "error" r.error) (by simp [written]), Member.part_ifSome,
      Option.map_map]
    rfl
  · rw [hmember (m := .ifSome "id" r.id) (by simp [written]), Member.part_ifSome, Option.map_map]
    rfl

/-- A member that is written and is no `null` is present. -/
theorem present?_of_member? {raw : Json} {name : String} {o : Option Json}
    (hmember : raw.member? name = o.map Json.sorted)
    (ho : ∀ j, o = some j → j.sorted = j ∧ j.isNull = false) : raw.present? name = o := by
  rw [Json.present?, hmember]
  cases o with
  | none => rfl
  | some j =>
    obtain ⟨hsorted, hnull⟩ := ho j rfl
    simp [hsorted, hnull]

/-- The document form of a response is read as the response if its parts are. -/
theorem ofJson_document {r : Response}
    (herror : ∀ e, r.error = some e → Portable.read .document (toJson e).sorted.item = .ok e)
    (hid : ∀ j, r.id = some j → j.sorted = j ∧ j.isNull = false)
    (hanswer : answerOf r.document.sorted r.method r.error = .ok r.result) :
    ofJson r.document.sorted = .ok r := by
  have hmembers := members_document r
  apply ofJson_eq_ok.2
  left
  refine current_eq_ok.2 ⟨r.method, r.error, r.result, hmembers.method, ?_, hanswer, ?_⟩
  -- The error, which may be absent.
  · unfold errorOf
    rw [Json.present?, hmembers.error]
    cases hr : r.error with
    | none => rfl
    | some e =>
      show Except.map some (Json.decodeValue (toJson e).sorted) = .ok (some e)
      rw [Json.decodeValue_of_read (herror e hr)]
      rfl
  -- The version and the id.
  · have hversion : versionOf r.document.sorted = r.jsonrpc := by
      rw [versionOf, hmembers.jsonrpc]
      rfl
    rw [hversion, present?_of_member? hmembers.id hid]

theorem fits_document {levels : Nat} {r : Response} (hresult : r.result.document.Fits levels)
    (herror : ∀ e, r.error = some e → (toJson e).Fits levels)
    (hid : ∀ j, r.id = some j → j.Fits levels) : r.document.Fits (levels + 1) := by
  apply Json.fits_object.2
  intro e he
  obtain ⟨m, hm, hwritten⟩ := List.mem_filterMap.1 he
  simp only [List.mem_cons, List.not_mem_nil, or_false] at hm
  -- Five members at most: the version, the method, the result, the error and the id.
  rcases hm with rfl | rfl | rfl | rfl | rfl
  · cases hwritten
    exact Json.fits_text _ _
  · cases hwritten
    exact Json.fits_text _ _
  · cases hwritten
    exact hresult
  · obtain ⟨error, hr, rfl⟩ := Option.map_eq_some_iff.1 hwritten
    exact herror error hr
  · obtain ⟨id, hr, rfl⟩ := Option.map_eq_some_iff.1 hwritten
    exact hid id hr

/-! ## Both encodings -/

section Encodings

variable {r : Response}

/-- A document that is taken for a frame is read with its members sorted. -/
theorem decode_document {j : Json} (fits : j.Fits documentLevels) (legible : j.Legible) :
    decode j.octets = ofJson j.sorted := by
  rw [decode, Json.decode_octets_json fits legible]
  rfl

/-- The text of a response is a frame of it if its document form is read as the response. -/
theorem decode_octets (fits : r.document.Fits documentLevels) (legible : r.document.Legible)
    (h : ofJson r.document.sorted = .ok r) : decode (Json.encode r) = .ok r :=
  (decode_document fits legible).trans h

/-- A response is read by its document; of what is wrong with that only a part is told. -/
theorem read_eq (m : Medium) (item : Item) : (Portable.read m item : Reading Response) =
    Reader.json m item >>= fun raw => (ofJson raw).mapError DecodeError.fault := by
  refine congrArg (Reader.json m item >>= ·) (funext fun raw => ?_)
  cases ofJson raw <;> rfl

/-- The text of a response is read as the response if its document form is. -/
theorem decode_encode (fits : r.document.Fits documentLevels) (legible : r.document.Legible)
    (h : ofJson r.document.sorted = .ok r) : Json.decode (Json.encode r) = .ok r := by
  have hjson : Reader.json .document r.document.item = .ok r.document.sorted :=
    Json.unread_item fits.sound (Json.named_document _)
  apply Json.decode_encode fits legible
  show (Portable.read .document r.document.item : Reading Response) = _
  rw [read_eq, hjson]
  show (ofJson r.document.sorted).mapError DecodeError.fault = _
  rw [h]
  rfl

/-- The binary form of a response is read as the response exactly if the reader takes all names. -/
theorem decode_encodeValue_iff (fits : r.document.Fits documentLevels)
    (floatFree : r.document.FloatFree) (room : (Cbor.encodeValue r).length < 0x10000000000000000)
    (h : ofJson r.document.sorted = .ok r) :
    Cbor.decode (Cbor.encodeValue r) = .ok r ↔
      r.document.Named (.binary Cbor.maxLevels) := by
  have hfits := fits.mono (show documentLevels ≤ Cbor.maxLevels by decide)
  -- The raw data of the response survive the encoding; what can fail is naming their parts.
  have hjson : Reader.json (.binary Cbor.maxLevels) (Cbor.read (Cbor.encodeValue r)) =
      Reader.unread (.binary Cbor.maxLevels) r.document.item := by
    have hitem : Cbor.read (Cbor.encodeValue r) = r.document.item :=
      Cbor.read_encode (hfits.kept floatFree) room
    rw [hitem]
    exact if_pos hfits.depth
  have hread : (Portable.ofBinary (Cbor.encodeValue r) : Reading Response) =
      Reader.unread (.binary Cbor.maxLevels) r.document.item >>= fun raw =>
        (ofJson raw).mapError DecodeError.fault := by
    show (Portable.read (.binary Cbor.maxLevels) (Cbor.read (Cbor.encodeValue r)) :
      Reading Response) = _
    rw [read_eq, hjson]
  rw [Cbor.decode, hread]
  constructor
  · intro hdecode
    -- A decoder that answers has read every part, names included.
    cases hunread : Reader.unread (.binary Cbor.maxLevels) r.document.item with
    | error fault =>
      rw [hunread] at hdecode
      cases hdecode
    | ok raw => exact Json.named_of_unread hunread
  · intro hnamed
    simp only [Json.unread_item fits.sound hnamed, bind, Except.bind, h]
    rfl

end Encodings

/-! ## Decoded responses -/

/-- What decoding makes sure of beside the answer: the data of the error and the id are decoded
documents. -/
structure Sound (levels : Nat) (r : Response) : Prop where
  error : ∀ e, r.error = some e → e.Sound levels
  id : Json.Passed (levels + 1) r.id

section Decoded

variable {levels : Nat} {raw : Json} {r : Response}

/-- Where the answer of a decoded response comes from. -/
inductive Answered (raw : Json) (r : Response) : Prop
  | intersection {result : Json} {i : Intersection} (hpresent : raw.present? "result" = some result)
      (hmethod : r.method = .findIntersection) (hresult : r.result = .intersection i)
      (h : Intersection.ofJson result = .ok i)
  /-- The error stands in the place of the result. -/
  | error {e : ResultError} (hmethod : r.method = .findIntersection) (herror : r.error = some e)
      (hresult : r.result = .intersection ⟨none, e.tip, some e, r.id⟩)
  | step {result : Json} {s : ChainStep} (hpresent : raw.present? "result" = some result)
      (hmethod : r.method = .nextBlock) (hresult : r.result = .step s)
      (h : Portable.read .document result.item = .ok s ∨ Legacy.step result = .ok s)

theorem answered_of_answerOf {method : Method} {error : Option ResultError} {answer : Answer}
    (h : answerOf raw method error = .ok answer) :
    Answered raw ⟨versionOf raw, method, answer, error, raw.present? "id"⟩ := by
  cases method with
  | findIntersection =>
    simp only [answerOf] at h
    split at h
    · next result _ hpresent =>
      obtain ⟨i, hi, rfl⟩ := map_eq_ok.1 h
      exact .intersection hpresent rfl rfl hi
    · cases h
      -- An error without a result.
      exact .error rfl rfl rfl
    · cases h
  | nextBlock =>
    simp only [answerOf] at h
    split at h
    · next result hpresent =>
      obtain ⟨s, hs, rfl⟩ := map_eq_ok.1 h
      exact .step hpresent rfl rfl (.inl (Json.read_of_decodeValue hs))
    · cases h

theorem sound_of_ofJson (hraw : raw.Canonical (levels + 2)) (h : ofJson raw = .ok r) :
    r.Sound levels ∧ Answered raw r := by
  have hpassed : ∀ name, Json.Passed (levels + 1) (raw.present? name) := fun name j hj =>
    hraw.present? hj
  rcases ofJson_eq_ok.1 h with hcurrent | ⟨-, hlegacy⟩
  · obtain ⟨method, error, answer, -, herror, hanswer, rfl⟩ := current_eq_ok.1 hcurrent
    refine ⟨⟨?_, hpassed "id"⟩, answered_of_answerOf hanswer⟩
    rintro e rfl
    unfold errorOf at herror
    cases hpresent : raw.present? "error" with
    | none =>
      rw [hpresent] at herror
      cases herror
    | some j =>
      rw [hpresent] at herror
      obtain ⟨e', he', heq⟩ := map_eq_ok.1 herror
      cases heq
      exact ResultError.sound_of_yields
        ⟨j, (hpassed "error" j hpresent).1, Json.read_of_decodeValue he'⟩
  · -- A legacy envelope has no error, and its reflection takes the place of an id.
    obtain ⟨result, hpresent, henvelope⟩ := legacy_eq_ok.1 hlegacy
    cases henvelope with
    | intersection hname hresult =>
      exact ⟨⟨(fun e he => nomatch he), hpassed "reflection"⟩,
        .intersection hpresent rfl rfl hresult⟩
    | step hname hresult =>
      exact ⟨⟨(fun e he => nomatch he), hpassed "reflection"⟩,
        .step hpresent rfl rfl (.inr hresult)⟩

/-- The step of a decoded response is sound; the legacy shape only nests it deeper. -/
theorem sound_of_answered {s : ChainStep} (hraw : raw.Canonical (levels + 9))
    (h : Answered raw r) (hstep : r.result = .step s) :
    r.method = .nextBlock ∧ s.Sound (levels + 2) := by
  cases h with
  | intersection _ _ hresult _ =>
    rw [hresult] at hstep
    cases hstep
  | error _ _ hresult =>
    rw [hresult] at hstep
    cases hstep
  | step hpresent hmethod hresult h =>
    rw [hresult] at hstep
    cases hstep
    refine ⟨hmethod, ?_⟩
    have hcanonical := (hraw.present? hpresent).1
    -- The step was read by one of the two readers of steps.
    rcases h with hcurrent | hlegacy
    · exact ChainStep.sound_of_yields ⟨_, hcanonical, hcurrent⟩
    · exact (Legacy.sound_of_step hcanonical hlegacy).mono (by omega)

theorem canonical_of_decode {frame : Octets} (h : decode frame = .ok r) :
    ∃ raw : Json, raw.Canonical documentLevels ∧ ofJson raw = .ok r := by
  obtain ⟨raw, hraw, hr⟩ := bind_eq_ok.1 h
  exact ⟨raw, Json.canonical_of_decode hraw, hr⟩

/-- The parts of a sound response beside its answer are read back. -/
theorem Sound.readBack (h : r.Sound levels) :
    (∀ e, r.error = some e → ReadBack (levels + 1) e) ∧
      ∀ j, r.id = some j → j.Fits (levels + 1) ∧ j.sorted = j ∧ j.isNull = false :=
  ⟨fun e he => readBack_error (h.error e he), fun j hj =>
    ⟨(h.id j hj).1.fits, (h.id j hj).1.ordered.sorted_eq, (h.id j hj).2⟩⟩

end Decoded

/-! ## Steps -/

/-- The values that a response holds. -/
def values (r : Response) : List Value :=
  match r.result with
  | .step s => s.values
  | .intersection _ => []

/-- A response with a step that is read back is read back itself. -/
theorem ofJson_of_step {r : Response} {s : ChainStep} (hmethod : r.method = .nextBlock)
    (hstep : r.result = .step s) (hback : Portable.read .document (toJson s).sorted.item = .ok s)
    (herror : ∀ e, r.error = some e → Portable.read .document (toJson e).sorted.item = .ok e)
    (hid : ∀ j, r.id = some j → j.sorted = j ∧ j.isNull = false) :
    ofJson r.document.sorted = .ok r := by
  apply ofJson_document herror hid
  have hpresent : r.document.sorted.present? "result" = some (toJson s).sorted := by
    rw [Json.present?, (members_document r).result, hstep]
    cases s <;> rfl
  rw [hmethod, answerOf, hpresent, hstep]
  show Except.map Answer.step (Json.decodeValue (toJson s).sorted) = _
  rw [Json.decodeValue_of_read hback]
  rfl

/-- The document form of a decoded response with a step fits and is read as the response. -/
theorem readBack_of_step {frame : Octets} {r : Response} {s : ChainStep}
    (h : decode frame = .ok r) (hstep : r.result = .step s) (plain : ∀ v ∈ r.values, v.Plain) :
    r.document.Fits documentLevels ∧ ofJson r.document.sorted = .ok r := by
  obtain ⟨raw, hraw, hr⟩ := canonical_of_decode h
  obtain ⟨hsound, hanswered⟩ := sound_of_ofJson hraw hr
  obtain ⟨hmethod, hs⟩ := sound_of_answered hraw hanswered hstep
  obtain ⟨herror, hid⟩ := hsound.readBack
  -- The values of the response are the values of its step.
  have hvalues : ∀ v ∈ s.values, v.Plain := by
    rw [values, hstep] at plain
    exact plain
  have hback := readBack_step hs (by decide) hvalues
  have hdocument : r.result.document = toJson s := by rw [hstep]; rfl
  constructor
  · apply fits_document
    · rw [hdocument]
      exact hback.fits
    · exact fun e he => (herror e he).fits
    · exact fun j hj => (hid j hj).1
  · exact ofJson_of_step hmethod hstep hback.read (fun e he => (herror e he).read) fun j hj =>
      (hid j hj).2

/-- A decoded response with a step survives both encodings, as long as it holds plain values and no
floating-point number; a binary reader takes it if it takes the first name of every object. -/
theorem decode_encodings_step {frame : Octets} {r : Response} {s : ChainStep}
    (h : decode frame = .ok r) (hstep : r.result = .step s) (floatFree : r.document.FloatFree)
    (plain : ∀ v ∈ r.values, v.Plain) :
    Json.decode (Json.encode r) = .ok r ∧
    ((Cbor.encodeValue r).length < 0x10000000000000000 → (Cbor.decode (Cbor.encodeValue r) = .ok r ↔
      ∀ name v rest, Json.Part (.object ((name, v) :: rest)) r.document →
        name.utf8ByteSize ≤ Reader.nameLimit)) := by
  obtain ⟨hfits, hread⟩ := readBack_of_step h hstep plain
  refine ⟨decode_encode hfits floatFree.legible hread, fun room => ?_⟩
  rw [decode_encodeValue_iff hfits floatFree room hread, Json.named_binary_iff]

/-! ## Names that are too long for a binary reader -/

/-- A transaction that pays out an asset beside its coins. -/
def payment : Transaction :=
  { id := "aa", outputs := [⟨"addr", none, none, (Value.ofCoins 5).set ⟨"p.n"⟩ 7, none⟩] }

/-- A step to a block with that transaction. -/
def paid : ChainStep :=
  .forward ⟨2, "bb", 1⟩ { id := "bb", height := 1, slot := 2, transactions := [payment] }

/-- A response with that step; its id has one name. -/
def labelled (name : String) : Response :=
  ⟨"2.0", .nextBlock, .step paid, none, some (.object [(name, .null)])⟩

/-- The members of its document form before the id. -/
def labelledFront : List (String × Json) :=
  [("jsonrpc", .text "2.0"), ("method", .text "nextBlock"), ("result", .object
    [("direction", .text "forward"),
      ("tip", .object [("slot", .int 2), ("id", .text "bb"), ("height", .int 1)]),
      ("block", .object [("id", .text "bb"), ("height", .int 1), ("slot", .int 2),
        ("transactions", .array [.object [("id", .text "aa"), ("outputs", .array [.object
          [("address", .text "addr"), ("value", .object
            [("ada", .object [("lovelace", .int 5)]), ("p", .object [("n", .int 7)])])]])]])])])]

section Labelled

variable (name : String)

theorem document_labelled : (labelled name).document =
    .object (labelledFront ++ [("id", .object [(name, .null)])]) := rfl

theorem floatFree_labelled : (labelled name).document.FloatFree := by
  rw [document_labelled]
  simp [labelledFront, Json.floatFree_object, Json.floatFree_array, Json.floatFree_text,
    Json.floatFree_int, Json.floatFree_null]

theorem named_labelled (h : name.utf8ByteSize ≤ Reader.nameLimit) :
    (labelled name).document.Named (.binary Cbor.maxLevels) := by
  have hothers : ∀ s ∈ ["jsonrpc", "direction", "slot", "id", "address", "ada", "lovelace", "n"],
      s.utf8ByteSize ≤ Reader.nameLimit := by decide
  simp only [List.forall_mem_cons] at hothers
  rw [document_labelled]
  simp [labelledFront, Json.named_object, Json.named_array, Json.TakesName, Json.firstName_binary,
    hothers, h]

theorem plain_labelled : ∀ v ∈ (labelled name).values, v.Plain := by
  intro v hv
  obtain rfl : v = (Value.ofCoins 5).set ⟨"p.n"⟩ 7 := List.mem_singleton.1 hv
  apply (Value.plain_ofCoins 5).set
  · decide
  · intro h
    exact absurd h.parts.2.2 (by decide)

theorem sound_paid (levels : Nat) : paid.Sound levels := by
  intro t ht
  cases List.mem_singleton.1 ht
  exact {
    collateralReturn := fun _ ho => nomatch ho
    outputs := fun o ho => by
      cases List.mem_singleton.1 ho
      exact ⟨Json.passed_none _⟩
    certificates := fun _ hj => absurd hj List.not_mem_nil
    network := Json.passed_none _
    proposals := Json.passed_none _
    votes := Json.passed_none _
    metadata := Json.passed_none _
    signatories := fun _ hj => absurd hj List.not_mem_nil
    scripts := Json.passed_none _
    datums := Datums.sound_empty
    redeemers := Json.passed_none _ }

/-- The text of the response is a frame of it. -/
theorem decode_labelled : decode (Json.encode (labelled name)) = .ok (labelled name) := by
  have hback : ReadBack 126 paid := readBack_step (sound_paid 120) (by decide) (plain_labelled name)
  -- The id is an object of one null, which reads as it stands.
  have hcanonical : (Json.object [(name, .null)]).Canonical 126 := by
    apply Json.canonical_object.2
    refine ⟨List.pairwise_singleton _ _, fun m hm => ?_⟩
    cases List.mem_singleton.1 hm
    exact Json.canonical_scalar trivial rfl rfl
  apply decode_octets _ (floatFree_labelled name).legible
  · apply ofJson_of_step rfl rfl hback.read
    · intro e he
      cases he
    · intro j hj
      cases hj
      exact ⟨hcanonical.ordered.sorted_eq, rfl⟩
  · apply fits_document hback.fits
    · intro e he
      cases he
    · intro j hj
      cases hj
      exact hcanonical.fits

theorem length_labelled_le :
    (Cbor.encodeValue (labelled name)).length ≤ 400 + (Octets.ofText name).length := by
  -- Everything but the name has a fixed length.
  have hfront : (Cbor.encodeMembers labelledFront).length ≤ 300 := by decide +kernel
  have hid : (Cbor.text "id").length ≤ 3 := by decide +kernel
  have hnull : (Cbor.encode .null).length = 1 := rfl
  have hnil : (Cbor.encodeMembers []).length = 0 := rfl
  have houter := Cbor.length_encode_object_le (labelledFront ++ [("id", .object [(name, .null)])])
  have hinner := Cbor.length_encode_object_le [(name, .null)]
  have hmember := Cbor.length_encodeMembers_concat [] name .null
  have hname := Cbor.length_text_le name
  rw [Cbor.length_encodeMembers_concat] at houter
  rw [List.nil_append] at hmember
  show (Cbor.encode (labelled name).document).length ≤ _
  rw [document_labelled]
  omega

end Labelled

/-- A text of 4097 bytes. -/
def longName : String := String.ofList (List.replicate 4097 'a')

/-- The text of the response is read back with any name, its binary form with a short one only. -/
theorem decode_encodings_step_labelled :
    Json.decode (Json.encode (labelled "n")) = .ok (labelled "n") ∧
    Cbor.decode (Cbor.encodeValue (labelled "n")) = .ok (labelled "n") ∧
    Json.decode (Json.encode (labelled longName)) = .ok (labelled longName) ∧
    Cbor.decode (Cbor.encodeValue (labelled longName)) ≠ .ok (labelled longName) := by
  have hlong : (Octets.ofText longName).length = 4097 := Octets.length_ofText_replicate 4097
  have hroom : ∀ name, (Octets.ofText name).length < 0x100000000 →
      (Cbor.encodeValue (labelled name)).length < 0x10000000000000000 := by
    intro name hname
    have := length_labelled_le name
    omega
  obtain ⟨hshort, hbinary⟩ := decode_encodings_step (decode_labelled "n") rfl
    (floatFree_labelled "n") (plain_labelled "n")
  obtain ⟨hjson, hcbor⟩ := decode_encodings_step (decode_labelled longName) rfl
    (floatFree_labelled longName) (plain_labelled longName)
  refine ⟨hshort, ?_, hjson, fun h => ?_⟩
  · apply (hbinary (hroom "n" (by decide))).2
    exact Json.named_binary_iff.1 (named_labelled "n" (by decide))
  · -- The id is an object that begins with the long name.
    have hpart : Json.Part (.object [(longName, .null)]) (labelled longName).document := by
      rw [document_labelled]
      exact .member (List.mem_append_right _ (List.mem_singleton_self ("id", _))) (.self _)
    have hle := (hcbor (hroom longName (by omega))).1 h longName .null [] hpart
    rw [← Octets.length_ofText, hlong] at hle
    exact absurd hle (by decide)

end Response

end ChainFollower
