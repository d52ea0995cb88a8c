import ChainFollower.Proofs.Json.Canonical
import ChainFollower.Proofs.Protocol.Peeking

/-!
# Tips in the data of an error

The data of an error shows a tip if it is an object that can be read as one.  Every field of a tip
has a default and other members are skipped, so that an object without a slot and an id shows a tip
all the same, one that the node never sent.

Main statement: `ResultError.tips_are_taken`, on the parts of every tip that is reported from an
error, by decoding or by peeking.
-/

namespace ChainFollower

open Record (Shape Given Documented Regular field? collect shape_of_read shape_of_ascending
  exists_holds finish_eq_ok getWith_eq_ok primary_of_plain valueOf?_eq_lookup)

/-! ## What a tip takes from an object -/

/-- A word is taken from a number that is sent; without one it is zero. -/
theorem Record.given_word64_iff {o : Option Json} {n : UInt64} :
    Given Reader.word64 0 (o.map Json.item) n ↔ o.getD (.int 0) = .int n.toNat := by
  cases o with
  | none =>
    show n = 0 ↔ Json.int 0 = .int n.toNat
    rw [Json.int.injEq, ← UInt64.toNat_inj, UInt64.toNat_zero]
    omega
  | some j =>
    show Reader.word64 .document j.item = .ok n ↔ j = .int n.toNat
    rw [Reader.word64_eq_ok_iff]
    cases j with
    | int k => rw [Json.item, Item.int.injEq, Json.int.injEq]
    | _ => exact ⟨nofun, nofun⟩

/-- A text is taken as it is sent; without one it is empty. -/
theorem Record.given_text_iff {o : Option Json} {s : String} :
    Given Reader.text "" (o.map Json.item) s ↔ o.getD (.text "") = .text s := by
  cases o with
  | none => simp [Given, eq_comm]
  | some j =>
    show Reader.text .document j.item = .ok s ↔ j = .text s
    constructor
    · intro h
      cases j <;> first | exact congrArg Json.text (Except.ok.inj h) | cases h
    · rintro rfl
      rfl

namespace Tip

/-- Each part of the tip is a member of the object, or the default where there is none. -/
structure TakenFrom (t : Tip) (j : Json) : Prop where
  object : j.isObject = true
  slot : (j.member? "slot").getD (.int 0) = .int t.slot.toNat
  id : (j.member? "id").getD (.text "") = .text t.id
  height : (j.member? "height").getD (.int 0) = .int t.height.toNat

/-- The object has a slot and an id, and they are those of the tip. -/
structure SentIn (t : Tip) (j : Json) : Prop where
  object : j.isObject = true
  slot : j.member? "slot" = some (.int t.slot.toNat)
  id : j.member? "id" = some (.text t.id)

/-- What is taken from an object was sent in it, as far as the object has a slot and an id. -/
theorem TakenFrom.sentIn_iff {t : Tip} {j : Json} (h : t.TakenFrom j) :
    t.SentIn j ↔ (j.member? "slot").isSome = true ∧ (j.member? "id").isSome = true := by
  constructor
  · intro hsent
    rw [hsent.slot, hsent.id]
    exact ⟨rfl, rfl⟩
  -- Present members were not supplied by a default.
  · rintro ⟨hslot, hid⟩
    obtain ⟨slot, hslot⟩ := Option.isSome_iff_exists.1 hslot
    obtain ⟨id, hid⟩ := Option.isSome_iff_exists.1 hid
    have htaken := h.slot
    have htaken' := h.id
    rw [hslot, Option.getD_some] at htaken
    rw [hid, Option.getD_some] at htaken'
    exact ⟨h.object, hslot.trans (congrArg some htaken), hid.trans (congrArg some htaken')⟩

section Members

variable {members : List (String × Json)} {values : String → Option Item} {t : Tip}

/-- Reading an object as a tip is taking the parts of the tip from it. -/
theorem read_eq_ok_of_values
    (hshape : Shape [("slot", []), ("id", []), ("height", [])] (Json.object members).item values)
    (hvalues : ∀ name ∈ ["slot", "id", "height"],
      values name = (members.lookup name).map Json.item) :
    Portable.read .document (Json.object members).item = .ok t ↔ t.TakenFrom (.object members) := by
  rw [Tip.read_eq_ok hshape, hvalues "slot" (by simp), hvalues "id" (by simp),
    hvalues "height" (by simp), Record.given_word64_iff, Record.given_text_iff,
    Record.given_word64_iff]
  exact ⟨fun ⟨hslot, hid, hheight⟩ => ⟨rfl, hslot, hid, hheight⟩,
    fun h => ⟨h.slot, h.id, h.height⟩⟩

theorem takenFrom_of_read (h : Portable.read .document (Json.object members).item = .ok t) :
    t.TakenFrom (.object members) := by
  have hitem := Json.item_object members
  obtain ⟨values, hshape⟩ := shape_of_read (hitem ▸ Documented.named _) h
  refine (read_eq_ok_of_values hshape fun name hname => ?_).1 h
  -- Every field is called by its own name, and so it is found under it.
  have hfield := TipNames.current.field?_eq name hname
  rw [← hshape.valueAt, hitem, Item.valueAt_named,
    valueOf?_eq_lookup (primary_of_plain rfl _) hfield, Json.lookup_fields]

theorem read_eq_ok_iff (h : Entries.Ascending members) :
    Portable.read .document (Json.object members).item = .ok t ↔ t.TakenFrom (.object members) := by
  obtain ⟨values, hshape, hvalues⟩ := shape_of_ascending [("slot", []), ("id", []), ("height", [])]
    (primary_of_plain rfl members) h
  exact read_eq_ok_of_values hshape fun name hname =>
    hvalues name (TipNames.current.field?_eq name hname)

end Members

end Tip

/-! ## Data -/

namespace ResultError

/-- The part of the data that may be a tip: its member `tip`, or else the data itself. -/
def tipPart (data : Json) : Json := (data.member? "tip").getD data

theorem takenFrom_of_tipOfData {data : Json} {t : Tip} (h : tipOfData data = some t) :
    t.TakenFrom (tipPart data) := by
  obtain ⟨hobject, hread⟩ := tipOfData_eq_some.1 h
  change (tipPart data).isObject = true at hobject
  change Portable.read .document (tipPart data).item = .ok t at hread
  cases hpart : tipPart data with
  | object members =>
    rw [hpart] at hread
    exact Tip.takenFrom_of_read hread
  | _ =>
    rw [hpart] at hobject
    cases hobject

theorem inOrder_tipPart {data : Json} (h : data.InOrder) : (tipPart data).InOrder := by
  unfold tipPart
  cases hmember : data.member? "tip" with
  | none => exact h
  | some j =>
    cases data with
    | object members =>
      exact (Json.inOrder_object.1 h).2 _ (Entries.mem_of_lookup hmember)
    | _ => cases hmember

/-- Data in order shows a tip exactly if the tip can be taken from it. -/
theorem tipOfData_eq_some_iff {data : Json} (h : data.InOrder) {t : Tip} :
    tipOfData data = some t ↔ t.TakenFrom (tipPart data) := by
  refine ⟨takenFrom_of_tipOfData, fun htaken => tipOfData_eq_some.2 ?_⟩
  have horder := inOrder_tipPart h
  change (tipPart data).isObject = true ∧ Portable.read .document (tipPart data).item = .ok t
  revert htaken horder
  cases tipPart data with
  | object members =>
    intro htaken horder
    exact ⟨rfl, (Tip.read_eq_ok_iff (horder _ (.self _) members rfl)).2 htaken⟩
  | _ =>
    intro htaken
    cases htaken.object

theorem tip_eq_some {e : ResultError} {t : Tip} (h : e.tip = some t) :
    ∃ data, e.data = some data ∧ t.TakenFrom (tipPart data) := by
  obtain ⟨data, hdata, htip⟩ := Option.bind_eq_some_iff.1 h
  exact ⟨data, hdata, takenFrom_of_tipOfData htip⟩

end ResultError

/-! ## Responses -/

/-- Without a result the tip of a response is taken from the data of its error. -/
theorem Response.tip_taken {raw : Json} {r : Response} {t : Tip} (h : ofJson raw = .ok r)
    (hresult : raw.present? "result" = none) (ht : r.tip = some t) :
    ∃ e data, r.error = some e ∧ e.data = some data ∧ t.TakenFrom (ResultError.tipPart data) := by
  rcases ofJson_eq_ok.1 h with h | ⟨-, h⟩
  -- Without a result only a find-intersection error answers, and its tip is the error's.
  · obtain ⟨method, error, answer, -, -, hanswer, rfl⟩ := current_eq_ok.1 h
    cases method with
    | nextBlock =>
      simp only [answerOf, hresult] at hanswer
      cases hanswer
    | findIntersection =>
      cases error with
      | none =>
        simp only [answerOf, hresult] at hanswer
        cases hanswer
      | some e =>
        simp only [answerOf, hresult, Except.ok.injEq] at hanswer
        subst hanswer
        obtain ⟨data, hdata, htaken⟩ := ResultError.tip_eq_some (e := e) ht
        exact ⟨e, data, rfl, hdata, htaken⟩
  -- The legacy shape always has a result.
  · obtain ⟨result, hpresent, -⟩ := legacy_eq_ok.1 h
    rw [hresult] at hpresent
    cases hpresent

/-! ## Peeking -/

namespace Doc

/-- A record is not read beyond a key that is no text. -/
theorem exists_named_of_stop {names : FieldNames} {levels : Nat} :
    ∀ {ms : List (Octets × Doc)} {place : Nat} {found : List (String × Nat × Item)},
      (collect .document names place found (entriesOf levels ms)).stop = none →
        ∃ entries : List (String × Item),
          entriesOf levels ms = entries.map fun e => (.text e.1, e.2)
  | [], _, _, _ => ⟨[], rfl⟩
  | (raw, d) :: ms, place, found, h => by
    rw [entriesOf, Item.ofRaw] at h ⊢
    -- A name that is no text stops the collection at once.
    cases htext : Literal.text? raw with
    | none =>
      rw [htext] at h
      cases h
    | some s =>
      rw [htext, Record.collect_cons] at h
      suffices ∃ entries : List (String × Item),
          entriesOf levels ms = entries.map fun e => (.text e.1, e.2) by
        obtain ⟨entries, hentries⟩ := this
        exact ⟨(s, d.item levels) :: entries, by rw [hentries]; rfl⟩
      -- A known field that repeats and an unknown value that cannot be skipped stop it too.
      split at h
      · split at h
        · cases h
        · exact exists_named_of_stop h
      · split at h
        · exact exists_named_of_stop h
        · cases h

/-- What is read as a record of a document as it stands has the shape of one. -/
theorem shape_of_read {α : Type} {names : FieldNames} {fields : Record → Placed α} {levels : Nat}
    {d : Doc} {a : α} (h : Record.read names fields .document (d.item levels) = .ok a) :
    ∃ values, Shape names (d.item levels) values := by
  -- What is left is that an item out of a document has text names or is no object.
  suffices Documented (d.item levels) from Record.shape_of_read this h
  cases d with
  | object ms =>
    cases levels with
    | zero =>
      rw [item]
      split <;> exact .other rfl
    | succ levels =>
      obtain ⟨entries, hentries⟩ := exists_named_of_stop (finish_eq_ok.1 h).1
      show Documented (.map (entriesOf levels ms))
      rw [hentries]
      exact .named entries
  | array ds =>
    cases levels with
    | zero =>
      rw [item]
      split <;> exact .other rfl
    | succ levels => exact .other rfl
  | number literal =>
    rw [item, Item.ofLiteral]
    split <;> exact .other rfl
  | text raw =>
    rw [item, Item.ofRaw]
    split <;> exact .other rfl
  | _ => exact .other rfl

end Doc

namespace Peek

/-- A tip that is seen in a frame is read from its result or taken from the data of its error. -/
theorem tip_taken {f : Octets} {t : Tip} (h : tip? f = some t) :
    ∃ d, Doc.Spells d f ∧
      ((∃ w, (d.item documentLevels).valueAt frameFields "result" = some w ∧
          readResult .document w = .ok (some t)) ∨
        ∃ w data, (d.item documentLevels).valueAt frameFields "error" = some w ∧
          readError .document w = .ok (some data) ∧
          t.TakenFrom (ResultError.tipPart data)) := by
  unfold tip? at h
  split at h
  next d hspells =>
    refine ⟨d, Doc.read_eq_iff.1 hspells, ?_⟩
    obtain ⟨shown, hshown, rfl⟩ : ∃ shown, readFrame .document (d.item documentLevels) = .ok shown ∧
        shown = some t := by
      cases hread : readFrame .document (d.item documentLevels) with
      | error e =>
        rw [hread] at h
        cases h
      | ok shown =>
        rw [hread] at h
        exact ⟨shown, rfl, h⟩
    -- The frame was read as a record, so each field has one part.
    obtain ⟨values, hshape⟩ :
        ∃ values, Shape frameFields (d.item documentLevels) values := Doc.shape_of_read hshown
    obtain ⟨r, hr, hread⟩ := exists_holds hshape
    have hfields := (hread _ _).1 hshown
    simp only [Placed.seq_eq_ok, Placed.map_eq_ok, getWith_eq_ok hr] at hfields
    obtain ⟨_, error, ⟨result, hresult, rfl⟩, herror, htip⟩ := hfields
    rw [hshape.valueAt]
    -- The tip of the result wins; the tip of the error is asked for after it.
    rcases Option.or_eq_some_iff.1 htip with hjoin | ⟨-, hjoin⟩
    · obtain rfl := Option.join_eq_some_iff.1 hjoin
      cases hw : values "result" with
      | none =>
        rw [hw] at hresult
        cases hresult
      | some w =>
        rw [hw] at hresult
        exact .inl ⟨w, rfl, Reader.read_of_option hresult⟩
    · obtain ⟨data, hdata, hpart⟩ := Option.bind_eq_some_iff.1 hjoin
      obtain rfl := Option.join_eq_some_iff.1 hdata
      cases hw : values "error" with
      | none =>
        rw [hw] at herror
        cases herror
      | some w =>
        rw [hw] at herror
        exact .inr ⟨w, data, rfl, Reader.read_of_option herror,
          ResultError.takenFrom_of_tipOfData hpart⟩
  · cases h

end Peek

/-! ## All tips from errors -/

/-- Every tip that is reported from an error is taken part by part from an object in its data, and
data in order shows every tip that can be taken from it.  The tip was sent exactly if the object has
a slot and an id: nothing asks for these, so that any other object shows a tip of defaults.  This
goes for errors by themselves, for responses without a result and for frames that are peeked at. -/
theorem ResultError.tips_are_taken (e : ResultError) (f : Octets) (t : Tip) :
    (e.tip = some t → ∃ data, e.data = some data ∧ t.TakenFrom (tipPart data)) ∧
    (∀ data, e.data = some data → data.InOrder →
      (e.tip = some t ↔ t.TakenFrom (tipPart data))) ∧
    (∀ j : Json, t.TakenFrom j →
      (t.SentIn j ↔ (j.member? "slot").isSome = true ∧ (j.member? "id").isSome = true)) ∧
    (∀ (raw : Json) (r : Response), Json.decode f = .ok raw → Response.decode f = .ok r →
      raw.present? "result" = none → r.tip = some t →
      ∃ e data, r.error = some e ∧ e.data = some data ∧ t.TakenFrom (tipPart data)) ∧
    (Peek.tip? f = some t → ∃ d, Doc.Spells d f ∧
      ((∃ w, (d.item documentLevels).valueAt Peek.frameFields "result" = some w ∧
          Peek.readResult .document w = .ok (some t)) ∨
        ∃ w data, (d.item documentLevels).valueAt Peek.frameFields "error" = some w ∧
          Peek.readError .document w = .ok (some data) ∧ t.TakenFrom (tipPart data))) := by
  -- The tip of an error, when it is one that was sent, the decoded responses, the peeked frames.
  refine ⟨tip_eq_some, ?_, fun j h => h.sentIn_iff, ?_, Peek.tip_taken⟩
  · intro data hdata horder
    rw [tip, hdata, Option.bind_some, tipOfData_eq_some_iff horder]
  · intro raw r hraw hr
    rw [Response.decode, hraw] at hr
    exact Response.tip_taken hr

/-- Data with nothing but a reason shows a tip of defaults, and so does a frame with it, decoded or
peeked at. -/
theorem ResultError.tips_are_taken_from_reason :
    ∃ (data : Json) (t : Tip) (f : Octets), data = .object [("reason", .text "x")] ∧
      t = ⟨0, "", 0⟩ ∧ (⟨1, "", some data⟩ : ResultError).tip = some t ∧ ¬ t.SentIn (tipPart data) ∧
      f = Octets.ofText ("\x7b\"method\":\"findIntersection\",\"error\":" ++
        "\x7b\"code\":1,\"data\":\x7b\"reason\":\"x\"\x7d\x7d\x7d") ∧
      (∃ r, Response.decode f = .ok r ∧ r.tip = some t) ∧ Peek.tip? f = some t := by
  obtain ⟨-, hshows, hsent, -, -⟩ :=
    tips_are_taken ⟨1, "", some (.object [("reason", .text "x")])⟩ [] ⟨0, "", 0⟩
  -- None of the members of a tip is in the data, so each is taken from its default.
  have htaken : Tip.TakenFrom ⟨0, "", 0⟩ (tipPart (.object [("reason", .text "x")])) :=
    ⟨rfl, rfl, rfl, rfl⟩
  have horder : (Json.object [("reason", .text "x")]).InOrder :=
    Json.inOrder_sorted (.object [("reason", .text "x")])
  have htip := (hshows _ rfl horder).2 htaken
  refine ⟨_, _, _, rfl, rfl, htip, ?_, rfl, ?_, ?_⟩
  · rw [hsent _ htaken]
    exact fun h => absurd h.1 (by decide)
  · exact Peek.exists_of_decode (by decide +kernel)
  · decide +kernel

end ChainFollower
