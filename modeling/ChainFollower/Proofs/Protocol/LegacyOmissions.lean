import ChainFollower.Proofs.Protocol.Envelopes
import ChainFollower.Proofs.Protocol.LegacyTransactions
import ChainFollower.Proofs.Protocol.Responses

/-!
# What is lost of a transaction of the legacy shape

The body of such a transaction has no field for the slots between which it is valid, and the
transaction has none for its witness, where the datums are.  Both are skipped like any unknown
member, so that the transaction is read without them whatever they are.

Main definition: `Legacy.ReadBare`.  Main statement: `Legacy.transactions_read_bare`.
-/

namespace ChainFollower

open Record (Given Shape shape_of_ascending shape_of_read primary_of_plain)

namespace Json

/-- The object with that member, in place of one of the same name. -/
def set (j : Json) (name : String) (value : Json) : Json :=
  match j with
  | .object members => .object (Entries.insert name value members)
  | j => j

/-- The items of an array; what is no array has none. -/
def listed : Json → List Json
  | .array js => js
  | _ => []

/-- The fields of an object before and after a member is set. -/
theorem exists_shape_set (names : FieldNames) (hplain : names.all (·.2.isEmpty) = true)
    {members : List (String × Json)} (h : Entries.Ascending members) (name : String)
    (value : Json) :
    ∃ old new, Shape names (Json.object members).item old ∧
      Shape names ((Json.object members).set name value).item new ∧
        ∀ field, Record.field? names field = some field →
          old field = (members.lookup field).map item ∧
            new field = if field = name then some value.item else old field := by
  -- Both objects are in order, so each field has one member in each of them.
  obtain ⟨old, hold, hvalues⟩ := shape_of_ascending names (primary_of_plain hplain members) h
  obtain ⟨new, hnew, hvalues'⟩ := shape_of_ascending names
    (primary_of_plain hplain (Entries.insert name value members)) (Entries.ascending_insert h)
  refine ⟨old, new, hold, hnew, fun field hfield => ⟨hvalues field hfield, ?_⟩⟩
  rw [hvalues field hfield, hvalues' field hfield, Entries.lookup_insert name value field h]
  split <;> rfl

end Json

namespace Legacy

/-! ## What a transaction carries -/

/-- The bounds in the body of a transaction, if there is one at least. -/
def bounds? (x : Json) : Option Validity :=
  ((x.member? "body").bind (Json.member? "validityInterval")).bind fun interval =>
    if interval.isObject then
      (Json.decodeValue interval).toOption.filter fun v : Validity =>
        v.invalidBefore.isSome || v.invalidAfter.isSome
    else none

/-- The datums in the witness of a transaction. -/
def datums? (x : Json) : Option Datums :=
  ((x.member? "witness").bind (Json.member? "datums")).bind fun datums =>
    (Json.decodeValue datums).toOption

/-! ## How it is read -/

/-- A transaction of the legacy shape is read without bounds and datums, and it would be read as the
same with any others.  So what it carries is kept exactly if it carries nothing. -/
structure ReadBare (x : Json) (t : Transaction) : Prop where
  read : readTransaction .document x.item = .ok t
  validity : t.validity = none
  datums : t.datums = ⟨∅⟩
  keeps_bounds_iff : (∀ v, bounds? x = some v → t.validity = some v) ↔ bounds? x = none
  keeps_datums_iff :
    (∀ d, datums? x = some d → ∀ hash, (t.datums.get? hash).isSome = (d.get? hash).isSome) ↔
      ∀ d, datums? x = some d → d.isEmpty = true
  any_bounds : ∀ body, x.member? "body" = some body → ∀ interval,
    readTransaction .document (x.set "body" (body.set "validityInterval" interval)).item = .ok t
  any_witness : ∀ witness, readTransaction .document (x.set "witness" witness).item = .ok t

theorem TransactionBody.Gives.congr {old new : String → Option Item} {b : TransactionBody}
    (g : b.Gives old) (h : ∀ name ∈ bodyFields, new name.1 = old name.1) : b.Gives new := by
  have hnew : ∀ name ∈ bodyFields.map (·.1), new name = old name := List.forall_mem_map.2 h
  constructor
  case inputs => exact (hnew "inputs" (by decide)).symm ▸ g.inputs
  case collaterals => exact (hnew "collaterals" (by decide)).symm ▸ g.collaterals
  case references => exact (hnew "references" (by decide)).symm ▸ g.references
  case outputs => exact (hnew "outputs" (by decide)).symm ▸ g.outputs
  case collateralReturn => exact (hnew "collateralReturn" (by decide)).symm ▸ g.collateralReturn
  case fee => exact (hnew "fee" (by decide)).symm ▸ g.fee
  case totalCollateral => exact (hnew "totalCollateral" (by decide)).symm ▸ g.totalCollateral
  case mint => exact (hnew "mint" (by decide)).symm ▸ g.mint
  case withdrawals => exact (hnew "withdrawals" (by decide)).symm ▸ g.withdrawals
  case requiredSignatures =>
    exact (hnew "requiredExtraSignatures" (by decide)).symm ▸ g.requiredSignatures
  case scriptIntegrityHash =>
    exact (hnew "scriptIntegrityHash" (by decide)).symm ▸ g.scriptIntegrityHash
  case network => exact (hnew "network" (by decide)).symm ▸ g.network

/-- A body is read as the same with any bounds. -/
theorem readBody_set {body : Json} (hbody : body.InOrder) {b : TransactionBody}
    (h : readBody .document body.item = .ok b) (interval : Json) :
    readBody .document (body.set "validityInterval" interval).item = .ok b := by
  cases body with
  | object members =>
    obtain ⟨old, new, hold, hnew, hsame⟩ := Json.exists_shape_set bodyFields rfl
      (Json.inOrder_object.1 hbody).1 "validityInterval" interval
    refine (readBody_eq_ok hnew).2 (((readBody_eq_ok hold).1 h).congr ?_)
    intro name hname
    -- None of the fields that are read is the validity interval.
    have hfields : ∀ name ∈ bodyFields,
        Record.field? bodyFields name.1 = some name.1 ∧ name.1 ≠ "validityInterval" := by decide
    obtain ⟨hfield, hne⟩ := hfields name hname
    rw [(hsame name.1 hfield).2, if_neg hne]
  | _ => exact h

section Transactions

variable {x : Json} {t : Transaction}

theorem exists_transaction_of_read (h : readTransaction .document x.item = .ok t) :
    ∃ id body metadata, transaction id body metadata = t := by
  obtain ⟨values, hshape⟩ := shape_of_read x.documented_item h
  obtain ⟨id, body, metadata, -, -, -, ht⟩ := (readTransaction_eq_ok hshape).1 h
  exact ⟨id, body, metadata, ht⟩

/-- A transaction is read as the same with any witness. -/
theorem readTransaction_set_witness (hx : x.InOrder)
    (h : readTransaction .document x.item = .ok t) (witness : Json) :
    readTransaction .document (x.set "witness" witness).item = .ok t := by
  cases x with
  | object members =>
    obtain ⟨old, new, hold, hnew, hsame⟩ :=
      Json.exists_shape_set [("id", []), ("body", []), ("metadata", [])] rfl
        (Json.inOrder_object.1 hx).1 "witness" witness
    rw [readTransaction_eq_ok hnew, (hsame "id" (by decide)).2, (hsame "body" (by decide)).2,
      (hsame "metadata" (by decide)).2]
    exact (readTransaction_eq_ok hold).1 h
  | _ => exact h

/-- A transaction is read as the same with any bounds in its body. -/
theorem readTransaction_set_bounds (hx : x.InOrder)
    (h : readTransaction .document x.item = .ok t) {body : Json}
    (hbody : x.member? "body" = some body) (interval : Json) :
    readTransaction .document (x.set "body" (body.set "validityInterval" interval)).item =
      .ok t := by
  cases x with
  | object members =>
    obtain ⟨hascending, hparts⟩ := Json.inOrder_object.1 hx
    have hordered : body.InOrder := hparts ("body", body) (Entries.mem_of_lookup hbody)
    obtain ⟨old, new, hold, hnew, hsame⟩ :=
      Json.exists_shape_set [("id", []), ("body", []), ("metadata", [])] rfl hascending "body"
        (body.set "validityInterval" interval)
    -- The body is read from the same member as before, with one member changed inside it.
    have hbodyOld : old "body" = some body.item := by
      rw [(hsame "body" (by decide)).1, show members.lookup "body" = some body from hbody]
      rfl
    obtain ⟨id, b, metadata, hid, hb, hmetadata, ht⟩ := (readTransaction_eq_ok hold).1 h
    rw [hbodyOld] at hb
    have hread : readBody .document body.item = .ok b := hb
    refine (readTransaction_eq_ok hnew).2 ⟨id, b, metadata, ?_, ?_, ?_, ht⟩
    · rw [(hsame "id" (by decide)).2]
      exact hid
    · rw [(hsame "body" (by decide)).2]
      exact readBody_set hordered hread interval
    · rw [(hsame "metadata" (by decide)).2]
      exact hmetadata
  | _ => cases hbody

theorem readBare_of_read (hx : x.InOrder) (h : readTransaction .document x.item = .ok t) :
    ReadBare x t := by
  obtain ⟨id, b, metadata, rfl⟩ := exists_transaction_of_read h
  refine ⟨h, rfl, rfl, ?_, ?_, fun body hbody => readTransaction_set_bounds hx h hbody,
    readTransaction_set_witness hx h⟩
  · -- There are no bounds to be those that are carried.
    constructor
    · intro hkeeps
      cases hbounds : bounds? x with
      | none => rfl
      | some v => cases hkeeps v hbounds
    · intro hnone v hv
      rw [hnone] at hv
      cases hv
  · constructor
    · intro hkeeps d hd
      refine (Dict.isEmpty_iff d.byHash).2 fun hash => ?_
      exact Option.isSome_eq_false_iff.1 (hkeeps d hd hash).symm |> Option.isNone_iff_eq_none.1
    · intro hempty d hd hash
      rw [Datums.get?, Datums.get?, (Dict.isEmpty_iff d.byHash).1 (hempty d hd) hash]
      rfl

end Transactions

/-! ## Whole frames -/

theorem transactions_eq_ok {body : Json} {ts : List Transaction} : transactions body = .ok ts ↔
    List.Forall₂ (fun x t => readTransaction .document x.item = .ok t) body.listed ts := by
  cases body with
  | array xs => exact transactions_array_eq_ok
  | _ =>
    show (Except.ok [] : Except DecodeError _) = .ok ts ↔ List.Forall₂ _ [] ts
    rw [List.forall₂_nil_left_iff, Except.ok.injEq]
    exact eq_comm

/-- A step forward takes its transactions from the body of the first block. -/
theorem exists_block_of_step {result : Json} {tip : ChainFollower.Tip} {block : Block}
    (h : step result = .ok (.forward tip block)) :
    ∃ blocks legacyTip era b others,
      readStep .document result.item = .ok (.forward blocks legacyTip) ∧
        blocks.entries = (era, b) :: others ∧ transactions b.body = .ok block.transactions := by
  unfold step at h
  split at h
  · next read hread =>
    cases read with
    | backward point tip => cases h
    | forward blocks legacyTip =>
      unfold Step.current at h
      -- Only the first of the blocks is looked at.
      cases hentries : blocks.entries with
      | nil =>
        simp only [hentries] at h
        cases h
      | cons first others =>
        obtain ⟨era, b⟩ := first
        simp only [hentries] at h
        obtain ⟨current, hcurrent, h⟩ := bind_eq_ok.1 h
        obtain ⟨ts, hts, hcurrent⟩ := bind_eq_ok.1 hcurrent
        cases hcurrent
        cases h
        exact ⟨blocks, legacyTip, era, b, others, hread, hentries, hts⟩
  · cases h

/-- All transactions of a frame of the legacy shape that rolls forward are read bare, one for one
and in their order. -/
theorem transactions_read_bare {f : Octets} {raw : Json} {r : Response} {tip : ChainFollower.Tip}
    {block : Block} (hraw : Json.decode f = .ok raw) (hr : Response.decode f = .ok r)
    (hlegacy : raw.member? "method" = none) (hforward : r.result = .step (.forward tip block)) :
    ∃ result blocks legacyTip era b others, raw.present? "result" = some result ∧
      readStep .document result.item = .ok (.forward blocks legacyTip) ∧
        blocks.entries = (era, b) :: others ∧
          List.Forall₂ ReadBare b.body.listed block.transactions := by
  rw [Response.decode, hraw] at hr
  have hread : Response.legacy raw = .ok (some r) := by
    refine ((Response.ofJson_eq_ok.1 hr).resolve_left fun hcurrent => ?_).2
    rw [Response.current_eq_none.2 hlegacy] at hcurrent
    cases hcurrent
  obtain ⟨result, hresult, henvelope⟩ := Response.legacy_eq_ok.1 hread
  cases henvelope with
  | intersection _ _ => cases hforward
  | step _ hstep =>
    cases hforward
    obtain ⟨blocks, legacyTip, era, b, others, hstep, hentries, hts⟩ := exists_block_of_step hstep
    refine ⟨result, blocks, legacyTip, era, b, others, hresult, hstep, hentries, ?_⟩
    -- A document that was decoded has its members in order, and so has every transaction in it.
    have hcanonical : result.Canonical (118 + 8) :=
      ((Json.canonical_of_decode hraw).present? hresult).1
    have hbody := Step.canonical_of_yields ⟨result, hcanonical, hstep⟩ blocks legacyTip rfl (era, b)
      (by simp [hentries])
    have hordered : ∀ x ∈ b.body.listed, x.InOrder := by
      intro x hx
      cases hlist : b.body with
      | array xs =>
        rw [hlist] at hx
        exact Json.inOrder_array.1 (hlist ▸ hbody.ordered) x hx
      | _ =>
        rw [hlist] at hx
        cases hx
    exact ((List.forall₂_and_left _ _).2 ⟨hordered, transactions_eq_ok.1 hts⟩).imp
      fun x t h => readBare_of_read h.1 h.2

/-- A transaction with bounds and two datums. -/
def bounded : Json := .object
  [("body", .object [("validityInterval", .object
    [("invalidBefore", .int 1), ("invalidHereafter", .int 9)])]), ("id", .text "tx1"),
   ("witness", .object [("datums", .object [("h1", .text "d87980"), ("h2", .text "2HmA")])])]

/-- A result that rolls forward to a block of these transactions. -/
def forwardTo (xs : List Json) : Json := .object
  [("RollForward", .object [("block", .object [("alonzo", .object [("body", .array xs),
    ("headerHash", .text "h")])]), ("tip", .object [("slot", .int 9)])])]

/-- The transaction with bounds and datums is read without either. -/
theorem transactions_read_bare_alonzo :
    ∃ (f : Octets) (r : Response) (tip : ChainFollower.Tip) (block : Block), f = Octets.ofText
        ("\x7b\"methodname\":\"RequestNext\",\"result\":\x7b\"RollForward\":\x7b\"block\":" ++
          "\x7b\"alonzo\":\x7b\"body\":[\x7b\"body\":\x7b\"validityInterval\":" ++
          "\x7b\"invalidBefore\":1,\"invalidHereafter\":9\x7d\x7d,\"id\":\"tx1\",\"witness\":" ++
          "\x7b\"datums\":\x7b\"h1\":\"d87980\",\"h2\":\"2HmA\"\x7d\x7d\x7d]," ++
          "\"headerHash\":\"h\"\x7d\x7d,\"tip\":\x7b\"slot\":9\x7d\x7d\x7d\x7d") ∧
      Response.decode f = .ok r ∧ r.result = .step (.forward tip block) ∧
      List.Forall₂ ReadBare [bounded] block.transactions ∧
      bounds? bounded = some ⟨some 1, some 9⟩ ∧
      datums? bounded = some ⟨.ofList [("h1", "d87980"), ("h2", "d87980")]⟩ := by
  obtain ⟨j, hj⟩ : ∃ j : Json, j = .object
    [("methodname", .text "RequestNext"), ("result", forwardTo [bounded])] := ⟨_, rfl⟩
  have hwords : FitsWord 1 ∧ FitsWord 9 := by decide
  have hfits : j.Fits documentLevels := by
    simp [hj, forwardTo, bounded, documentLevels, Json.fits_object, Json.fits_array,
      Json.fits_text, Json.fits_int, hwords]
  have hfree : j.FloatFree := by
    simp [hj, forwardTo, bounded, Json.floatFree_object, Json.floatFree_array,
      Json.floatFree_text, Json.floatFree_int]
  have hsorted : j.sorted = j := by
    rw [hj]
    rfl
  have hraw := Json.decode_octets_json hfits hfree.legible
  have hdecode := Response.decode_document hfits hfree.legible
  rw [hsorted] at hraw hdecode
  subst hj
  have hresponse := hdecode.trans (show _ = .ok (⟨"2.0", .nextBlock, .step (.forward ⟨9, "", 0⟩
    { era := "alonzo", id := "h", ancestor := "", height := 0, slot := 0,
      transactions := [{ id := "tx1" }] }), none, none⟩ : Response) from rfl)
  obtain ⟨result, blocks, legacyTip, era, b, others, hresult, hstep, hentries, hbare⟩ :=
    transactions_read_bare hraw hresponse rfl rfl
  -- The body of the one block is the list of the one transaction.
  cases hresult
  cases hstep.symm.trans (show readStep .document (forwardTo [bounded]).item = .ok
    (.forward (.ofList [("alonzo", ⟨"h", {}, .array [bounded]⟩)]) ⟨9, "", 0⟩) from rfl)
  cases hentries
  refine ⟨_, _, _, _, ?_, hresponse, rfl, hbare, rfl, by decide +kernel⟩
  -- The parts of the text are put together as characters, which is faster to evaluate.
  simp only [Json.octets, Octets.ofText, String.toList_append]
  decide +kernel

end Legacy

end ChainFollower
