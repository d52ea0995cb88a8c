import ChainFollower.Proofs.Ledger.Datums
import ChainFollower.Proofs.Ledger.Records

/-!
# Transactions are read back

A decoded transaction is sound: its unread parts are decoded documents, and its datums stand in
their form.  A sound transaction is read back, as long as its values are plain.

Main statements: `Transaction.sound_of_yields` and `readBack_transaction`.
-/

namespace ChainFollower

open Record (Given Restores Shape exists_holds getWith_eq_ok getRequired_eq_ok)

/-! ## Unread parts -/

section Unread

variable {levels more : Nat}

/-- An optional part that is passed on unread: a decoded document, and never `null`. -/
def Json.Passed (levels : Nat) (o : Option Json) : Prop :=
  ∀ j, o = some j → j.Canonical levels ∧ j.isNull = false

/-- A part that is missing is passed on. -/
theorem Json.passed_none (levels : Nat) : Json.Passed levels none := fun _ h => nomatch h

/-- More levels do no harm. -/
theorem Json.Passed.mono {o : Option Json} (h : Json.Passed levels o) (hle : levels ≤ more) :
    Json.Passed more o := fun j hj => ⟨(h j hj).1.mono hle, (h j hj).2⟩

/-- An optional field that is passed on unread. -/
theorem Record.Decoded.passed {r : Record} (h : r.Decoded levels) {field : String}
    {o : Option Json} (ho : (r.getD field none).outcome = .ok o) : Json.Passed levels o := by
  -- The part is missing, or it has been read from a decoded document that is not `null`.
  rcases h.getWith ho with rfl | hyields
  · exact Json.passed_none levels
  · intro j hj
    obtain ⟨k, hk, hnull, hread⟩ := hyields.of_option j hj
    -- Reading without looking gives the document itself.
    have hsame : k = j := Except.ok.inj (hk.unread_eq.symm.trans hread)
    exact hsame ▸ ⟨hk, hnull⟩

/-- A list of parts that are passed on unread. -/
theorem Record.Decoded.items {r : Record} (h : r.Decoded (levels + 1)) {field : String}
    {js : List Json} (hjs : (r.getD field []).outcome = .ok js) : ∀ j ∈ js, j.Canonical levels := by
  rcases h.getWith hjs with rfl | hyields
  · exact fun _ hj => absurd hj List.not_mem_nil
  · exact fun j hj => (hyields.of_list j hj).unread

/-- A decoded document is read back as it is, being sorted and canonical. -/
theorem readBack_json {j : Json} (h : j.Canonical levels) : ReadBack levels j := by
  refine ⟨h.fits, ?_⟩
  show Reader.unread .document j.sorted.item = .ok j
  rw [h.ordered.sorted_eq, h.unread_eq]

/-- An unread part is read back and is not taken for a missing one. -/
theorem Json.Passed.readBack {o : Option Json} (h : Json.Passed levels o) :
    ∀ j, o = some j → ReadBack levels j ∧ (toJson j).isNull = false := fun j hj =>
  ⟨readBack_json (h j hj).1, (h j hj).2⟩

end Unread

/-! ## Outputs -/

/-- The script of an output is a decoded document. -/
structure Output.Sound (levels : Nat) (o : Output) : Prop where
  script : Json.Passed levels o.script

section Outputs

variable {levels more : Nat}

/-- More levels do no harm. -/
theorem Output.Sound.mono {o : Output} (h : o.Sound levels) (hle : levels ≤ more) : o.Sound more :=
  ⟨h.script.mono hle⟩

/-- The script of a decoded output is what was passed on of it. -/
theorem Output.sound_of_yields {o : Output}
    (h : (Portable.read : Reader Output).Yields (levels + 1) o) : o.Sound levels := by
  obtain ⟨r, hr, hfields⟩ := h.fields
  simp only [Placed.seq_eq_ok, Placed.map_eq_ok] at hfields
  obtain ⟨_, script, hfields, hscript, rfl⟩ := hfields
  obtain ⟨_, value, hfields, -, rfl⟩ := hfields
  obtain ⟨_, datumHash, hfields, -, rfl⟩ := hfields
  obtain ⟨_, datum, ⟨address, -, rfl⟩, -, rfl⟩ := hfields
  -- Of all fields only the script is unread.
  exact ⟨hr.passed hscript⟩

/-- Outputs that are read as a list. -/
theorem Record.Decoded.outputs {r : Record} (h : r.Decoded (levels + 2)) {field : String}
    {os : List Output} (hos : (r.getD field []).outcome = .ok os) : ∀ o ∈ os, o.Sound levels := by
  rcases h.getWith hos with rfl | hyields
  · exact fun _ ho => absurd ho List.not_mem_nil
  · exact fun o ho => Output.sound_of_yields (hyields.of_list o ho)

/-- An optional output. -/
theorem Record.Decoded.output {r : Record} (h : r.Decoded (levels + 1)) {field : String}
    {o : Option Output} (ho : (r.getD field none).outcome = .ok o) :
    ∀ x, o = some x → x.Sound levels := by
  rcases h.getWith ho with rfl | hyields
  · exact fun _ hx => nomatch hx
  · intro x hx
    obtain ⟨j, hj, -, hread⟩ := hyields.of_option x hx
    exact Output.sound_of_yields ⟨j, hj, hread⟩

/-- A sound output of a plain value is read back. -/
theorem readBack_output {o : Output} (h : o.Sound levels) (hlevels : 2 ≤ levels)
    (plain : o.value.Plain) : ReadBack (levels + 1) o :=
  (Restores.start Output.mk
    |>.must "address" (readBack_text levels o.address)
    |>.ifSome "datum" (fun s _ => ⟨readBack_text levels s, rfl⟩)
    |>.ifSome "datumHash" (fun s _ => ⟨readBack_text levels s, rfl⟩)
    |>.always "value" default ((readBack_value plain).mono hlevels)
    |>.ifSome "script" h.script.readBack).readBack rfl rfl rfl (by decide)

end Outputs

/-! ## Transactions -/

namespace Transaction

/-- The fields of a transaction are read as these. -/
structure Gives (values : String → Option Item) (t : Transaction) : Prop where
  id : ∃ item, values "id" = some item ∧ Reader.text .document item = .ok t.id
  spends : Given Portable.read none (values "spends") t.spends
  inputs : Given Portable.read [] (values "inputs") t.inputs
  references : Given Portable.read [] (values "references") t.references
  collaterals : Given Portable.read [] (values "collaterals") t.collaterals
  totalCollateral : Given Portable.read none (values "totalCollateral") t.totalCollateral
  collateralReturn : Given Portable.read none (values "collateralReturn") t.collateralReturn
  outputs : Given Portable.read [] (values "outputs") t.outputs
  certificates : Given Portable.read [] (values "certificates") t.certificates
  withdrawals : Given Portable.read ∅ (values "withdrawals") t.withdrawals
  fee : Given Portable.read none (values "fee") t.fee
  validity : Given Portable.read none (values "validityInterval") t.validity
  mint : Given Portable.read none (values "mint") t.mint
  network : Given Portable.read none (values "network") t.network
  scriptIntegrityHash :
    Given Portable.read none (values "scriptIntegrityHash") t.scriptIntegrityHash
  requiredSignatories :
    Given Portable.read [] (values "requiredExtraSignatories") t.requiredSignatories
  requiredScripts : Given Portable.read [] (values "requiredExtraScripts") t.requiredScripts
  proposals : Given Portable.read none (values "proposals") t.proposals
  votes : Given Portable.read none (values "votes") t.votes
  metadata : Given Portable.read none (values "metadata") t.metadata
  signatories : Given Portable.read [] (values "signatories") t.signatories
  scripts : Given Portable.read none (values "scripts") t.scripts
  datums : Given Portable.read ⟨∅⟩ (values "datums") t.datums
  redeemers : Given Portable.read none (values "redeemers") t.redeemers
  cbor : Given Portable.read none (values "cbor") t.cbor

/-- A transaction is made of its fields, each read from its own value. -/
theorem ofRecord_eq_ok {r : Record} {values : String → Option Item} (hr : r.Holds values)
    {t : Transaction} : (ofRecord r).outcome = .ok t ↔ t.Gives values := by
  simp only [ofRecord, Placed.seq_eq_ok, Placed.map_eq_ok, Record.get, Record.getD,
    getWith_eq_ok hr, getRequired_eq_ok hr]
  constructor
  · intro hfields
    -- The fields are taken off from the last to the first, as they were put together.
    obtain ⟨_, cbor, hfields, hcbor, rfl⟩ := hfields
    obtain ⟨_, redeemers, hfields, hredeemers, rfl⟩ := hfields
    obtain ⟨_, datums, hfields, hdatums, rfl⟩ := hfields
    obtain ⟨_, scripts, hfields, hscripts, rfl⟩ := hfields
    obtain ⟨_, signatories, hfields, hsignatories, rfl⟩ := hfields
    obtain ⟨_, metadata, hfields, hmetadata, rfl⟩ := hfields
    obtain ⟨_, votes, hfields, hvotes, rfl⟩ := hfields
    obtain ⟨_, proposals, hfields, hproposals, rfl⟩ := hfields
    obtain ⟨_, requiredScripts, hfields, hrequiredScripts, rfl⟩ := hfields
    obtain ⟨_, requiredSignatories, hfields, hrequiredSignatories, rfl⟩ := hfields
    obtain ⟨_, scriptIntegrityHash, hfields, hscriptIntegrityHash, rfl⟩ := hfields
    obtain ⟨_, network, hfields, hnetwork, rfl⟩ := hfields
    obtain ⟨_, mint, hfields, hmint, rfl⟩ := hfields
    obtain ⟨_, validity, hfields, hvalidity, rfl⟩ := hfields
    obtain ⟨_, fee, hfields, hfee, rfl⟩ := hfields
    obtain ⟨_, withdrawals, hfields, hwithdrawals, rfl⟩ := hfields
    obtain ⟨_, certificates, hfields, hcertificates, rfl⟩ := hfields
    obtain ⟨_, outputs, hfields, houtputs, rfl⟩ := hfields
    obtain ⟨_, collateralReturn, hfields, hcollateralReturn, rfl⟩ := hfields
    obtain ⟨_, totalCollateral, hfields, htotalCollateral, rfl⟩ := hfields
    obtain ⟨_, collaterals, hfields, hcollaterals, rfl⟩ := hfields
    obtain ⟨_, references, hfields, hreferences, rfl⟩ := hfields
    obtain ⟨_, inputs, hfields, hinputs, rfl⟩ := hfields
    obtain ⟨_, spends, ⟨id, hid, rfl⟩, hspends, rfl⟩ := hfields
    constructor <;> assumption
  -- The other way round they are put together again.
  · intro g
    refine ⟨_, _, ⟨_, _, ⟨_, _, ⟨_, _, ⟨_, _, ⟨_, _, ⟨_, _, ⟨_, _, ⟨_, _, ⟨_, _, ⟨_, _, ⟨_, _, ⟨_, _,
      ⟨_, _, ⟨_, _, ⟨_, _, ⟨_, _, ⟨_, _, ⟨_, _, ⟨_, _, ⟨_, _, ⟨_, _, ⟨_, _, ⟨_, _, ⟨_, g.id, rfl⟩,
      g.spends, rfl⟩, g.inputs, rfl⟩, g.references, rfl⟩, g.collaterals, rfl⟩, g.totalCollateral,
      rfl⟩, g.collateralReturn, rfl⟩, g.outputs, rfl⟩, g.certificates, rfl⟩, g.withdrawals, rfl⟩,
      g.fee, rfl⟩, g.validity, rfl⟩, g.mint, rfl⟩, g.network, rfl⟩, g.scriptIntegrityHash, rfl⟩,
      g.requiredSignatories, rfl⟩, g.requiredScripts, rfl⟩, g.proposals, rfl⟩, g.votes, rfl⟩,
      g.metadata, rfl⟩, g.signatories, rfl⟩, g.scripts, rfl⟩, g.datums, rfl⟩, g.redeemers, rfl⟩,
      g.cbor, rfl⟩

/-- What is read from an item with the shape of a transaction is told by its fields. -/
theorem read_eq_ok {item : Item} {values : String → Option Item} (h : Shape fields item values)
    {t : Transaction} : Portable.read .document item = .ok t ↔ t.Gives values := by
  obtain ⟨r, hr, hread⟩ := exists_holds h
  exact (hread ofRecord t).trans (ofRecord_eq_ok hr)

/-- The values that a transaction holds. -/
def values (t : Transaction) : List Value :=
  t.totalCollateral.toList ++ (t.collateralReturn.map (·.value)).toList ++
    t.outputs.map (·.value) ++ t.withdrawals.values ++ t.fee.toList ++ t.mint.toList

/-- What decoding makes sure of: unread parts are decoded documents, as deep as there is room for
below a transaction, and datums stand in their form. -/
structure Sound (levels : Nat) (t : Transaction) : Prop where
  collateralReturn : ∀ o, t.collateralReturn = some o → o.Sound (levels + 1)
  outputs : ∀ o ∈ t.outputs, o.Sound levels
  certificates : ∀ j ∈ t.certificates, j.Canonical (levels + 1)
  network : Json.Passed (levels + 2) t.network
  proposals : Json.Passed (levels + 2) t.proposals
  votes : Json.Passed (levels + 2) t.votes
  metadata : Json.Passed (levels + 2) t.metadata
  signatories : ∀ j ∈ t.signatories, j.Canonical (levels + 1)
  scripts : Json.Passed (levels + 2) t.scripts
  datums : t.datums.Sound
  redeemers : Json.Passed (levels + 2) t.redeemers

variable {levels more : Nat} {t : Transaction}

/-- More levels do no harm. -/
theorem Sound.mono (h : t.Sound levels) (hle : levels ≤ more) : t.Sound more where
  collateralReturn o ho := (h.collateralReturn o ho).mono (by omega)
  outputs o ho := (h.outputs o ho).mono hle
  certificates j hj := (h.certificates j hj).mono (by omega)
  network := h.network.mono (by omega)
  proposals := h.proposals.mono (by omega)
  votes := h.votes.mono (by omega)
  metadata := h.metadata.mono (by omega)
  signatories j hj := (h.signatories j hj).mono (by omega)
  scripts := h.scripts.mono (by omega)
  datums := h.datums
  redeemers := h.redeemers.mono (by omega)

/-- A decoded transaction is sound. -/
theorem sound_of_yields (h : (Portable.read : Reader Transaction).Yields (levels + 3) t) :
    t.Sound levels := by
  obtain ⟨r, hr, hfields⟩ := h.fields
  -- The record holds some value for each field, decoded from the parts of the same document.
  obtain ⟨values, hvalues, -⟩ := hr.holds
  have g := (ofRecord_eq_ok hvalues).1 hfields
  exact {
    collateralReturn := hr.output ((getWith_eq_ok hvalues).2 g.collateralReturn)
    outputs := hr.outputs ((getWith_eq_ok hvalues).2 g.outputs)
    certificates := hr.items ((getWith_eq_ok hvalues).2 g.certificates)
    network := hr.passed ((getWith_eq_ok hvalues).2 g.network)
    proposals := hr.passed ((getWith_eq_ok hvalues).2 g.proposals)
    votes := hr.passed ((getWith_eq_ok hvalues).2 g.votes)
    metadata := hr.passed ((getWith_eq_ok hvalues).2 g.metadata)
    signatories := hr.items ((getWith_eq_ok hvalues).2 g.signatories)
    scripts := hr.passed ((getWith_eq_ok hvalues).2 g.scripts)
    -- Datums have a default of their own, which is sound because it is empty.
    datums := (hr.getWith ((getWith_eq_ok hvalues).2 g.datums)).elim
      (fun h => h ▸ Datums.sound_empty) Datums.sound_of_yields
    redeemers := hr.passed ((getWith_eq_ok hvalues).2 g.redeemers) }

end Transaction

/-- A sound transaction of plain values is read back. -/
theorem readBack_transaction {levels : Nat} {t : Transaction} (h : t.Sound levels)
    (hlevels : 2 ≤ levels) (plain : ∀ v ∈ t.values, v.Plain) : ReadBack (levels + 3) t := by
  have htext : ∀ s : String, ReadBack (levels + 1) s := readBack_text (levels + 1)
  have hword : ∀ s : String, ReadBack (levels + 2) s ∧ (toJson s).isNull = false := fun s =>
    ⟨readBack_text (levels + 2) s, rfl⟩
  have href : ∀ o : OutputRef, ReadBack (levels + 1) o := fun o =>
    (readBack_outputRef o).mono (by omega)
  have hvalue : ∀ {v : Value}, v.Plain → ReadBack (levels + 1) v := fun hv =>
    (readBack_value hv).mono (by omega)
  have hsome : ∀ {v : Value}, v.Plain → ReadBack (levels + 2) v ∧ (toJson v).isNull = false :=
    fun hv => ⟨(readBack_value hv).mono (by omega), rfl⟩
  -- The values are those of six fields, and each field asks for its own ones.
  simp only [Transaction.values, List.forall_mem_append, Option.mem_toList] at plain
  obtain ⟨⟨⟨⟨⟨htotal, hreturn⟩, houtputs⟩, hwithdrawals⟩, hfee⟩, hmint⟩ := plain
  have hcollateral : ∀ o, t.collateralReturn = some o →
      ReadBack (levels + 2) o ∧ (toJson o).isNull = false := by
    intro o ho
    have hplain : o.value.Plain := hreturn _ (by rw [ho]; rfl)
    exact ⟨readBack_output (h.collateralReturn o ho) (by omega) hplain, rfl⟩
  -- The members in the order in which they are written, each with what it is read back from.
  exact (Restores.start Transaction.mk
    |>.must "id" (readBack_text (levels + 2) t.id)
    |>.ifSome "spends" (fun s _ => hword s)
    |>.ifAny "inputs" (fun o _ => href o)
    |>.ifAny "references" (fun o _ => href o)
    |>.ifAny "collaterals" (fun o _ => href o)
    |>.ifSome "totalCollateral" (fun v hv => hsome (htotal v hv))
    |>.ifSome "collateralReturn" hcollateral
    |>.ifAny "outputs" (fun o ho =>
      readBack_output (h.outputs o ho) hlevels (houtputs _ (List.mem_map_of_mem ho)))
    |>.ifAny "certificates" (fun j hj => readBack_json (h.certificates j hj))
    |>.ifEntries "withdrawals" (fun e he =>
      hvalue (hwithdrawals _ (List.mem_map_of_mem (f := Prod.snd) he)))
    |>.ifSome "fee" (fun v hv => hsome (hfee v hv))
    |>.ifSome "validityInterval" (fun v _ => ⟨(readBack_validity v).mono (by omega), rfl⟩)
    |>.ifSome "mint" (fun v hv => hsome (hmint v hv))
    |>.ifSome "network" h.network.readBack
    |>.ifSome "scriptIntegrityHash" (fun s _ => hword s)
    |>.ifAny "requiredExtraSignatories" (fun s _ => htext s)
    |>.ifAny "requiredExtraScripts" (fun s _ => htext s)
    |>.ifSome "proposals" h.proposals.readBack
    |>.ifSome "votes" h.votes.readBack
    |>.ifSome "metadata" h.metadata.readBack
    |>.ifAny "signatories" (fun j hj => readBack_json (h.signatories j hj))
    |>.ifSome "scripts" h.scripts.readBack
    |> (h.datums.restores · "datums")
    |>.ifSome "redeemers" h.redeemers.readBack
    |>.ifSome "cbor" (fun s _ => hword s)).readBack rfl rfl rfl (by decide)

end ChainFollower
