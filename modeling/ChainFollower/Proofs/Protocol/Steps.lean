import ChainFollower.Proofs.Ledger.Blocks
import ChainFollower.Proofs.Protocol.Envelopes

/-!
# Steps are read back

A step that is decoded, from a result of either shape, rolls forward to a sound block.  The document
form of such a step is read back.

Main statements: `ChainStep.sound_of_yields`, `Legacy.sound_of_step` and `readBack_step`.
-/

namespace ChainFollower

open Json (Canonical)
open Record (Given Restores getWith_eq_ok)

/-! ## The current shape -/

namespace ChainStep

/-- The values that a step holds. -/
def values : ChainStep → List Value
  | .forward _ block => block.values
  | .backward _ _ => []

/-- What decoding makes sure of: the block is sound. -/
def Sound (levels : Nat) : ChainStep → Prop
  | .forward _ block => block.Sound levels
  | .backward _ _ => True

variable {levels more : Nat} {s : ChainStep}

theorem Sound.mono (h : s.Sound levels) (hle : levels ≤ more) : s.Sound more := by
  cases s with
  | forward tip block => exact fun t ht => (h t ht).mono hle
  | backward tip point => trivial

/-- What stands beside the direction is read as a record of a decoded document. -/
theorem sound_of_record {direction : Direction}
    (h : (Record.read (fields direction) (ofRecord direction)).Yields (levels + 6) s) :
    s.Sound levels := by
  obtain ⟨r, hr, hfields⟩ := h.fields
  cases direction with
  | forward =>
    simp only [ofRecord, Placed.seq_eq_ok, Placed.map_eq_ok] at hfields
    obtain ⟨_, block, ⟨tip, -, rfl⟩, hblock, rfl⟩ := hfields
    exact Block.sound_of_yields (hr.getRequired hblock)
  | backward =>
    simp only [ofRecord, Placed.seq_eq_ok, Placed.map_eq_ok] at hfields
    obtain ⟨_, point, ⟨tip, -, rfl⟩, -, rfl⟩ := hfields
    trivial

theorem sound_of_yields (h : (Portable.read : Reader ChainStep).Yields (levels + 6) s) :
    s.Sound levels := by
  obtain ⟨j, hj, hread⟩ := h
  change ChainStep.read .document j.item = .ok s at hread
  cases j with
  | object members =>
    rw [Json.item_object] at hread
    obtain ⟨tag, direction, -, -, -, hread⟩ := read_named_eq_ok.1 hread
    rw [besides_fields, ← Json.item_object] at hread
    -- Without its direction the object is still in order.
    obtain ⟨hascending, hmembers⟩ := Json.canonical_object.1 hj
    have hrest : Canonical (levels + 6)
        (.object (members.filter fun m => !(m.1 == directionName))) :=
      Json.canonical_object.2 ⟨Entries.ascending_filter _ hascending, fun m hm =>
        hmembers m (List.mem_filter.1 hm).1⟩
    exact sound_of_record ⟨_, hrest, hread⟩
  | array items =>
    cases items with
    | nil => cases hread
    | cons tag rest =>
      obtain ⟨direction, -, hread⟩ := bind_eq_ok.1 hread
      split at hread
      · have hrest : Canonical (levels + 6) (.array rest) :=
          Json.canonical_array.2 fun j hj' =>
            Json.canonical_array.1 hj j (List.mem_cons_of_mem _ hj')
        exact sound_of_record ⟨_, hrest, hread⟩
      · cases hread
  | _ => cases hread

end ChainStep

/-- A step is read back if what stands beside its direction is. -/
theorem ChainStep.readBack_of_restores {levels : Nat} {s : ChainStep} {direction : Direction}
    {tag : String} {rest : List (String × Member)}
    (h : Restores levels rest (ofRecord direction) s)
    (hnames : (fields direction).map (·.1) = (rest.map (·.1)).reverse)
    (htag : readDirection .document (.text tag) = .ok direction)
    (hdoc : toJson s =
      Json.record (.always directionName tag :: (rest.map (·.2)).reverse)) :
    ReadBack (levels + 1) s := by
  have hdistinct : Record.Distinct (fields direction) := by
    cases direction <;> decide
  have hfits := h.fits_record
  have hmembers : ∀ m ∈ (rest.map (·.2)).reverse.filterMap Member.written,
      m.1 ≠ directionName := by
    intro m hm
    rw [List.filterMap_reverse, List.mem_reverse] at hm
    have hfield : m.1 ∈ (fields direction).map (·.1) := by
      rw [hnames, List.mem_reverse]
      exact Member.name_mem_of_written (fun n hn => (h.fits n hn).named) hm
    have hother : ∀ name ∈ (fields direction).map (·.1), name ≠ directionName := by
      cases direction <;> decide
    exact hother _ hfield
  -- The direction is written in front, and taken out again before the fields are read.
  rw [Json.record, List.filterMap_cons] at hdoc
  change toJson s = .object ((directionName, .text tag) :: _) at hdoc
  refine ⟨?_, ?_⟩
  · rw [hdoc]
    exact Json.fits_object.2 (List.forall_mem_cons.2 ⟨Json.fits_text _ _, Json.fits_object.1 hfits⟩)
  · rw [hdoc, Json.sorted, Json.sortedMembers_eq]
    refine ChainStep.read_sorted ?_ htag ?_ ?_
    · intro m hm
      obtain ⟨n, hn, rfl⟩ := List.mem_map.1 hm
      exact hmembers n hn
    · intro m hm
      obtain ⟨n, hn, rfl⟩ := List.mem_map.1 hm
      exact (Json.fits_object.1 hfits n hn).sorted.holdable
    · have hread := h.read_record hdistinct hnames
      rw [Json.record, Json.sorted, Json.sortedMembers_eq] at hread
      exact hread

/-- A sound step of plain values is read back. -/
theorem readBack_step {levels : Nat} {s : ChainStep} (h : s.Sound levels) (hlevels : 2 ≤ levels)
    (plain : ∀ v ∈ s.values, v.Plain) : ReadBack (levels + 6) s := by
  cases s with
  | forward tip block =>
    have htip : ReadBack (levels + 5) tip := (readBack_tip tip).mono (by omega)
    have hrestores : Restores (levels + 5) _ (ChainStep.ofRecord .forward) (.forward tip block) :=
      Restores.start ChainStep.forward
        |>.must "tip" htip
        |>.must "block" (readBack_block h hlevels plain)
    exact ChainStep.readBack_of_restores hrestores rfl rfl rfl
  | backward tip point =>
    have htip : ReadBack (levels + 5) tip := (readBack_tip tip).mono (by omega)
    have hrestores : Restores (levels + 5) _ (ChainStep.ofRecord .backward)
        (.backward tip point) :=
      Restores.start ChainStep.backward
        |>.must "tip" htip
        |>.must "point" ((readBack_point point).mono (by omega))
    exact ChainStep.readBack_of_restores hrestores rfl rfl rfl

/-! ## The legacy shape -/

namespace Legacy

variable {levels : Nat}

/-- The fields of a body are read as these. -/
structure TransactionBody.Gives (values : String → Option Item) (b : TransactionBody) : Prop where
  inputs : Given Portable.read [] (values "inputs") b.inputs
  collaterals : Given Portable.read [] (values "collaterals") b.collaterals
  references : Given Portable.read [] (values "references") b.references
  outputs : Given Portable.read [] (values "outputs") b.outputs
  collateralReturn : Given Portable.read none (values "collateralReturn") b.collateralReturn
  fee : Given Portable.read none (values "fee") b.fee
  totalCollateral : Given Portable.read none (values "totalCollateral") b.totalCollateral
  mint : Given Portable.read none (values "mint") b.mint
  withdrawals : Given Portable.read ∅ (values "withdrawals") b.withdrawals
  requiredSignatures :
    Given Portable.read [] (values "requiredExtraSignatures") b.requiredSignatures
  scriptIntegrityHash :
    Given Portable.read none (values "scriptIntegrityHash") b.scriptIntegrityHash
  network : Given Portable.read none (values "network") b.network

theorem TransactionBody.eq_ok_iff {r : Record} {values : String → Option Item}
    (hr : r.Holds values) {b : TransactionBody} :
    (TransactionBody.mk <$> r.getD "inputs" [] <*> r.getD "collaterals" [] <*>
      r.getD "references" [] <*> r.getD "outputs" [] <*> r.getD "collateralReturn" none <*>
      r.getD "fee" none <*> r.getD "totalCollateral" none <*> r.getD "mint" none <*>
      r.getD "withdrawals" ∅ <*> r.getD "requiredExtraSignatures" [] <*>
      r.getD "scriptIntegrityHash" none <*> r.getD "network" none).outcome = .ok b ↔
        b.Gives values := by
  simp only [Placed.seq_eq_ok, Placed.map_eq_ok, Record.getD, getWith_eq_ok hr]
  constructor
  · intro hfields
    -- The fields are peeled off from the last one read.
    obtain ⟨_, network, hfields, hnetwork, rfl⟩ := hfields
    obtain ⟨_, scriptIntegrityHash, hfields, hscriptIntegrityHash, rfl⟩ := hfields
    obtain ⟨_, requiredSignatures, hfields, hrequiredSignatures, rfl⟩ := hfields
    obtain ⟨_, withdrawals, hfields, hwithdrawals, rfl⟩ := hfields
    obtain ⟨_, mint, hfields, hmint, rfl⟩ := hfields
    obtain ⟨_, totalCollateral, hfields, htotalCollateral, rfl⟩ := hfields
    obtain ⟨_, fee, hfields, hfee, rfl⟩ := hfields
    obtain ⟨_, collateralReturn, hfields, hcollateralReturn, rfl⟩ := hfields
    obtain ⟨_, outputs, hfields, houtputs, rfl⟩ := hfields
    obtain ⟨_, references, hfields, hreferences, rfl⟩ := hfields
    obtain ⟨_, collaterals, ⟨inputs, hinputs, rfl⟩, hcollaterals, rfl⟩ := hfields
    constructor <;> assumption
  · intro g
    exact ⟨_, _, ⟨_, _, ⟨_, _, ⟨_, _, ⟨_, _, ⟨_, _, ⟨_, _, ⟨_, _, ⟨_, _, ⟨_, _, ⟨_, _, ⟨_, g.inputs,
      rfl⟩, g.collaterals, rfl⟩, g.references, rfl⟩, g.outputs, rfl⟩, g.collateralReturn, rfl⟩,
      g.fee, rfl⟩, g.totalCollateral, rfl⟩, g.mint, rfl⟩, g.withdrawals, rfl⟩,
      g.requiredSignatures, rfl⟩, g.scriptIntegrityHash, rfl⟩, g.network, rfl⟩

/-- What decoding a body makes sure of. -/
structure TransactionBody.Sound (levels : Nat) (b : TransactionBody) : Prop where
  outputs : ∀ o ∈ b.outputs, o.Sound levels
  collateralReturn : ∀ o, b.collateralReturn = some o → o.Sound (levels + 1)
  network : Json.Passed (levels + 2) b.network

theorem TransactionBody.sound_empty (levels : Nat) : Sound levels {} where
  outputs := fun _ ho => absurd ho List.not_mem_nil
  collateralReturn := fun _ ho => nomatch ho
  network := Json.passed_none _

theorem TransactionBody.sound_of_yields {b : TransactionBody}
    (h : readBody.Yields (levels + 3) b) : b.Sound levels := by
  obtain ⟨r, hr, hfields⟩ := h.fields
  obtain ⟨values, hvalues, -⟩ := hr.holds
  have g := (TransactionBody.eq_ok_iff hvalues).1 hfields
  exact ⟨hr.outputs ((getWith_eq_ok hvalues).2 g.outputs),
    hr.output ((getWith_eq_ok hvalues).2 g.collateralReturn),
    hr.passed ((getWith_eq_ok hvalues).2 g.network)⟩

/-- Metadata stands as deep here as in the current shape, and what is in the body deeper. -/
theorem sound_of_readTransaction {t : Transaction} (h : readTransaction.Yields (levels + 3) t) :
    t.Sound levels := by
  obtain ⟨r, hr, hfields⟩ := h.fields
  simp only [Placed.seq_eq_ok, Placed.map_eq_ok] at hfields
  obtain ⟨_, metadata, ⟨_, body, ⟨id, -, rfl⟩, hbody, rfl⟩, hmetadata, rfl⟩ := hfields
  -- An absent body is the empty one.
  have hsound : body.Sound levels := by
    rcases hr.getWith hbody with rfl | hyields
    · exact TransactionBody.sound_empty levels
    · exact TransactionBody.sound_of_yields (hyields.mono (by omega))
  have hpassed := hr.passed hmetadata
  exact {
    collateralReturn := hsound.collateralReturn
    outputs := hsound.outputs
    certificates := fun _ hj => absurd hj List.not_mem_nil
    network := hsound.network
    proposals := Json.passed_none _
    votes := Json.passed_none _
    metadata := fun j hj => hpassed j (Option.filter_eq_some_iff.1 hj).1
    signatories := fun _ hj => absurd hj List.not_mem_nil
    scripts := Json.passed_none _
    datums := Datums.sound_empty
    redeemers := Json.passed_none _ }

/-- The block of an era is sound if its body is a decoded document. -/
theorem EraBlock.sound_of_current {era : String} {b : EraBlock} {block : Block}
    (hbody : b.body.Canonical (levels + 4)) (h : b.current era = .ok block) :
    block.Sound levels := by
  obtain ⟨ts, hts, h⟩ := bind_eq_ok.1 h
  cases h
  unfold transactions at hts
  split at hts
  · split at hts
    · next hlist =>
      -- The body of a block is the list of its transactions.
      cases hts
      have hyields : (Reader.list readTransaction).Yields (levels + 4) ts := ⟨_, hbody, hlist⟩
      exact fun t ht => sound_of_readTransaction (hyields.of_list t ht)
    · cases hts
  · cases hts
    exact fun _ ht => absurd ht List.not_mem_nil

theorem canonical_body_of_yields {b : EraBlock} (h : readEraBlock.Yields (levels + 5) b) :
    b.body.Canonical (levels + 4) := by
  obtain ⟨r, hr, hfields⟩ := h.fields
  simp only [Placed.seq_eq_ok, Placed.map_eq_ok] at hfields
  obtain ⟨_, body, ⟨_, header, ⟨hash, -, rfl⟩, -, rfl⟩, hbody, rfl⟩ := hfields
  rcases hr.getWith hbody with rfl | hyields
  · exact Json.canonical_scalar trivial rfl rfl
  · exact hyields.unread

/-- The result of a name and what stands below it. -/
theorem body_of_choice {j : Json} (hj : j.Canonical (levels + 1)) {name : String} {v : Item}
    (h : Reader.choice .document j.item = .ok (name, some v)) :
    ∃ body : Json, body.Canonical levels ∧ v = body.item := by
  cases j with
  | object members =>
    obtain ⟨body, rfl, hbody⟩ := Reader.choice_object_eq_ok h
    cases hbody
    exact ⟨body, (Json.canonical_object.1 hj).2 _ List.mem_cons_self, rfl⟩
  | _ => cases h

/-- What a step rolls forward to comes from blocks below their eras. -/
theorem Step.canonical_of_yields {step : Step} (h : readStep.Yields (levels + 8) step) :
    ∀ blocks tip, step = .forward blocks tip →
      ∀ e ∈ blocks.entries, e.2.body.Canonical (levels + 4) := by
  obtain ⟨j, hj, hread⟩ := h
  obtain ⟨⟨name, beside⟩, hchoice, hread⟩ := bind_eq_ok.1 hread
  split at hread
  · next body heq =>
    obtain ⟨b, hb, rfl⟩ := body_of_choice hj (heq ▸ hchoice)
    have hyields : Reader.Yields _ (levels + 7) step := ⟨b, hb, hread⟩
    obtain ⟨r, hr, hfields⟩ := hyields.mapFields
    simp only [Placed.seq_eq_ok, Placed.map_eq_ok] at hfields
    obtain ⟨_, tip, ⟨blocks, hblocks, rfl⟩, -, rfl⟩ := hfields
    rintro _ _ ⟨⟩
    obtain ⟨k, hk, hnamed⟩ := hr.getRequired hblocks
    obtain ⟨entries, hentries, rfl⟩ := map_eq_ok.1 hnamed
    -- The blocks are the values of a named list inside the body of the step.
    have heras : (Reader.named readEraBlock).Yields (levels + 6) entries := ⟨k, hk, hentries⟩
    exact fun e he => canonical_body_of_yields (heras.of_named e (Entries.mem_sort he))
  · next body heq =>
    obtain ⟨b, hb, rfl⟩ := body_of_choice hj (heq ▸ hchoice)
    have hyields : Reader.Yields _ (levels + 7) step := ⟨b, hb, hread⟩
    obtain ⟨r, hr, hfields⟩ := hyields.mapFields
    simp only [Placed.seq_eq_ok, Placed.map_eq_ok] at hfields
    obtain ⟨_, tip, ⟨point, -, rfl⟩, -, rfl⟩ := hfields
    rintro _ _ ⟨⟩
  · cases hread

/-- A step that is decoded from a result of the legacy shape is sound. -/
theorem sound_of_step {j : Json} {s : ChainStep} (hj : j.Canonical (levels + 8))
    (h : Legacy.step j = .ok s) : s.Sound levels := by
  unfold Legacy.step at h
  split at h
  · next step hstep =>
    have hblocks := Step.canonical_of_yields ⟨j, hj, hstep⟩
    cases step with
    | backward point tip =>
      cases h
      trivial
    | forward blocks tip =>
      unfold Step.current at h
      cases hentries : blocks.entries with
      | nil =>
        simp only [hentries] at h
        cases h
      | cons first rest =>
        obtain ⟨era, b⟩ := first
        simp only [hentries] at h
        obtain ⟨block, hblock, h⟩ := bind_eq_ok.1 h
        cases h
        -- The block that is kept is one of those sent.
        have hmem : (era, b) ∈ blocks.entries := by simp [hentries]
        exact EraBlock.sound_of_current (hblocks blocks tip rfl _ hmem) hblock
  · cases h

end Legacy

end ChainFollower
