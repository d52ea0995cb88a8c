import ChainFollower.Proofs.Ledger.Transactions

/-!
# Blocks are read back

Main statements: `Block.sound_of_yields` and `readBack_block`.
-/

namespace ChainFollower

open Record (Restores)

namespace Block

/-- The values that a block holds. -/
def values (b : Block) : List Value := b.transactions.flatMap Transaction.values

/-- What decoding makes sure of: sound transactions. -/
def Sound (levels : Nat) (b : Block) : Prop := ∀ t ∈ b.transactions, t.Sound levels

/-- The transactions of a block are read from their field. -/
theorem transactions_of_fields {r : Record} {b : Block} (h : (ofRecord r).outcome = .ok b) :
    (r.getD "transactions" []).outcome = .ok b.transactions := by
  simp only [ofRecord, Placed.seq_eq_ok, Placed.map_eq_ok] at h
  -- The fields are taken off from the last one on; only one of them matters here.
  obtain ⟨_, issuer, h, -, rfl⟩ := h
  obtain ⟨_, protocol, h, -, rfl⟩ := h
  obtain ⟨_, transactions, h, htransactions, rfl⟩ := h
  obtain ⟨_, slot, h, -, rfl⟩ := h
  obtain ⟨_, size, h, -, rfl⟩ := h
  obtain ⟨_, height, h, -, rfl⟩ := h
  obtain ⟨_, nonce, h, -, rfl⟩ := h
  obtain ⟨_, ancestor, h, -, rfl⟩ := h
  obtain ⟨_, id, h, -, rfl⟩ := h
  obtain ⟨_, era, ⟨kind, -, rfl⟩, -, rfl⟩ := h
  exact htransactions

/-- A decoded block has sound transactions. -/
theorem sound_of_yields {levels : Nat} {b : Block}
    (h : (Portable.read : Reader Block).Yields (levels + 5) b) : b.Sound levels := by
  obtain ⟨r, hr, hfields⟩ := h.fields
  -- Without the field there are no transactions at all.
  rcases hr.getWith (transactions_of_fields hfields) with hnone | hyields
  · unfold Sound
    rw [hnone]
    exact fun _ ht => absurd ht List.not_mem_nil
  · exact fun t ht => Transaction.sound_of_yields (hyields.of_list t ht)

end Block

/-- A sound block of plain values is read back. -/
theorem readBack_block {levels : Nat} {b : Block} (h : b.Sound levels) (hlevels : 2 ≤ levels)
    (plain : ∀ v ∈ b.values, v.Plain) : ReadBack (levels + 5) b := by
  have hplain : ∀ t ∈ b.transactions, ∀ v ∈ t.values, v.Plain := fun t ht v hv =>
    plain v (List.mem_flatMap.2 ⟨t, ht, hv⟩)
  -- The members in the order in which they are written.
  exact (Restores.start Block.mk
    |>.ifText "type" b.kind
    |>.ifText "era" b.era
    |>.always "id" "" (readBack_text (levels + 4) b.id)
    |>.ifText "ancestor" b.ancestor
    |>.ifSome "nonce" (fun n _ => ⟨(readBack_nonce n).mono (by omega), rfl⟩)
    |>.always "height" 0 (readBack_word64 (levels + 4) b.height)
    |>.ifSome "size" (fun s _ => ⟨(readBack_blockSize s).mono (by omega), rfl⟩)
    |>.always "slot" 0 (readBack_word64 (levels + 4) b.slot)
    |>.ifAny "transactions" (fun t ht => readBack_transaction (h t ht) hlevels (hplain t ht))
    |>.ifSome "protocol" (fun p _ => ⟨(readBack_ledgerProtocol p).mono (by omega), rfl⟩)
    |>.ifSome "issuer" (fun i _ => ⟨(readBack_issuer i).mono (by omega), rfl⟩)).readBack
    rfl rfl rfl (by decide)

end ChainFollower
