import ChainFollower.Ledger.Block
import ChainFollower.Proofs.Item.Members
import ChainFollower.Proofs.Ledger.Values
import ChainFollower.Proofs.Protocol.Records

/-!
# Records of the ledger

The records of positions, transactions and blocks that hold no unread parts are read back, whatever
they say: each is taken member by member in the order in which it is written.

Main statements: `readBack_tip` and `readBack_point` for positions, `readBack_value` for values,
`readBack_issuer` for the largest part of a block.
-/

namespace ChainFollower

open Record (Restores)

/-! ## Words -/

section Words

variable (levels : Nat)

/-- A word of 64 bits is read back as the number that is written for it. -/
theorem readBack_word64 (n : UInt64) : ReadBack levels n :=
  ⟨Json.fits_int.2 (fitsWord_toNat n), Reader.word64_toNat n⟩

/-- The reader of a word of 32 bits looks at the range of the number, which a word cannot leave. -/
theorem readBack_word32 (n : UInt32) : ReadBack levels n := by
  have hlt := n.toNat_lt
  refine ⟨Json.fits_int.2 ?_, ?_⟩
  · unfold FitsWord
    omega
  · show Reader.word32 .document (.int n.toNat) = _
    -- The range check of the reader holds of every word, and the conversion there and back is none.
    have hrange : 0 ≤ (n.toNat : Int) ∧ (n.toNat : Int) < 0x100000000 := by omega
    simp only [Reader.word32, Reader.int?, if_pos hrange]
    simp

/-- A signed word is read back, negative numbers included. -/
theorem readBack_signed64 (n : Int64) : ReadBack levels n := by
  have hge := n.le_toInt
  have hlt := n.toInt_lt
  refine ⟨Json.fits_int.2 ?_, ?_⟩
  · unfold FitsWord
    omega
  · show Reader.signed64 .document (.int n.toInt) = _
    have hrange : -0x8000000000000000 ≤ n.toInt ∧ n.toInt < 0x8000000000000000 := by omega
    simp only [Reader.signed64, Reader.int?, if_pos hrange]
    simp

end Words

/-! ## Positions -/

/-- A tip is written with all its members, so none of the defaults of its fields is needed. -/
theorem readBack_tip (t : Tip) : ReadBack 1 t :=
  (Restores.start Tip.mk
    |>.always "slot" 0 (readBack_word64 0 t.slot)
    |>.always "id" "" (readBack_text 0 t.id)
    |>.always "height" 0 (readBack_word64 0 t.height)).readBack rfl rfl rfl (by decide)

/-- The height is left out of a reference without one, and a missing height is read as none. -/
theorem readBack_blockRef (b : BlockRef) : ReadBack 1 b :=
  (Restores.start BlockRef.mk
    |>.must "slot" (readBack_word64 0 b.slot)
    |>.must "id" (readBack_text 0 b.id)
    |>.ifSome "blockNo" fun h _ => ⟨readBack_word64 0 h, rfl⟩).readBack rfl rfl rfl (by decide)

/-- A point is read back as what it is, symbol or block. -/
theorem readBack_point (p : Point) : ReadBack 1 p := by
  cases p with
  | symbol s => exact ⟨Json.fits_text 1 s, rfl⟩
  | block b =>
    have hblock := readBack_blockRef b
    refine ⟨hblock.fits, ?_⟩
    -- A block is an object, and so no symbol.
    refine Reader.firstOf_second hblock.fits.sorted.holdable rfl ?_
    show (Portable.read .document (toJson b).sorted.item).map Point.block = _
    rw [hblock.read]
    rfl

/-! ## Parts of transactions -/

/-- A reference to a transaction is read back. -/
theorem readBack_transactionRef (t : TransactionRef) : ReadBack 1 t :=
  (Restores.start TransactionRef.mk
    |>.must "id" (readBack_text 0 t.id)).readBack rfl rfl rfl (by decide)

/-- A reference to an output is written in the first of the two shapes in which it is read. -/
theorem readBack_outputRef (o : OutputRef) : ReadBack 2 o := by
  have hrestores := Restores.start OutputRef.mk
    |>.must "transaction" (readBack_transactionRef o.transaction)
    |>.must "index" (readBack_word32 1 o.index)
  have hfits : (toJson o).Fits 2 := hrestores.fits_record
  -- The first shape is tried first, and it takes what is written.
  refine ⟨hfits, Reader.firstOf_first hfits.sorted.holdable ?_⟩
  refine (Record.readMap_object [("transaction", []), ("index", [])] _ _).trans ?_
  exact hrestores.read_record (by decide) rfl

/-- Bounds of validity are read back, with either bound missing or there. -/
theorem readBack_validity (v : Validity) : ReadBack 1 v :=
  (Restores.start Validity.mk
    |>.ifSome "invalidBefore" (fun n _ => ⟨readBack_word64 0 n, rfl⟩)
    |>.ifSome "invalidAfter" fun n _ => ⟨readBack_word64 0 n, rfl⟩).readBack rfl rfl rfl (by decide)

/-- A plain value is read back. -/
theorem readBack_value {v : Value} (plain : v.Plain) : ReadBack 2 v := by
  -- What is written are the groups of the policies, and reading them again gives the entries that
  -- were there.
  refine ⟨v.fits, ?_⟩
  rw [Value.sorted_toJson, Value.read_groups, Dict.ofList_sort]
  exact congrArg Except.ok (Value.reread_eq plain)

/-! ## Parts of blocks -/

/-- A nonce is read back; its empty parts are left out and are empty by default. -/
theorem readBack_nonce (n : Nonce) : ReadBack 1 n :=
  (Restores.start Nonce.mk
    |>.ifText "output" n.output
    |>.ifText "proof" n.proof).readBack rfl rfl rfl (by decide)

theorem readBack_blockSize (s : BlockSize) : ReadBack 1 s :=
  (Restores.start BlockSize.mk
    |>.must "bytes" (readBack_word64 0 s.bytes)).readBack rfl rfl rfl (by decide)

/-- A version is read back, with a patch or without. -/
theorem readBack_protocolVersion (v : ProtocolVersion) : ReadBack 1 v :=
  (Restores.start ProtocolVersion.mk
    |>.must "major" (readBack_word32 0 v.major)
    |>.must "minor" (readBack_word32 0 v.minor)
    |>.ifSome "patch" fun n _ => ⟨readBack_word32 0 n, rfl⟩).readBack rfl rfl rfl (by decide)

theorem readBack_ledgerProtocol (p : LedgerProtocol) : ReadBack 2 p :=
  (Restores.start LedgerProtocol.mk
    |>.must "version" (readBack_protocolVersion p.version)).readBack rfl rfl rfl (by decide)

/-- A key-evolving signature is read back. -/
theorem readBack_kes (k : Kes) : ReadBack 1 k :=
  (Restores.start Kes.mk
    |>.always "period" 0 (readBack_word64 0 k.period)
    |>.always "verificationKey" "" (readBack_text 0 k.verificationKey)).readBack
    rfl rfl rfl (by decide)

/-- An operational certificate is read back, one level above its signature. -/
theorem readBack_certificate (c : OperationalCertificate) : ReadBack 2 c :=
  (Restores.start OperationalCertificate.mk
    |>.always "count" 0 (readBack_word64 1 c.count)
    |>.always "kes" {} (readBack_kes c.kes)).readBack rfl rfl rfl (by decide)

/-- A leader value is read back; its empty parts are left out and are empty by default. -/
theorem readBack_leaderValue (v : LeaderValue) : ReadBack 1 v :=
  (Restores.start LeaderValue.mk
    |>.ifText "proof" v.proof
    |>.ifText "output" v.output).readBack rfl rfl rfl (by decide)

/-- The issuer of a block holds the deepest of these records, three levels in all. -/
theorem readBack_issuer (i : Issuer) : ReadBack 3 i :=
  (Restores.start Issuer.mk
    |>.always "verificationKey" "" (readBack_text 2 i.verificationKey)
    |>.always "vrfVerificationKey" "" (readBack_text 2 i.vrfVerificationKey)
    |>.always "operationalCertificate" {} (readBack_certificate i.certificate)
    -- The leader value is one level less deep than the certificate beside it.
    |>.always "leaderValue" {} ((readBack_leaderValue i.leaderValue).mono (by decide))).readBack
    rfl rfl rfl (by decide)

end ChainFollower
