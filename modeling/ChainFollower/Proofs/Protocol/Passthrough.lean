import ChainFollower.Proofs.Json.Passing
import ChainFollower.Proofs.Protocol.Responses

/-!
# What a response passes on unread

The id of a response, the data of its error and some fields of its transactions are never looked
into.  Each of them is what the frame means in its place, except that the wide integers in it have
become texts.

Main statement: `Response.decode_passes`.
-/

namespace ChainFollower

open Json (Canonical Passes)
open Record (Given exists_holds shape_of_read getWith_eq_ok getRequired_eq_ok)

/-! ## Places -/

namespace Transaction

/-- The fields of a transaction that are passed on unread. -/
inductive Unread
  | network
  | proposals
  | votes
  | metadata
  | scripts
  | redeemers

/-- The lists of a transaction whose entries are passed on unread. -/
inductive UnreadList
  | certificates
  | signatories

/-- The name of the field. -/
def Unread.name : Unread → String
  | .network => "network"
  | .proposals => "proposals"
  | .votes => "votes"
  | .metadata => "metadata"
  | .scripts => "scripts"
  | .redeemers => "redeemers"

/-- The name of the list. -/
def UnreadList.name : UnreadList → String
  | .certificates => "certificates"
  | .signatories => "signatories"

/-- What a transaction holds in the field. -/
def Unread.of (t : Transaction) : Unread → Option Json
  | .network => t.network
  | .proposals => t.proposals
  | .votes => t.votes
  | .metadata => t.metadata
  | .scripts => t.scripts
  | .redeemers => t.redeemers

/-- What a transaction holds in the list. -/
def UnreadList.of (t : Transaction) : UnreadList → List Json
  | .certificates => t.certificates
  | .signatories => t.signatories

end Transaction

namespace Response

/-- The places of a response that are never looked into. -/
inductive Place
  | id
  | errorData
  /-- A field of a transaction. -/
  | field (i : Nat) (f : Transaction.Unread)
  /-- An entry of a list of a transaction. -/
  | entry (i : Nat) (list : Transaction.UnreadList) (k : Nat)

/-- The fields of an error. -/
def errorFields : FieldNames := [("code", []), ("message", []), ("data", [])]

/-- The fields of a step forward, its direction among them. -/
def stepFields : FieldNames := (ChainStep.directionName, []) :: ChainStep.fields .forward

/-- The block in the document of a step, if it is a step forward. -/
def blockOf (step : Json) : Option Json :=
  if (step.field? stepFields ChainStep.directionName).bind Json.text? = some "forward" then
    step.field? stepFields "block"
  else none

/-- A transaction in a frame. -/
def frameTransaction? (i : Nat) (frame : Json) : Option Json :=
  (frame.present? "result").bind blockOf |>.bind (Json.field? Block.fields "transactions")
    |>.bind (Json.itemAt? i)

/-- The transactions of a response. -/
def transactions (r : Response) : List Transaction :=
  match r.result with
  | .step (.forward _ block) => block.transactions
  | _ => []

namespace Place

/-- What a frame has in the place. -/
def inFrame (frame : Json) : Place → Option Json
  | .id => frame.present? "id"
  | .errorData =>
    Json.unlessNull ((frame.present? "error").bind (Json.field? errorFields "data"))
  | .field i f => (frameTransaction? i frame).bind fun t =>
    Json.unlessNull (t.field? Transaction.fields f.name)
  | .entry i list k => (frameTransaction? i frame).bind fun t =>
    (t.field? Transaction.fields list.name).bind (Json.itemAt? k)

/-- What a response has in the place. -/
def inResponse (r : Response) : Place → Option Json
  | .id => r.id
  | .errorData => r.error.bind (·.data)
  | .field i f => r.transactions[i]?.bind f.of
  | .entry i list k => r.transactions[i]?.bind fun t => (list.of t)[k]?

end Place

end Response

/-! ## What readers pass on -/

section Readers

variable {α : Type} {levels : Nat}

/-- An optional field that is passed on unread. -/
theorem Json.given_unlessNull {v x : Option Json} (hv : ∀ j, v = some j → j.Canonical levels)
    (h : Given Portable.read none (v.map Json.item) x) : x = Json.unlessNull v := by
  cases v with
  | none => exact h
  | some j =>
    change Reader.option Reader.json .document j.item = .ok x at h
    -- A null counts as absent; anything else is kept as it was read.
    cases hnull : j.isNull with
    | true =>
      obtain rfl := Json.isNull_iff.1 hnull
      cases h
      rfl
    | false =>
      have hitem : j.item ≠ .null := by
        rintro hitem
        rw [Json.item_eq_null_iff.1 hitem] at hnull
        cases hnull
      have hread : Reader.json .document j.item = .ok j := (hv j rfl).unread_eq
      rw [Reader.option_of_read hread hitem] at h
      cases h
      rw [Json.unlessNull, Option.filter_some, hnull]
      rfl

/-- A decoded document is passed on as it is. -/
theorem Json.eq_of_unread {v x : Option Json} (hv : ∀ j, v = some j → j.Canonical levels)
    (h : Option.Rel (fun j a => Reader.json .document j.item = .ok a) v x) : x = v := by
  cases h with
  | none => rfl
  | @some j a h => rw [Except.ok.inj ((hv j rfl).unread_eq.symm.trans h)]

theorem bind_eq_of_rel {β γ : Type} {p : α → β → Prop} {a : Option α} {b : Option β}
    {f : α → Option γ} {g : β → Option γ} (h : Option.Rel p a b)
    (hfg : ∀ x y, a = some x → p x y → g y = f x) : b.bind g = a.bind f := by
  cases h with
  | none => rfl
  | some h => exact hfg _ _ rfl h

theorem rel_getElem? {β : Type} {p : α → β → Prop} {as : List α} {bs : List β}
    (h : List.Forall₂ p as bs) (n : Nat) : Option.Rel p as[n]? bs[n]? := by
  induction h generalizing n with
  | nil => exact .none
  | cons hab _ ih =>
    cases n with
    | zero => exact .some hab
    | succ n => exact ih n

/-- An entry of a list that may be absent comes from the entry in its place. -/
theorem Json.given_entry {read : Reader α} {v : Option Json} {as : List α}
    (h : Given (Reader.list read) [] (v.map Json.item) as) (n : Nat) :
    Option.Rel (fun j a => read .document j.item = .ok a) (v.bind (Json.itemAt? n)) as[n]? := by
  cases v with
  | none =>
    obtain rfl : as = [] := h
    exact .none
  | some j =>
    cases j with
    | array items => exact rel_getElem? (Json.mapM_itemsOf_eq_ok.1 h) n
    | _ => cases h

end Readers

/-! ## Transactions -/

namespace Transaction

variable {levels : Nat} {j : Json} {t : Transaction}

theorem Unread.given {values : String → Option Item} (g : t.Gives values) (f : Unread) :
    Given Portable.read none (values f.name) (f.of t) := by
  cases f
  exacts [g.network, g.proposals, g.votes, g.metadata, g.scripts, g.redeemers]

theorem UnreadList.given {values : String → Option Item} (g : t.Gives values) (list : UnreadList) :
    Given Portable.read [] (values list.name) (list.of t) := by
  cases list
  exacts [g.certificates, g.signatories]

/-- The fields of a transaction that is read from a document are parts of the document. -/
theorem gives_of_read (h : Portable.read .document j.item = .ok t) :
    ∃ values, t.Gives values ∧ ∀ field, Record.field? fields field = some field →
      values field = (j.field? fields field).map Json.item := by
  obtain ⟨values, hshape⟩ := shape_of_read j.documented_item h
  refine ⟨values, (read_eq_ok hshape).1 h, fun field hfield => ?_⟩
  rw [← hshape.valueAt]
  exact Json.valueAt_item rfl hfield

/-- A field that is passed on unread is the part of the document in its place. -/
theorem unread_eq (hj : j.Canonical (levels + 1)) (h : Portable.read .document j.item = .ok t)
    (f : Unread) : f.of t = Json.unlessNull (j.field? fields f.name) := by
  obtain ⟨values, g, hvalues⟩ := gives_of_read h
  have hfield : Record.field? fields f.name = some f.name := by cases f <;> decide
  have hgiven := f.given g
  rw [hvalues _ hfield] at hgiven
  exact Json.given_unlessNull (fun k hk => hj.field? hk) hgiven

/-- An entry that is passed on unread is the part of the document in its place. -/
theorem entry_eq (hj : j.Canonical (levels + 2)) (h : Portable.read .document j.item = .ok t)
    (list : UnreadList) (k : Nat) :
    (list.of t)[k]? = (j.field? fields list.name).bind (Json.itemAt? k) := by
  obtain ⟨values, g, hvalues⟩ := gives_of_read h
  have hfield : Record.field? fields list.name = some list.name := by cases list <;> decide
  have hgiven := list.given g
  rw [hvalues _ hfield] at hgiven
  have hparts : ∀ e, (j.field? fields list.name).bind (Json.itemAt? k) = some e →
      e.Canonical levels := by
    intro e he
    obtain ⟨l, hl, he⟩ := Option.bind_eq_some_iff.1 he
    exact (hj.field? hl).itemAt? he
  exact Json.eq_of_unread hparts (Json.given_entry hgiven k)

end Transaction

/-! ## Steps -/

namespace Response

variable {levels : Nat} {j : Json}

/-- The block of a step. -/
def stepBlock : ChainStep → Option Block
  | .forward _ block => some block
  | .backward _ _ => none

/-- What is read beside the direction of a step forward. -/
theorem block_of_fields {s : ChainStep}
    (h : Record.read (ChainStep.fields .forward) (ChainStep.ofRecord .forward) .document j.item =
      .ok s) :
    ∃ b block, j.field? (ChainStep.fields .forward) "block" = some b ∧ stepBlock s = some block ∧
      Portable.read .document b.item = .ok block := by
  obtain ⟨values, hshape⟩ := shape_of_read j.documented_item h
  obtain ⟨r, hr, hread⟩ := exists_holds hshape
  have hfields := (hread _ s).1 h
  simp only [ChainStep.ofRecord, Placed.seq_eq_ok, Placed.map_eq_ok, Record.get,
    getRequired_eq_ok hr] at hfields
  obtain ⟨_, block, ⟨tip, -, rfl⟩, ⟨item, hitem, hblock⟩, rfl⟩ := hfields
  -- The block is the part of its field, and the field is one member of the object.
  rw [← hshape.valueAt, Json.valueAt_item rfl (by decide)] at hitem
  obtain ⟨b, hb, rfl⟩ := Option.map_eq_some_iff.1 hitem
  exact ⟨b, block, hb, rfl, hblock⟩

theorem stepBlock_eq_none_of_fields {s : ChainStep}
    (h : Record.read (ChainStep.fields .backward) (ChainStep.ofRecord .backward) .document j.item =
      .ok s) : stepBlock s = none := by
  obtain ⟨values, hshape⟩ := shape_of_read j.documented_item h
  obtain ⟨r, hr, hread⟩ := exists_holds hshape
  have hfields := (hread _ s).1 h
  simp only [ChainStep.ofRecord, Placed.seq_eq_ok, Placed.map_eq_ok] at hfields
  obtain ⟨_, point, ⟨tip, -, rfl⟩, -, rfl⟩ := hfields
  rfl

theorem eq_text_of_name {tag : Json} {s : String}
    (h : Reader.name .document tag.item = .ok (.name s)) : tag = .text s := by
  cases tag with
  | text s =>
    cases h
    rfl
  | int n =>
    -- An integer names a field by its number.
    simp only [Json.item, Reader.name, Reader.below] at h
    split at h <;> cases h
  | _ => cases h

theorem eq_of_readDirection {tag : Json} {direction : ChainStep.Direction}
    (h : ChainStep.readDirection .document tag.item = .ok direction) :
    tag = .text "forward" ∧ direction = .forward ∨
      tag = .text "backward" ∧ direction = .backward := by
  unfold ChainStep.readDirection at h
  split at h
  · next hname =>
    cases h
    exact .inl ⟨eq_text_of_name hname, rfl⟩
  · next hname =>
    cases h
    exact .inr ⟨eq_text_of_name hname, rfl⟩
  · cases h

/-- The block of a step is read from the block of its document, or there is none. -/
theorem rel_blockOf {s : ChainStep} (h : Portable.read .document j.item = .ok s) :
    Option.Rel (fun b block => Portable.read .document b.item = .ok block) (blockOf j)
      (stepBlock s) := by
  -- It is enough to find the direction, and the block in what is read beside it.
  suffices hparts : ∃ tag direction rest, j.field? stepFields ChainStep.directionName = some tag ∧
      ChainStep.readDirection .document tag.item = .ok direction ∧
      j.field? stepFields "block" = rest.field? (ChainStep.fields .forward) "block" ∧
      Record.read (ChainStep.fields direction) (ChainStep.ofRecord direction) .document
        (Json.item rest) = .ok s by
    obtain ⟨tag, direction, rest, htag, hdirection, hblock, hread⟩ := hparts
    rw [blockOf, htag]
    rcases eq_of_readDirection hdirection with ⟨rfl, rfl⟩ | ⟨rfl, rfl⟩
    · obtain ⟨b, block, hb, hstep, hblock'⟩ := block_of_fields hread
      rw [Option.bind_some, Json.text?, if_pos rfl, hblock, hb, hstep]
      exact .some hblock'
    · rw [Option.bind_some, Json.text?, if_neg (by decide), stepBlock_eq_none_of_fields hread]
      exact .none
  change ChainStep.read .document j.item = .ok s at h
  cases j with
  | object members =>
    rw [Json.item_object] at h
    obtain ⟨tag, direction, hfilter, hdirection, -, hread⟩ := ChainStep.read_named_eq_ok.1 h
    rw [ChainStep.besides_fields, ← Json.item_object] at hread
    have hlookup := Entries.lookup_filter_self (Json.fields members) ChainStep.directionName
    rw [hfilter, Entries.lookup_cons, if_pos rfl, Json.lookup_fields] at hlookup
    obtain ⟨tag, htag, rfl⟩ := Option.map_eq_some_iff.1 hlookup.symm
    refine ⟨tag, direction, .object _, htag, hdirection, ?_, hread⟩
    exact (Entries.lookup_filter_key (show "block" ≠ ChainStep.directionName by decide)).symm
  | array items =>
    cases items with
    | nil => cases h
    | cons tag rest =>
      obtain ⟨direction, hdirection, h⟩ := bind_eq_ok.1 h
      split at h
      · exact ⟨tag, direction, .array rest, rfl, hdirection, rfl, h⟩
      · cases h
  | _ => cases h

theorem field_of_blockOf {b : Json} (h : blockOf j = some b) :
    j.field? stepFields "block" = some b := by
  unfold blockOf at h
  split at h
  · exact h
  · cases h

/-- The transactions of a block come from the items of a list in its document. -/
theorem given_transactions {b : Block} (h : Portable.read .document j.item = .ok b) :
    Given Portable.read [] ((j.field? Block.fields "transactions").map Json.item)
      b.transactions := by
  obtain ⟨values, hshape⟩ := shape_of_read j.documented_item h
  obtain ⟨r, hr, hread⟩ := exists_holds hshape
  rw [← Json.valueAt_item rfl (by decide), hshape.valueAt]
  exact (getWith_eq_ok hr).1 (Block.transactions_of_fields ((hread _ b).1 h))

section Frames

variable {raw result : Json} {r : Response} {s : ChainStep}

theorem canonical_transaction {i : Nat} (hraw : raw.Canonical (levels + 7))
    (h : frameTransaction? i raw = some j) : j.Canonical (levels + 3) := by
  obtain ⟨list, h, hj⟩ := Option.bind_eq_some_iff.1 h
  obtain ⟨block, h, hlist⟩ := Option.bind_eq_some_iff.1 h
  obtain ⟨step, hstep, hblock⟩ := Option.bind_eq_some_iff.1 h
  exact (((hraw.present? hstep).1.field? (field_of_blockOf hblock)).field? hlist).itemAt? hj

/-- The transactions of a response are read from those of its frame, one by one. -/
theorem rel_transactions (hresult : raw.present? "result" = some result)
    (hread : Portable.read .document result.item = .ok s) (hstep : r.result = .step s) (i : Nat) :
    Option.Rel (fun j t => Portable.read .document j.item = .ok t) (frameTransaction? i raw)
      r.transactions[i]? := by
  have hblock := rel_blockOf hread
  rw [frameTransaction?, hresult, Option.bind_some, transactions, hstep]
  -- Only a forward step has a block.
  cases s with
  | forward tip block =>
    obtain ⟨b, hb, hread⟩ := exists_of_rel_some hblock
    rw [hb]
    exact Json.given_entry (given_transactions hread) i
  | backward tip point =>
    rw [eq_none_of_rel_none hblock]
    exact .none

theorem data_of_read {e : ResultError} (hj : j.Canonical (levels + 1))
    (h : Portable.read .document j.item = .ok e) :
    e.data = Json.unlessNull (j.field? errorFields "data") := by
  obtain ⟨values, hshape⟩ := shape_of_read j.documented_item h
  obtain ⟨record, hr, hread⟩ := exists_holds hshape
  have hfields := (hread _ e).1 h
  simp only [Placed.seq_eq_ok, Placed.map_eq_ok, Record.getD, getWith_eq_ok hr] at hfields
  obtain ⟨_, data, ⟨_, message, ⟨code, -, rfl⟩, -, rfl⟩, hdata, rfl⟩ := hfields
  have hvalue : values "data" = (j.field? errorFields "data").map Json.item := by
    rw [← Json.valueAt_item rfl (by decide), errorFields, hshape.valueAt]
  rw [hvalue] at hdata
  exact Json.given_unlessNull (fun k hk => hj.field? hk) hdata

theorem data_of_errorOf {error : Option ResultError} (hraw : raw.Canonical (levels + 2))
    (h : errorOf raw = .ok error) : error.bind (·.data) =
      Json.unlessNull ((raw.present? "error").bind (Json.field? errorFields "data")) := by
  unfold errorOf at h
  cases hpresent : raw.present? "error" with
  | none =>
    rw [hpresent] at h
    cases h
    rfl
  | some j =>
    rw [hpresent] at h
    obtain ⟨e, he, rfl⟩ := map_eq_ok.1 h
    exact data_of_read (hraw.present? hpresent).1 (Json.read_of_decodeValue he)

theorem step_of_answerOf {error : Option ResultError} {answer : Answer}
    (h : answerOf raw .nextBlock error = .ok answer) :
    ∃ result s, raw.present? "result" = some result ∧
      Portable.read .document result.item = .ok s ∧ Answer.step s = answer := by
  simp only [answerOf] at h
  split at h
  · next result hresult =>
    obtain ⟨s, hs, rfl⟩ := map_eq_ok.1 h
    exact ⟨result, s, hresult, Json.read_of_decodeValue hs, rfl⟩
  · cases h

/-- A response to a request for the next block has in every place what its frame has there. -/
theorem inResponse_eq (hraw : raw.Canonical (levels + 7)) (h : current raw = .ok (some r))
    (hmethod : r.method = .nextBlock) (p : Place) : p.inResponse r = p.inFrame raw := by
  obtain ⟨method, error, answer, -, herror, hanswer, rfl⟩ := current_eq_ok.1 h
  cases hmethod
  obtain ⟨result, s, hresult, hread, rfl⟩ := step_of_answerOf hanswer
  have htransaction := fun i => rel_transactions
    (r := ⟨versionOf raw, .nextBlock, .step s, error, raw.present? "id"⟩) hresult hread rfl i
  -- Two places lie outside the result; the others lie in one of its transactions.
  cases p with
  | id => rfl
  | errorData => exact data_of_errorOf hraw herror
  | field i f =>
    exact bind_eq_of_rel (htransaction i) fun j t hj ht =>
      Transaction.unread_eq (canonical_transaction hraw hj) ht f
  | entry i list k =>
    exact bind_eq_of_rel (htransaction i) fun j t hj ht =>
      Transaction.entry_eq (canonical_transaction hraw hj) ht list k

end Frames

/-! ## What frames mean -/

section Meaning

variable {frame raw : Json}

theorem Place.passes_block {step passed : Json} (h : Passes step passed) :
    Option.Rel Passes (blockOf step) (blockOf passed) := by
  have hforward : (step.field? stepFields ChainStep.directionName).bind Json.text? =
      some "forward" ↔
      (passed.field? stepFields ChainStep.directionName).bind Json.text? = some "forward" :=
    Json.bind_text?_iff (h.field? stepFields ChainStep.directionName) (by decide)
  unfold blockOf
  by_cases hdirection : (step.field? stepFields ChainStep.directionName).bind Json.text? =
      some "forward"
  · rw [if_pos hdirection, if_pos (hforward.1 hdirection)]
    exact h.field? stepFields "block"
  · rw [if_neg hdirection, if_neg (mt hforward.2 hdirection)]
    exact .none

theorem Place.passes_transaction (h : Passes frame raw) (i : Nat) :
    Option.Rel Passes (frameTransaction? i frame) (frameTransaction? i raw) := by
  refine Json.rel_bind (Json.rel_bind (Json.rel_bind (h.present? "result") ?_) ?_) ?_
  · exact fun _ _ hstep => passes_block hstep
  · exact fun _ _ hblock => hblock.field? Block.fields "transactions"
  · exact fun _ _ hlist => hlist.itemAt? i

/-- What a frame has in a place is passed on like the frame. -/
theorem Place.passes (h : Passes frame raw) (p : Place) :
    Option.Rel Passes (p.inFrame frame) (p.inFrame raw) := by
  cases p with
  | id => exact h.present? "id"
  | errorData =>
    exact Json.rel_unlessNull (Json.rel_bind (h.present? "error") fun _ _ herror =>
      herror.field? errorFields "data")
  | field i f =>
    exact Json.rel_bind (passes_transaction h i) fun _ _ ht =>
      Json.rel_unlessNull (ht.field? Transaction.fields f.name)
  | entry i list k =>
    exact Json.rel_bind (passes_transaction h i) fun _ _ ht =>
      Json.rel_bind (ht.field? Transaction.fields list.name) fun _ _ hlist => hlist.itemAt? k

end Meaning

/-- Options of documents that are passed on are equal exactly if words hold all integers. -/
theorem eq_iff_of_passes {a b : Option Json} (h : Option.Rel Passes a b) :
    b = a ↔ ∀ j ∈ a, j.FitsWords := by
  cases h with
  | none => simp
  | some h => simpa using h.eq_iff

/-- A response to a request for the next block, in the current shape, has in every place what its
frame means there, the wide integers in it as texts.  It is the same exactly if there are none. -/
theorem decode_passes {s : Octets} {r : Response} (h : decode s = .ok r)
    (hmethod : r.method = .nextBlock) :
    ∃ d slips, Doc.Admits d s slips ∧ (d.meaning.member? "method" ≠ none → ∀ p : Place,
      Option.Rel Passes (p.inFrame d.meaning) (p.inResponse r) ∧
        (p.inResponse r = p.inFrame d.meaning ↔
          ∀ j ∈ p.inFrame d.meaning, j.FitsWords)) := by
  obtain ⟨raw, hraw, hr⟩ := bind_eq_ok.1 h
  obtain ⟨e, he, hvalue⟩ := Json.decode_eq_ok_iff_spells.1 hraw
  obtain ⟨d, slips, hadmits, rfl⟩ := Doc.spells_quoteWide_iff.1 he
  -- Place by place the raw data are what the text means, up to the scalars that reading changes.
  have hpasses : Passes d.meaning raw := Doc.passes_of_value hvalue
  refine ⟨d, slips, hadmits, fun hcurrent p => ?_⟩
  -- A frame that names a method is not read as legacy.
  have hread : current raw = .ok (some r) := by
    refine (ofJson_eq_ok.1 hr).resolve_right fun hlegacy => hcurrent ?_
    have hnone := hpasses.member? "method"
    rw [current_eq_none.1 hlegacy.1] at hnone
    exact eq_none_of_rel_none hnone
  have hrel := p.passes hpasses
  rw [← inResponse_eq (Json.canonical_of_decode hraw) hread hmethod p] at hrel
  exact ⟨hrel, eq_iff_of_passes hrel⟩

/-- A frame of a step forward to a block with a transaction; its metadata is an amount. -/
def annotated (amount : Json) : Json := .object
  [("method", .text "nextBlock"), ("result", .object
    [("direction", .text "forward"), ("tip", .object []), ("block", .object
      [("transactions", .array [.object [("id", .text "aa"), ("metadata", .object
        [("674", amount)])]])])])]

theorem annotated_free {amount : Json} (h : amount.FloatFree) : (annotated amount).FloatFree := by
  simp [annotated, Json.floatFree_object, Json.floatFree_array, Json.floatFree_text, h]

/-- A frame with a wide integer is decoded like one with a text in its place. -/
theorem decode_annotated : ∃ r,
    decode (annotated (.int 18446744073709551616)).octets = .ok r ∧ r.method = .nextBlock ∧
      (Place.field 0 .metadata).inResponse r =
        some (.object [("674", .text "18446744073709551616")]) := by
  have hquoted : Json.quoteWide (annotated (.int 18446744073709551616)).octets =
      Json.quoteWide (annotated (.text "18446744073709551616")).octets := by
    decide +kernel
  have hfits : (annotated (.text "18446744073709551616")).Fits documentLevels := by
    simp [annotated, documentLevels, Json.fits_object, Json.fits_array, Json.fits_text]
  have hdecode := decode_document hfits (annotated_free (Json.floatFree_text _)).legible
  rw [decode, Json.decode, ← hquoted] at hdecode
  exact ⟨_, hdecode.trans rfl, rfl, rfl⟩

/-- A wide integer in the metadata of a transaction comes back as a text. -/
theorem decode_passes_wide :
    ∃ s r, s = Octets.ofText ("\x7b\"method\":\"nextBlock\",\"result\":\x7b\"direction\":" ++
        "\"forward\",\"tip\":\x7b\x7d,\"block\":\x7b\"transactions\":[\x7b\"id\":\"aa\"," ++
        "\"metadata\":\x7b\"674\":18446744073709551616\x7d\x7d]\x7d\x7d\x7d") ∧
      decode s = .ok r ∧ r.method = .nextBlock ∧
      ∃ d slips, Doc.Admits d s slips ∧ d.meaning.member? "method" ≠ none ∧
        (Place.field 0 .metadata).inFrame d.meaning =
          some (.object [("674", .int 18446744073709551616)]) ∧
        (Place.field 0 .metadata).inResponse r =
          some (.object [("674", .text "18446744073709551616")]) ∧
        ¬ ∀ j ∈ (Place.field 0 .metadata).inFrame d.meaning, j.FitsWords := by
  obtain ⟨r, hr, hmethod, hresponse⟩ := decode_annotated
  obtain ⟨d, slips, hadmits, hplaces⟩ := decode_passes hr hmethod
  have hspells := Doc.spells_octets (annotated (.int 18446744073709551616))
  -- The frame is a plain spelling, so the document it stands for is known.
  obtain rfl := hadmits.spells_iff.1 ⟨_, hspells⟩
  obtain rfl := hadmits.spells.unique hspells
  have hcurrent : (annotated (.int 18446744073709551616)).sorted.member? "method" ≠ none :=
    Option.some_ne_none (Json.text "nextBlock")
  have hframe : (Place.field 0 .metadata).inFrame
      (annotated (.int 18446744073709551616)).sorted =
        some (.object [("674", .int 18446744073709551616)]) := rfl
  rw [Doc.meaning_doc (annotated_free (Json.floatFree_int _))] at hplaces
  refine ⟨_, r, ?_, hr, hmethod, _, _, hadmits, ?_⟩
  · decide +kernel
  · rw [Doc.meaning_doc (annotated_free (Json.floatFree_int _))]
    refine ⟨hcurrent, hframe, hresponse, ?_⟩
    rw [← (hplaces hcurrent (.field 0 .metadata)).2, hframe, hresponse]
    simp

end Response

end ChainFollower
