import ChainFollower.Proofs.Protocol.Steps
import Mathlib.Data.List.Forall2

/-!
# Transactions of both shapes

A transaction of the legacy shape has a counterpart in the current one: what its body holds stands
beside the id, and each bare amount of coins becomes a value.  The two are read as the same
transaction or both refused, and so it is with all transactions of a block at once.

Main definition: `Legacy.counterpart`.  Main statement: `Legacy.step_counterparts`.
-/

namespace ChainFollower

open Json (Canonical)
open Record (Given Shape exists_holds getWith_eq_ok getRequired_eq_ok primary_of_plain
  shape_of_ascending)

/-! ## Entries that may be absent -/

namespace Entries

variable {α : Type} {fields : List (String × Option α)}

/-- The entries that are there. -/
def present (fields : List (String × Option α)) : List (String × α) :=
  fields.filterMap fun e => e.2.map fun a => (e.1, a)

theorem ascending_present (h : Ascending fields) : Ascending (present fields) := by
  refine List.Pairwise.filterMap _ (fun e f hlt a ha b hb => ?_) h
  obtain ⟨a, -, rfl⟩ := Option.map_eq_some_iff.1 ha
  obtain ⟨b, -, rfl⟩ := Option.map_eq_some_iff.1 hb
  exact hlt

theorem lookup_present (h : Ascending fields) (name : String) :
    (present fields).lookup name = (fields.lookup name).join := by
  induction fields with
  | nil => rfl
  | cons e rest ih =>
    obtain ⟨k, given⟩ := e
    obtain ⟨hfirst, hrest⟩ := List.pairwise_cons.1 h
    have ih := ih hrest
    rw [lookup_cons, present, List.filterMap_cons]
    cases given with
    | none =>
      by_cases hk : name = k
      · -- No other entry has the name of the first one.
        subst hk
        rw [lookup_eq_none_of_lt hfirst] at ih
        rw [if_pos rfl]
        exact ih
      · rw [if_neg hk]
        exact ih
    | some a =>
      simp only [Option.map_some, lookup_cons]
      split
      · rfl
      · exact ih

end Entries

namespace Legacy

/-- The names of the fields of a body. -/
def bodyFields : FieldNames :=
  ["inputs", "collaterals", "references", "outputs", "collateralReturn", "fee", "totalCollateral",
    "mint", "withdrawals", "requiredExtraSignatures", "scriptIntegrityHash",
    "network"].map fun name => (name, [])

theorem readBody_eq_ok {item : Item} {values : String → Option Item}
    (h : Shape bodyFields item values) {b : TransactionBody} :
    readBody .document item = .ok b ↔ b.Gives values := by
  obtain ⟨r, hr, hread⟩ := exists_holds h
  exact (hread _ b).trans (TransactionBody.eq_ok_iff hr)

theorem readTransaction_eq_ok {item : Item} {values : String → Option Item}
    (h : Shape [("id", []), ("body", []), ("metadata", [])] item values) {t : Transaction} :
    readTransaction .document item = .ok t ↔ ∃ id body metadata,
      (∃ i, values "id" = some i ∧ Reader.text .document i = .ok id) ∧
        Given readBody {} (values "body") body ∧
          Given (Reader.option Reader.json) none (values "metadata") metadata ∧
            transaction id body metadata = t := by
  obtain ⟨r, hr, hread⟩ := exists_holds h
  apply (hread _ t).trans
  simp only [Placed.seq_eq_ok, Placed.map_eq_ok, Record.get, Record.getD, getWith_eq_ok hr,
    getRequired_eq_ok hr]
  constructor
  · rintro ⟨_, metadata, ⟨_, body, ⟨id, hid, rfl⟩, hbody, rfl⟩, hmetadata, ht⟩
    exact ⟨id, body, metadata, hid, hbody, hmetadata, ht⟩
  · rintro ⟨id, body, metadata, hid, hbody, hmetadata, ht⟩
    exact ⟨_, metadata, ⟨_, body, ⟨id, hid, rfl⟩, hbody, rfl⟩, hmetadata, ht⟩

/-! ## Amounts of coins -/

/-- A bare amount of coins as a value. -/
def coins (amount : Json) : Json :=
  .object [(Value.coinPolicy, .object [(Value.coinName, amount)])]

/-- Bare amounts of coins as values, each under its own name. -/
def accounts : Json → Json
  | .object members => .object (members.map fun m => (m.1, coins m.2))
  | j => j

section Amounts

variable {amount : Json}

theorem readFlat_coins (amount : Json) :
    (Value.readFlat .document (coins amount).item).toOption = none := by
  cases hread : Value.readFlat .document (coins amount).item with
  | error fault => rfl
  | ok v =>
    -- The flat shape needs a member for the coins, and there is none.
    obtain ⟨members, values, r, hobject, hshape, hr, hfields⟩ := Record.exists_of_readMap hread
    simp only [Placed.seq_eq_ok, Placed.map_eq_ok, Record.get, getRequired_eq_ok hr] at hfields
    obtain ⟨_, _, ⟨_, ⟨item, hitem, -⟩, -⟩, -⟩ := hfields
    cases hobject
    rw [← hshape.valueAt] at hitem
    cases hitem

theorem readGrouped_coins (amount : Json) :
    Value.readGrouped .document (coins amount).item =
      (Reader.amount .document amount.item).map Value.ofCoins := by
  show ((Reader.named Portable.read .document (coins amount).item).map Dict.ofList).map
    Value.ofGroups = _
  rw [coins, Reader.named_object]
  show (((((Reader.named Reader.amount .document (Json.object [(Value.coinName, amount)]).item).map
    Dict.ofList).map fun a => [(Value.coinPolicy, a)]).map Dict.ofList).map Value.ofGroups) = _
  rw [Reader.named_object]
  cases Reader.amount .document amount.item <;> rfl

theorem read_coins (h : amount.item.holdable = true) {v : Value} :
    Portable.read .document (coins amount).item = .ok v ↔
      ∃ n, Reader.amount .document amount.item = .ok n ∧ Value.ofCoins n = v := by
  have hholdable : (coins amount).item.holdable = true := by
    simp [coins, Json.item, Json.entriesOf, Item.holdable, Item.holdableEntries, h]
  have hflat : Value.readFlat .document (coins amount).item ≠ .ok v := by
    intro hread
    have hnone := readFlat_coins amount
    rw [hread] at hnone
    cases hnone
  rw [← map_eq_ok, ← readGrouped_coins]
  apply Reader.firstOf_eq_ok_iff.trans
  simp only [hholdable, hflat, readFlat_coins, true_and, false_or]

/-- An amount that may be absent or `null`. -/
theorem given_coins {o : Option Json} (h : ∀ n, o = some n → n.item.holdable = true)
    {v : Option Value} :
    Given Portable.read none (((o.filter fun n => !n.isNull).map coins).map Json.item) v ↔
      ∃ n : Option Int, Given Portable.read none (o.map Json.item) n ∧ n.map Value.ofCoins = v := by
  cases o with
  | none => simp [Given, eq_comm]
  | some amount =>
    by_cases hnull : amount = .null
    -- An amount that is null is no amount in either object.
    · subst hnull
      show v = none ↔
        ∃ n : Option Int, (.ok none : Reading (Option Int)) = .ok n ∧ n.map Value.ofCoins = v
      simp [eq_comm]
    -- A present amount is wrapped, and the wrapped value holds it and nothing else.
    · have hitem : amount.item ≠ .null := mt Json.item_eq_null_iff.1 hnull
      have hpresent : amount.isNull = false := Bool.eq_false_iff.2 (mt Json.isNull_iff.1 hnull)
      have hvalue : ∀ v : Value, Portable.read .document (coins amount).item = .ok v ↔ _ :=
        fun v => read_coins (h amount rfl)
      simp only [Option.filter_some, hpresent, Bool.not_false, if_true, Option.map_some, Given]
      show Reader.option Portable.read .document (coins amount).item = .ok v ↔
        ∃ n : Option Int, Reader.option Reader.amount .document amount.item = .ok n ∧ _
      rw [Reader.option_eq_map (by rintro ⟨⟩), Reader.option_eq_map hitem]
      simp only [map_eq_ok, hvalue]
      constructor
      · rintro ⟨_, ⟨n, hn, rfl⟩, rfl⟩
        exact ⟨_, ⟨n, hn, rfl⟩, rfl⟩
      · rintro ⟨_, ⟨n, hn, rfl⟩, rfl⟩
        exact ⟨_, ⟨n, hn, rfl⟩, rfl⟩

/-- Amounts by accounts, as values and as they are. -/
theorem named_coins_eq_ok {members : List (String × Json)}
    (h : ∀ m ∈ members, m.2.item.holdable = true) {entries : List (String × Value)} :
    Reader.named Portable.read .document
        (Json.object (members.map fun m => (m.1, coins m.2))).item = .ok entries ↔
      ∃ amounts : List (String × Int),
        Reader.named Portable.read .document (Json.object members).item = .ok amounts ∧
          (amounts.map fun e => (e.1, Value.ofCoins e.2)) = entries := by
  -- The accounts are read in order, each amount apart from the others.
  induction members generalizing entries with
  | nil =>
    constructor
    · rintro ⟨⟩
      exact ⟨[], rfl, rfl⟩
    · rintro ⟨_, ⟨⟩, rfl⟩
      rfl
  | cons m rest ih =>
    obtain ⟨name, amount⟩ := m
    obtain ⟨hfirst, hrest⟩ := List.forall_mem_cons.1 h
    simp only [List.map_cons, Reader.named_cons_eq_ok, read_coins hfirst, ih hrest]
    constructor
    · rintro ⟨_, _, ⟨n, hn, rfl⟩, ⟨amounts, hamounts, rfl⟩, rfl⟩
      exact ⟨_, ⟨n, amounts, hn, hamounts, rfl⟩, rfl⟩
    · rintro ⟨_, ⟨n, amounts, hn, hamounts, rfl⟩, rfl⟩
      exact ⟨_, _, ⟨n, hn, rfl⟩, ⟨amounts, hamounts, rfl⟩, rfl⟩

/-- Withdrawals that may be absent. -/
theorem given_accounts {o : Option Json} (hobject : ∀ w, o = some w → w.isObject = true)
    (h : ∀ members, o = some (.object members) → ∀ m ∈ members, m.2.item.holdable = true)
    {d : Dict Value} :
    Given Portable.read ∅ ((o.map accounts).map Json.item) d ↔
      ∃ a : Dict Int, Given Portable.read ∅ (o.map Json.item) a ∧ a.map Value.ofCoins = d := by
  cases o with
  | none =>
    constructor
    · rintro rfl
      exact ⟨∅, rfl, rfl⟩
    · rintro ⟨_, rfl, rfl⟩
      rfl
  | some w =>
    cases w with
    -- The members keep their names, and later repetitions win on both sides.
    | object members =>
      show (Reader.named Portable.read .document
          (Json.object (members.map fun m => (m.1, coins m.2))).item).map Dict.ofList = .ok d ↔
        ∃ a, (Reader.named Portable.read .document (Json.object members).item).map Dict.ofList =
          .ok a ∧ _
      simp only [map_eq_ok, named_coins_eq_ok (h members rfl)]
      constructor
      · rintro ⟨_, ⟨amounts, hamounts, rfl⟩, rfl⟩
        exact ⟨_, ⟨amounts, hamounts, rfl⟩, Dict.map_ofList _ _⟩
      · rintro ⟨_, ⟨amounts, hamounts, rfl⟩, rfl⟩
        exact ⟨_, ⟨amounts, hamounts, rfl⟩, (Dict.map_ofList _ _).symm⟩
    | _ => cases hobject _ rfl

/-- Metadata is passed on unread, and is never `null`. -/
theorem filter_of_given {levels : Nat} {o m : Option Json}
    (h : ∀ j, o = some j → j.Canonical levels)
    (hm : Given (Reader.option Reader.json) none (o.map Json.item) m) :
    m.filter (fun j => !j.isNull) = m := by
  cases o with
  | none =>
    cases hm
    rfl
  | some j =>
    -- A null is dropped by the reader, so the filter never finds one.
    by_cases hnull : j = .null
    · subst hnull
      cases hm
      rfl
    · have hread : Reader.json .document j.item = .ok j := (h j rfl).unread_eq
      have hpresent : j.isNull = false := Bool.eq_false_iff.2 (mt Json.isNull_iff.1 hnull)
      change Reader.option Reader.json .document j.item = .ok m at hm
      rw [Reader.option_eq_map (mt Json.item_eq_null_iff.1 hnull), hread] at hm
      cases hm
      simp [hpresent]

end Amounts

/-! ## Counterparts -/

/-- The members of a counterpart, in order: what the body holds, with bare amounts as values, beside
the id and the metadata. -/
def counterpartMembers (x body : Json) : List (String × Option Json) :=
  [("collateralReturn", body.member? "collateralReturn"),
   ("collaterals", body.member? "collaterals"),
   ("fee", (body.present? "fee").map coins),
   ("id", x.member? "id"),
   ("inputs", body.member? "inputs"),
   ("metadata", x.member? "metadata"),
   ("mint", body.member? "mint"),
   ("network", body.member? "network"),
   ("outputs", body.member? "outputs"),
   ("references", body.member? "references"),
   ("requiredExtraSignatories", body.member? "requiredExtraSignatures"),
   ("scriptIntegrityHash", body.member? "scriptIntegrityHash"),
   ("totalCollateral", (body.present? "totalCollateral").map coins),
   ("withdrawals", (body.member? "withdrawals").map accounts)]

/-- The transaction of the current shape that says what `x` says in the legacy one. -/
def counterpart (x : Json) : Json :=
  .object (Entries.present (counterpartMembers x ((x.member? "body").getD .null)))

theorem ascending_counterpartMembers (x body : Json) :
    Entries.Ascending (counterpartMembers x body) := by
  have hnames : ((counterpartMembers x body).map Prod.fst).Pairwise (· < ·) := by
    simp only [counterpartMembers, List.map_cons, List.map_nil]
    decide
  exact List.pairwise_map.1 hnames

/-- The document is an object whose body is one, and so are the withdrawals, if there are any. -/
def IsTransaction (x : Json) : Prop :=
  ∃ body, x.member? "body" = some body ∧ body.isObject = true ∧
    ∀ w, body.member? "withdrawals" = some w → w.isObject = true

/-! ## Counterparts are read alike -/

/-- The fields that a counterpart has as they stand in the body. -/
def sameFields : List String :=
  ["inputs", "references", "collaterals", "outputs", "collateralReturn", "mint", "network",
    "scriptIntegrityHash"]

/-- The fields that only the current shape has. -/
def absentFields : List String :=
  ["spends", "certificates", "validityInterval", "requiredExtraScripts", "proposals", "votes",
    "signatories", "scripts", "datums", "redeemers", "cbor"]

/-- How the values of a counterpart's fields come from those of a transaction and of its body. -/
structure Carries (outer inner current : String → Option Item) : Prop where
  beside : ∀ name ∈ ["id", "metadata"], current name = outer name
  same : ∀ name ∈ sameFields, current name = inner name
  signatures : current "requiredExtraSignatories" = inner "requiredExtraSignatures"
  amounts : ∀ name ∈ ["fee", "totalCollateral"], ∀ v : Option Value,
    Given Portable.read none (current name) v ↔
      ∃ n : Option Int, Given Portable.read none (inner name) n ∧ n.map Value.ofCoins = v
  withdrawals : ∀ d : Dict Value, Given Portable.read ∅ (current "withdrawals") d ↔
    ∃ a : Dict Int, Given Portable.read ∅ (inner "withdrawals") a ∧ a.map Value.ofCoins = d
  metadata : ∀ m, Given (Reader.option Reader.json) none (outer "metadata") m →
    m.filter (fun j => !j.isNull) = m
  absent : ∀ name ∈ absentFields, current name = none

section Carries

variable {outer inner current : String → Option Item} (h : Carries outer inner current)
include h

theorem Carries.given_same {α : Type} {read : Reader α} {absent a : α} {name : String}
    (hname : name ∈ sameFields) :
    Given read absent (current name) a ↔ Given read absent (inner name) a := by
  rw [h.same name hname]

theorem Carries.given_absent {α : Type} {read : Reader α} {absent a : α} {name : String}
    (hname : name ∈ absentFields) : Given read absent (current name) a ↔ a = absent := by
  rw [h.absent name hname]
  rfl

/-- A counterpart gives the transaction of an id, a body and metadata. -/
theorem Carries.gives {id : String} {b : TransactionBody} {metadata : Option Json}
    (hid : ∃ i, outer "id" = some i ∧ Reader.text .document i = .ok id) (hb : b.Gives inner)
    (hmetadata : Given (Reader.option Reader.json) none (outer "metadata") metadata) :
    (transaction id b metadata).Gives current where
  id := by rwa [h.beside "id" (by decide)]
  metadata := by
    rw [h.beside "metadata" (by decide), transaction, h.metadata metadata hmetadata]
    exact hmetadata
  inputs := (h.given_same (by decide)).2 hb.inputs
  references := (h.given_same (by decide)).2 hb.references
  collaterals := (h.given_same (by decide)).2 hb.collaterals
  outputs := (h.given_same (by decide)).2 hb.outputs
  collateralReturn := (h.given_same (by decide)).2 hb.collateralReturn
  mint := (h.given_same (by decide)).2 hb.mint
  network := (h.given_same (by decide)).2 hb.network
  scriptIntegrityHash := (h.given_same (by decide)).2 hb.scriptIntegrityHash
  requiredSignatories := by
    rw [h.signatures]
    exact hb.requiredSignatures
  fee := (h.amounts "fee" (by decide) _).2 ⟨_, hb.fee, rfl⟩
  totalCollateral := (h.amounts "totalCollateral" (by decide) _).2 ⟨_, hb.totalCollateral, rfl⟩
  withdrawals := (h.withdrawals _).2 ⟨_, hb.withdrawals, rfl⟩
  spends := (h.given_absent (by decide)).2 rfl
  certificates := (h.given_absent (by decide)).2 rfl
  validity := (h.given_absent (by decide)).2 rfl
  requiredScripts := (h.given_absent (by decide)).2 rfl
  proposals := (h.given_absent (by decide)).2 rfl
  votes := (h.given_absent (by decide)).2 rfl
  signatories := (h.given_absent (by decide)).2 rfl
  scripts := (h.given_absent (by decide)).2 rfl
  datums := (h.given_absent (by decide)).2 rfl
  redeemers := (h.given_absent (by decide)).2 rfl
  cbor := (h.given_absent (by decide)).2 rfl

/-- Whatever a counterpart gives is the transaction of an id, a body and metadata. -/
theorem Carries.exists_body {t : Transaction} (g : t.Gives current) :
    ∃ b : TransactionBody, b.Gives inner ∧
      Given (Reader.option Reader.json) none (outer "metadata") t.metadata ∧
        transaction t.id b t.metadata = t := by
  obtain ⟨fee, hfee, hfeeValue⟩ := (h.amounts "fee" (by decide) _).1 g.fee
  obtain ⟨total, htotal, htotalValue⟩ :=
    (h.amounts "totalCollateral" (by decide) _).1 g.totalCollateral
  obtain ⟨withdrawals, hwithdrawals, hvalues⟩ := (h.withdrawals _).1 g.withdrawals
  have hmetadata : Given (Reader.option Reader.json) none (outer "metadata") t.metadata := by
    rw [← h.beside "metadata" (by decide)]
    exact g.metadata
  refine ⟨⟨t.inputs, t.collaterals, t.references, t.outputs, t.collateralReturn, fee, total, t.mint,
    withdrawals, t.requiredSignatories, t.scriptIntegrityHash, t.network⟩, ?_, hmetadata, ?_⟩
  · exact {
      inputs := (h.given_same (by decide)).1 g.inputs
      collaterals := (h.given_same (by decide)).1 g.collaterals
      references := (h.given_same (by decide)).1 g.references
      outputs := (h.given_same (by decide)).1 g.outputs
      collateralReturn := (h.given_same (by decide)).1 g.collateralReturn
      fee := hfee
      totalCollateral := htotal
      mint := (h.given_same (by decide)).1 g.mint
      withdrawals := hwithdrawals
      requiredSignatures := by
        rw [← h.signatures]
        exact g.requiredSignatories
      scriptIntegrityHash := (h.given_same (by decide)).1 g.scriptIntegrityHash
      network := (h.given_same (by decide)).1 g.network }
  · -- The fields that the legacy shape has not are empty.
    have hspends := (h.given_absent (by decide)).1 g.spends
    have hcertificates := (h.given_absent (by decide)).1 g.certificates
    have hvalidity := (h.given_absent (by decide)).1 g.validity
    have hrequiredScripts := (h.given_absent (by decide)).1 g.requiredScripts
    have hproposals := (h.given_absent (by decide)).1 g.proposals
    have hvotes := (h.given_absent (by decide)).1 g.votes
    have hsignatories := (h.given_absent (by decide)).1 g.signatories
    have hscripts := (h.given_absent (by decide)).1 g.scripts
    have hdatums := (h.given_absent (by decide)).1 g.datums
    have hredeemers := (h.given_absent (by decide)).1 g.redeemers
    have hcbor := (h.given_absent (by decide)).1 g.cbor
    rw [transaction, hfeeValue, htotalValue, hvalues, h.metadata _ hmetadata]
    cases t
    simp only at hspends hcertificates hvalidity hrequiredScripts hproposals hvotes
    simp only at hsignatories hscripts hdatums hredeemers hcbor
    subst hspends hcertificates hvalidity hrequiredScripts hproposals hvotes
    subst hsignatories hscripts hdatums hredeemers hcbor
    rfl

end Carries

/-- The fields of a counterpart by their names. -/
theorem exists_carries {levels : Nat} {x body : Json} (hx : x.Canonical (levels + 3))
    (hbody : x.member? "body" = some body) (hobject : body.isObject = true)
    (haccounts : ∀ w, body.member? "withdrawals" = some w → w.isObject = true) :
    ∃ outer inner current,
      Shape [("id", []), ("body", []), ("metadata", [])] x.item outer ∧
        outer "body" = some body.item ∧ Shape bodyFields body.item inner ∧
          Shape Transaction.fields (counterpart x).item current ∧ Carries outer inner current := by
  have hparts : body.Canonical (levels + 2) := hx.member? hbody
  have hamount : ∀ {name n}, body.member? name = some n → n.item.holdable = true :=
    fun hn => (hparts.member? hn).fits.holdable
  cases x with
  | object xs =>
    cases body with
    | object ms =>
      obtain ⟨outer, houter, hxs⟩ := shape_of_ascending [("id", []), ("body", []), ("metadata", [])]
        (primary_of_plain rfl xs) (Json.canonical_object.1 hx).1
      obtain ⟨inner, hinner, hms⟩ := shape_of_ascending bodyFields
        (primary_of_plain rfl ms) (Json.canonical_object.1 hparts).1
      have hascending := ascending_counterpartMembers (.object xs) (.object ms)
      obtain ⟨current, hcurrent, hcs⟩ := shape_of_ascending Transaction.fields
        (primary_of_plain rfl _) (Entries.ascending_present hascending)
      simp only [Entries.lookup_present hascending] at hcs
      refine ⟨outer, inner, current, houter, ?_, hinner, ?_, ?_⟩
      · rw [hxs "body" rfl]
        exact congrArg (Option.map Json.item) hbody
      · rw [counterpart, hbody]
        exact hcurrent
      -- A field is looked up among the members of the counterpart, and there it is a member of the
      -- transaction or of its body.
      constructor
      case beside =>
        intro name hname
        simp only [List.mem_cons, List.not_mem_nil, or_false] at hname
        rcases hname with rfl | rfl <;> rw [hcs _ rfl, hxs _ rfl] <;> rfl
      case same =>
        intro name hname
        simp only [sameFields, List.mem_cons, List.not_mem_nil, or_false] at hname
        rcases hname with rfl | rfl | rfl | rfl | rfl | rfl | rfl | rfl <;>
          rw [hcs _ rfl, hms _ rfl] <;> rfl
      case signatures =>
        rw [hcs _ rfl, hms _ rfl]
        rfl
      case amounts =>
        intro name hname v
        simp only [List.mem_cons, List.not_mem_nil, or_false] at hname
        rcases hname with rfl | rfl <;> rw [hcs _ rfl, hms _ rfl] <;>
          exact given_coins fun _ => hamount
      case withdrawals =>
        intro d
        rw [hcs _ rfl, hms _ rfl]
        exact given_accounts haccounts fun _ hw m hm =>
          ((Json.canonical_object.1 (hparts.member? hw)).2 m hm).fits.holdable
      case metadata =>
        rw [hxs _ rfl]
        exact fun m => filter_of_given fun j hj => hx.member? hj
      case absent =>
        intro name hname
        simp only [absentFields, List.mem_cons, List.not_mem_nil, or_false] at hname
        rcases hname with rfl | rfl | rfl | rfl | rfl | rfl | rfl | rfl | rfl | rfl | rfl <;>
          rw [hcs _ rfl] <;> rfl
    | _ => cases hobject
  | _ => cases hbody

/-- A transaction of the legacy shape is read as its counterpart is. -/
theorem readTransaction_eq_ok_iff {levels : Nat} {x : Json} (hx : x.Canonical levels)
    (h : IsTransaction x) {t : Transaction} :
    readTransaction .document x.item = .ok t ↔ Json.decodeValue (counterpart x) = .ok t := by
  obtain ⟨body, hbody, hobject, haccounts⟩ := h
  have hx : x.Canonical (levels + 3) := hx.mono (by omega)
  -- The counterpart carries each member of the transaction and its body to its field.
  obtain ⟨outer, inner, current, houter, hvalue, hinner, hcurrent, hcarries⟩ :=
    exists_carries hx hbody hobject haccounts
  rw [readTransaction_eq_ok houter, hvalue]
  constructor
  -- What the legacy reader found is what the counterpart gives.
  · rintro ⟨id, b, metadata, hid, hb, hmetadata, rfl⟩
    have hgives := hcarries.gives hid ((readBody_eq_ok hinner).1 hb) hmetadata
    exact Json.decodeValue_of_read ((Transaction.read_eq_ok hcurrent).2 hgives)
  · intro ht
    have hgives := (Transaction.read_eq_ok hcurrent).1 (Json.read_of_decodeValue ht)
    obtain ⟨b, hb, hmetadata, htransaction⟩ := hcarries.exists_body hgives
    have hid := hgives.id
    rw [hcarries.beside "id" (by decide)] at hid
    exact ⟨t.id, b, t.metadata, hid, (readBody_eq_ok hinner).2 hb, hmetadata, htransaction⟩

/-! ## Whole blocks -/

/-- The transactions of a list are read one by one. -/
theorem transactions_array_eq_ok {xs : List Json} {ts : List Transaction} :
    transactions (.array xs) = .ok ts ↔
      List.Forall₂ (fun x t => readTransaction .document x.item = .ok t) xs ts := by
  have hlist : Reader.list readTransaction .document (Json.array xs).item =
      (Json.itemsOf xs).mapM (readTransaction .document) := rfl
  simp only [transactions, Json.isArray, if_true, hlist]
  rw [← Json.mapM_itemsOf_eq_ok]
  cases (Json.itemsOf xs).mapM (readTransaction .document) <;> simp

/-- The transactions of a block are read as their counterparts are, one for one. -/
theorem transactions_eq_ok_iff {levels : Nat} {xs : List Json} (hxs : ∀ x ∈ xs, x.Canonical levels)
    (h : ∀ x ∈ xs, IsTransaction x) {ts : List Transaction} :
    transactions (.array xs) = .ok ts ↔
      List.Forall₂ (fun x t => Json.decodeValue (counterpart x) = .ok t) xs ts := by
  have hboth : ∀ x ∈ xs, x.Canonical levels ∧ IsTransaction x := fun x hx => ⟨hxs x hx, h x hx⟩
  rw [transactions_array_eq_ok]
  constructor <;> intro hts <;>
    refine ((List.forall₂_and_left xs ts).2 ⟨hboth, hts⟩).imp ?_ <;> rintro x t ⟨⟨hx, h⟩, ht⟩
  · exact (readTransaction_eq_ok_iff hx h).1 ht
  · exact (readTransaction_eq_ok_iff hx h).2 ht

/-- A step forward over a block gives, for transactions of the legacy shape, what is read from their
counterparts, in their order; if one of the counterparts is refused, so is the step. -/
theorem step_counterparts {levels : Nat} {raw : Json} {blocks : Dict EraBlock} {tip : Tip}
    {era : String} {b : EraBlock} {others : List (String × EraBlock)} {xs : List Json}
    (hraw : raw.Canonical (levels + 8))
    (hread : readStep .document raw.item = .ok (.forward blocks tip))
    (hfirst : blocks.entries = (era, b) :: others) (hbody : b.body = .array xs)
    (hxs : ∀ x ∈ xs, IsTransaction x) (s : ChainStep) :
    step raw = .ok s ↔ ∃ ts : List Transaction,
      List.Forall₂ (fun x t => Json.decodeValue (counterpart x) = .ok t) xs ts ∧
        s = .forward tip.current
          { era := era
            id := b.hash
            ancestor := (b.header.previous.bind Json.text?).getD ""
            height := b.header.height
            slot := b.header.slot
            transactions := ts } := by
  -- The bodies lie deep enough in the frame to be canonical where they are.
  have hparts : (Json.array xs).Canonical (levels + 4) :=
    hbody ▸ Step.canonical_of_yields ⟨raw, hraw, hread⟩ blocks tip rfl (era, b) (by simp [hfirst])
  -- The transactions are read one by one, in order.
  have hts : ∀ ts, transactions (.array xs) = .ok ts ↔ _ :=
    fun ts => transactions_eq_ok_iff (Json.canonical_array.1 hparts) hxs
  simp only [step, hread, Step.current, hfirst, EraBlock.current, hbody, bind_eq_ok, ← hts]
  constructor
  · rintro ⟨_, ⟨ts, hread, ⟨⟩⟩, ⟨⟩⟩
    exact ⟨ts, hread, rfl⟩
  · rintro ⟨ts, hread, rfl⟩
    exact ⟨_, ⟨ts, hread, rfl⟩, rfl⟩

/-- A block of one transaction, whose fee no word holds and is given as a text. -/
theorem step_counterparts_wide : ∃ x : Json,
    x = .object [("body", .object [("fee", .text "18446744073709551616"),
      ("withdrawals", .object [("stake", .int 5)])]), ("id", .text "aa")] ∧
    step (.object [("RollForward", .object [
        ("block", .object [("babbage", .object [("body", .array [x]), ("headerHash", .text "cc")])]),
        ("tip", .object [("blockNo", .int 2), ("hash", .text "cc"), ("slot", .int 7)])])]) =
      .ok (.forward ⟨7, "cc", 2⟩
        { era := "babbage", id := "cc", ancestor := "", height := 0, slot := 0,
          transactions := [{
            id := "aa"
            fee := some (Value.ofCoins 18446744073709551616)
            withdrawals := Dict.ofList [("stake", Value.ofCoins 5)] }] }) := by
  have htext : ∀ {s levels}, (Json.text s).Canonical levels := Json.canonical_scalar trivial rfl rfl
  have hint : ∀ {n levels}, FitsWord n → (Json.int n).Canonical levels :=
    fun h => Json.canonical_scalar h rfl rfl
  obtain ⟨x, hx⟩ : ∃ x, x = Json.object [("body", .object [
      ("fee", .text "18446744073709551616"), ("withdrawals", .object [("stake", .int 5)])]),
    ("id", .text "aa")] := ⟨_, rfl⟩
  refine ⟨x, hx, (@step_counterparts 0 _ (Dict.ofList [("babbage", ⟨"cc", {}, .array [x]⟩)])
    ⟨7, "cc", 2⟩ _ _ _ _ ?_ ?_ rfl rfl ?_ _).2 ⟨_, .cons ?_ .nil, rfl⟩⟩
  all_goals subst hx
  -- The frame is canonical, its three plain integers included.
  · have hwords : (Json.int 5).Canonical 0 ∧ (Json.int 2).Canonical 5 ∧ (Json.int 7).Canonical 5 :=
      ⟨hint (by decide), hint (by decide), hint (by decide)⟩
    simp only [Json.canonical_object, Json.canonical_array, Entries.Ascending, List.pairwise_cons,
      List.forall_mem_cons, List.not_mem_nil, List.Pairwise.nil, String.reduceLT, htext,
      false_implies, implies_true, and_true, true_and]
    exact hwords
  · rfl
  · intro x hx
    obtain rfl := List.mem_singleton.1 hx
    refine ⟨_, rfl, rfl, ?_⟩
    rintro _ ⟨⟩
    rfl
  · rfl

end Legacy

end ChainFollower
