import ChainFollower.Proofs.Cbor.Rereading
import ChainFollower.Proofs.Chain.Payloads
import ChainFollower.Proofs.Json.Rereading
import ChainFollower.Proofs.Ledger.Records

/-!
# Names of outputs

A reference to an output is read from either shape, and its name is the hash and the index with a
mark between them.  No digit is a mark, so the last mark in a name is the one between them, and no
two references have the same name.  A name is taken apart at its first mark: a hash that is there
and has no mark is told back, and the index behind it.

Main statement: `OutputRef.split_back`.
-/

namespace ChainFollower

open Record (Shape)

/-! ## References in payloads -/

namespace Doc

/-- The index that a tree stands for.  Minus zero is none. -/
inductive DenotesIndex : Doc → UInt32 → Prop
  | literal {l : Octets} {n : UInt32} (h : IntegerLiteral l n.toNat) (hzero : l ≠ minusZero) :
      DenotesIndex (.number l) n

/-- An object by the names of its members, which can all be kept.  Of the given names none comes
twice, and members of other names are left unread. -/
inductive Gives (levels : Nat) (names : List String) : Doc → List (String × Doc) → Prop
  | object {ms : List (Octets × Doc)} {members : List (String × Doc)}
      (hkept : Kept levels ms members)
      (honce : ((members.map (·.1)).filter (names.contains ·)).Nodup) :
      Gives levels names (.object ms) members

/-- The reference to an output that a tree stands for, with `levels` levels left inside of the
transaction. -/
inductive HoldsOutput (levels : Nat) (o : OutputRef) : Doc → Prop
  /-- The transaction is an object with its id. -/
  | nested {d t h i : Doc} {members parts : List (String × Doc)}
      (hd : d.Gives (levels + 1) ["transaction", "index"] members)
      (ht : members.lookup "transaction" = some t) (hparts : t.Gives levels ["id"] parts)
      (hid : parts.lookup "id" = some h) (hhash : h.DenotesText o.hash)
      (hi : members.lookup "index" = some i) (hindex : i.DenotesIndex o.index) :
      HoldsOutput levels o d
  /-- The id of the transaction stands beside the index. -/
  | flat {d h i : Doc} {members : List (String × Doc)}
      (hd : d.Gives (levels + 1) ["txId", "index"] members)
      (hnone : members.lookup "transaction" = none) (hid : members.lookup "txId" = some h)
      (hhash : h.DenotesText o.hash) (hi : members.lookup "index" = some i)
      (hindex : i.DenotesIndex o.index) : HoldsOutput levels o d

section Reading

variable {levels : Nat} {d : Doc} {o : OutputRef} {members : List (String × Doc)}

/-- The index of a tree is read, since its literal is the one that would be written for it. -/
theorem word32_of_denotesIndex {n : UInt32} (h : d.DenotesIndex n) (levels : Nat) :
    Reader.word32 .document (d.quoted.item levels) = .ok n := by
  obtain ⟨hliteral, hzero⟩ := h
  -- Every other literal of the number is minus zero.
  obtain rfl := (integerLiteral_iff.1 hliteral).resolve_right fun hboth => hzero hboth.1
  have hindex := readBack_word32 levels n
  rw [item_intChars (Json.fits_int.1 hindex.fits)]
  exact hindex.read

/-- An object whose members can be kept can be kept itself. -/
theorem Gives.held {names : List String} (h : d.Gives levels names members) :
    d.Held (levels + 1) := by
  obtain ⟨hkept, -⟩ := h
  exact held_of_named (fun hboth => hboth.2) hkept

/-- It is no array. -/
theorem Gives.ne_array {names : List String} (h : d.Gives levels names members)
    (items : List Item) : d.quoted.item (levels + 1) ≠ .array items := by
  obtain ⟨hkept, -⟩ := h
  rw [item_of_kept hkept]
  exact nofun

/-- It is read as the record of a document. -/
theorem Gives.documented {names : List String} (h : d.Gives levels names members) :
    Record.Documented (d.quoted.item (levels + 1)) := by
  obtain ⟨hkept, -⟩ := h
  rw [item_of_kept hkept]
  exact .named _

/-- The object has the shape of a record of these names. -/
theorem Gives.shape {names : List String} (h : d.Gives levels names members) :
    ∃ values, Shape (names.map (·, [])) (d.quoted.item (levels + 1)) values := by
  obtain ⟨hkept, honce⟩ := h
  have hplain : (names.map fun name => (name, ([] : List String))).all (·.2.isEmpty) = true := by
    simp
  have hnames : (names.map fun name => (name, ([] : List String))).map (·.1) = names :=
    List.map_map.trans (List.map_id names)
  -- With one spelling each, the names come once exactly if no given name does twice.
  rw [item_of_kept hkept]
  refine ⟨_, .named ((regular_kept_iff hplain hkept).2 ?_)⟩
  rwa [hnames]

/-- Whatever record the object is read as, its fields are the members of their names. -/
theorem Gives.value {given : List String} (h : d.Gives levels given members)
    {names : FieldNames} {values : String → Option Item}
    (hshape : Shape names (d.quoted.item (levels + 1)) values)
    (hplain : names.all (·.2.isEmpty) = true) {name : String}
    (hname : Record.field? names name = some name) :
    values name = (members.lookup name).map fun d => d.quoted.item levels := by
  obtain ⟨hkept, -⟩ := h
  rw [← hshape.valueAt, item_of_kept hkept, Item.valueAt_named]
  exact valueOf?_kept hplain hname

/-- A member that is there is read as a field. -/
theorem Gives.required {given : List String} (h : d.Gives levels given members)
    {names : FieldNames} {values : String → Option Item}
    (hshape : Shape names (d.quoted.item (levels + 1)) values)
    (hplain : names.all (·.2.isEmpty) = true) {name : String}
    (hname : Record.field? names name = some name) {member : Doc}
    (hlookup : members.lookup name = some member) {α : Type} {read : Reader α} {a : α}
    (hread : read .document (member.quoted.item levels) = .ok a) :
    ∃ v, values name = some v ∧ read .document v = .ok a := by
  refine ⟨_, ?_, hread⟩
  rw [h.value hshape hplain hname, hlookup]
  rfl

/-- A tree that stands for a reference can be kept while the two forms are tried. -/
theorem held_of_holdsOutput (h : d.HoldsOutput levels o) : d.Held (levels + 2) := by
  cases h with
  | nested hd => exact hd.held
  | flat hd => exact hd.held

/-- A tree that stands for a reference is read as that reference, in whichever form it is given. -/
theorem read_of_holdsOutput (h : d.HoldsOutput levels o) :
    Portable.read .document (d.quoted.item (levels + 2)) = .ok o := by
  have hheld := held_of_holdsOutput h
  cases h with
  | nested hd ht hparts hid hhash hi hindex =>
    obtain ⟨values, hshape⟩ := hd.shape
    obtain ⟨parts, hpartsShape⟩ := hparts.shape
    have hread : Portable.read .document _ = .ok o.transaction :=
      (TransactionRef.read_eq_ok hpartsShape).2
        (hparts.required hpartsShape rfl rfl hid (text_eq_ok_iff.2 hhash))
    -- The form with the transaction as an object is tried first,
    exact Reader.firstOf_first hheld ((OutputRef.readNested_eq_ok hd.ne_array hshape).2
      ⟨hd.required hshape rfl rfl ht hread,
        hd.required hshape rfl rfl hi (word32_of_denotesIndex hindex _)⟩)
  | flat hd hnone hid hhash hi hindex =>
    obtain ⟨values, hshape⟩ := hd.shape
    -- and the flat form only if that one is refused.
    refine Reader.firstOf_second hheld ?_ ((OutputRef.readFlat_eq_ok hd.ne_array hshape).2
      ⟨hd.required hshape rfl rfl hid (text_eq_ok_iff.2 hhash),
        hd.required hshape rfl rfl hi (word32_of_denotesIndex hindex _)⟩)
    show (OutputRef.readNested .document (d.quoted.item (levels + 2))).toOption = none
    -- The other form asks for a member that is not there.
    cases hread : OutputRef.readNested .document (d.quoted.item (levels + 2)) with
    | error fault => rfl
    | ok o' =>
      have hrecord := hread
      rw [OutputRef.readNested, Item.readMap_eq_read hd.ne_array] at hrecord
      obtain ⟨values', hshape'⟩ := Record.shape_of_read hd.documented hrecord
      obtain ⟨⟨v, hv, -⟩, -⟩ := (OutputRef.readNested_eq_ok hd.ne_array hshape').1 hread
      rw [hd.value hshape' rfl rfl, hnone] at hv
      cases hv

end Reading

section Written

variable (levels : Nat) (o : OutputRef)

/-- No integer is written as minus zero. -/
theorem intChars_ne_minusZero (n : Int) : Octets.ofChars (Json.intChars n) ≠ minusZero := by
  intro hzero
  -- Minus zero would be zero, and zero is written without a sign.
  have hread := integer?_intChars n
  rw [hzero] at hread
  obtain rfl : 0 = n := Option.some.inj hread
  exact absurd hzero (by decide)

/-- What is written for an index stands for it. -/
theorem denotesIndex_int (n : UInt32) : (Json.int n.toNat).doc.DenotesIndex n :=
  .literal (integerLiteral_intChars n.toNat) (intChars_ne_minusZero n.toNat)

/-- What is written for a text stands for it. -/
theorem denotesText_text (s : String) : (Json.text s).doc.DenotesText s := .text (text?_escaped s)

/-- What is written for an integer can be kept, wide or not. -/
theorem held_int (n : Int) : (Json.int n).doc.Held levels :=
  (readsAs_amount levels).held (.literal (integerLiteral_intChars n) (intChars_ne_minusZero n))

/-- What is written for a text can be kept. -/
theorem held_text (s : String) : (Json.text s).doc.Held levels :=
  (readsAs_text levels).held (denotesText_text s)

/-- What is written for a reference has the shape with the transaction as an object. -/
theorem holdsOutput_toJson : HoldsOutput levels o (toJson o).doc := by
  have hnames : ["transaction", "index"].Nodup := by decide
  have hid : ["id"].Nodup := by decide
  have hparts : Gives levels ["id"] (Json.object [("id", .text o.hash)]).doc
      [("id", (Json.text o.hash).doc)] :=
    .object (.cons (text?_escaped "id") ⟨rfl, held_text levels o.hash⟩ .nil) (hid.filter _)
  exact .nested (.object (.cons (text?_escaped "transaction") ⟨rfl, hparts.held⟩
    (.cons (text?_escaped "index") ⟨rfl, held_int _ o.index.toNat⟩ .nil)) (hnames.filter _))
    rfl hparts rfl (denotesText_text o.hash) rfl (denotesIndex_int o.index)

/-- The id of the transaction beside the index stands for the same reference. -/
theorem holdsOutput_flat : HoldsOutput levels o
    (Json.object [("txId", .text o.hash), ("index", .int o.index.toNat)]).doc := by
  have hnames : ["txId", "index"].Nodup := by decide
  exact .flat (.object (.cons (text?_escaped "txId") ⟨rfl, held_text _ o.hash⟩
    (.cons (text?_escaped "index") ⟨rfl, held_int _ o.index.toNat⟩ .nil)) (hnames.filter _))
    rfl rfl (denotesText_text o.hash) rfl (denotesIndex_int o.index)

end Written

end Doc

/-! ## Names -/

namespace OutputId

/-- A hash without a mark is what stands before the first mark. -/
theorem splitChars_marked {hash : List Char} (index : List Char) (hne : hash ≠ [])
    (hmark : '#' ∉ hash) : splitChars (hash ++ '#' :: index) = some (hash, index) := by
  unfold splitChars
  rw [takeWhile_separated index hmark, dropWhile_separated index hmark]
  obtain ⟨c, hash, rfl⟩ := List.exists_cons_of_ne_nil hne
  rfl

end OutputId

namespace OutputRef

variable {o o' : OutputRef}

/-- The name of a reference: its hash, a mark, and the digits of its index. -/
theorem toList_outputId (o : OutputRef) :
    o.outputId.text.toList = o.hash.toList ++ '#' :: Decimal.digits o.index.toNat := by
  rw [← Decimal.toList_toString]
  exact toList_separated rfl o.hash (toString o.index.toNat)

/-- No digit is a mark. -/
theorem mark_notMem_digits (n : Nat) : '#' ∉ Decimal.digits n := fun hmark =>
  absurd (Decimal.isDigit_of_mem_digits hmark).1 (by decide)

/-- Different references have different names, whatever their hashes are: what stands behind the
last mark is the index. -/
theorem eq_of_outputId (h : o.outputId = o'.outputId) : o = o' := by
  -- The hashes may have marks of their own, the digits behind them have none.
  have htexts : o.outputId.text.toList = o'.outputId.text.toList := by rw [h]
  rw [toList_outputId, toList_outputId] at htexts
  obtain ⟨hhash, hindex⟩ :=
    separated_inj (mark_notMem_digits _) (mark_notMem_digits _) htexts
  -- Equal digits spell equal numbers.
  have hnumber : o.index.toNat = o'.index.toNat := by
    rw [← Decimal.value_digits o.index.toNat, hindex, Decimal.value_digits]
  obtain ⟨⟨hash⟩, index⟩ := o
  obtain ⟨⟨hash'⟩, index'⟩ := o'
  obtain rfl : hash = hash' := String.toList_injective hhash
  obtain rfl : index = index' := UInt32.toNat_inj.1 hnumber
  rfl

section Splitting

variable (hne : o.hash ≠ "") (hmark : '#' ∉ o.hash.toList)
include hne hmark

/-- The name is taken apart into the hash and the digits of the index, -/
theorem splitChars_outputId : OutputId.splitChars o.outputId.text.toList =
    some (o.hash.toList, Decimal.digits o.index.toNat) := by
  rw [toList_outputId]
  exact OutputId.splitChars_marked _ (fun hnil => hne (String.toList_eq_nil_iff.1 hnil)) hmark

/-- so that the hash is told back, -/
theorem hash_outputId : o.outputId.hash = o.hash := by
  rw [OutputId.hash, splitChars_outputId hne hmark]
  exact String.ofList_toList

/-- and the index as well, which its digits spell as a word of 32 bits. -/
theorem index_outputId : o.outputId.index? = some o.index := by
  rw [OutputId.index?, splitChars_outputId hne hmark]
  show (Decimal.readWord 0x100000000 (Decimal.digits o.index.toNat)).toOption.map _ = _
  rw [Decimal.readWord_digits o.index.toNat_lt]
  exact congrArg some UInt32.ofNat_toNat

end Splitting

/-- A reference whose hash is there and has no mark is read from both shapes, in documents and in
binary documents.  Its name is what it is shown as, the hash and the index are told back from the
name, and no other reference has that name. -/
theorem split_back (hne : o.hash ≠ "") (hmark : '#' ∉ o.hash.toList) :
    (∀ {d : Doc} {s : Octets}, Doc.Spells d s → d.HoldsOutput (documentLevels - 2) o →
        Json.decode s = .ok o) ∧
      (∀ {j : Json} {s : Octets}, j.Fits documentLevels → j.FloatFree →
        j.doc.HoldsOutput (documentLevels - 2) o → Cbor.Spells j.item s →
          Cbor.decode s = .ok o) ∧
      o.outputId.text = o.describe ∧ o.outputId.hash = o.hash ∧
      o.outputId.index? = some o.index ∧ ∀ o' : OutputRef, o.outputId = o'.outputId → o = o' := by
  refine ⟨fun hd hholds => ?_, fun {j s} hfits hfloat hholds hspells => ?_, rfl,
    hash_outputId hne hmark, index_outputId hne hmark, fun o' => eq_of_outputId⟩
  · exact (Json.decode_eq_ok_iff hd).2 (Doc.read_of_holdsOutput hholds)
  · -- The alternatives are tried on what is held, which is the same item in both forms.
    have hkept := (hfits.mono (show documentLevels ≤ Cbor.maxLevels by decide)).kept hfloat
    have hitem := hspells.read (Cbor.passes_of_kept hkept) []
    have hread : Portable.read .document (j.doc.quoted.item documentLevels) = .ok o :=
      Doc.read_of_holdsOutput hholds
    rw [Doc.item_doc hfits hfloat.legible] at hread
    rw [List.append_nil] at hitem
    rw [Cbor.decode_eq_ok fun _ => rfl, hitem]
    exact (Reader.firstOf_binary _ (Cbor.depth_le_of_kept hkept)).trans hread

/-- One reference in both shapes, the older one as a binary document too. -/
theorem split_back_both_shapes :
    Json.decode (Octets.ofText "\x7b\"transaction\":\x7b\"id\":\"abc\"\x7d,\"index\":7\x7d") =
        .ok (OutputRef.mk ⟨"abc"⟩ 7) ∧
      Json.decode (Octets.ofText "\x7b\"txId\":\"abc\",\"index\":7\x7d") =
        .ok (OutputRef.mk ⟨"abc"⟩ 7) ∧
      Cbor.decode (Cbor.encode (.object [("txId", .text "abc"), ("index", .int 7)])) =
        .ok (OutputRef.mk ⟨"abc"⟩ 7) ∧
      (OutputRef.mk ⟨"abc"⟩ 7).outputId.hash = "abc" ∧
      (OutputRef.mk ⟨"abc"⟩ 7).outputId.index? = some 7 := by
  obtain ⟨hdocument, hbinary, -, hhash, hindex, -⟩ :=
    split_back (o := ⟨⟨"abc"⟩, 7⟩) (by decide) (by decide)
  have hnested := Doc.holdsOutput_toJson (documentLevels - 2) ⟨⟨"abc"⟩, 7⟩
  have hflat := Doc.holdsOutput_flat (documentLevels - 2) ⟨⟨"abc"⟩, 7⟩
  have hnestedText : (toJson (OutputRef.mk ⟨"abc"⟩ 7)).octets =
      Octets.ofText "\x7b\"transaction\":\x7b\"id\":\"abc\"\x7d,\"index\":7\x7d" := by
    decide +kernel
  have hflatText : (Json.object [("txId", .text "abc"), ("index", .int 7)]).octets =
      Octets.ofText "\x7b\"txId\":\"abc\",\"index\":7\x7d" := by
    decide +kernel
  -- The binary document is made from an object with integers that words hold.
  have hfits : (Json.object [("txId", .text "abc"), ("index", .int 7)]).Fits documentLevels :=
    Json.fits_object.2 (List.forall_mem_cons.2
      ⟨Json.fits_text _ _, List.forall_mem_singleton.2 (Json.fits_int.2 (by decide))⟩)
  have hfloat : (Json.object [("txId", .text "abc"), ("index", .int 7)]).FloatFree :=
    Json.floatFree_object.2 (List.forall_mem_cons.2
      ⟨Json.floatFree_text _, List.forall_mem_singleton.2 (Json.floatFree_int _)⟩)
  rw [← hnestedText, ← hflatText]
  exact ⟨hdocument (Doc.spells_octets _) hnested, hdocument (Doc.spells_octets _) hflat,
    hbinary hfits hfloat hflat (Cbor.spells_encode (hfits.kept hfloat) (by decide)), hhash, hindex⟩

end OutputRef

end ChainFollower
