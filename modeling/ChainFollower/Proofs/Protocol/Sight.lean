import ChainFollower.Proofs.Json.Settling
import ChainFollower.Proofs.Protocol.Records

/-!
# What peeking sees

Which items are frames to a look at the tip alone, and the tip that is seen in them.  Both are said
of the item as it stands, field by field and without a reader: `Peek.IsFrame` and `Peek.shownTip`.

Main statement: `Peek.readFrame_eq_ok`.
-/

namespace ChainFollower

open Record (Shape Given exists_given_of_read shape_of_read getWith_eq_ok)
open Reader (exists_word64_iff)
open Settles (exists_text_iff)

namespace Peek

/-! ## What is a frame to peeking -/

/-- A tip whose hash and height have these names. -/
def IsTip (hash height : String) (v : Item) : Prop :=
  v.IsRecord [("slot", []), (hash, []), (height, [])] fun field w =>
    if field = hash then w.IsText else w.IsWord

/-- What stands below the name of a legacy result: a tip in it must be one of the legacy shape. -/
def IsHolder (v : Item) : Prop :=
  v.IsRecord [("tip", [])] fun _ w => w.Nullable (IsTip "hash" "blockNo")

/-- The names of legacy results, in the order in which they are looked at. -/
def legacyNames : List String :=
  ["IntersectionFound", "IntersectionNotFound", "RollForward", "RollBackward"]

/-- The fields of a result that are looked at. -/
def resultFields : FieldNames := ("tip", []) :: legacyNames.map fun name => (name, [])

/-- A result, of either shape. -/
def IsResult (v : Item) : Prop :=
  v.IsRecord resultFields fun field w =>
    w.Nullable (if field = "tip" then IsTip "id" "height" else IsHolder)

/-- An error whose data can be passed on: no number in it is out of range. -/
def IsError (v : Item) : Prop :=
  v.IsRecord [("data", [])] fun _ w => ∃ j, Reader.unread .document w = .ok j

/-- The fields of a frame that are looked at. -/
def frameFields : FieldNames := [("result", []), ("error", [])]

/-- A frame. -/
def IsFrame (v : Item) : Prop :=
  v.IsRecord frameFields fun field w => w.Nullable (if field = "result" then IsResult else IsError)

/-! ## The tip that is seen -/

/-- A tip of the current shape. -/
def tipOf (v : Item) : Option Tip := (Portable.read .document v : Reading Tip).toOption

/-- The tip of the legacy shape below the name of a legacy result. -/
def heldTip (v : Item) : Option Legacy.Tip :=
  (v.valueAt [("tip", [])] "tip").bind fun w =>
    (Portable.read .document w : Reading Legacy.Tip).toOption

/-- The tip of a result: its own, or else the first that it holds below a name. -/
def resultTip (v : Item) : Option Tip :=
  ((v.valueAt resultFields "tip").bind tipOf).or
    ((legacyNames.findSome? fun name => (v.valueAt resultFields name).bind heldTip).map
      Legacy.Tip.current)

/-- The data of an error, as it is passed on. -/
def errorData (v : Item) : Option Json :=
  (v.valueAt [("data", [])] "data").bind fun w =>
    if w.isNull then none else (Reader.unread .document w).toOption

/-- The tip in the data of an error. -/
def errorTip (v : Item) : Option Tip := (errorData v).bind ResultError.tipOfData

/-- The tip of a frame: of its result, or else of its error. -/
def shownTip (v : Item) : Option Tip :=
  ((v.valueAt frameFields "result").bind resultTip).or
    ((v.valueAt frameFields "error").bind errorTip)

/-- The tip stands where peeking looks: in a result that is an object, below no name that only
decoding knows, or, if there is no result, in the data of an error, with a text for its hash. -/
inductive TipInSight (v : Item) : Prop
  | result {entries : List (Item × Item)}
      (hresult : v.valueAt frameFields "result" = some (.map entries))
      (hspelling : ∀ name ∈ [Legacy.foundName, Legacy.notFoundName], ∀ body,
        (Item.map entries).valueAt resultFields name = some body → body.last? "Tip" = none)
  | error (hresult : ∀ w, v.valueAt frameFields "result" = some w → w = .null)
      (hhash : ∀ e, v.valueAt frameFields "error" = some e → ∀ data,
        e.valueAt [("data", [])] "data" = some data → ∀ hash,
          ((data.last? "tip").getD data).last? "id" = some hash → hash.IsText)

/-! ## Tips -/

/-- The fields of a tip can be read exactly if they are what they should be. -/
theorem given_tip_iff {v : Item} {j : Json} (h : Settles v j) {hash height : String}
    (names : TipNames hash height) {values : String → Option Item}
    (hshape : Shape [("slot", []), (hash, []), (height, [])] v values) :
    (∃ n s m, Given Reader.word64 0 (values "slot") n ∧ Given Reader.text "" (values hash) s ∧
        Given Reader.word64 0 (values height) m) ↔
      ∀ name ∈ ([("slot", []), (hash, []), (height, [])] : FieldNames), ∀ w,
        values name.1 = some w → if name.1 = hash then w.IsText else w.IsWord := by
  -- The three fields are asked for apart, so each can be looked at alone.
  have hword : ∀ field, (∃ n, Given Reader.word64 0 (values field) n) ↔
      ∀ w, values field = some w → w.IsWord := fun field =>
    exists_given_of_read fun w _ => exists_word64_iff w
  have htext : (∃ s, Given Reader.text "" (values hash) s) ↔
      ∀ w, values hash = some w → w.IsText :=
    exists_given_of_read fun w hw => by
      obtain ⟨j, hj⟩ := h.value hshape hw
      exact exists_text_iff hj
  simp only [List.forall_mem_cons, List.not_mem_nil, false_implies, implies_true, and_true,
    if_neg names.slot_ne_hash, if_neg names.height_ne_hash, if_true, ← hword, ← htext]
  constructor
  · rintro ⟨n, s, m, hn, hs, hm⟩
    exact ⟨⟨n, hn⟩, ⟨s, hs⟩, m, hm⟩
  · rintro ⟨⟨n, hn⟩, ⟨s, hs⟩, m, hm⟩
    exact ⟨n, s, m, hn, hs, hm⟩

/-- A tip is read from every item that is one, and from no other. -/
theorem exists_tip_iff {α : Type} (make : UInt64 → String → UInt64 → α) {hash height : String}
    (names : TipNames hash height) {v : Item} {j : Json} (h : Settles v j) :
    (∃ t, readTip make hash height .document v = .ok t) ↔ IsTip hash height v := by
  constructor
  · rintro ⟨t, ht⟩
    obtain ⟨values, hshape⟩ := shape_of_read h.documented ht
    obtain ⟨n, s, m, hn, hs, hm, -⟩ := (readTip_eq_ok make hshape).1 ht
    exact ⟨values, hshape, (given_tip_iff h names hshape).1 ⟨n, s, m, hn, hs, hm⟩⟩
  · rintro ⟨values, hshape, hok⟩
    obtain ⟨n, s, m, hn, hs, hm⟩ := (given_tip_iff h names hshape).2 hok
    exact ⟨make n s m, (readTip_eq_ok make hshape).2 ⟨n, s, m, hn, hs, hm, rfl⟩⟩

/-! ## Results, errors and frames -/

theorem readHolder_eq_ok {v : Item} {j : Json} (h : Settles v j) (t : Option Legacy.Tip) :
    readHolder .document v = .ok t ↔ IsHolder v ∧ heldTip v = t := by
  refine Record.read_eq_ok_iff (fun values => (values "tip").bind fun w =>
    (Portable.read .document w : Reading Legacy.Tip).toOption) h.documented
    fun values hshape r hr => ?_
  have htip := Record.exists_given_iff id
    (fun w => (Portable.read .document w : Reading Legacy.Tip).toOption) rfl rfl
    fun w (hw : values "tip" = some w) _ => by
      obtain ⟨j, hj⟩ := h.value hshape hw
      exact Reader.exists_read_iff (exists_tip_iff Legacy.Tip.mk .legacy hj)
  simp only [List.forall_mem_cons, List.not_mem_nil, false_implies, implies_true, and_true,
    Placed.map_eq_ok, Record.getD, getWith_eq_ok hr]
  exact htip t

/-- The tips of a result, one by one. -/
theorem readResult_eq_ok {v : Item} {j : Json} (h : Settles v j) (t : Option Tip) :
    readResult .document v = .ok t ↔ IsResult v ∧ resultTip v = t := by
  refine Record.read_eq_ok_iff (fun values => ((values "tip").bind tipOf).or
    ((legacyNames.findSome? fun name => (values name).bind heldTip).map Legacy.Tip.current))
    h.documented fun values hshape r hr => ?_
  have htip := Record.exists_given_iff id tipOf rfl rfl
    fun w (hw : values "tip" = some w) _ => by
      obtain ⟨j, hj⟩ := h.value hshape hw
      exact Reader.exists_read_iff (exists_tip_iff Tip.mk .current hj)
  have hholder := fun name => Record.exists_given_iff Option.join heldTip rfl rfl
    fun w (hw : values name = some w) _ x => by
      obtain ⟨j, hj⟩ := h.value hshape hw
      show (∃ t, readHolder .document w = .ok t ∧ t = x) ↔ _
      simpa using readHolder_eq_ok hj x
  have hnames : ∀ name ∈ legacyNames, name ≠ "tip" := by decide
  simp only [legacyNames, List.forall_mem_cons, List.not_mem_nil, false_implies, implies_true,
    and_true] at hnames ⊢
  obtain ⟨hfound, hnotFound, hforward, hbackward⟩ := hnames
  simp only [if_neg hfound, if_neg hnotFound, if_neg hforward, if_neg hbackward, if_true,
    Placed.seq_eq_ok, Placed.map_eq_ok, Record.getD, getWith_eq_ok hr, hholder]
  -- The reader puts the four names together in pairs, which comes to the first of them.
  have hfirst : ∀ found notFound forward backward : Option Legacy.Tip,
      (values "IntersectionFound").bind heldTip = found →
      (values "IntersectionNotFound").bind heldTip = notFound →
      (values "RollForward").bind heldTip = forward →
      (values "RollBackward").bind heldTip = backward →
      (["IntersectionFound", "IntersectionNotFound", "RollForward", "RollBackward"].findSome?
        fun name => (values name).bind heldTip) =
          (found.or notFound).or (forward.or backward) := by
    rintro found notFound forward backward h₁ h₂ h₃ h₄
    simp only [List.findSome?_cons, List.findSome?_nil, h₁, h₂, h₃, h₄]
    cases found <;> cases notFound <;> cases forward <;> cases backward <;> rfl
  constructor
  · rintro ⟨_, _, ⟨_, _, ⟨_, _, ⟨_, _, ⟨tip, hread, rfl⟩, ⟨hok₁, h₁⟩, rfl⟩, ⟨hok₂, h₂⟩, rfl⟩,
      ⟨hok₃, h₃⟩, rfl⟩, ⟨hok₄, h₄⟩, rfl⟩
    obtain ⟨hok, htip⟩ := (htip tip).1 ⟨_, hread, rfl⟩
    rw [htip, hfirst _ _ _ _ h₁ h₂ h₃ h₄]
    exact ⟨⟨hok, hok₁, hok₂, hok₃, hok₄⟩, rfl⟩
  · rintro ⟨⟨hok, hok₁, hok₂, hok₃, hok₄⟩, rfl⟩
    obtain ⟨tip, hread, hid⟩ := (htip _).2 ⟨hok, rfl⟩
    refine ⟨_, _, ⟨_, _, ⟨_, _, ⟨_, _, ⟨tip, hread, rfl⟩, ⟨hok₁, rfl⟩, rfl⟩, ⟨hok₂, rfl⟩, rfl⟩,
      ⟨hok₃, rfl⟩, rfl⟩, ⟨hok₄, rfl⟩, ?_⟩
    rw [hfirst _ _ _ _ rfl rfl rfl rfl, ← hid]
    rfl

theorem readError_eq_ok {v : Item} {j : Json} (h : Settles v j) (e : Option Json) :
    readError .document v = .ok e ↔ IsError v ∧ errorData v = e := by
  refine Record.read_eq_ok_iff (fun values => (values "data").bind fun w =>
    if w.isNull then none else (Reader.unread .document w).toOption) h.documented
    fun values hshape r hr => ?_
  -- Data may be `null` without further ado, for that is passed on as well.
  have hnullable : ∀ w : Item, (w.Nullable fun w => ∃ j, Reader.unread .document w = .ok j) ↔
      ∃ j, Reader.unread .document w = .ok j :=
    fun w => ⟨fun hw => hw.elim (fun hnull => ⟨.null, hnull ▸ rfl⟩) id, .inr⟩
  have hdata := Record.exists_given_iff id
    (fun w => if w.isNull then none else (Reader.unread .document w).toOption) rfl rfl
    fun w (_ : values "data" = some w) hw x => by
      have hnot : w.isNull = false := by cases w <;> first | rfl | exact absurd rfl hw
      simp only [hnot, Bool.false_eq_true, if_false]
      exact Reader.exists_read_iff (Iff.refl (∃ j, Reader.unread .document w = .ok j)) x
  simp only [hnullable] at hdata
  simp only [List.forall_mem_cons, List.not_mem_nil, false_implies, implies_true, and_true,
    Placed.map_eq_ok, Record.getD, getWith_eq_ok hr]
  exact hdata e

/-- A frame is read exactly if it is one to peeking, and shows its tip. -/
theorem readFrame_eq_ok {v : Item} {j : Json} (h : Settles v j) (t : Option Tip) :
    readFrame .document v = .ok t ↔ IsFrame v ∧ shownTip v = t := by
  refine Record.read_eq_ok_iff (fun values => ((values "result").bind resultTip).or
    ((values "error").bind errorTip)) h.documented fun values hshape r hr => ?_
  -- Each of the two fields gives a tip by itself; the result's comes first.
  have hresult := Record.exists_given_iff Option.join resultTip rfl rfl
    fun w (hw : values "result" = some w) _ x => by
      obtain ⟨j, hj⟩ := h.value hshape hw
      show (∃ t, readResult .document w = .ok t ∧ t = x) ↔ _
      simpa using readResult_eq_ok hj x
  have herror := Record.exists_given_iff
    (fun e : Option (Option Json) => e.join.bind ResultError.tipOfData) errorTip rfl rfl
    fun w (hw : values "error" = some w) _ x => by
      obtain ⟨j, hj⟩ := h.value hshape hw
      show (∃ e, readError .document w = .ok e ∧ e.bind ResultError.tipOfData = x) ↔
        IsError w ∧ (errorData w).bind ResultError.tipOfData = x
      simp only [readError_eq_ok hj, and_assoc, exists_and_left, exists_eq_left']
  have hname : "error" ≠ "result" := by decide
  simp only [List.forall_mem_cons, List.not_mem_nil, false_implies, implies_true, and_true, if_true,
    if_neg hname, Placed.seq_eq_ok, Placed.map_eq_ok, getWith_eq_ok hr]
  constructor
  · rintro ⟨_, e, ⟨y, hy, rfl⟩, he, rfl⟩
    obtain ⟨hok, hgive⟩ := (hresult y.join).1 ⟨y, hy, rfl⟩
    obtain ⟨hok', hgive'⟩ := (herror _).1 ⟨e, he, rfl⟩
    rw [hgive, hgive']
    exact ⟨⟨hok, hok'⟩, rfl⟩
  · rintro ⟨⟨hok, hok'⟩, rfl⟩
    obtain ⟨y, hy, hgive⟩ := (hresult _).2 ⟨hok, rfl⟩
    obtain ⟨e, he, hgive'⟩ := (herror _).2 ⟨hok', rfl⟩
    exact ⟨_, e, ⟨y, hy, rfl⟩, he, by rw [← hgive, ← hgive']⟩

end Peek

end ChainFollower
