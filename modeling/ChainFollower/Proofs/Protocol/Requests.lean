import ChainFollower.Proofs.Chain.Points
import ChainFollower.Proofs.Json.Intact
import ChainFollower.Proofs.Ledger.Transactions
import ChainFollower.Protocol.Request

/-!
# Requests are read back

The text of a request says what the request says, in either shape: it is decoded to the same
request, and from that the points are read that were asked for.  A request keeps them unread, as
part of a document of its own, so that they are read from it in a second step.

Main definitions: `Request.points?` and `Legacy.Request.points?`, that second step, and
`Point.withoutHeight` for what is left of a point in the legacy shape.

Main statement: `WireShape.decode_findText`.
-/

namespace ChainFollower

open Record (Restores)

/-! ## Points as they are sent -/

/-- The point that older nodes are told of. -/
def Point.withoutHeight : Point → Point
  | .symbol s => .symbol s
  | .block b => .block { b with height := none }

/-- A point that was written for older nodes has lost its height, and nothing else. -/
theorem Legacy.Point.current_ofCurrent (p : ChainFollower.Point) :
    (ofCurrent p).current = p.withoutHeight := by
  cases p <;> rfl

/-- A point of the legacy shape is read back. -/
theorem readBack_legacyPoint (p : Legacy.Point) : ReadBack 1 p := by
  refine ⟨?_, p.read_sorted⟩
  cases p with
  | symbol s => exact Json.fits_text 1 s
  | block slot hash =>
    exact (Restores.start Legacy.Point.block
      |>.must "slot" (readBack_word64 0 slot)
      |>.must "hash" (readBack_text 0 hash)).fits_record

/-- It holds no float. -/
theorem Legacy.Point.floatFree (p : Legacy.Point) : (toJson p).FloatFree := by
  cases p with
  | symbol s => exact Json.floatFree_text s
  | block slot hash =>
    show (Json.object [("slot", .int slot.toNat), ("hash", .text hash)]).FloatFree
    rw [Json.floatFree_object]
    simp [Json.floatFree_int, Json.floatFree_text]

/-! ## Parameters -/

/-- A document that a request can carry unread. -/
structure Json.Carried (j : Json) : Prop where
  canonical : j.Canonical 3
  floatFree : j.FloatFree

/-- A document of few levels can be carried as a member. -/
theorem Json.carried_member {j : Json} (h : j.Canonical 2) (floatFree : j.FloatFree)
    (name : String) : (Json.object [(name, j)]).Carried := by
  refine ⟨canonical_object.2 ⟨List.pairwise_singleton _ _, ?_⟩, floatFree_object.2 ?_⟩
  · simpa using h
  · simpa using floatFree

/-- An object of one list, as parameters are. -/
theorem Json.carried_list {α : Type} [Portable α] {as : List α} (h : ∀ a ∈ as, ReadBack 1 a)
    (floatFree : ∀ a ∈ as, (toJson a).FloatFree) (name : String) :
    (Json.object [(name, (toJson as).sorted)]).Carried := by
  have hitems : (toJson as).FloatFree := by
    apply floatFree_array.2
    intro j hj
    obtain ⟨a, ha, rfl⟩ := List.mem_map.1 hj
    exact floatFree a ha
  exact carried_member (readBack_list h).fits.canonical_sorted hitems.sorted name

/-- And so can a text. -/
theorem Json.carried_text (name s : String) : (Json.object [(name, .text s)]).Carried :=
  carried_member (canonical_scalar (j := .text s) trivial rfl rfl) (floatFree_text s) name

/-- What is carried is read back unread. -/
theorem Json.Carried.readBack {j : Json} (h : j.Carried) : ReadBack 3 j := readBack_json h.canonical

/-- Nothing is left to be sorted in what a request carries. -/
theorem Json.Carried.sorted_eq {j : Json} (h : j.Carried) : j.sorted = j :=
  h.canonical.ordered.sorted_eq

/-! ## Requests -/

/-- An id is read back, a number as a number and a text as a text. -/
theorem readBack_requestId (levels : Nat) (id : RequestId) : ReadBack levels id := by
  cases id with
  | number n =>
    refine ⟨(readBack_word64 levels n).fits, ?_⟩
    have hholds : (Json.int n.toNat).item.holdable = true := holdable_word n
    -- Words are tried first, and texts are no words.
    apply Reader.firstOf_first hholds
    show (Reader.word64 .document (.int n.toNat)).map RequestId.number = _
    rw [Reader.word64_toNat]
    rfl
  | text s => exact ⟨Json.fits_text levels s, rfl⟩
  | null => exact ⟨Json.fits_null levels, rfl⟩

/-- An id has nothing to be sorted in it, -/
theorem RequestId.sorted_toJson (id : RequestId) : (toJson id).sorted = toJson id := by
  cases id <;> rfl

/-- and holds no float. -/
theorem RequestId.floatFree (id : RequestId) : (toJson id).FloatFree := by
  cases id with
  | number n => exact Json.floatFree_int _
  | text s => exact Json.floatFree_text s
  | null => exact Json.floatFree_null

/-- A request is decoded from its text. -/
theorem Request.decode_encode {r : Request}
    (h : ∀ j, r.params = some j → j.Carried ∧ j.isNull = false) :
    Json.decode (Json.encode r) = .ok r := by
  obtain ⟨jsonrpc, method, params, id⟩ := r
  -- The fields in the order of the record; parameters are left out if there are none.
  have hrestores := Restores.start Request.mk
    |>.must "jsonrpc" (readBack_text 3 jsonrpc)
    |>.must "method" (readBack_text 3 method)
    |>.ifSome "params" (fun j hj => ⟨(h j hj).1.readBack, (h j hj).2⟩)
    |>.must "id" (readBack_requestId 3 id)
  apply Json.decode_encode (hrestores.fits_record.mono (by decide))
  -- Field by field: what is written has no number that a reader would change.
  · apply Json.legible_record
    simp only [List.forall_mem_cons, List.not_mem_nil, false_implies, implies_true, and_true]
    refine ⟨?_, ?_, ?_, ?_⟩
    · exact Member.legible_always _ (Json.legible_text jsonrpc)
    · exact Member.legible_always _ (Json.legible_text method)
    · exact Member.legible_ifSome _ fun j hj => (h j hj).1.floatFree.legible
    · exact Member.legible_always _ id.floatFree.legible
  -- Nothing in the fields is moved by sorting.
  · apply hrestores.read_written (by decide) rfl
    simp only [List.forall_mem_cons, List.not_mem_nil, false_implies, implies_true, and_true,
      Member.part_always, Member.part_ifSome, Option.some.injEq, forall_eq']
    refine ⟨id.sorted_toJson, ?_, rfl, rfl⟩
    intro j hj
    obtain ⟨k, hk, rfl⟩ := Option.map_eq_some_iff.1 hj
    exact (h k hk).1.sorted_eq

/-- See `Request.decode_encode`. -/
theorem Legacy.Request.decode_encode {r : Legacy.Request} (hargs : r.args.Carried)
    (h : ∀ j, r.mirror = some j → j.Carried ∧ j.isNull = false) :
    Json.decode (Json.encode r) = .ok r := by
  obtain ⟨kind, version, serviceName, methodName, args, mirror⟩ := r
  -- The mirror is the one field that may be left out.
  have hrestores := Restores.start Legacy.Request.mk
    |>.must "type" (readBack_text 3 kind)
    |>.must "version" (readBack_text 3 version)
    |>.must "servicename" (readBack_text 3 serviceName)
    |>.must "methodname" (readBack_text 3 methodName)
    |>.must "args" hargs.readBack
    |>.ifSome "mirror" fun j hj => ⟨(h j hj).1.readBack, (h j hj).2⟩
  apply Json.decode_encode (hrestores.fits_record.mono (by decide))
  · apply Json.legible_record
    simp only [List.forall_mem_cons, List.not_mem_nil, false_implies, implies_true, and_true]
    refine ⟨?_, ?_, ?_, ?_, ?_, ?_⟩
    · exact Member.legible_always _ (Json.legible_text kind)
    · exact Member.legible_always _ (Json.legible_text version)
    · exact Member.legible_always _ (Json.legible_text serviceName)
    · exact Member.legible_always _ (Json.legible_text methodName)
    · exact Member.legible_always _ hargs.floatFree.legible
    · exact Member.legible_ifSome _ fun j hj => (h j hj).1.floatFree.legible
  · apply hrestores.read_written (by decide) rfl
    simp only [List.forall_mem_cons, List.not_mem_nil, false_implies, implies_true, and_true,
      Member.part_always, Member.part_ifSome, Option.some.injEq, forall_eq']
    refine ⟨?_, hargs.sorted_eq, rfl, rfl, rfl, rfl⟩
    intro j hj
    obtain ⟨k, hk, rfl⟩ := Option.map_eq_some_iff.1 hj
    exact (h k hk).1.sorted_eq

/-! ## What is asked for -/

/-- The points that a request asks for, read from its parameters. -/
def Request.points? (r : Request) : Option (List Point) := do
  let params ← r.params
  let array ← params.member? "points"
  (Json.decodeValue array).toOption

/-- The points that a request asks for, read from its parameters; what they are in the current
model. -/
def Legacy.Request.points? (r : Legacy.Request) : Option (List ChainFollower.Point) := do
  let array ← r.args.member? "points"
  let points : List Point ← (Json.decodeValue array).toOption
  return points.map Point.current

/-- The points that were given are read from the request that asks for them, -/
theorem Request.points?_findIntersection (points : List Point) :
    (findIntersection points).points? = some (pointsOrOrigin points) := by
  have hread := (readBack_list fun p (_ : p ∈ pointsOrOrigin points) => readBack_point p).read
  show (Json.decodeValue (toJson (pointsOrOrigin points)).sorted).toOption = _
  rw [Json.decodeValue_of_read hread]
  rfl

/-- and without heights from that of the legacy shape. -/
theorem Legacy.Request.points?_findIntersect (serviceName : String)
    (points : List ChainFollower.Point) : (findIntersect serviceName points).points? =
      some ((pointsOrOrigin points).map ChainFollower.Point.withoutHeight) := by
  have hread := (readBack_list fun p (_ : p ∈ (pointsOrOrigin points).map Point.ofCurrent) =>
    readBack_legacyPoint p).read
  show ((Json.decodeValue (toJson ((pointsOrOrigin points).map Point.ofCurrent)).sorted).toOption
    >>= fun sent : List Point => some (sent.map Point.current)) = _
  rw [Json.decodeValue_of_read hread]
  show some (((pointsOrOrigin points).map Point.ofCurrent).map Point.current) = _
  -- Written for older nodes and read back, each point is what it was without its height.
  rw [List.map_map]
  exact congrArg some (List.map_congr_left fun p _ => Point.current_ofCurrent p)

/-- The bytes of a request's text are those of its document. -/
theorem ofText_compact {α : Type} [Portable α] (a : α) :
    Octets.ofText (toJson a).compact = Json.encode a := by
  rw [Json.compact, Octets.ofText, String.toList_ofList]
  rfl

/-- In either shape the text that asks for an intersection is decoded to the request that it was
written from, which names the method and the service, and asks for the points that were given, in
order, or for the start of the chain if none were.  Heights are sent in the current shape alone. -/
theorem WireShape.decode_findText (serviceName : String) (points : List Point) :
    (∃ asked : Request,
      Json.decode (.ofText (WireShape.current.findText serviceName points)) = .ok asked ∧
        asked = .findIntersection points ∧ asked.method = "findIntersection" ∧
        asked.points? = some (if points = [] then [.origin] else points)) ∧
    ∃ asked : Legacy.Request,
      Json.decode (.ofText (WireShape.legacy.findText serviceName points)) = .ok asked ∧
        asked = .findIntersect serviceName points ∧ asked.methodName = "FindIntersect" ∧
        asked.serviceName = serviceName ∧
        asked.points? = some (if points = [] then [.origin] else points.map .withoutHeight) := by
  -- No points at all stand for the start of the chain in both shapes.
  have hpoints : pointsOrOrigin points = if points = [] then [.origin] else points := by
    cases points <;> rfl
  constructor
  · refine ⟨.findIntersection points, ?_, rfl, rfl, ?_⟩
    · refine (congrArg Json.decode (ofText_compact _)).trans (Request.decode_encode ?_)
      rintro _ ⟨⟩
      exact ⟨Json.carried_list (fun p _ => readBack_point p) (fun p _ => p.floatFree) _, rfl⟩
    · rw [Request.points?_findIntersection, hpoints]
  · refine ⟨.findIntersect serviceName points, ?_, rfl, rfl, rfl, ?_⟩
    · refine (congrArg Json.decode (ofText_compact _)).trans (Legacy.Request.decode_encode ?_ ?_)
      · exact Json.carried_list (fun p _ => readBack_legacyPoint p) (fun p _ => p.floatFree) _
      · rintro _ ⟨⟩
        exact ⟨Json.carried_text "step" "INIT", rfl⟩
    · rw [Legacy.Request.points?_findIntersect, hpoints]
      split <;> rfl

end ChainFollower
