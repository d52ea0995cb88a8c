import ChainFollower.Chain.Point

/-!
# The order of points

Points are put in order by their kind first, all blocks before all symbols.  Blocks go by falling
slot, then by hash, and then by height, one that is left open before all others; symbols go in
falling order.  Each of these is an order on its own, and what is compared last tells apart what is
left, so that points are equal in the order only if they are equal.

A list of points has then one sorted form, whatever way the list was put together.

Main statements: the instances `Std.TransCmp Point.order` and `Std.LawfulEqCmp Point.order`, and
`Point.order_total_sort_canonical`.
-/

namespace ChainFollower

namespace BlockRef

/-! ## Blocks -/

/-- The order of blocks among points. -/
def order (a b : BlockRef) : Ordering := Point.order (.block a) (.block b)

/-- Slots are compared first, the greater one being the smaller in the order. -/
theorem order_eq_compareLex : order = compareLex (fun a b => compareOn BlockRef.slot b a)
    (compareLex (compareOn BlockRef.id) (compareOn BlockRef.height)) := rfl

instance : Std.TransCmp order := by
  rw [order_eq_compareLex]
  infer_instance

instance : Std.LawfulEqCmp order where
  eq_of_compare {a b} h := by
    rw [order_eq_compareLex, compareLex_eq_eq, compareLex_eq_eq] at h
    obtain ⟨hslot, hid, hheight⟩ := h
    have slot : b.slot = a.slot := Std.LawfulEqOrd.eq_of_compare hslot
    have id : a.id = b.id := Std.LawfulEqOrd.eq_of_compare hid
    have height : a.height = b.height := Std.LawfulEqOrd.eq_of_compare hheight
    cases a
    cases b
    simp_all

theorem order_of_slot_lt {a b : BlockRef} (h : b.slot < a.slot) : order a b = .lt := by
  have hslot : compare b.slot a.slot = .lt := Std.compare_eq_lt.2 h
  show (compare b.slot a.slot).then _ = .lt
  rw [hslot]
  rfl

end BlockRef

namespace Point

/-! ## Points -/

/-- Blocks stand before symbols, so that only points of one kind have to be compared. -/
instance : Std.OrientedCmp order where
  eq_swap {a b} := by
    cases a with
    | symbol s =>
      cases b with
      | symbol t => exact Std.OrientedOrd.eq_swap
      | block b => rfl
    | block a =>
      cases b with
      | symbol t => rfl
      | block b =>
        have swap : a.order b = (b.order a).swap := Std.OrientedCmp.eq_swap
        exact swap

instance : Std.TransCmp order where
  isLE_trans {a b c} hab hbc := by
    cases a with
    | symbol s =>
      cases b with
      -- A symbol stands before no block.
      | block b => cases hab
      | symbol t =>
        cases c with
        | block c => cases hbc
        | symbol u => exact Std.TransOrd.isLE_trans hbc hab
    | block a =>
      cases c with
      | symbol u => rfl
      | block c =>
        cases b with
        | symbol t => cases hbc
        | block b =>
          have trans : (a.order b).isLE → (b.order c).isLE → (a.order c).isLE :=
            Std.TransCmp.isLE_trans
          exact trans hab hbc

instance : Std.LawfulEqCmp order where
  eq_of_compare {a b} h := by
    cases a with
    | symbol s =>
      cases b with
      | symbol t => exact congrArg Point.symbol (Std.LawfulEqOrd.eq_of_compare h).symm
      | block b => cases h
    | block a =>
      cases b with
      | symbol t => cases h
      | block b =>
        have eq : a.order b = .eq → a = b := Std.LawfulEqCmp.eq_of_compare
        exact congrArg Point.block (eq h)

/-- Of two points one does not come after the other. -/
theorem isLE_total (a b : Point) : ((order a b).isLE || (order b a).isLE) = true := by
  have swap : order b a = (order a b).swap := Std.OrientedCmp.eq_swap
  rw [swap]
  cases order a b <;> rfl

/-- Points neither of which comes after the other are equal. -/
theorem eq_of_isLE {a b : Point} (hab : (order a b).isLE) (hba : (order b a).isLE) : a = b := by
  have swap : order b a = (order a b).swap := Std.OrientedCmp.eq_swap
  rw [swap] at hba
  exact Std.LawfulEqCmp.eq_of_compare (Ordering.eq_eq_of_isLE_of_isLE_swap hab hba)

/-! ## Sorted lists -/

/-- No point of the list comes before one that stands ahead of it. -/
def Sorted (points : List Point) : Prop := points.Pairwise fun a b => (order a b).isLE

theorem sorted_sort (points : List Point) : Sorted (sort points) :=
  List.pairwise_mergeSort (fun _ _ _ => Std.TransCmp.isLE_trans) isLE_total points

theorem sort_perm (points : List Point) : (sort points).Perm points :=
  List.mergeSort_perm points _

/-- A list of points has one sorted form. -/
theorem eq_sort {points sorted : List Point} (h : Sorted sorted) (perm : sorted.Perm points) :
    sorted = sort points :=
  List.Perm.eq_of_pairwise (fun _ _ _ _ => eq_of_isLE) h (sorted_sort points)
    (perm.trans (sort_perm points).symm)

/-- The order of points is total: turned around it is its opposite, it is transitive, and only equal
points are equal in it.  Blocks stand before symbols, and those of a greater slot before those of a
smaller one.  Sorting keeps all points and puts them in this order, in one way only. -/
theorem order_total_sort_canonical (a b c : Point) (points others : List Point) :
    order b a = (order a b).swap ∧
      ((order a b).isLE → (order b c).isLE → (order a c).isLE) ∧
      (order a b = .eq ↔ a = b) ∧
      (∀ ref name, order (.block ref) (.symbol name) = .lt) ∧
      (∀ late early : BlockRef, early.slot < late.slot → order (.block late) (.block early) = .lt) ∧
      (sort points).Perm points ∧ Sorted (sort points) ∧
      (others.Perm points → sort others = sort points) := by
  refine ⟨Std.OrientedCmp.eq_swap, Std.TransCmp.isLE_trans, Std.LawfulEqCmp.compare_eq_iff_eq,
    fun _ _ => rfl, fun _ _ => BlockRef.order_of_slot_lt, sort_perm points, sorted_sort points, ?_⟩
  -- Sorted lists of the same points are the same, whatever they were sorted from.
  intro perm
  exact eq_sort (sorted_sort others) ((sort_perm others).trans perm)

/-- Two blocks of one slot that differ in their heights alone, and a symbol: the open height comes
first, and the order of arrival does not matter. -/
theorem order_total_sort_canonical_heights :
    ((order (.block ⟨5, "a", none⟩) (.block ⟨5, "a", some 0⟩)).isLE ∧
      (order (.block ⟨5, "a", some 0⟩) origin).isLE ∧
      (order (.block ⟨5, "a", none⟩) origin).isLE) ∧
    [origin, .block ⟨5, "a", some 0⟩, .block ⟨5, "a", none⟩].Perm
      [.block ⟨5, "a", none⟩, .block ⟨5, "a", some 0⟩, origin] ∧
    sort [origin, .block ⟨5, "a", some 0⟩, .block ⟨5, "a", none⟩] =
      sort [.block ⟨5, "a", none⟩, .block ⟨5, "a", some 0⟩, origin] := by
  have perm : [origin, .block ⟨5, "a", some 0⟩, .block ⟨5, "a", none⟩].Perm
      [.block ⟨5, "a", none⟩, .block ⟨5, "a", some 0⟩, origin] := by decide
  have hopen : (order (.block ⟨5, "a", none⟩) (.block ⟨5, "a", some 0⟩)).isLE := by decide
  have hblock : (order (.block ⟨5, "a", some 0⟩) origin).isLE := by decide
  obtain ⟨-, trans, -, -, -, -, -, canonical⟩ := order_total_sort_canonical
    (.block ⟨5, "a", none⟩) (.block ⟨5, "a", some 0⟩) origin
    [.block ⟨5, "a", none⟩, .block ⟨5, "a", some 0⟩, origin]
    [origin, .block ⟨5, "a", some 0⟩, .block ⟨5, "a", none⟩]
  exact ⟨⟨hopen, hblock, trans hopen hblock⟩, perm, canonical perm⟩

end Point

end ChainFollower
