import PrototypeBundle.Tmap.Search

set_option autoImplicit false

namespace PrototypeBundle.Tmap

variable {α : Type} {less : α → α → Bool}

def equivalent (less : α → α → Bool) (x y : α) : Bool := !less x y && !less y x

-- The items of each class of equivalent ones, in their order.
def Stable (less : α → α → Bool) (items sorted : List α) : Prop :=
  ∀ x, sorted.filter (equivalent less x) = items.filter (equivalent less x)

theorem StrictWeakOrder.less_of_equivalent (order : StrictWeakOrder less) {x y : α}
    (same : equivalent less x y = true) {top : α} (below : less x top = true) : less y top = true := by
  simp only [equivalent, Bool.and_eq_true, Bool.not_eq_true'] at same
  by_contra above
  have under : less top y = false := by
    by_contra back
    have related := order.trans x top y below (by simpa using back)
    rw [same.1] at related
    simp at related
  have apart := order.incomparable x y top same.1 same.2 (by simpa using above) under
  rw [apart.1] at below
  simp at below

theorem equivalent_symm (x y : α) : equivalent less x y = equivalent less y x := by
  rw [equivalent, equivalent, Bool.and_comm]

theorem StrictWeakOrder.less_congr (order : StrictWeakOrder less) {x y : α} (same : equivalent less x y = true)
    (top : α) : less y top = less x top := by
  cases below : less x top with
  | true => exact order.less_of_equivalent same below
  | false =>
      by_contra above
      rw [equivalent_symm] at same
      have above : less y top = true := by simpa using above
      have back := order.less_of_equivalent same above
      rw [below] at back
      simp at back

theorem filter_of_subset {p q : α → Bool} {items : List α} (inside : ∀ y ∈ items, p y = true → q y = true) :
    (items.filter q).filter p = items.filter p := by
  rw [List.filter_filter]
  refine List.filter_congr ?_
  intro y member
  cases holds : p y with
  | false => rfl
  | true => simp [inside y member holds]

theorem filter_of_disjoint {p q : α → Bool} {items : List α} (outside : ∀ y ∈ items, p y = true → q y = false) :
    (items.filter q).filter p = [] := by
  rw [List.filter_filter, List.filter_eq_nil_iff]
  intro y member both
  simp only [Bool.and_eq_true] at both
  rw [outside y member both.1] at both
  simp at both

theorem seqSort_stable (order : StrictWeakOrder less) (items : List α) :
    Stable less items (seqSort less items) := by
  intro x
  induction items using seqSort.induct less with
  | case1 => rw [seqSort]
  | case2 item => rw [seqSort]
  | case3 top rest several lower upper =>
      rw [seqSort]
      case x_1 => exact several
      rw [List.filter_append, List.filter_cons, lower, upper, filter_eq, filter_eq, List.filter_cons]
      cases below : less x top with
      | true =>
          -- the class is below the pivot, which does not belong to it
          have other : equivalent less x top = false := by simp [equivalent, below]
          rw [filter_of_subset, filter_of_disjoint]
          · simp [other]
          · intro y _ same
            simp [notOp, order.less_congr same, below]
          · intro y _ same
            rw [order.less_congr same, below]
      | false =>
          rw [filter_of_disjoint, filter_of_subset, List.nil_append]
          · intro y _ same
            simp [notOp, order.less_congr same, below]
          · intro y _ same
            rw [order.less_congr same, below]

theorem sort_correct (order : StrictWeakOrder less) (items : List α) :
    (seqSort less items).Perm items ∧ Sorted less (seqSort less items) ∧
      Stable less items (seqSort less items) :=
  ⟨seqSort_perm less items, seqSort_sorted order items, seqSort_stable order items⟩

-- By their halves, `2` and `3` are equivalent, and so are `0` and `1`.
theorem sort_correct_halves :
    let less (v cv : Fin 4) := decide (v.val / 2 < cv.val / 2)
    (seqSort less [3, 1, 2, 0]).Perm [3, 1, 2, 0] ∧ Sorted less (seqSort less [3, 1, 2, 0]) ∧
      Stable less [3, 1, 2, 0] (seqSort less [3, 1, 2, 0]) :=
  sort_correct ⟨by decide, by decide, by decide⟩ [3, 1, 2, 0]

end PrototypeBundle.Tmap
