import Mathlib.Data.List.Basic

set_option autoImplicit false

/-!
# `tmap::seq`

A type sequence is the list of its items.
-/

namespace PrototypeBundle.Tmap

variable {α : Type}

def pop : List α → List α
  | [] => []
  | item :: _ => [item]

def popRest : List α → List α
  | [] => []
  | _ :: rest => rest

-- `filter` keeps the items that the predicate relates to `top`.
def filter (pred : α → α → Bool) (top : α) : List α → List α
  | [] => []
  | first :: rest => if pred first top then first :: filter pred top rest else filter pred top rest

-- `left` collects items until there are `n`.
def seqSplitLeft (n : Nat) (left : List α) : List α → List α
  | [] => left
  | top :: right => if left.length < n then seqSplitLeft n (left ++ [top]) right else left

def seqSplitRight (n : Nat) : List α → List α
  | [] => []
  | _ :: right => if n < right.length then seqSplitRight n right else right

def seqSplit (items : List α) : List α × List α :=
  let half := items.length / 2
  (seqSplitLeft half [] items, seqSplitRight (items.length - half) items)

def notOp (pred : α → α → Bool) (v cv : α) : Bool := !pred v cv

theorem filter_eq (pred : α → α → Bool) (top : α) (items : List α) :
    filter pred top items = items.filter (pred · top) := by
  induction items with
  | nil => rfl
  | cons first rest ih => rw [filter, List.filter_cons, ih]

theorem filter_length (pred : α → α → Bool) (top : α) (items : List α) :
    (filter pred top items).length ≤ items.length := by
  rw [filter_eq]
  exact List.length_filter_le ..

-- The sequences without and with one item are cases of their own.
def seqSort (less : α → α → Bool) : List α → List α
  | [] => []
  | [item] => [item]
  | top :: rest =>
      seqSort less (filter less top rest) ++ (top :: seqSort less (filter (notOp less) top rest))
termination_by items => items.length
decreasing_by
  · have part := filter_length less top rest
    simp only [List.length_cons]
    omega
  · have part := filter_length (notOp less) top rest
    simp only [List.length_cons]
    omega

theorem seqSplitLeft_eq (n : Nat) (left right : List α) :
    seqSplitLeft n left right = left ++ right.take (n - left.length) := by
  induction right generalizing left with
  | nil => simp [seqSplitLeft]
  | cons top right ih =>
      rw [seqSplitLeft]
      by_cases more : left.length < n
      · obtain ⟨k, missing⟩ : ∃ k, n - left.length = k + 1 := ⟨n - left.length - 1, by omega⟩
        have rest : n - (left ++ [top]).length = k := by
          rw [List.length_append, List.length_singleton]
          omega
        rw [if_pos more, ih, rest, missing, List.take_succ_cons, List.append_assoc]
        rfl
      · rw [if_neg more, show n - left.length = 0 by omega, List.take_zero, List.append_nil]

theorem seqSplitRight_eq (n : Nat) {items : List α} (fewer : n < items.length) :
    seqSplitRight n items = items.drop (items.length - n) := by
  induction items with
  | nil => simp at fewer
  | cons top right ih =>
      rw [List.length_cons] at fewer
      rw [seqSplitRight, List.length_cons]
      by_cases more : n < right.length
      · rw [if_pos more, ih more, show right.length + 1 - n = right.length - n + 1 by omega, List.drop_succ_cons]
      · rw [if_neg more, show right.length + 1 - n = 1 by omega]
        rfl

theorem seqSplit_eq {items : List α} (several : 2 ≤ items.length) :
    seqSplit items = (items.take (items.length / 2), items.drop (items.length / 2)) := by
  rw [seqSplit, seqSplitLeft_eq, seqSplitRight_eq _ (by omega)]
  rw [List.length_nil, List.nil_append, Nat.sub_zero,
    show items.length - (items.length - items.length / 2) = items.length / 2 by omega]

structure Halves (items : List α) (parts : List α × List α) : Prop where
  whole : parts.1 ++ parts.2 = items
  first : parts.1.length = items.length / 2
  second : parts.2.length = (items.length + 1) / 2

def split (items : List α) : List α × List α := seqSplit items

/-- The only item of a sequence is in neither part. -/
theorem split_halves (items : List α) : Halves items (split items) ↔ items.length ≠ 1 := by
  match items with
  | [] =>
      have none : split ([] : List α) = ([], []) := rfl
      rw [none]
      exact ⟨fun _ => by simp, fun _ => ⟨rfl, by simp, by simp⟩⟩
  | [item] =>
      have none : split [item] = ([], []) := by simp [split, seqSplit, seqSplitLeft, seqSplitRight]
      rw [none]
      constructor
      · intro halves
        exact absurd halves.whole (by simp)
      · intro several
        simp at several
  | first :: second :: rest =>
      rw [split, seqSplit_eq (by simp)]
      constructor
      · simp
      · intro _
        constructor
        case whole => exact List.take_append_drop ..
        case first =>
          rw [List.length_take]
          omega
        case second =>
          rw [List.length_drop]
          omega

theorem split_single : ¬ Halves [3] (split [3]) := by
  intro halves
  exact absurd halves.whole (by decide)

theorem seqSort_perm (less : α → α → Bool) (items : List α) : (seqSort less items).Perm items := by
  induction items using seqSort.induct less with
  | case1 => rw [seqSort]
  | case2 item => rw [seqSort]
  | case3 top rest several lower upper =>
      rw [seqSort]
      case x_1 => exact several
      rw [filter_eq] at lower upper
      rw [filter_eq, filter_eq]
      have parts := List.filter_append_perm (less · top) rest
      exact (lower.append (upper.cons top)).trans (List.perm_middle.trans (parts.cons top))

end PrototypeBundle.Tmap
