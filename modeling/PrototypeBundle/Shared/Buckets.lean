import Mathlib.Data.List.Basic
import Mathlib.Data.List.Perm.Basic

set_option autoImplicit false

namespace Buckets

variable {α : Type} (key : α → Nat)

def bucket (l : List α) (b : Nat) : List α := l.filter (key · = b)

/-- The elements by bucket, and in their old order within each bucket. -/
def arrange (m : Nat) (l : List α) : List α := (List.range m).flatMap (bucket key l)

def start (l : List α) (b : Nat) : Nat := l.countP (key · < b)

@[simp] theorem start_zero (l : List α) : start key l 0 = 0 := by simp [start]

theorem start_succ (l : List α) (b : Nat) : start key l (b + 1) = start key l b + (bucket key l b).length := by
  induction l with
  | nil => rfl
  | cons x rest ih =>
      simp only [start, bucket] at ih
      simp only [start, bucket, List.countP_cons, List.filter_cons, ih, decide_eq_true_eq]
      rcases Nat.lt_trichotomy (key x) b with below | equal | above
      · have other : key x ≠ b := by omega
        have still : key x < b + 1 := by omega
        rw [if_pos still, if_pos below, if_neg other]
        omega
      · have still : key x < b + 1 := by omega
        have last : ¬ key x < b := by omega
        rw [if_pos still, if_neg last, if_pos equal, List.length_cons]
        omega
      · have other : key x ≠ b := by omega
        have beyond : ¬ key x < b := by omega
        have beyond' : ¬ key x < b + 1 := by omega
        rw [if_neg beyond', if_neg beyond, if_neg other]
        rfl

theorem start_mono (l : List α) {a b : Nat} (order : a ≤ b) : start key l a ≤ start key l b := by
  induction order with
  | refl => exact Nat.le_refl _
  | step _ ih =>
      rw [start_succ]
      omega

theorem start_le (l : List α) (b : Nat) : start key l b ≤ l.length := List.countP_le_length

theorem start_perm {l l' : List α} (same : l.Perm l') (b : Nat) : start key l b = start key l' b := same.countP_eq _

theorem start_all {l : List α} {m : Nat} (bound : ∀ x ∈ l, key x < m) : start key l m = l.length := by
  rw [start, List.countP_eq_length]
  intro x member
  exact decide_eq_true (bound x member)

theorem places_apart {l : List α} {a b i j : Nat} (inA : i < (bucket key l a).length)
    (inB : j < (bucket key l b).length) (same : start key l a + i = start key l b + j) : a = b ∧ i = j := by
  rcases Nat.lt_trichotomy a b with below | equal | above
  · have order := start_mono key l (show a + 1 ≤ b by omega)
    rw [start_succ] at order
    omega
  · subst equal
    exact ⟨rfl, by omega⟩
  · have order := start_mono key l (show b + 1 ≤ a by omega)
    rw [start_succ] at order
    omega

theorem eq_arrange {l result : List α} (m : Nat) (length : result.length = start key l m)
    (places : ∀ b < m, ∀ k < (bucket key l b).length, result[start key l b + k]? = (bucket key l b)[k]?) :
    result = arrange key m l := by
  induction m generalizing result with
  | zero =>
      rw [start_zero] at length
      simp [arrange, List.eq_nil_of_length_eq_zero length]
  | succ m ih =>
      rw [start_succ] at length
      have first : result.take (start key l m) = arrange key m l := by
        apply ih
        · rw [List.length_take]
          omega
        · intro b below k inside
          have order := start_mono key l (show b + 1 ≤ m by omega)
          rw [start_succ] at order
          rw [List.getElem?_take_of_lt (by omega)]
          exact places b (by omega) k inside
      have last : result.drop (start key l m) = bucket key l m := by
        apply List.ext_getElem?
        intro k
        rw [List.getElem?_drop]
        by_cases inside : k < (bucket key l m).length
        · exact places m (by omega) k inside
        · rw [List.getElem?_eq_none (by omega), List.getElem?_eq_none (by omega)]
      rw [← List.take_append_drop (start key l m) result, first, last, arrange, arrange, List.range_succ,
        List.flatMap_append, List.flatMap_singleton]

theorem arrange_perm {l : List α} {m : Nat} (bound : ∀ x ∈ l, key x < m) : (arrange key m l).Perm l := by
  have below (m : Nat) : (arrange key m l).Perm (l.filter (key · < m)) := by
    induction m with
    | zero => simp [arrange]
    | succ m ih =>
        rw [arrange, List.range_succ, List.flatMap_append, List.flatMap_singleton]
        have lower : (l.filter (key · < m + 1)).filter (key · < m) = l.filter (key · < m) := by
          rw [List.filter_filter]
          refine List.filter_congr fun x _ => ?_
          by_cases small : key x < m
          · simp [small, Nat.lt_succ_of_lt small]
          · simp [small]
        have upper : (l.filter (key · < m + 1)).filter (fun x => !decide (key x < m)) = bucket key l m := by
          rw [List.filter_filter, bucket]
          refine List.filter_congr fun x _ => ?_
          by_cases equal : key x = m
          · simp [equal]
          · have split : ¬ (¬ key x < m ∧ key x < m + 1) := by omega
            simp only [equal, decide_false, ← decide_not, ← Bool.decide_and, split]
        have parts := List.filter_append_perm (fun x => decide (key x < m)) (l.filter (key · < m + 1))
        rw [lower, upper] at parts
        exact (ih.append_right _).trans parts
  have all : l.filter (key · < m) = l := List.filter_eq_self.mpr fun x member => decide_eq_true (bound x member)
  have result := below m
  rwa [all] at result

theorem arrange_pairwise {l : List α} {R : α → α → Prop} (m : Nat) (ordered : l.Pairwise R) :
    (arrange key m l).Pairwise fun x y => key x < key y ∨ key x = key y ∧ R x y := by
  rw [arrange, List.pairwise_flatMap]
  constructor
  · intro b _
    refine (ordered.filter _).imp_of_mem ?_
    intro x y inX inY related
    have keyX : key x = b := by simpa [bucket] using (List.mem_filter.mp inX).2
    have keyY : key y = b := by simpa [bucket] using (List.mem_filter.mp inY).2
    exact Or.inr ⟨keyX.trans keyY.symm, related⟩
  · refine List.pairwise_lt_range.imp ?_
    intro a b order x inX y inY
    have keyX : key x = a := by simpa [bucket] using (List.mem_filter.mp inX).2
    have keyY : key y = b := by simpa [bucket] using (List.mem_filter.mp inY).2
    exact Or.inl (by omega)

end Buckets
