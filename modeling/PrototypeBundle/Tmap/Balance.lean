import PrototypeBundle.Tmap.Search
import Mathlib.Data.Nat.Log

set_option autoImplicit false

namespace PrototypeBundle.Tmap

variable {α : Type}

def MapNode.height : MapNode α → Nat
  | .empty => 0
  | .leaf _ => 1
  | .branch left _ right => max left.height right.height + 1

/-- At every branch the left side has as many items as the right one, or one more. -/
def MapNode.Balanced : MapNode α → Prop
  | .empty => True
  | .leaf _ => True
  | .branch left _ right =>
      (left.items.length = right.items.length ∨ left.items.length = right.items.length + 1) ∧
        left.Balanced ∧ right.Balanced

theorem popRest_length (items : List α) : (popRest items).length = items.length - 1 := by
  cases items <;> simp [popRest]

theorem mapNode_balanced (items : List α) : (mapNode items).Balanced := by
  induction items using mapNode.induct with
  | case1 => rw [mapNode, MapNode.Balanced]; trivial
  | case2 item => rw [mapNode, MapNode.Balanced]; trivial
  | case3 first second rest split type found left right =>
      have several : 2 ≤ (first :: second :: rest).length := by simp
      have parts : split = _ := seqSplit_eq several
      rw [mapNode]
      simp only [split] at found left right parts ⊢
      rw [found]
      refine ⟨?_, left, right⟩
      rw [mapNode_items, mapNode_items, popRest_length, parts, List.length_take, List.length_drop]
      omega
  | case4 first second rest split other =>
      rw [mapNode]
      split
      next type found => exact absurd found (other type)
      next => trivial

theorem log_half {n half : Nat} (positive : 0 < half) (part : n = 2 * half ∨ n = 2 * half + 1) :
    Nat.log 2 n = Nat.log 2 half + 1 := by
  rw [Nat.log_of_one_lt_of_le (by omega) (by omega), show n / 2 = half by omega]

theorem MapNode.empty_height {node : MapNode α} (balanced : node.Balanced) (none : node.items = []) :
    node.height = 0 := by
  cases node with
  | empty => rfl
  | leaf type => simp [MapNode.items] at none
  | branch left type right => simp [MapNode.items] at none

theorem MapNode.Balanced.height_eq {node : MapNode α} (balanced : node.Balanced) (some : node.items ≠ []) :
    node.height = Nat.log 2 node.items.length + 1 := by
  induction node with
  | empty => exact absurd rfl some
  | leaf type => simp [MapNode.height, MapNode.items]
  | branch left type right ihLeft ihRight =>
      obtain ⟨sides, lower, upper⟩ := balanced
      have total : (MapNode.branch left type right).items.length =
          left.items.length + right.items.length + 1 := by
        simp only [MapNode.items, List.length_append, List.length_cons]
        omega
      rw [MapNode.height, total]
      by_cases alone : left.items = []
      · have other : right.items = [] := by
          rw [alone, List.length_nil] at sides
          exact List.length_eq_zero_iff.mp (by omega)
        rw [MapNode.empty_height lower alone, MapNode.empty_height upper other, alone, other]
        simp
      · have positive := List.length_pos_iff.mpr alone
        -- the right side is no higher than the left one
        have lesser : right.height ≤ left.height := by
          rw [ihLeft lower alone]
          by_cases other : right.items = []
          · rw [MapNode.empty_height upper other]
            omega
          · rw [ihRight upper other]
            have order := Nat.log_mono_right (b := 2) (show right.items.length ≤ left.items.length by omega)
            omega
        have whole : Nat.log 2 (left.items.length + right.items.length + 1) = Nat.log 2 left.items.length + 1 :=
          log_half positive (by omega)
        rw [Nat.max_eq_left lesser, ihLeft lower alone, whole]

theorem mapNode_correct (items : List α) :
    (mapNode items).items = items ∧ (mapNode items).Balanced ∧
      (items ≠ [] → (mapNode items).height = Nat.log 2 items.length + 1) := by
  have traversal := mapNode_items items
  refine ⟨traversal, mapNode_balanced items, ?_⟩
  intro some
  rw [← traversal] at some
  rw [(mapNode_balanced items).height_eq some, traversal]

end PrototypeBundle.Tmap
