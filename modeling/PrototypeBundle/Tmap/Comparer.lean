import PrototypeBundle.Tmap.Search
import Mathlib.Algebra.Group.Int.Defs

set_option autoImplicit false

namespace PrototypeBundle.Tmap

structure Handler where
  id : UInt32
  deriving DecidableEq, Repr

namespace Handler

def less (v cv : Handler) : Bool := decide (v.id < cv.id)

def comparer (v : Handler) (cv : UInt32) : Int32 := (cv - v.id).toInt32

/-- Every branch on the way to the key, by the order of the ids, whose id differs from it is so near
that the difference has the sign of the order. -/
def Straight (key : UInt32) : MapNode Handler → Prop
  | .empty => True
  | .leaf _ => True
  | .branch left type right =>
      if key < type.id then type.id.toNat - key.toNat ≤ 2 ^ 31 ∧ Straight key left
      else if type.id < key then key.toNat - type.id.toNat < 2 ^ 31 ∧ Straight key right
      else True

def Holds (key : UInt32) (items : List Handler) : Prop := ∃ v ∈ items, v.id = key

theorem less_iff {v cv : Handler} : less v cv = true ↔ v.id.toNat < cv.id.toNat := by
  rw [less, decide_eq_true_iff, UInt32.lt_iff_toNat_lt]

theorem less_false {v cv : Handler} : less v cv = false ↔ cv.id.toNat ≤ v.id.toNat := by
  rw [← Bool.not_eq_true, less_iff, Nat.not_lt]

theorem order : StrictWeakOrder less where
  irrefl x := less_false.mpr (Nat.le_refl _)
  trans x y z := by
    simp only [less_iff]
    omega
  incomparable x y z := by
    simp only [less_false]
    omega

theorem comparer_eq (v : Handler) (cv : UInt32) :
    (comparer v cv).toInt = if 2 * (cv - v.id).toNat < 2 ^ 32 then ((cv - v.id).toNat : Int)
      else ((cv - v.id).toNat : Int) - 2 ^ 32 :=
  BitVec.toInt_eq_toNat_cond (cv - v.id).toBitVec

theorem difference (id key : UInt32) :
    (key.toNat < id.toNat → (key - id).toNat = 2 ^ 32 - (id.toNat - key.toNat)) ∧
      (id.toNat ≤ key.toNat → (key - id).toNat = key.toNat - id.toNat) := by
  have small := key.toNat_lt
  have bound := id.toNat_lt
  rw [UInt32.toNat_sub]
  omega

theorem comparer_zero (v : Handler) (key : UInt32) : comparer v key = 0 ↔ v.id = key := by
  have parts := difference v.id key
  have small := (key - v.id).toNat_lt
  have bound := v.id.toNat_lt
  rw [← Int32.toInt_inj, Int32.toInt_zero, comparer_eq, ← UInt32.toNat_inj]
  split <;> omega

theorem comparer_negative {v : Handler} {key : UInt32} (below : key < v.id) :
    comparer v key < 0 ↔ v.id.toNat - key.toNat ≤ 2 ^ 31 := by
  rw [UInt32.lt_iff_toNat_lt] at below
  have parts := (difference v.id key).1 below
  have bound := v.id.toNat_lt
  rw [Int32.lt_iff_toInt_lt, Int32.toInt_zero, comparer_eq, parts]
  split <;> omega

theorem comparer_positive {v : Handler} {key : UInt32} (above : v.id < key) :
    0 < comparer v key ↔ key.toNat - v.id.toNat < 2 ^ 31 := by
  rw [UInt32.lt_iff_toNat_lt] at above
  have parts := (difference v.id key).2 (by omega)
  have bound := key.toNat_lt
  rw [Int32.lt_iff_toInt_lt, Int32.toInt_zero, comparer_eq, parts]
  split <;> omega

theorem search_sound (key : UInt32) (node : MapNode Handler)
    (found : (node.search comparer key).1 = true) : Holds key node.items := by
  induction node with
  | empty => simp [MapNode.search] at found
  | leaf type =>
      rw [MapNode.search] at found
      split at found
      next equal => exact ⟨type, by simp [MapNode.items], (comparer_zero type key).mp equal⟩
      next => simp at found
  | branch left type right ihLeft ihRight =>
      rw [MapNode.search] at found
      simp only [Holds, MapNode.items, List.mem_append, List.mem_cons]
      split at found
      next equal => exact ⟨type, Or.inr (Or.inl rfl), (comparer_zero type key).mp equal⟩
      split at found
      next =>
        obtain ⟨v, member, same⟩ := ihLeft found
        exact ⟨v, Or.inl member, same⟩
      split at found
      next =>
        obtain ⟨v, member, same⟩ := ihRight found
        exact ⟨v, Or.inr (Or.inr member), same⟩
      next => simp at found

section Branch

variable {key : UInt32} {left right : MapNode Handler} {type : Handler}

theorem holds_below (sorted : Sorted less (MapNode.branch left type right).items) (below : key < type.id) :
    ¬ Holds key right.items ∧ (Holds key (MapNode.branch left type right).items → Holds key left.items) := by
  simp only [MapNode.items, Sorted, List.pairwise_append, List.pairwise_cons, less_false] at sorted
  obtain ⟨-, ⟨after, -⟩, -⟩ := sorted
  rw [UInt32.lt_iff_toNat_lt] at below
  have least (v : Handler) (member : v = type ∨ v ∈ right.items) : v.id ≠ key := by
    rintro rfl
    rcases member with rfl | member
    · omega
    · have least := after v member
      omega
  constructor
  · rintro ⟨v, member, same⟩
    exact least v (Or.inr member) same
  · rintro ⟨v, member, same⟩
    rw [MapNode.items, List.mem_append, List.mem_cons] at member
    rcases member with member | member
    · exact ⟨v, member, same⟩
    · exact absurd same (least v member)

theorem holds_above (sorted : Sorted less (MapNode.branch left type right).items) (above : type.id < key) :
    ¬ Holds key left.items ∧ (Holds key (MapNode.branch left type right).items → Holds key right.items) := by
  simp only [MapNode.items, Sorted, List.pairwise_append, List.pairwise_cons, less_false] at sorted
  obtain ⟨-, -, across⟩ := sorted
  rw [UInt32.lt_iff_toNat_lt] at above
  have most (v : Handler) (member : v ∈ left.items ∨ v = type) : v.id ≠ key := by
    rintro rfl
    rcases member with member | rfl
    · have most := across v member type (by simp)
      omega
    · omega
  constructor
  · rintro ⟨v, member, same⟩
    exact most v (Or.inl member) same
  · rintro ⟨v, member, same⟩
    rw [MapNode.items, List.mem_append, List.mem_cons, ← or_assoc] at member
    rcases member with member | member
    · exact absurd same (most v member)
    · exact ⟨v, member, same⟩

end Branch

-- At a branch that is left the wrong way the key is lost: its side is not looked at again.
theorem search_straight (key : UInt32) (node : MapNode Handler) (sorted : Sorted less node.items)
    (present : Holds key node.items) : (node.search comparer key).1 = true ↔ Straight key node := by
  induction node with
  | empty => simp [Holds, MapNode.items] at present
  | leaf type =>
      simp only [Holds, MapNode.items, List.mem_singleton, exists_eq_left] at present
      simp [MapNode.search, Straight, (comparer_zero type key).mpr present]
  | branch left type right ihLeft ihRight =>
      have parts := sorted
      simp only [MapNode.items, Sorted, List.pairwise_append, List.pairwise_cons] at parts
      obtain ⟨sortedLeft, ⟨-, sortedRight⟩, -⟩ := parts
      rw [MapNode.search, Straight]
      have sign := sign_cases (comparer type key)
      by_cases equal : comparer type key = 0
      · have same := (comparer_zero type key).mp equal
        simp [equal, same]
      · simp only [equal, ne_eq, not_false_eq_true, true_and, false_or] at sign
        rw [if_neg equal]
        rw [comparer_zero] at equal
        rcases UInt32.lt_or_lt_of_ne equal with above | below
        · have near := comparer_positive above
          obtain ⟨away, here⟩ := holds_above sorted above
          have lost : ¬ (left.search comparer key).1 = true := fun found => away (search_sound key left found)
          rw [if_neg (UInt32.lt_asymm above), if_pos above, ← near, ← ihRight sortedRight (here present)]
          rcases sign with ⟨negative, notPositive⟩ | ⟨positive, notNegative⟩
          · simp [notPositive, lost, negative]
          · simp only [positive, notNegative, if_true, if_false, true_and]
        · have near := comparer_negative below
          obtain ⟨away, here⟩ := holds_below sorted below
          have lost : ¬ (right.search comparer key).1 = true := fun found => away (search_sound key right found)
          rw [if_pos below, ← near, ← ihLeft sortedLeft (here present)]
          rcases sign with ⟨negative, _⟩ | ⟨positive, notNegative⟩
          · simp [negative]
          · simp [notNegative, lost, positive]

theorem map_search_comparer (items : List Handler) (key : UInt32) :
    (((map less items).search comparer key).1 = true ↔ ∃ v ∈ items, v.id = key) ↔
      ((∃ v ∈ items, v.id = key) → Straight key (map less items)) := by
  have tree : (map less items).items = seqSort less items := mapNode_items _
  have same : (∃ v ∈ (map less items).items, v.id = key) ↔ ∃ v ∈ items, v.id = key := by
    rw [tree]
    exact exists_congr fun v => and_congr_left fun _ => (seqSort_perm less items).mem_iff
  have sorted := seqSort_sorted order items
  rw [← tree] at sorted
  by_cases present : ∃ v ∈ items, v.id = key
  · rw [search_straight key _ sorted (same.mpr present)]
    simp [present]
  · have none : ¬ ((map less items).search comparer key).1 = true :=
      fun found => present (same.mp (search_sound key _ found))
    simp [none, present]

/-- The ids `0` and `0x80000001`: the difference of the key `0` and the second is positive. -/
theorem map_search_comparer_distant :
    ¬ (((map less [⟨0⟩, ⟨0x80000001⟩]).search comparer 0).1 = true ↔
      ∃ v ∈ ([⟨0⟩, ⟨0x80000001⟩] : List Handler), v.id = 0) := by
  have sorted : seqSort less [⟨0⟩, ⟨0x80000001⟩] = [⟨0⟩, ⟨0x80000001⟩] := by
    simp [seqSort, filter, notOp, less]
  have tree : map less [⟨0⟩, ⟨0x80000001⟩] = .branch (.leaf ⟨0⟩) ⟨0x80000001⟩ .empty := by
    rw [map, sorted]
    simp [mapNode, seqSplit, seqSplitLeft, seqSplitRight, pop, popRest]
  rw [tree]
  decide

end Handler

end PrototypeBundle.Tmap
