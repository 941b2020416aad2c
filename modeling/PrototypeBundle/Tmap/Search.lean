import PrototypeBundle.Tmap.Seq
import Mathlib.Algebra.Group.Nat.Defs

set_option autoImplicit false

namespace PrototypeBundle.Tmap

variable {α κ : Type}

-- The instances of `map_node`: the specialisations for no item and for one, and the general node.
inductive MapNode (α : Type) where
  | empty
  | leaf (type : α)
  | branch (left : MapNode α) (type : α) (right : MapNode α)
  deriving DecidableEq, Repr

def mapNode : List α → MapNode α
  | [] => .empty
  | [item] => .leaf item
  | first :: second :: rest =>
      let split := seqSplit (first :: second :: rest)
      match pop split.2 with
      | [type] => .branch (mapNode split.1) type (mapNode (popRest split.2))
      | _ => .empty
termination_by items => items.length
decreasing_by
  all_goals
    simp only [seqSplit_eq (show 2 ≤ (first :: second :: rest).length by simp), List.length_cons, List.length_take]
  · omega
  · have part : (popRest ((first :: second :: rest).drop ((rest.length + 1 + 1) / 2))).length ≤
        ((first :: second :: rest).drop ((rest.length + 1 + 1) / 2)).length - 1 := by
      cases (first :: second :: rest).drop ((rest.length + 1 + 1) / 2) <;> simp [popRest]
    simp only [List.length_drop, List.length_cons] at part
    omega

-- The result, and the keys that `find_callback` is invoked with. `compare` gives the `compare_v` of
-- a node, a `std::int32_t` whatever the type of the comparator's answer is.
def MapNode.search (compare : α → κ → Int32) (key : κ) : MapNode α → Bool × List κ
  | .empty => (false, [])
  | .leaf type => if compare type key = 0 then (true, [key]) else (false, [])
  | .branch left type right =>
      if compare type key = 0 then (true, [key])
      else if compare type key < 0 then left.search compare key
      else if 0 < compare type key then right.search compare key
      else (false, [])

def map (less : α → α → Bool) (items : List α) : MapNode α := mapNode (seqSort less items)

def MapNode.items : MapNode α → List α
  | .empty => []
  | .leaf type => [type]
  | .branch left type right => left.items ++ type :: right.items

theorem mapNode_items (items : List α) : (mapNode items).items = items := by
  induction items using mapNode.induct with
  | case1 => rw [mapNode, MapNode.items]
  | case2 item => rw [mapNode, MapNode.items]
  | case3 first second rest split type found left right =>
      have several : 2 ≤ (first :: second :: rest).length := by simp
      have parts : split = _ := seqSplit_eq several
      have upper : split.2 = type :: popRest split.2 := by
        cases shape : split.2 with
        | nil => simp [shape, pop] at found
        | cons head tail =>
            rw [shape, pop, List.singleton_inj] at found
            rw [found, popRest]
      rw [mapNode]
      simp only [split] at found left right upper parts ⊢
      rw [found]
      simp only [MapNode.items]
      rw [left, right, ← upper, parts]
      exact List.take_append_drop ..
  | case4 first second rest split other =>
      -- the second part is never empty
      have several : 2 ≤ (first :: second :: rest).length := by simp
      have parts : split = _ := seqSplit_eq several
      have length : split.2.length ≠ 0 := by
        rw [parts, List.length_drop]
        omega
      cases shape : split.2 with
      | nil => simp [shape] at length
      | cons head tail => exact absurd (by rw [shape, pop]) (other head)

structure StrictWeakOrder (less : α → α → Bool) : Prop where
  irrefl : ∀ x, less x x = false
  trans : ∀ x y z, less x y = true → less y z = true → less x z = true
  incomparable : ∀ x y z, less x y = false → less y x = false → less y z = false → less z y = false →
    less x z = false ∧ less z x = false

/-- The comparison with the key follows the order of the items. -/
structure Consistent (less : α → α → Bool) (compare : α → κ → Int32) (key : κ) : Prop where
  negative : ∀ x y, compare x key < 0 → less y x = false → compare y key < 0
  positive : ∀ x y, 0 < compare x key → less x y = false → 0 < compare y key

theorem sign_cases (v : Int32) : v < 0 ∧ v ≠ 0 ∧ ¬ 0 < v ∨ v = 0 ∨ 0 < v ∧ v ≠ 0 ∧ ¬ v < 0 := by
  simp only [Int32.lt_iff_toInt_lt, ne_eq, ← Int32.toInt_inj, Int32.toInt_zero]
  omega

section Search

variable {less : α → α → Bool} (order : StrictWeakOrder less)

def Sorted (less : α → α → Bool) (items : List α) : Prop := items.Pairwise fun x y => less y x = false

include order

theorem seqSort_sorted (items : List α) : Sorted less (seqSort less items) := by
  induction items using seqSort.induct less with
  | case1 =>
      rw [seqSort]
      exact List.Pairwise.nil
  | case2 item =>
      rw [seqSort]
      exact List.pairwise_singleton ..
  | case3 top rest several lower upper =>
      have below (x : α) (member : x ∈ seqSort less (filter less top rest)) : less x top = true := by
        have inside := (seqSort_perm less _).subset member
        rw [filter_eq] at inside
        exact (List.mem_filter.mp inside).2
      have above (y : α) (member : y ∈ seqSort less (filter (notOp less) top rest)) : less y top = false := by
        have inside := (seqSort_perm less _).subset member
        rw [filter_eq] at inside
        simpa [notOp] using (List.mem_filter.mp inside).2
      have asymm (x y : α) (related : less x y = true) : less y x = false := by
        by_contra back
        have loop := order.trans x y x related (by simpa using back)
        rw [order.irrefl] at loop
        simp at loop
      rw [seqSort]
      case x_1 => exact several
      rw [Sorted, List.pairwise_append, List.pairwise_cons]
      refine ⟨lower, ⟨above, upper⟩, ?_⟩
      intro x inLower y inUpper
      cases inUpper with
      | head => exact asymm x _ (below x inLower)
      | tail _ inUpper =>
          by_contra back
          have under := order.trans y x top (by simpa using back) (below x inLower)
          rw [above y inUpper] at under
          simp at under

omit order in
theorem search_sorted {compare : α → κ → Int32} {key : κ} (consistent : Consistent less compare key) (node : MapNode α)
    (sorted : Sorted less node.items) :
    ((node.search compare key).1 = true ↔ ∃ x ∈ node.items, compare x key = 0) ∧
      (node.search compare key).2 = if (node.search compare key).1 = true then [key] else [] := by
  induction node with
  | empty => simp [MapNode.search, MapNode.items]
  | leaf type => by_cases equal : compare type key = 0 <;> simp [MapNode.search, MapNode.items, equal]
  | branch left type right ihLeft ihRight =>
      simp only [MapNode.items, Sorted, List.pairwise_append, List.pairwise_cons] at sorted
      obtain ⟨sortedLeft, ⟨after, sortedRight⟩, across⟩ := sorted
      rcases sign_cases (compare type key) with ⟨negative, other, _⟩ | equal | ⟨positive, other, notBelow⟩
      · have shape : (MapNode.branch left type right).search compare key = left.search compare key := by
          rw [MapNode.search, if_neg other, if_pos negative]
        have miss (x : α) (member : x ∈ right.items) : compare x key ≠ 0 := by
          intro equal
          have same := consistent.negative type x negative (after x member)
          simp [equal] at same
        rw [shape]
        refine ⟨(ihLeft sortedLeft).1.trans ?_, (ihLeft sortedLeft).2⟩
        simp only [MapNode.items, List.mem_append, List.mem_cons]
        constructor
        · rintro ⟨x, member, found⟩
          exact ⟨x, Or.inl member, found⟩
        · rintro ⟨x, member | rfl | member, found⟩
          · exact ⟨x, member, found⟩
          · exact absurd found other
          · exact absurd found (miss x member)
      · have found : ∃ x ∈ (MapNode.branch left type right).items, compare x key = 0 :=
          ⟨type, by simp [MapNode.items], equal⟩
        simp [MapNode.search, equal, found]
      · have shape : (MapNode.branch left type right).search compare key = right.search compare key := by
          rw [MapNode.search, if_neg other, if_neg notBelow, if_pos positive]
        have miss (x : α) (member : x ∈ left.items) : compare x key ≠ 0 := by
          intro equal
          have same := consistent.positive type x positive (across x member type (by simp))
          simp [equal] at same
        rw [shape]
        refine ⟨(ihRight sortedRight).1.trans ?_, (ihRight sortedRight).2⟩
        simp only [MapNode.items, List.mem_append, List.mem_cons]
        constructor
        · rintro ⟨x, member, found⟩
          exact ⟨x, Or.inr (Or.inr member), found⟩
        · rintro ⟨x, member | rfl | member, found⟩
          · exact absurd found (miss x member)
          · exact absurd found other
          · exact ⟨x, member, found⟩

/-- The search answers whether an item compares equal with the key, and invokes the callback
once, with the key, exactly when it does. -/
theorem map_search_correct {compare : α → κ → Int32} {key : κ} (consistent : Consistent less compare key)
    (items : List α) :
    (((map less items).search compare key).1 = true ↔ ∃ x ∈ items, compare x key = 0) ∧
      ((map less items).search compare key).2 =
        if ((map less items).search compare key).1 = true then [key] else [] := by
  have tree : (map less items).items = seqSort less items := mapNode_items _
  have sorted := seqSort_sorted order items
  rw [← tree] at sorted
  obtain ⟨found, calls⟩ := search_sorted consistent (map less items) sorted
  refine ⟨found.trans ?_, calls⟩
  rw [tree]
  exact exists_congr fun x => and_congr_left fun _ => (seqSort_perm less items).mem_iff

end Search

namespace Main

-- The handlers of the example, by their ids.
abbrev Handler := Fin 11

def less (v cv : Handler) : Bool := decide (v < cv)

-- A difference on `std::uint32_t`, as `std::int32_t`.
def comparer (v : Handler) (cv : Int) : Int32 := Int32.ofInt (cv - v)

def seqType : List Handler := [3, 5, 8, 2, 4, 6, 1, 9, 7, 10, 0]

theorem map_search_correct_main :
    (((map less seqType).search comparer 3).1 = true ↔ ∃ x ∈ seqType, comparer x 3 = 0) ∧
      ((map less seqType).search comparer 3).2 =
        if ((map less seqType).search comparer 3).1 = true then [3] else [] :=
  map_search_correct ⟨by decide, by decide, by decide⟩ ⟨by decide, by decide⟩ seqType

end Main

end PrototypeBundle.Tmap
