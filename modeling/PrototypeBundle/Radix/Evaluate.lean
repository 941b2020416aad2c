import PrototypeBundle.Radix.Correct
import Mathlib.Data.List.Chain

set_option autoImplicit false

namespace PrototypeBundle.Radix

-- The loop of `evaluate`. `v` has half the width of the items, which it is compared with as one of theirs.
def evaluateFrom (v : BitVec 32) : List RenderCommand → Except String Unit
  | [] => .ok ()
  | i :: data => if i < v.setWidth 64 then .error "invalid algorithm result" else evaluateFrom (i.setWidth 32) data

def evaluate (data : List RenderCommand) : Except String Unit := evaluateFrom 0 data

def Throws (data : List RenderCommand) : Prop := ∃ what, evaluate data = .error what

-- `rand` has the answers of `std::rand` after `std::srand (size)`, which are not negative.
def generateData (rand : Nat → BitVec 31) (size : Nat) : List RenderCommand :=
  (List.range size).map fun i => (rand i).setWidth 64

/-- `y` is not below what `v` keeps of `x`. -/
def Accepts (x y : RenderCommand) : Prop := x.toNat % 2 ^ 32 ≤ y.toNat

theorem evaluateFrom_ok (v : BitVec 32) (data : List RenderCommand) :
    evaluateFrom v data = .ok () ↔ (v.setWidth 64 :: data).IsChain Accepts := by
  induction data generalizing v with
  | nil => simp [evaluateFrom]
  | cons i data ih =>
      have wide : (v.setWidth 64).toNat = v.toNat := by
        have bound := v.isLt
        rw [BitVec.toNat_setWidth]
        omega
      have low : v.toNat % 2 ^ 32 = v.toNat := Nat.mod_eq_of_lt v.isLt
      have same (y : RenderCommand) : Accepts ((i.setWidth 32).setWidth 64) y ↔ Accepts i y := by
        rw [Accepts, Accepts, BitVec.toNat_setWidth, BitVec.toNat_setWidth]
        omega
      have rest : (((i.setWidth 32).setWidth 64) :: data).IsChain Accepts ↔ (i :: data).IsChain Accepts := by
        rw [List.isChain_cons, List.isChain_cons]
        simp only [same]
      rw [evaluateFrom, List.isChain_cons_cons, Accepts, wide, low]
      simp only [BitVec.lt_def, wide]
      by_cases less : i.toNat < v.toNat
      · simp [less]
      · rw [if_neg less, ih, rest]
        simp [Nat.not_lt.mp less]

theorem throws_iff (data : List RenderCommand) : Throws data ↔ ¬ data.IsChain Accepts := by
  have start : (0 :: data).IsChain Accepts ↔ data.IsChain Accepts := by
    rw [List.isChain_cons]
    simp [Accepts]
  have ok : evaluateFrom 0 data = .ok () ↔ (0 :: data).IsChain Accepts := evaluateFrom_ok 0 data
  rw [← start, ← ok, Throws, evaluate]
  cases evaluateFrom 0 data <;> simp

theorem sorted_chain (data : List RenderCommand) : Sorted data ↔ data.IsChain fun x y => x.toNat ≤ y.toNat := by
  have trans : IsTrans RenderCommand fun x y => x.toNat ≤ y.toNat := ⟨fun _ _ _ => Nat.le_trans⟩
  exact List.isChain_iff_pairwise.symm

theorem Sorted.accepts {data : List RenderCommand} (sorted : Sorted data) : data.IsChain Accepts :=
  ((sorted_chain data).mp sorted).imp fun _ _ le => (Nat.mod_le ..).trans le

/-- `evaluate` misses the steps down from items that are at least 2^32, unless the low bits tell. -/
theorem evaluate_iff (data : List RenderCommand) :
    (Throws data ↔ ¬ Sorted data) ↔
      Sorted data ∨ ∃ (k : Nat) (inside : k + 1 < data.length), data[k + 1].toNat < data[k].toNat % 2 ^ 32 := by
  have seen : Throws data ↔ ∃ (k : Nat) (inside : k + 1 < data.length), data[k + 1].toNat < data[k].toNat % 2 ^ 32 := by
    simp [throws_iff, List.isChain_iff_getElem, Accepts]
  rw [← seen]
  constructor
  · intro right
    by_cases sorted : Sorted data
    · exact Or.inl sorted
    · exact Or.inr (right.mpr sorted)
  · intro told
    constructor
    · intro throws sorted
      exact (throws_iff data).mp throws sorted.accepts
    · exact told.resolve_left

theorem evaluate_wide : ¬ (Throws [0x100000000, 0] ↔ ¬ Sorted [0x100000000, 0]) := by
  have sorted : ¬ Sorted [0x100000000, 0] := by simp [Sorted]
  intro right
  obtain ⟨what, throws⟩ := right.mpr sorted
  exact absurd throws (by simp [evaluate, evaluateFrom])

theorem evaluate_narrow {data : List RenderCommand} (narrow : ∀ item ∈ data, item.toNat < 2 ^ 32) :
    Throws data ↔ ¬ Sorted data := by
  rw [throws_iff, sorted_chain]
  refine not_congr ⟨fun passes => ?_, fun sorted => sorted.imp fun _ _ le => (Nat.mod_le ..).trans le⟩
  refine List.IsChain.imp_of_mem_imp ?_ passes
  intro x y member _ passes
  rwa [Accepts, Nat.mod_eq_of_lt (narrow x member)] at passes

/-- What `generate_data` generates never reaches the bits that `evaluate` drops, in whatever order it is then. -/
theorem evaluate_generated (rand : Nat → BitVec 31) (size : Nat) {data : List RenderCommand}
    (reordered : data.Perm (generateData rand size)) : Throws data ↔ ¬ Sorted data := by
  refine evaluate_narrow fun item member => ?_
  obtain ⟨i, -, rfl⟩ := List.mem_map.mp (reordered.subset member)
  have bound := (rand i).isLt
  rw [BitVec.toNat_setWidth]
  omega

end PrototypeBundle.Radix
