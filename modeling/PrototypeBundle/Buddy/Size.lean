import PrototypeBundle.Buddy.Page
import Mathlib.Data.Nat.Log

set_option autoImplicit false

namespace PrototypeBundle.Buddy

theorem smear_testBit (v n i : Nat) :
    (((List.range n).map (2 ^ ·)).foldl (fun v bit => v ||| v >>> bit) v).testBit i = true ↔
      ∃ d < 2 ^ n, v.testBit (i + d) = true := by
  induction n generalizing i with
  | zero => simp
  | succ n ih =>
      rw [List.range_succ, List.map_append, List.foldl_append]
      simp only [List.map_cons, List.map_nil, List.foldl_cons, List.foldl_nil, Nat.testBit_or,
        Nat.testBit_shiftRight, Bool.or_eq_true, ih]
      have double : (2 : Nat) ^ (n + 1) = 2 ^ n + 2 ^ n := by rw [Nat.pow_succ]; omega
      constructor
      · rintro (⟨d, bound, bit⟩ | ⟨d, bound, bit⟩)
        · exact ⟨d, by omega, bit⟩
        · exact ⟨2 ^ n + d, by omega, by rw [← bit]; congr 1; omega⟩
      · rintro ⟨d, bound, bit⟩
        by_cases low : d < 2 ^ n
        · exact Or.inl ⟨d, low, bit⟩
        · exact Or.inr ⟨d - 2 ^ n, by omega, by rw [← bit]; congr 1; omega⟩

-- Rounding up is to the next power of two above `v`, never `v` itself, and
-- wraps to 0 once that power is `2 ^ 64`.
theorem nextPow2_eq (v : Nat) (positive : 0 < v) (bound : v < 2 ^ 64) :
    nextPow2 v = 2 ^ (Nat.log2 v + 1) % 2 ^ 64 := by
  have nonzero : v ≠ 0 := Nat.ne_of_gt positive
  have high : Nat.log2 v < 64 := (Nat.log2_lt nonzero).mpr bound
  have powers : [1, 2, 4, 8, 16, 32] = (List.range 6).map (2 ^ ·) := by decide
  have smeared : [1, 2, 4, 8, 16, 32].foldl (fun v bit => v ||| v >>> bit) v =
      2 ^ (Nat.log2 v + 1) - 1 := by
    rw [powers]
    apply Nat.eq_of_testBit_eq
    intro i
    rw [Bool.eq_iff_iff, smear_testBit, Nat.testBit_two_pow_sub_one, decide_eq_true_iff]
    constructor
    · rintro ⟨d, _, bit⟩
      by_contra above
      have small : v < 2 ^ (i + d) :=
        Nat.lt_of_lt_of_le Nat.lt_log2_self (Nat.pow_le_pow_right (by omega) (by omega))
      rw [Nat.testBit_lt_two_pow small] at bit
      simp at bit
    · intro below
      refine ⟨Nat.log2 v - i, by omega, ?_⟩
      rw [show i + (Nat.log2 v - i) = Nat.log2 v by omega]
      exact Nat.testBit_log2 nonzero
  have positive' := Nat.two_pow_pos (Nat.log2 v + 1)
  rw [nextPow2, smeared, Nat.sub_add_cancel positive']

theorem levelOf_two_pow (k : Nat) (large : 5 ≤ k) : levelOf (2 ^ k) = some (k - 5) := by
  have bound : 2 ^ 5 ≤ 2 ^ k := Nat.pow_le_pow_right (by omega) large
  rw [levelOf, if_neg (by omega), Nat.log2_two_pow]

theorem allocate_level (len : Nat) (fits : len + headerSize < 2 ^ 64) :
    (levelOf (nextPow2 ((len + headerSize) % 2 ^ 64)) = none ∧ 2 ^ 63 ≤ len + headerSize) ∨
      ∃ level, levelOf (nextPow2 ((len + headerSize) % 2 ^ 64)) = some level ∧
        2 ^ (level + 4) ≤ len + headerSize ∧ len + headerSize < 2 ^ (level + 5) := by
  have positive : 0 < len + headerSize := by simp [headerSize]
  have nonzero : len + headerSize ≠ 0 := Nat.ne_of_gt positive
  have least : 4 ≤ Nat.log2 (len + headerSize) := (Nat.le_log2 nonzero).mpr (by simp [headerSize])
  have lower := Nat.log2_self_le nonzero
  have upper := Nat.lt_log2_self (n := len + headerSize)
  have high : Nat.log2 (len + headerSize) < 64 := (Nat.log2_lt nonzero).mpr fits
  rw [Nat.mod_eq_of_lt fits, nextPow2_eq _ positive fits]
  by_cases top : Nat.log2 (len + headerSize) = 63
  · left
    rw [top] at lower ⊢
    exact ⟨rfl, lower⟩
  · right
    have below : 2 ^ (Nat.log2 (len + headerSize) + 1) < 2 ^ 64 :=
      Nat.pow_lt_pow_right (by omega) (by omega)
    refine ⟨Nat.log2 (len + headerSize) - 4, ?_, ?_, ?_⟩
    · rw [Nat.mod_eq_of_lt below, levelOf_two_pow _ (by omega)]
      congr 1
    · rwa [Nat.sub_add_cancel least]
    · rwa [show Nat.log2 (len + headerSize) - 4 + 5 = Nat.log2 (len + headerSize) + 1 by omega]

-- Up to level 26 the 32-bit shift of `find_buddy` does not lose the bit.
theorem findBuddy_eq {h level : Nat} (low : level < 27) :
    findBuddy h level = some (h ^^^ 2 ^ (level + 5)) := by
  have shifted : 32 <<< level = 2 ^ (level + 5) := by
    rw [Nat.shiftLeft_eq, show (32 : Nat) = 2 ^ 5 from rfl, ← Nat.pow_add, Nat.add_comm]
  have small : 2 ^ (level + 5) < 2 ^ 32 := Nat.pow_lt_pow_right (by omega) (by omega)
  rw [findBuddy, if_pos (by omega), shifted, Nat.mod_eq_of_lt small]

-- From level 27 on the shift is 0 and every block is taken for its own buddy.
theorem findBuddy_self {h level : Nat} (high : 27 ≤ level) (shift : level < 32) :
    findBuddy h level = some h := by
  have shifted : 32 <<< level = 2 ^ (level + 5) := by
    rw [Nat.shiftLeft_eq, show (32 : Nat) = 2 ^ 5 from rfl, ← Nat.pow_add, Nat.add_comm]
  have lost : 2 ^ (level + 5) % 2 ^ 32 = 0 :=
    Nat.mod_eq_zero_of_dvd (Nat.pow_dvd_pow 2 (by omega))
  rw [findBuddy, if_pos shift, shifted, lost, Nat.xor_zero]

end PrototypeBundle.Buddy
