import Mathlib.Algebra.Group.Nat.Defs
import Mathlib.Logic.Function.Iterate

set_option autoImplicit false

/-!
# A word xored with its own shift

As a map on words this is `1 + L ^ k` for the shift `L` to the left. Two such maps commute, and
the square of one has twice its amount, so that an amount of the whole width is reached.
-/

namespace XorShift

variable {w : Nat}

def shiftXor (k : Nat) (x : BitVec w) : BitVec w := x ^^^ x <<< k

theorem shiftXor_xor (k : Nat) (x y : BitVec w) : shiftXor k (x ^^^ y) = shiftXor k x ^^^ shiftXor k y := by
  rw [shiftXor, shiftXor, shiftXor, BitVec.shiftLeft_xor_distrib]
  ac_rfl

theorem shiftXor_shiftLeft (j k : Nat) (x : BitVec w) : shiftXor k x <<< j = shiftXor k (x <<< j) := by
  rw [shiftXor, shiftXor, BitVec.shiftLeft_xor_distrib, ← BitVec.shiftLeft_add, ← BitVec.shiftLeft_add,
    Nat.add_comm]

theorem shiftXor_comm (j k : Nat) (x : BitVec w) : shiftXor j (shiftXor k x) = shiftXor k (shiftXor j x) := by
  rw [shiftXor, shiftXor_shiftLeft, ← shiftXor_xor, ← shiftXor]

theorem shiftXor_twice (k : Nat) (x : BitVec w) : shiftXor k (shiftXor k x) = shiftXor (2 * k) x := by
  have parts : shiftXor k (shiftXor k x) = x ^^^ x <<< k ^^^ (x <<< k ^^^ x <<< (k + k)) := by
    rw [shiftXor, shiftXor_shiftLeft, shiftXor, shiftXor, BitVec.shiftLeft_add]
  rw [parts, shiftXor, Nat.two_mul, BitVec.xor_assoc, ← BitVec.xor_assoc (x <<< k), BitVec.xor_self,
    BitVec.zero_xor]

theorem shiftXor_all {k : Nat} (all : w ≤ k) (x : BitVec w) : shiftXor k x = x := by
  rw [shiftXor, BitVec.shiftLeft_eq_zero all, BitVec.xor_zero]

theorem shiftXor_low {i k : Nat} (low : i < k) (x : BitVec w) : (shiftXor k x).getLsbD i = x.getLsbD i := by
  simp [shiftXor, low]

theorem iterate_two_pow (k i : Nat) (x : BitVec w) : (shiftXor k)^[2 ^ i] x = shiftXor (2 ^ i * k) x := by
  induction i generalizing x with
  | zero => simp
  | succ i ih =>
      rw [Nat.pow_succ, Nat.mul_two, Function.iterate_add_apply, ih, ih, shiftXor_twice, Nat.add_mul, Nat.two_mul]

end XorShift
