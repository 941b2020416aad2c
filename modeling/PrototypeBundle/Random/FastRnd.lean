import PrototypeBundle.Shared.XorShift

set_option autoImplicit false

namespace PrototypeBundle.Random

open XorShift

structure FastRnd where
  s0 : BitVec 32
  s1 : BitVec 32
  s2 : BitVec 32
  s3 : BitVec 32
  deriving DecidableEq, Repr

namespace FastRnd

def zero : FastRnd := ⟨0, 0, 0, 0⟩

def rotl (x : BitVec 32) (k : Nat) : BitVec 32 := x <<< k ||| x >>> (32 - k)

-- The result, and the value left in `x`.
def splitmix64 (x : BitVec 64) : BitVec 64 × BitVec 64 :=
  let x := x + 0x9e3779b97f4a7c15
  let z := x
  let z := (z ^^^ z >>> 30) * 0xbf58476d1ce4e5b9
  let z := (z ^^^ z >>> 27) * 0x94d049bb133111eb
  (z ^^^ z >>> 31, x)

def fastRnd (seed : BitVec 64) : FastRnd :=
  let (z0, seed) := splitmix64 seed
  let (z1, seed) := splitmix64 seed
  let (z2, seed) := splitmix64 seed
  let (z3, _) := splitmix64 seed
  let s : FastRnd := ⟨z0.setWidth 32, z1.setWidth 32, z2.setWidth 32, z3.setWidth 32⟩
  if s.s0 ||| s.s1 ||| s.s2 ||| s.s3 = 0 then { s with s0 := 1 } else s

def nextU32 (s : FastRnd) : BitVec 32 × FastRnd :=
  let result := rotl (s.s0 + s.s3) 7 + s.s0
  let t := s.s1 <<< 9
  let s := { s with s2 := s.s2 ^^^ s.s0 }
  let s := { s with s3 := s.s3 ^^^ s.s1 }
  let s := { s with s1 := s.s1 ^^^ s.s2 }
  let s := { s with s0 := s.s0 ^^^ s.s3 }
  let s := { s with s2 := s.s2 ^^^ t }
  let s := { s with s3 := rotl s.s3 11 }
  (result, s)

def update (s : FastRnd) : FastRnd := (nextU32 s).2

def previous (s : FastRnd) : FastRnd :=
  let s3 := rotl s.s3 21
  let s0 := s.s0 ^^^ s3
  let s1 := shiftXor 18 (shiftXor 9 (s.s1 ^^^ s.s2))
  let s2 := s.s1 ^^^ s1
  ⟨s0, s1, s2 ^^^ s0, s3 ^^^ s1⟩

theorem update_eq (s : FastRnd) :
    update s = ⟨s.s0 ^^^ (s.s3 ^^^ s.s1), s.s1 ^^^ (s.s2 ^^^ s.s0), s.s2 ^^^ s.s0 ^^^ s.s1 <<< 9,
      rotl (s.s3 ^^^ s.s1) 11⟩ := rfl

theorem getLsbD_rotl (x : BitVec 32) {k : Nat} (proper : k ≤ 32) (i : Nat) :
    (rotl x k).getLsbD i = (decide (i < 32) && if i < k then x.getLsbD (32 - k + i) else x.getLsbD (i - k)) := by
  rw [rotl, BitVec.getLsbD_or, BitVec.getLsbD_shiftLeft, BitVec.getLsbD_ushiftRight]
  by_cases low : i < k
  · simp [low, show i < 32 by omega]
  · have away : x.getLsbD (32 - k + i) = false := BitVec.getLsbD_of_ge _ _ (by omega)
    simp [low, away]

theorem rotl_rotl {j k : Nat} (whole : j + k = 32) (x : BitVec 32) : rotl (rotl x j) k = x := by
  refine BitVec.eq_of_getLsbD_eq ?_
  intro i bound
  rw [getLsbD_rotl _ (by omega)]
  by_cases low : i < k
  · rw [if_pos low, getLsbD_rotl _ (by omega), if_neg (by omega), show 32 - k + i - j = i by omega]
    simp [bound, show 32 - k + i < 32 by omega]
  · rw [if_neg low, getLsbD_rotl _ (by omega), if_pos (by omega), show 32 - j + (i - k) = i by omega]
    simp [bound, show i - k < 32 by omega]

theorem unshift (x : BitVec 32) : shiftXor 18 (shiftXor 9 (shiftXor 9 x)) = x := by
  rw [shiftXor_twice, shiftXor_twice, shiftXor_all (by omega)]

theorem xor_cancel (x y : BitVec 32) : x ^^^ y ^^^ y = x := by
  rw [BitVec.xor_assoc, BitVec.xor_self, BitVec.xor_zero]

theorem previous_update (s : FastRnd) : previous (update s) = s := by
  have mixed : s.s1 ^^^ (s.s2 ^^^ s.s0) ^^^ (s.s2 ^^^ s.s0 ^^^ s.s1 <<< 9) = shiftXor 9 s.s1 := by
    rw [← BitVec.xor_assoc, xor_cancel, shiftXor]
  have second : s.s1 ^^^ (s.s2 ^^^ s.s0) ^^^ s.s1 = s.s2 ^^^ s.s0 := by
    rw [BitVec.xor_comm s.s1, xor_cancel]
  simp only [previous, update_eq, rotl_rotl (show 11 + 21 = 32 by rfl), xor_cancel]
  rw [mixed, unshift, second, xor_cancel, xor_cancel]

theorem update_previous (s : FastRnd) : update (previous s) = s := by
  obtain ⟨a, b, c, d⟩ := s
  have halves : shiftXor 9 (shiftXor 18 (shiftXor 9 (b ^^^ c))) = b ^^^ c := by
    rw [shiftXor_comm 9 18, shiftXor_twice, shiftXor_twice, shiftXor_all (by omega)]
  rw [update_eq]
  simp only [previous, xor_cancel, rotl_rotl (show 21 + 11 = 32 by rfl)]
  generalize shiftXor 18 (shiftXor 9 (b ^^^ c)) = s1 at halves ⊢
  rw [shiftXor] at halves
  have second : s1 ^^^ (b ^^^ s1) = b := by rw [BitVec.xor_comm, xor_cancel]
  have third : b ^^^ s1 ^^^ s1 <<< 9 = c := by
    rw [BitVec.xor_assoc, halves, ← BitVec.xor_assoc, BitVec.xor_self, BitVec.zero_xor]
  rw [second, third]

theorem update_bijective : Function.Bijective update :=
  Function.bijective_iff_has_inverse.mpr ⟨previous, previous_update, update_previous⟩

theorem update_zero : update zero = zero := by decide

theorem fastRnd_nonzero (seed : BitVec 64) : fastRnd seed ≠ zero := by
  simp only [fastRnd]
  intro same
  split at same
  next =>
    have first := congrArg FastRnd.s0 same
    simp [zero] at first
  next some =>
    rw [zero, FastRnd.mk.injEq] at same
    obtain ⟨h0, h1, h2, h3⟩ := same
    rw [h0, h1, h2, h3] at some
    exact some (by decide)

theorem update_nonzero {s : FastRnd} (nonzero : s ≠ zero) : update s ≠ zero := by
  intro same
  rw [← update_zero] at same
  exact nonzero (update_bijective.injective same)

theorem iterate_nonzero {s : FastRnd} (nonzero : s ≠ zero) (calls : Nat) : update^[calls] s ≠ zero := by
  induction calls generalizing s with
  | zero => exact nonzero
  | succ calls ih =>
      rw [Function.iterate_succ_apply]
      exact ih (update_nonzero nonzero)

theorem nextU32_sound :
    (∀ (seed : BitVec 64) (calls : Nat), update^[calls] (fastRnd seed) ≠ zero) ∧ Function.Bijective update :=
  ⟨fun seed calls => iterate_nonzero (fastRnd_nonzero seed) calls, update_bijective⟩

end FastRnd

end PrototypeBundle.Random
