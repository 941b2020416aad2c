import Mathlib.Algebra.Group.Nat.Even
import Mathlib.Data.Nat.Log
import Mathlib.Data.Nat.Sqrt
import Mathlib.Tactic.Ring

set_option autoImplicit false

/-!
# Square roots of integers in binary64

Values with 53 significant bits, rounded to the nearest, ties to even. The
values here are integers, and the roots multiples of a power of one half.
-/

namespace Binary64

def nearest (n unit : Nat) : Nat :=
  if 2 * (n % unit) < unit ∨ 2 * (n % unit) = unit ∧ n / unit % 2 = 0 then n / unit else n / unit + 1

def ofNat (n : Nat) : Nat :=
  if n < 2 ^ 53 then n
  else nearest n (2 ^ (Nat.log 2 n - 52)) * 2 ^ (Nat.log 2 n - 52)

def fraction (d : Nat) : Nat := 52 - Nat.log 2 d / 2

-- The root of an integer is never halfway between two others.
def mantissa (d : Nat) : Nat :=
  let x := d * 4 ^ fraction d
  if x ≤ Nat.sqrt x * Nat.sqrt x + Nat.sqrt x then Nat.sqrt x else Nat.sqrt x + 1

/-- The integer part of the rounded root. -/
def sqrt (d : Nat) : Nat := mantissa d / 2 ^ fraction d

theorem ofNat_exact {n : Nat} (small : n < 2 ^ 53) : ofNat n = n := if_pos small

theorem nearest_ge (n unit : Nat) : n / unit ≤ nearest n unit := by
  rw [nearest]
  split <;> omega

theorem ofNat_large {n : Nat} (large : 2 ^ 53 ≤ n) : 2 ^ 53 ≤ ofNat n := by
  have exponent : 53 ≤ Nat.log 2 n := Nat.le_log_of_pow_le (by omega) large
  have split : 2 ^ Nat.log 2 n = 2 ^ 52 * 2 ^ (Nat.log 2 n - 52) := by
    rw [← Nat.pow_add]
    congr 1
    omega
  have quotient : 2 ^ 52 ≤ n / 2 ^ (Nat.log 2 n - 52) := by
    rw [Nat.le_div_iff_mul_le (Nat.two_pow_pos _), ← split]
    exact Nat.pow_log_le_self 2 (by omega)
  have unit : 2 ^ 1 ≤ 2 ^ (Nat.log 2 n - 52) := Nat.pow_le_pow_right (by omega) (by omega)
  rw [ofNat, if_neg (by omega)]
  calc
    2 ^ 53 = 2 ^ 52 * 2 ^ 1 := by norm_num
    _ ≤ _ := Nat.mul_le_mul (quotient.trans (nearest_ge ..)) unit

theorem ofNat_ge {m n : Nat} (exact' : m < 2 ^ 53) (le : m ≤ n) : m ≤ ofNat n := by
  by_cases small : n < 2 ^ 53
  · rwa [ofNat_exact small]
  · have large := ofNat_large (n := n) (by omega)
    omega

theorem square_scaled (n s : Nat) : n * n * 4 ^ s = (n * 2 ^ s) * (n * 2 ^ s) := by
  rw [show 4 = 2 * 2 by rfl, Nat.mul_pow]
  ring

theorem sqrt_ge {n d : Nat} (le : n * n ≤ d) : n ≤ sqrt d := by
  have root : n * 2 ^ fraction d ≤ Nat.sqrt (d * 4 ^ fraction d) := by
    rw [Nat.le_sqrt, ← square_scaled]
    exact Nat.mul_le_mul_right _ le
  have rounded : Nat.sqrt (d * 4 ^ fraction d) ≤ mantissa d := by
    simp only [mantissa]
    split <;> omega
  rw [sqrt, Nat.le_div_iff_mul_le (Nat.two_pow_pos _)]
  exact root.trans rounded

-- Below `2 ^ 52` the root of an integer that is no square is too far from the next integer to be rounded to it.
theorem sqrt_lt {n d : Nat} (small : n ≤ 2 ^ 26) (less : d < n * n) : sqrt d < n := by
  have square : n * n ≤ 2 ^ 26 * 2 ^ 26 := Nat.mul_le_mul small small
  have exponent : Nat.log 2 d < 52 := by
    by_cases zero : d = 0
    · rw [zero, Nat.log_zero_right]
      omega
    · exact (Nat.log_lt_iff_lt_pow (by omega) zero).mpr (by omega)
  have bits : 27 ≤ fraction d := by
    rw [fraction]
    omega
  rw [sqrt, Nat.div_lt_iff_lt_mul (Nat.two_pow_pos _)]
  simp only [mantissa]
  generalize fraction d = s at bits
  have wide : n * 2 ^ s ≤ 4 ^ s := by
    rw [show 4 = 2 * 2 by rfl, Nat.mul_pow]
    refine Nat.mul_le_mul_right _ (small.trans ?_)
    exact Nat.pow_le_pow_right (by omega) (by omega)
  have gap : d * 4 ^ s + 4 ^ s ≤ (n * 2 ^ s) * (n * 2 ^ s) := by
    rw [← square_scaled, ← Nat.succ_mul]
    exact Nat.mul_le_mul_right _ less
  have root : Nat.sqrt (d * 4 ^ s) < n * 2 ^ s := by
    rw [Nat.sqrt_lt]
    have positive : 0 < 4 ^ s := Nat.pow_pos (by omega)
    omega
  generalize Nat.sqrt (d * 4 ^ s) = r at root
  split
  next => exact root
  next away =>
    by_contra reached
    have same : n * 2 ^ s = r + 1 := by omega
    rw [same] at gap wide
    have expanded : (r + 1) * (r + 1) = r * r + r + (r + 1) := by ring
    omega

-- Integers of 64 bits need not be exact.
example : ofNat (2 ^ 64 - 1) = 2 ^ 64 ∧ sqrt (2 ^ 64) = 2 ^ 32 := by decide +kernel

end Binary64
