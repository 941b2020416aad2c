import Mathlib.Data.Nat.Log
import Mathlib.Data.Nat.Bits
import Mathlib.Tactic.Ring

set_option autoImplicit false

/-!
# `sgc2::config_t`

Fields of type `std::uint32_t` are computed modulo `2 ^ 32`.
-/

namespace PrototypeBundle.BinAlloc

structure Config where
  pageSize : Nat
  pageMetaSize : Nat
  pageMinBlockSize : Nat
  pageMaxBlockSize : Nat
  clusterPageCount : Nat
  clusterPageBlockSize : Nat
  clusterSize : Nat
  binCount : Int
  binOffset : Int
  deriving DecidableEq, Repr

def countlZero (size : Nat) : Int := if size = 0 then 64 else 63 - Nat.log2 size

def hasSingleBit (size : Nat) : Bool := size ≠ 0 && 2 ^ Nat.log2 size == size

def binOffsetCount (size : Nat) : Int :=
  let leadingZeros := if hasSingleBit size then countlZero size else countlZero size - 1
  63 - leadingZeros

def countPowersOfTwo (lhv rhv : Nat) : Int :=
  -- the logarithm of 0 is infinite and makes the range empty
  if lhv = 0 ∨ rhv = 0 then 0
  else
    let start := Nat.clog 2 lhv
    let stop := Nat.log2 rhv
    if start ≤ stop then stop - start + 1 else 0

def config (pageSize : Nat) : Config :=
  let pageMetaSize := 32
  let pageMinBlockSize := 16
  let pageMaxBlockSize := pageSize / 4
  -- `page_size / page_meta_size - 1` on unsigned
  let clusterPageCount := (pageSize / pageMetaSize + (2 ^ 32 - 1)) % 2 ^ 32
  { pageSize, pageMetaSize, pageMinBlockSize, pageMaxBlockSize, clusterPageCount
    clusterPageBlockSize := clusterPageCount * pageSize % 2 ^ 32
    clusterSize := (clusterPageCount + 1) % 2 ^ 32 * pageSize % 2 ^ 32
    binCount := countPowersOfTwo pageMinBlockSize pageMaxBlockSize + 1
    binOffset := binOffsetCount pageMinBlockSize }

def noBin : Nat := 2 ^ 64 - 1

def Config.binIndex (cfg : Config) (size : Nat) : Nat :=
  if cfg.pageMaxBlockSize < size then noBin
  else (max (binOffsetCount size - cfg.binOffset) 0).toNat

-- `1 << (index + bin_offset)`; the blocks of all bins are far below the range of `int`.
def Config.binIndexMaxSize (cfg : Config) (index : Nat) : Nat := 1 <<< (index + cfg.binOffset).toNat

def Config.binObjectCount (cfg : Config) (index : Nat) : Nat :=
  cfg.pageSize / cfg.binIndexMaxSize index

section Fields

variable (K : Nat) (small : 6 ≤ K) (large : K ≤ 18)

@[simp] theorem config_pageSize (pageSize : Nat) : (config pageSize).pageSize = pageSize := rfl

@[simp] theorem config_pageMetaSize (pageSize : Nat) : (config pageSize).pageMetaSize = 32 := rfl

@[simp] theorem config_binOffset (pageSize : Nat) : (config pageSize).binOffset = 4 := rfl

include small

theorem slots_eq : 2 ^ K / 2 ^ 5 = 2 ^ (K - 5) := Nat.pow_div (by omega) (by omega)

include large

theorem clusterPageCount_eq : (config (2 ^ K)).clusterPageCount = 2 ^ (K - 5) - 1 := by
  have positive := Nat.two_pow_pos (K - 5)
  have bound : 2 ^ (K - 5) ≤ 2 ^ 13 := Nat.pow_le_pow_right (by omega) (by omega)
  have slots := slots_eq K small
  simp only [config]
  omega

theorem clusterSize_eq : (config (2 ^ K)).clusterSize = 2 ^ (2 * K - 5) := by
  have count := clusterPageCount_eq K small large
  have positive := Nat.two_pow_pos (K - 5)
  have bound : 2 ^ (K - 5) ≤ 2 ^ 13 := Nat.pow_le_pow_right (by omega) (by omega)
  have product : 2 ^ (K - 5) * 2 ^ K = 2 ^ (2 * K - 5) := by
    rw [← pow_add, show K - 5 + K = 2 * K - 5 by omega]
  have fits : 2 ^ (2 * K - 5) < 2 ^ 32 := Nat.pow_lt_pow_right (by omega) (by omega)
  change ((config (2 ^ K)).clusterPageCount + 1) % 2 ^ 32 * 2 ^ K % 2 ^ 32 = _
  have slots : (2 ^ (K - 5) - 1 + 1) % 2 ^ 32 = 2 ^ (K - 5) := by omega
  rw [count, slots, product, Nat.mod_eq_of_lt fits]

end Fields

section Bins

variable {K : Nat}

theorem binIndexMaxSize_eq (K index : Nat) : (config (2 ^ K)).binIndexMaxSize index = 2 ^ (index + 4) := by
  rw [Config.binIndexMaxSize, config_binOffset, show ((index : Int) + 4).toNat = index + 4 by omega, Nat.shiftLeft_eq,
    Nat.one_mul]

theorem four_blocks {index : Nat} (fits : index + 6 ≤ K) : 4 * 2 ^ (index + 4) ≤ 2 ^ K := by
  have four : 2 ^ (index + 6) = 4 * 2 ^ (index + 4) := by
    rw [show index + 6 = 2 + (index + 4) by omega, pow_add]
    rfl
  rw [← four]
  exact Nat.pow_le_pow_right (by omega) fits

theorem binOffsetCount_eq (size : Nat) : binOffsetCount size = Nat.clog 2 size := by
  by_cases zero : size = 0
  · subst zero
    simp [binOffsetCount, hasSingleBit, countlZero]
  · have lower := Nat.log2_self_le zero
    have upper := Nat.lt_log2_self (n := size)
    by_cases single : hasSingleBit size = true
    · have power : 2 ^ size.log2 = size := by
        simp only [hasSingleBit, Bool.and_eq_true, beq_iff_eq] at single
        exact single.2
      have log : Nat.clog 2 size = size.log2 := by
        conv_lhs => rw [← power]
        exact Nat.clog_pow 2 _ (by omega)
      simp only [binOffsetCount, single, countlZero, if_neg zero, if_true, log]
      omega
    · have other : 2 ^ size.log2 ≠ size := by
        intro power
        simp [hasSingleBit, zero, power] at single
      have above : size.log2 < Nat.clog 2 size := (Nat.lt_clog_iff_pow_lt (by omega)).mpr (by omega)
      have below : Nat.clog 2 size ≤ size.log2 + 1 := (Nat.clog_le_iff_le_pow (by omega)).mpr (by omega)
      simp only [binOffsetCount, single, countlZero, if_neg zero, Bool.false_eq_true, if_false]
      omega

theorem binOffsetCount_le {size : Nat} (served : size ≤ 2 ^ (K - 2)) : binOffsetCount size ≤ (K - 2 : Nat) := by
  rw [binOffsetCount_eq]
  exact Int.ofNat_le.mpr ((Nat.clog_le_iff_le_pow (by omega)).mpr served)

theorem binIndex_fits {size : Nat} (small : 6 ≤ K) (served : size ≤ (config (2 ^ K)).pageMaxBlockSize) :
    (config (2 ^ K)).binIndex size + 6 ≤ K := by
  have quarter : (config (2 ^ K)).pageMaxBlockSize = 2 ^ (K - 2) := Nat.pow_div (x := 2) (n := 2) (by omega) (by omega)
  rw [quarter] at served
  have count := binOffsetCount_le served
  rw [Config.binIndex, quarter, if_neg (by omega), config_binOffset]
  omega

theorem binCount_eq (small : 6 ≤ K) : (config (2 ^ K)).binCount = K - 4 := by
  have quarter : 2 ^ K / 4 = 2 ^ (K - 2) := Nat.pow_div (x := 2) (n := 2) (by omega) (by omega)
  have start : Nat.clog 2 16 = 4 := by
    rw [show 16 = 2 ^ 4 by rfl]
    exact Nat.clog_pow 2 4 (by omega)
  have positive := Nat.two_pow_pos (K - 2)
  simp only [config, countPowersOfTwo, quarter, start, Nat.log2_two_pow]
  rw [if_neg (by omega), if_pos (by omega)]
  omega

/-- The fields of `config_t` of 32 bits are what the operations on them say. -/
structure FieldsFit (pageSize : Nat) : Prop where
  word : pageSize < 2 ^ 32
  count : 32 ≤ pageSize
  cluster : pageSize / 32 * pageSize < 2 ^ 32

theorem FieldsFit.bounds (fits : FieldsFit (2 ^ K)) : 5 ≤ K ∧ K ≤ 18 := by
  have small : 5 ≤ K := by
    by_contra less
    have below : 2 ^ K ≤ 2 ^ 4 := Nat.pow_le_pow_right (by omega) (by omega)
    have count := fits.count
    omega
  refine ⟨small, ?_⟩
  by_contra more
  have above : 2 ^ 19 ≤ 2 ^ K := Nat.pow_le_pow_right (by omega) (by omega)
  have slots : 2 ^ 14 ≤ 2 ^ K / 32 := by omega
  have product := Nat.mul_le_mul slots above
  have cluster := fits.cluster
  omega

theorem FieldsFit.slots (fits : FieldsFit (2 ^ K)) : (config (2 ^ K)).clusterPageCount = 2 ^ K / 32 - 1 := by
  have word := fits.word
  have count := fits.count
  simp only [config]
  omega

theorem FieldsFit.clusterSize (fits : FieldsFit (2 ^ K)) : (config (2 ^ K)).clusterSize = 2 ^ (2 * K - 5) := by
  obtain ⟨small, large⟩ := fits.bounds
  by_cases five : K = 5
  · subst five
    decide
  · exact clusterSize_eq K (by omega) large

theorem FieldsFit.binObjectCount (fits : FieldsFit (2 ^ K)) {bin : Nat} (exist : (bin : Int) < (config (2 ^ K)).binCount) :
    2 ≤ (config (2 ^ K)).binObjectCount bin ∧ (config (2 ^ K)).binObjectCount bin < 2 ^ 16 := by
  obtain ⟨small, large⟩ := fits.bounds
  have room : bin + 5 ≤ K := by
    by_cases five : K = 5
    · subst five
      have one : (config (2 ^ 5)).binCount = 1 := by decide
      omega
    · have count := binCount_eq (K := K) (by omega)
      omega
  have count : (config (2 ^ K)).binObjectCount bin = 2 ^ (K - (bin + 4)) := by
    rw [Config.binObjectCount, binIndexMaxSize_eq, config_pageSize, Nat.pow_div (by omega) (by omega)]
  rw [count]
  exact ⟨(show 2 = 2 ^ 1 by rfl) ▸ Nat.pow_le_pow_right (by omega) (by omega), Nat.pow_lt_pow_right (by omega) (by omega)⟩

end Bins

end PrototypeBundle.BinAlloc
