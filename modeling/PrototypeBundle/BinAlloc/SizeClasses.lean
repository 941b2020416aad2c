import PrototypeBundle.BinAlloc.Config

set_option autoImplicit false

namespace PrototypeBundle.BinAlloc

section Served

variable {K size : Nat} (served : size ≤ (config (2 ^ K)).pageMaxBlockSize)

include served

theorem binIndex_eq : (config (2 ^ K)).binIndex size = Nat.clog 2 size - 4 := by
  rw [Config.binIndex, if_neg (by omega), config_binOffset, binOffsetCount_eq]
  omega

theorem size_le_max : size ≤ (config (2 ^ K)).binIndexMaxSize ((config (2 ^ K)).binIndex size) := by
  rw [binIndex_eq served, binIndexMaxSize_eq]
  calc size ≤ 2 ^ Nat.clog 2 size := Nat.le_pow_clog (by omega) size
    _ ≤ 2 ^ (Nat.clog 2 size - 4 + 4) := Nat.pow_le_pow_right (by omega) (by omega)

theorem max_below_lt (later : (config (2 ^ K)).binIndex size ≠ 0) :
    (config (2 ^ K)).binIndexMaxSize ((config (2 ^ K)).binIndex size - 1) < size := by
  rw [binIndex_eq served] at later ⊢
  rw [binIndexMaxSize_eq]
  exact (Nat.lt_clog_iff_pow_lt (by omega)).mp (by omega)

end Served

theorem binIndex_mono {K : Nat} (small : 6 ≤ K) (large : K ≤ 18) {size size' : Nat} (less : size ≤ size') :
    (config (2 ^ K)).binIndex size ≤ (config (2 ^ K)).binIndex size' := by
  by_cases served : size' ≤ (config (2 ^ K)).pageMaxBlockSize
  · rw [binIndex_eq served, binIndex_eq (less.trans served)]
    have mono := Nat.clog_mono_right 2 less
    omega
  · have refused : (config (2 ^ K)).binIndex size' = noBin := if_pos (by omega)
    rw [refused]
    by_cases served' : size ≤ (config (2 ^ K)).pageMaxBlockSize
    · have fits := binIndex_fits small served'
      unfold noBin
      omega
    · exact le_of_eq (if_pos (by omega))

/-- A request goes to the first bin whose blocks are large enough, and a request for more than the largest block
goes to none. -/
theorem bin_index_exact (K : Nat) (fits : FieldsFit (2 ^ K)) (large : 64 ≤ 2 ^ K) :
    (∀ size, size ≤ (config (2 ^ K)).pageMaxBlockSize →
      ((config (2 ^ K)).binIndex size : Int) < (config (2 ^ K)).binCount ∧
      size ≤ (config (2 ^ K)).binIndexMaxSize ((config (2 ^ K)).binIndex size) ∧
      ((config (2 ^ K)).binIndex size = 0 ∨
        (config (2 ^ K)).binIndexMaxSize ((config (2 ^ K)).binIndex size - 1) < size)) ∧
    (∀ size size', size ≤ size' → (config (2 ^ K)).binIndex size ≤ (config (2 ^ K)).binIndex size') ∧
    ∀ size, (config (2 ^ K)).pageMaxBlockSize < size → (config (2 ^ K)).binIndex size = noBin := by
  have small : 6 ≤ K := (Nat.pow_le_pow_iff_right (by omega : 1 < 2)).mp (by omega)
  refine ⟨fun size served => ⟨?_, size_le_max served, ?_⟩, fun _ _ => binIndex_mono small fits.bounds.2,
    fun size more => if_pos more⟩
  · have room := binIndex_fits small served
    rw [binCount_eq small]
    omega
  · exact Decidable.or_iff_not_imp_left.mpr (max_below_lt served)

theorem bin_index_exact_4096 : (config (2 ^ 12)).binIndex 100 = 3 ∧
    100 ≤ (config (2 ^ 12)).binIndexMaxSize ((config (2 ^ 12)).binIndex 100) ∧
    (config (2 ^ 12)).binIndex 1025 = noBin :=
  ⟨by decide, ((bin_index_exact 12 ⟨by decide, by decide, by decide⟩ (by decide)).1 100 (by decide)).2.1,
    (bin_index_exact 12 ⟨by decide, by decide, by decide⟩ (by decide)).2.2 1025 (by decide)⟩

end PrototypeBundle.BinAlloc
