import PrototypeBundle.BinAlloc.Config

set_option autoImplicit false

namespace PrototypeBundle.BinAlloc

-- The mask of 64 bits is `~(alignment - 1)`.
def alignDown (address alignment : Nat) : Nat :=
  address &&& (2 ^ 64 - 1 - (alignment + (2 ^ 64 - 1)) % 2 ^ 64)

structure AddressMeta where
  cluster : Nat
  page : Nat
  pageMeta : Nat
  pageIndex : Nat
  deriving DecidableEq, Repr

-- The overload of `address_meta` on a cluster and a page index.
def addressMetaAt (cfg : Config) (clusterAddress pageIndex : Nat) : AddressMeta where
  cluster := clusterAddress
  page := (clusterAddress + cfg.pageSize * (pageIndex + 1) % 2 ^ 32) % 2 ^ 64
  pageMeta := (clusterAddress + cfg.pageMetaSize) % 2 ^ 64
  pageIndex := pageIndex

-- The overload on an address.
def addressMeta (cfg : Config) (address : Nat) : AddressMeta :=
  let clusterAddress := alignDown address cfg.clusterSize
  addressMetaAt cfg clusterAddress ((address - clusterAddress) / cfg.pageSize % 2 ^ 16)

-- The overload on a pointer to page metadata.
def addressMetaOfPage (cfg : Config) (pmeta : Nat) : AddressMeta :=
  let clusterAddress := alignDown pmeta cfg.clusterSize
  addressMetaAt cfg clusterAddress ((pmeta - clusterAddress) / cfg.pageMetaSize % 2 ^ 16)

-- `page_data` of `page_meta::make`: the bytes it formats as blocks.
def pageData (cfg : Config) (address : Nat) : Nat × Nat :=
  ((addressMeta cfg address).page, cfg.pageSize)

-- `page_meta::owning`
def owning (cfg : Config) (address : Nat) : Nat := (addressMeta cfg address).pageMeta

-- `page_meta::page`
def pageOf (cfg : Config) (pmeta : Nat) : Nat := (addressMetaOfPage cfg pmeta).page

-- `cluster_meta::owning`
def clusterOwning (cfg : Config) (address : Nat) : Nat := (addressMeta cfg address).cluster

def slotMeta (cfg : Config) (base j : Nat) : Nat := base + cfg.pageMetaSize * (j + 1)

theorem alignDown_eq (n address : Nat) (small : n < 64) (bound : address < 2 ^ 64) :
    alignDown address (2 ^ n) = address / 2 ^ n * 2 ^ n := by
  have positive := Nat.two_pow_pos n
  have fits : 2 ^ n < 2 ^ 64 := Nat.pow_lt_pow_right (by omega) small
  have mask : 2 ^ 64 - 1 - (2 ^ n + (2 ^ 64 - 1)) % 2 ^ 64 = 2 ^ 64 - (2 ^ n - 1 + 1) := by omega
  rw [alignDown, mask]
  apply Nat.eq_of_testBit_eq
  intro i
  rw [Nat.testBit_and, Nat.testBit_two_pow_sub_succ (by omega), Nat.testBit_two_pow_sub_one,
    Nat.testBit_mul_two_pow, Nat.testBit_div_two_pow]
  by_cases low : i < n
  · simp [low, Nat.not_le.mpr low]
  · have back : i - n + n = i := by omega
    by_cases high : i < 64
    · simp [low, high, Nat.not_lt.mp low, back]
    · have large : 2 ^ 64 ≤ 2 ^ i := Nat.pow_le_pow_right (by omega) (by omega)
      simp [Nat.testBit_lt_two_pow (Nat.lt_of_lt_of_le bound large), back]

section Slots

variable (K : Nat) (small : 6 ≤ K) (large : K ≤ 18)

include small large

theorem cluster_wide : 2 * 2 ^ K ≤ (config (2 ^ K)).clusterSize := by
  rw [clusterSize_eq K small large, Nat.mul_comm, ← pow_succ]
  exact Nat.pow_le_pow_right (by omega) (by omega)

theorem slot_header (j : Nat) (slot : j < (config (2 ^ K)).clusterPageCount) : 32 * (j + 1) < 2 ^ K := by
  have count := clusterPageCount_eq K small large
  have whole : 2 ^ K = 2 ^ 5 * 2 ^ (K - 5) := by rw [← pow_add, show 5 + (K - 5) = K by omega]
  omega

theorem slot_last (j : Nat) (slot : j < (config (2 ^ K)).clusterPageCount) :
    2 ^ K * (j + 2) ≤ (config (2 ^ K)).clusterSize := by
  have count := clusterPageCount_eq K small large
  rw [clusterSize_eq K small large, show 2 * K - 5 = K + (K - 5) by omega, pow_add]
  exact Nat.mul_le_mul_left _ (by omega)

end Slots

section Cluster

variable {K base : Nat} (small : 6 ≤ K) (large : K ≤ 18) (aligned : (config (2 ^ K)).clusterSize ∣ base)
  (room : base + (config (2 ^ K)).clusterSize ≤ 2 ^ 64)

include small large aligned room

theorem alignDown_cluster (offset : Nat) (inside : offset < (config (2 ^ K)).clusterSize) :
    alignDown (base + offset) (config (2 ^ K)).clusterSize = base := by
  have size := clusterSize_eq K small large
  rw [size] at aligned room inside ⊢
  have positive := Nat.two_pow_pos (2 * K - 5)
  obtain ⟨m, shape⟩ := aligned
  rw [alignDown_eq _ _ (by omega) (by omega), shape, Nat.mul_add_div positive, Nat.div_eq_of_lt inside,
    Nat.add_zero, Nat.mul_comm]

theorem addressMeta_eq (offset : Nat) (inside : offset < (config (2 ^ K)).clusterSize) :
    addressMeta (config (2 ^ K)) (base + offset) =
      addressMetaAt (config (2 ^ K)) base (offset / 2 ^ K) := by
  have size := clusterSize_eq K small large
  have split : 2 ^ (2 * K - 5) = 2 ^ (K - 5) * 2 ^ K := by
    rw [← pow_add, show K - 5 + K = 2 * K - 5 by omega]
  have index : offset / 2 ^ K < 2 ^ (K - 5) := by
    apply Nat.div_lt_of_lt_mul
    rw [Nat.mul_comm, ← split, ← size]
    exact inside
  have bound : 2 ^ (K - 5) ≤ 2 ^ 13 := Nat.pow_le_pow_right (by omega) (by omega)
  rw [addressMeta, alignDown_cluster small large aligned room offset inside]
  simp only [config_pageSize, Nat.add_sub_cancel_left]
  rw [Nat.mod_eq_of_lt (by omega)]

theorem owning_eq (offset : Nat) (inside : offset < (config (2 ^ K)).clusterSize) :
    owning (config (2 ^ K)) (base + offset) = base + 32 := by
  have wide := cluster_wide K small large
  have page := Nat.pow_le_pow_right (show 0 < 2 by omega) small
  rw [owning, addressMeta_eq small large aligned room offset inside]
  simp only [addressMetaAt, config_pageMetaSize]
  rw [Nat.mod_eq_of_lt (by omega)]

theorem pageData_eq (j : Nat) (slot : j < (config (2 ^ K)).clusterPageCount) :
    pageData (config (2 ^ K)) (slotMeta (config (2 ^ K)) base j) = (base + 2 ^ K, 2 ^ K) := by
  have wide := cluster_wide K small large
  have header := slot_header K small large j slot
  have page : 2 ^ K ≤ 2 ^ 18 := Nat.pow_le_pow_right (by omega) large
  have first := addressMeta_eq small large aligned room (32 * (j + 1)) (by omega)
  rw [pageData, slotMeta, config_pageMetaSize, first, Nat.div_eq_of_lt header]
  simp only [addressMetaAt, config_pageSize, Nat.zero_add, Nat.mul_one]
  rw [Nat.mod_eq_of_lt (by omega : 2 ^ K < 2 ^ 32), Nat.mod_eq_of_lt (by omega)]

-- `page` counts the header as a slot and answers with the page after the one of its slot.
theorem pageOf_eq (j : Nat) (slot : j < (config (2 ^ K)).clusterPageCount) :
    pageOf (config (2 ^ K)) (slotMeta (config (2 ^ K)) base j) = (base + 2 ^ K * (j + 2)) % 2 ^ 64 := by
  have wide := cluster_wide K small large
  have header := slot_header K small large j slot
  have page : 2 ^ K ≤ 2 ^ 18 := Nat.pow_le_pow_right (by omega) large
  have last := slot_last K small large j slot
  have size := clusterSize_eq K small large
  have fits : 2 ^ (2 * K - 5) < 2 ^ 32 := Nat.pow_lt_pow_right (by omega) (by omega)
  rw [pageOf, addressMetaOfPage, slotMeta, config_pageMetaSize,
    alignDown_cluster small large aligned room (32 * (j + 1)) (by omega)]
  simp only [addressMetaAt, config_pageSize, Nat.add_sub_cancel_left]
  rw [Nat.mul_div_cancel_left _ (by omega), Nat.mod_eq_of_lt (by omega : j + 1 < 2 ^ 16),
    show j + 1 + 1 = j + 2 from rfl, Nat.mod_eq_of_lt (by omega : 2 ^ K * (j + 2) < 2 ^ 32)]

end Cluster

/-- Slot `j` has a data page of its own inside the cluster, the one that `make` formats, and
all addresses of it lead back to the metadata of the slot. -/
structure SlotMapped (cfg : Config) (base j : Nat) : Prop where
  formatted : pageData cfg (slotMeta cfg base j) = (pageOf cfg (slotMeta cfg base j), cfg.pageSize)
  inside : base ≤ pageOf cfg (slotMeta cfg base j) ∧
    pageOf cfg (slotMeta cfg base j) + cfg.pageSize ≤ base + cfg.clusterSize
  distinct : ∀ i < cfg.clusterPageCount, i ≠ j →
    pageOf cfg (slotMeta cfg base i) ≠ pageOf cfg (slotMeta cfg base j)
  owned : ∀ a, pageOf cfg (slotMeta cfg base j) ≤ a →
    a < pageOf cfg (slotMeta cfg base j) + cfg.pageSize → owning cfg a = slotMeta cfg base j

/-- No slot of any cluster is mapped: `make` formats the first data page for all of
them, and `page` names another one. -/
theorem slot_never_mapped (K : Nat) (small : 6 ≤ K) (large : K ≤ 18) (base j : Nat)
    (aligned : (config (2 ^ K)).clusterSize ∣ base) (room : base + (config (2 ^ K)).clusterSize ≤ 2 ^ 64)
    (slot : j < (config (2 ^ K)).clusterPageCount) : ¬ SlotMapped (config (2 ^ K)) base j := by
  intro mapped
  have formatted := congrArg Prod.fst mapped.formatted
  rw [pageData_eq small large aligned room j slot] at formatted
  simp only [pageOf_eq small large aligned room j slot] at formatted
  have wide := cluster_wide K small large
  have last := slot_last K small large j slot
  have positive := Nat.two_pow_pos K
  have above : 2 * 2 ^ K ≤ 2 ^ K * (j + 2) := by
    rw [Nat.mul_comm]
    exact Nat.mul_le_mul_left _ (by omega)
  omega

theorem slot_never_mapped_first : ¬ SlotMapped (config (2 ^ 12)) (2 ^ 19) 0 :=
  slot_never_mapped 12 (by decide) (by decide) (2 ^ 19) 0 (by decide) (by decide) (by decide)

/-- The second slot of a cluster with pages of 4 KiB. -/
theorem second_slot_unmapped :
    (config 4096).clusterSize ∣ 2 ^ 19 ∧ 1 < (config 4096).clusterPageCount ∧
      ¬ SlotMapped (config 4096) (2 ^ 19) 1 := by
  refine ⟨by decide, by decide, ?_⟩
  intro mapped
  exact absurd mapped.formatted (by decide)

end PrototypeBundle.BinAlloc
