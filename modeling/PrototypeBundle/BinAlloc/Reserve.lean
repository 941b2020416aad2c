import PrototypeBundle.BinAlloc.Address

set_option autoImplicit false

-- Null is the address 0. A pad that is not empty is given back with `munmap`.

namespace PrototypeBundle.BinAlloc

-- On `std::size_t`, and on addresses.
def minus (a b : Nat) : Nat := (a + (2 ^ 64 - b)) % 2 ^ 64

def alignUp (address alignment : Nat) : Nat := alignDown ((address + alignment + (2 ^ 64 - 1)) % 2 ^ 64) alignment

structure Munmap where
  address : Nat
  length : Nat
  deriving DecidableEq, Repr

/-- `munmap` gives back all pages that have a byte of the range in them. -/
def Munmap.Frees (pageSize : Nat) (call : Munmap) (a : Nat) : Prop :=
  call.address ≤ a ∧ a < call.address + (call.length + (pageSize - 1)) / pageSize * pageSize

def unmapPad (address length : Nat) : List Munmap := if length = 0 then [] else [⟨address, length⟩]

structure Reservation where
  address : Nat
  munmaps : List Munmap
  deriving DecidableEq, Repr

def alignmentOr (pageSize alignment : Nat) : Nat := if alignment = 0 then pageSize else alignment

def paddedSize (pageSize size alignment : Nat) : Nat := (size + minus alignment pageSize) % 2 ^ 64

def startingPad (address alignment : Nat) : Nat := minus (alignUp address alignment) address

def endingPad (paddedSize startingPad size : Nat) : Nat := minus paddedSize ((startingPad + size) % 2 ^ 64)

-- `mmap` is the address that the call of that name with a length returns.
def reserve (pageSize : Nat) (mmap : Nat → Nat) (size alignment : Nat) : Reservation :=
  let alignment := alignmentOr pageSize alignment
  let padded := paddedSize pageSize size alignment
  let address := mmap padded
  if address = 0 then ⟨0, []⟩
  else
    let aligned := alignUp address alignment
    let starting := startingPad address alignment
    let ending := endingPad padded starting size
    ⟨aligned, unmapPad address starting ++ unmapPad ((aligned + size) % 2 ^ 64) ending⟩

/-- What `mmap` promises of a new mapping: it is no page at null, and no part of it is beyond the last address. -/
structure Mapping (pageSize address length : Nat) : Prop where
  page : pageSize ∣ address
  nonnull : 0 < address
  fits : address + length ≤ 2 ^ 64

/-- A part of the mapping is returned, and the rest given back. -/
structure Reserved (pageSize size alignment address length : Nat) (r : Reservation) : Prop where
  aligned : alignment ∣ r.address
  inside : address ≤ r.address ∧ r.address + size ≤ address + length
  unmapped : ∀ a, (∃ call ∈ r.munmaps, call.Frees pageSize a) ↔
    (address ≤ a ∧ a < address + length) ∧ ¬ (r.address ≤ a ∧ a < r.address + size)
  calls : ∀ call ∈ r.munmaps, pageSize ∣ call.address ∧ 0 < call.length
  -- the operands of the differences, as the code computes them
  differences : pageSize ≤ alignment ∧ address ≤ alignUp address alignment ∧
    startingPad address alignment + size ≤ paddedSize pageSize size alignment

section Arithmetic

theorem minus_eq {a b : Nat} (le : b ≤ a) (fits : a < 2 ^ 64) : minus a b = a - b := by
  unfold minus
  omega

theorem alignUp_eq {n address : Nat} (positive : 0 < address) (fits : address + 2 ^ n ≤ 2 ^ 64) :
    alignUp address (2 ^ n) = (address + 2 ^ n - 1) / 2 ^ n * 2 ^ n := by
  have power := Nat.two_pow_pos n
  have small : n < 64 := by
    by_contra large
    have more : 2 ^ 64 ≤ 2 ^ n := Nat.pow_le_pow_right (by omega) (by omega)
    omega
  have sum : (address + 2 ^ n + (2 ^ 64 - 1)) % 2 ^ 64 = address + 2 ^ n - 1 := by omega
  rw [alignUp, sum, alignDown_eq n _ small (by omega)]

theorem roundUp_bounds {pageSize alignment address : Nat} (positive : 0 < alignment) (pages : pageSize ∣ alignment)
    (page : pageSize ∣ address) :
    let rounded := (address + alignment - 1) / alignment * alignment
    alignment ∣ rounded ∧ address ≤ rounded ∧ rounded + pageSize ≤ address + alignment := by
  intro rounded
  have multiple : alignment ∣ rounded := Nat.dvd_mul_left ..
  have whole : alignment * ((address + alignment - 1) / alignment) + (address + alignment - 1) % alignment =
      address + alignment - 1 := Nat.div_add_mod ..
  have part := Nat.mod_lt (address + alignment - 1) positive
  have commuted : rounded = alignment * ((address + alignment - 1) / alignment) := Nat.mul_comm ..
  refine ⟨multiple, by omega, ?_⟩
  have gap : pageSize ∣ address + alignment - rounded :=
    Nat.dvd_sub (Nat.dvd_add page pages) (Nat.dvd_trans pages multiple)
  have least := Nat.le_of_dvd (by omega) gap
  omega

theorem whole_pages {pageSize length : Nat} (positive : 0 < pageSize) (pages : pageSize ∣ length) :
    (length + (pageSize - 1)) / pageSize * pageSize = length := by
  obtain ⟨count, rfl⟩ := pages
  rw [Nat.mul_add_div positive, Nat.div_eq_of_lt (by omega), Nat.add_zero, Nat.mul_comm]

theorem unmapPad_frees {pageSize address length : Nat} (positive : 0 < pageSize) (pages : pageSize ∣ length) (a : Nat) :
    (∃ call ∈ unmapPad address length, call.Frees pageSize a) ↔ address ≤ a ∧ a < address + length := by
  unfold unmapPad
  by_cases empty : length = 0
  · subst empty
    simp
  · simp [empty, Munmap.Frees, whole_pages positive pages]

theorem unmapPad_positive {address length : Nat} {call : Munmap} (member : call ∈ unmapPad address length) :
    0 < call.length := by
  unfold unmapPad at member
  by_cases empty : length = 0
  · simp [empty] at member
  · rw [if_neg empty, List.mem_singleton] at member
    subst member
    exact Nat.pos_of_ne_zero empty

theorem unmapPad_page {pageSize address length : Nat} {call : Munmap} (page : pageSize ∣ address)
    (member : call ∈ unmapPad address length) : pageSize ∣ call.address := by
  unfold unmapPad at member
  by_cases empty : length = 0
  · simp [empty] at member
  · rw [if_neg empty, List.mem_singleton] at member
    subst member
    exact page

end Arithmetic

section Reserve

variable {k size : Nat} (positive : 0 < size) (pages : 2 ^ k ∣ size)

include positive pages

theorem reserve_power {mmap : Nat → Nat} {n address : Nat} (le : 2 ^ k ≤ 2 ^ n)
    (mapped : mmap (paddedSize (2 ^ k) size (2 ^ n)) = address) (mapping : Mapping (2 ^ k) address (size + (2 ^ n - 2 ^ k))) :
    Reserved (2 ^ k) size (2 ^ n) address (size + (2 ^ n - 2 ^ k)) (reserve (2 ^ k) mmap size (2 ^ n)) := by
  have page := Nat.two_pow_pos k
  have power := Nat.two_pow_pos n
  have least := Nat.le_of_dvd positive pages
  have divides : 2 ^ k ∣ 2 ^ n := Nat.pow_dvd_pow 2 ((Nat.pow_le_pow_iff_right (by omega)).mp le)
  have fits := mapping.fits
  have nonnull := mapping.nonnull
  have aligned := alignUp_eq nonnull (show address + 2 ^ n ≤ 2 ^ 64 by omega)
  obtain ⟨multiple, above, below⟩ := roundUp_bounds power divides mapping.page
  rw [← aligned] at multiple above below
  have padded : paddedSize (2 ^ k) size (2 ^ n) = size + (2 ^ n - 2 ^ k) := by
    rw [paddedSize, minus_eq le (by omega), Nat.mod_eq_of_lt (by omega)]
  have starting : startingPad address (2 ^ n) = alignUp address (2 ^ n) - address := minus_eq above (by omega)
  have ending : endingPad (size + (2 ^ n - 2 ^ k)) (startingPad address (2 ^ n)) size =
      address + (size + (2 ^ n - 2 ^ k)) - (alignUp address (2 ^ n) + size) := by
    rw [endingPad, starting, Nat.mod_eq_of_lt (by omega), minus_eq (by omega) (by omega)]
    omega
  have run : reserve (2 ^ k) mmap size (2 ^ n) = ⟨alignUp address (2 ^ n),
      unmapPad address (alignUp address (2 ^ n) - address) ++ unmapPad (alignUp address (2 ^ n) + size)
        (address + (size + (2 ^ n - 2 ^ k)) - (alignUp address (2 ^ n) + size))⟩ := by
    have given : alignmentOr (2 ^ k) (2 ^ n) = 2 ^ n := if_neg (by omega)
    simp only [reserve, given, mapped]
    rw [if_neg (by omega), padded, ending, starting]
    by_cases none : address + (size + (2 ^ n - 2 ^ k)) - (alignUp address (2 ^ n) + size) = 0
    · rw [none, unmapPad, unmapPad, unmapPad, if_pos rfl, if_pos rfl]
    · rw [Nat.mod_eq_of_lt (by omega)]
  have startPages : 2 ^ k ∣ alignUp address (2 ^ n) - address :=
    Nat.dvd_sub (Nat.dvd_trans divides multiple) mapping.page
  have endPages : 2 ^ k ∣ address + (size + (2 ^ n - 2 ^ k)) - (alignUp address (2 ^ n) + size) :=
    Nat.dvd_sub (Nat.dvd_add mapping.page (Nat.dvd_add pages (Nat.dvd_sub divides (Nat.dvd_refl _))))
      (Nat.dvd_add (Nat.dvd_trans divides multiple) pages)
  rw [run]
  constructor
  case aligned => exact multiple
  case inside =>
    refine ⟨above, ?_⟩
    change alignUp address (2 ^ n) + size ≤ address + (size + (2 ^ n - 2 ^ k))
    omega
  case unmapped =>
    intro a
    simp only [List.mem_append, or_and_right, exists_or, unmapPad_frees page startPages, unmapPad_frees page endPages]
    omega
  case calls =>
    intro call member
    rcases List.mem_append.mp member with first | second
    · exact ⟨unmapPad_page mapping.page first, unmapPad_positive first⟩
    · exact ⟨unmapPad_page (Nat.dvd_add (Nat.dvd_trans divides multiple) pages) second, unmapPad_positive second⟩
  case differences =>
    refine ⟨le, above, ?_⟩
    rw [starting, padded]
    omega

/-- The padding of one page less than the alignment is always enough. Alignment 0 stands for the size of a page. -/
theorem reserve_reserved {mmap : Nat → Nat} {alignment address : Nat}
    (power : alignment = 0 ∨ ∃ n, alignment = 2 ^ n ∧ 2 ^ k ≤ alignment)
    (mapped : mmap (paddedSize (2 ^ k) size (alignmentOr (2 ^ k) alignment)) = address)
    (mapping : Mapping (2 ^ k) address (size + (alignmentOr (2 ^ k) alignment - 2 ^ k))) :
    Reserved (2 ^ k) size (alignmentOr (2 ^ k) alignment) address (size + (alignmentOr (2 ^ k) alignment - 2 ^ k))
      (reserve (2 ^ k) mmap size alignment) := by
  rcases power with rfl | ⟨n, rfl, le⟩
  · have page : alignmentOr (2 ^ k) 0 = 2 ^ k := rfl
    have same : reserve (2 ^ k) mmap size 0 = reserve (2 ^ k) mmap size (2 ^ k) := by
      have given : alignmentOr (2 ^ k) (2 ^ k) = 2 ^ k := if_neg (Nat.two_pow_pos k).ne'
      simp only [reserve, page, given]
    rw [page] at mapped mapping ⊢
    rw [same]
    exact reserve_power positive pages (Nat.le_refl _) mapped mapping
  · have given : alignmentOr (2 ^ k) (2 ^ n) = 2 ^ n := if_neg (Nat.two_pow_pos n).ne'
    rw [given] at mapped mapping ⊢
    exact reserve_power positive pages le mapped mapping

end Reserve

-- A mapping one page above an aligned address: almost all of the padding is in front.
theorem reserve_reserved_cluster :
    Reserved (2 ^ 12) (2 ^ 19) (2 ^ 19) (2 ^ 40 + 2 ^ 12) (2 ^ 19 + (2 ^ 19 - 2 ^ 12))
      (reserve (2 ^ 12) (fun _ => 2 ^ 40 + 2 ^ 12) (2 ^ 19) (2 ^ 19)) :=
  reserve_reserved (by decide) (by decide) (Or.inr ⟨19, rfl, by decide⟩) rfl ⟨by decide, by decide, by decide⟩

section Cluster

variable {K : Nat} (small : 6 ≤ K) (large : K ≤ 18)

include small large

theorem cluster_placed {mmap : Nat → Nat} {address : Nat}
    (mapped : mmap (paddedSize (2 ^ K) (config (2 ^ K)).clusterSize (config (2 ^ K)).clusterSize) = address)
    (mapping : Mapping (2 ^ K) address ((config (2 ^ K)).clusterSize + ((config (2 ^ K)).clusterSize - 2 ^ K))) :
    (config (2 ^ K)).clusterSize ∣ (reserve (2 ^ K) mmap (config (2 ^ K)).clusterSize (config (2 ^ K)).clusterSize).address ∧
      (reserve (2 ^ K) mmap (config (2 ^ K)).clusterSize (config (2 ^ K)).clusterSize).address +
        (config (2 ^ K)).clusterSize ≤ 2 ^ 64 := by
  have wide := cluster_wide K small large
  rw [clusterSize_eq K small large] at mapped mapping wide ⊢
  have positive := Nat.two_pow_pos K
  have pages : 2 ^ K ∣ 2 ^ (2 * K - 5) := Nat.pow_dvd_pow 2 (by omega)
  have reserved := reserve_power (by omega) pages (by omega) mapped mapping
  have inside := reserved.inside
  have fits := mapping.fits
  exact ⟨reserved.aligned, by omega⟩

end Cluster

section Failure

-- `MAP_FAILED`, the address -1.
def mapFailed : Nat := 2 ^ 64 - 1

/-- `reserve` returns null and leaves all mappings as they are. -/
structure Fails (pageSize : Nat) (mmap : Nat → Nat) (size alignment : Nat) : Prop where
  null : (reserve pageSize mmap size alignment).address = 0
  silent : (reserve pageSize mmap size alignment).munmaps = []

theorem reserve_failed (pageSize size alignment : Nat) :
    (reserve pageSize (fun _ => mapFailed) size alignment).address = alignUp mapFailed (alignmentOr pageSize alignment) :=
  rfl

/-- A null result is one byte above the address of the failure, and that byte is given back. -/
theorem reserve_never_fails (pageSize size alignment : Nat) : ¬ Fails pageSize (fun _ => mapFailed) size alignment := by
  rintro ⟨null, silent⟩
  rw [reserve_failed] at null
  have byte : startingPad mapFailed (alignmentOr pageSize alignment) = 1 := by
    rw [startingPad, null]
    rfl
  have first : (⟨mapFailed, 1⟩ : Munmap) ∈ (reserve pageSize (fun _ => mapFailed) size alignment).munmaps := by
    simp only [reserve]
    rw [if_neg (by decide), byte]
    exact List.mem_append_left _ (List.mem_singleton_self _)
  rw [silent] at first
  exact List.not_mem_nil first

theorem reserve_failed_null (pageSize size n : Nat) (positive : 0 < n) (small : n < 64) :
    (reserve pageSize (fun _ => mapFailed) size (2 ^ n)).address = 0 := by
  have two : 2 ^ 1 ≤ 2 ^ n := Nat.pow_le_pow_right (by omega) positive
  have word : 2 ^ n < 2 ^ 64 := Nat.pow_lt_pow_right (by omega) small
  have given : alignmentOr pageSize (2 ^ n) = 2 ^ n := if_neg (by omega)
  have wrapped : (mapFailed + 2 ^ n + (2 ^ 64 - 1)) % 2 ^ 64 = 2 ^ n - 2 := by
    unfold mapFailed
    omega
  rw [reserve_failed, given, alignUp, wrapped, alignDown_eq n _ small (by omega), Nat.div_eq_of_lt (by omega), Nat.zero_mul]

end Failure

end PrototypeBundle.BinAlloc
