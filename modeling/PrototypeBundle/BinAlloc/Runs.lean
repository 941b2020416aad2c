import PrototypeBundle.BinAlloc.Layers
import Mathlib.Data.List.Nodup

set_option autoImplicit false

namespace PrototypeBundle.BinAlloc

/-- What `reserve` promises for the address it returns. -/
structure Reservable (cfg : Config) (h : Heap) (base : Nat) : Prop where
  aligned : cfg.clusterSize ∣ base
  positive : 0 < base
  room : base + cfg.clusterSize ≤ 2 ^ 64
  apart : ∀ c ∈ h.reserved, base + cfg.clusterSize ≤ c ∨ c + cfg.clusterSize ≤ base
  bins : base + cfg.clusterSize ≤ h.pageBins ∨ h.pageBins + 72 * cfg.binCount.toNat ≤ base

structure Heap.Reserves (h : Heap) (index : Nat) : Prop where
  bin : h.bins index = 0
  returned : h.mem (PageMeta.next (h.binHead index)) = h.binTail index
  pages : h.pageFreeList = 0
  clusters : h.clusterFreeList = 0

def addresses (live : List Block) : List Nat := live.map Block.address

/-- What the callers and the operating system see to. -/
def Enabled (cfg : Config) (s : State) : Op → Prop
  | .alloc size base =>
      size ≤ cfg.pageMaxBlockSize ∧ (s.heap.Reserves (cfg.binIndex size) → Reservable cfg s.heap base)
  | .free address => address ∈ addresses s.live
  | .write address _ => ∃ b ∈ s.live, b.address ≤ address ∧ address < b.address + b.extent cfg

/-- No second page is formatted, no link is taken from a block in use or from the last block
of a bin, and no page is released. -/
def Ordinary (cfg : Config) (s : State) : Op → Prop
  | .alloc size _ =>
      let head := s.heap.bins (cfg.binIndex size)
      if head = 0 then s.heap.pageFreeList = 0 else head ∉ addresses s.live ∧ s.heap.mem head ≠ 0
  | .free address => s.heap.mem (PageMeta.used (owning cfg address)) ≠ 1
  | .write _ _ => True

instance (cfg : Config) (h : Heap) (base : Nat) : Decidable (Reservable cfg h base) :=
  decidable_of_iff
    (cfg.clusterSize ∣ base ∧ 0 < base ∧ base + cfg.clusterSize ≤ 2 ^ 64 ∧
      (∀ c ∈ h.reserved, base + cfg.clusterSize ≤ c ∨ c + cfg.clusterSize ≤ base) ∧
      (base + cfg.clusterSize ≤ h.pageBins ∨ h.pageBins + 72 * cfg.binCount.toNat ≤ base))
    ⟨fun ⟨aligned, positive, room, apart, bins⟩ => ⟨aligned, positive, room, apart, bins⟩,
      fun ⟨aligned, positive, room, apart, bins⟩ => ⟨aligned, positive, room, apart, bins⟩⟩

instance (h : Heap) (index : Nat) : Decidable (h.Reserves index) :=
  decidable_of_iff
    (h.bins index = 0 ∧ h.mem (PageMeta.next (h.binHead index)) = h.binTail index ∧ h.pageFreeList = 0 ∧
      h.clusterFreeList = 0)
    ⟨fun ⟨bin, returned, pages, clusters⟩ => ⟨bin, returned, pages, clusters⟩,
      fun ⟨bin, returned, pages, clusters⟩ => ⟨bin, returned, pages, clusters⟩⟩

instance (cfg : Config) (s : State) : (op : Op) → Decidable (Enabled cfg s op)
  | .alloc _ _ => inferInstanceAs (Decidable (_ ∧ _))
  | .free _ => inferInstanceAs (Decidable (_ ∈ _))
  | .write _ _ => inferInstanceAs (Decidable (∃ b ∈ s.live, _))

instance (cfg : Config) (s : State) : (op : Op) → Decidable (Ordinary cfg s op)
  | .alloc _ _ => inferInstanceAs (Decidable (ite _ _ _))
  | .free _ => inferInstanceAs (Decidable (_ ≠ _))
  | .write _ _ => inferInstanceAs (Decidable True)

structure Placed (cfg : Config) (h : Heap) (b : Block) : Prop where
  nonnull : b.address ≠ 0
  inside : ∃ c ∈ h.reserved, c + cfg.pageSize ≤ b.address ∧ b.address + b.extent cfg ≤ c + cfg.clusterSize

structure Safe (cfg : Config) (s : State) : Prop where
  placed : ∀ b ∈ s.live, Placed cfg s.heap b
  apart : s.live.Pairwise fun b b' =>
    b.address + b.extent cfg ≤ b'.address ∨ b'.address + b'.extent cfg ≤ b.address

theorem addresses_free (live : List Block) (address : Nat) :
    addresses (live.eraseP (·.address = address)) = (addresses live).erase address := by
  induction live with
  | nil => rfl
  | cons b rest ih =>
      by_cases same : b.address = address
      · simp [addresses, same]
      · simp only [addresses] at ih
        simp [addresses, same, ih]

def block (K c index n : Nat) : Nat := c + 2 ^ K + n * 2 ^ (index + 4)

/-- The first page of the cluster `c` serves the bin `index`, and nothing else has been
allocated. -/
structure Filled (K c index : Nat) (h : Heap) : Prop where
  fits : index + 6 ≤ K
  aligned : (config (2 ^ K)).clusterSize ∣ c
  positive : 0 < c
  room : c + (config (2 ^ K)).clusterSize ≤ 2 ^ 64
  apart : c + (config (2 ^ K)).clusterSize ≤ h.pageBins ∨ h.pageBins + 72 * (K - 4) ≤ c
  reserved : h.reserved = [c]
  committed : h.decommitted = []
  others : ∀ j, j ≠ index → h.bins j = 0
  slots : 6 < K → h.pageFreeList ≠ 0
  owner : h.mem (PageMeta.binIndex (c + 32)) = index
  used : h.mem (PageMeta.used (c + 32)) < 2 ^ 16
  tethered : h.mem (PageMeta.isTethered (c + 32)) = 1 ∨
    h.mem (PageMeta.isTethered (c + 32)) = 0 ∧ h.mem (PageMeta.next (h.binHead index)) = h.binTail index

structure Served (K c index : Nat) (live : List Block) : Prop where
  sizes : ∀ b ∈ live, (config (2 ^ K)).binIndex b.size = index
  places : ∀ b ∈ live, b.address = block K c index 0 ∨ b.address = block K c index 2
  distinct : (addresses live).Nodup

def Spare (c : Nat) (s : State) (other : Nat) : Prop :=
  s.heap.mem (PageMeta.freeList (c + 32)) = 0 ∨
    s.heap.mem (PageMeta.freeList (c + 32)) = other ∧ other ∉ addresses s.live

structure First (K c index : Nat) (s : State) : Prop where
  bin : s.heap.bins index = block K c index 1
  next : s.heap.mem (block K c index 1) = block K c index 2
  unused : block K c index 2 ∉ addresses s.live
  spare : Spare c s (block K c index 0)

structure Later (c index head other : Nat) (s : State) : Prop where
  bin : s.heap.bins index = head
  inUse : head ∈ addresses s.live → Spare c s other
  freed : head ∉ addresses s.live → s.heap.mem head = 0 ∨
    s.heap.mem head = other ∧ other ∉ addresses s.live ∧ s.heap.mem (PageMeta.freeList (c + 32)) = head

structure Going (K c index : Nat) (s : State) : Prop where
  filled : Filled K c index s.heap
  served : Served K c index s.live
  lists : First K c index s ∨ Later c index (block K c index 0) (block K c index 2) s ∨
    Later c index (block K c index 2) (block K c index 0) s

def Inv (K pageBins : Nat) (s : State) : Prop := s = start (config (2 ^ K)) pageBins ∨ ∃ c index, Going K c index s

section Steps

variable {K c index : Nat} (small : 6 ≤ K) (large : K ≤ 18)

theorem extent_eq {live : List Block} (served : Served K c index live) {b : Block} (member : b ∈ live) :
    b.extent (config (2 ^ K)) = 2 ^ (index + 4) := by
  rw [Block.extent, served.sizes b member, binIndexMaxSize_eq]

theorem block_bounds (fits : index + 6 ≤ K) {n : Nat} (few : n ≤ 2) :
    c + 2 ^ K ≤ block K c index n ∧ block K c index n + 2 ^ (index + 4) ≤ c + 2 * 2 ^ K := by
  have four := four_blocks fits
  have below : n * 2 ^ (index + 4) ≤ 2 * 2 ^ (index + 4) := Nat.mul_le_mul_right _ few
  simp only [block]
  omega

theorem Filled.bins {h : Heap} (filled : Filled K c index h) (head : Nat) :
    Filled K c index { h with bins := Function.update h.bins index head } :=
  { filled with others := fun j other => (Function.update_of_ne other ..).trans (filled.others j other) }

theorem Served.alloc {live : List Block} (served : Served K c index live) {address size : Nat}
    (place : address = block K c index 0 ∨ address = block K c index 2) (unused : address ∉ addresses live)
    (bin : (config (2 ^ K)).binIndex size = index) : Served K c index ({ address, size } :: live) where
  sizes := by
    intro b member
    cases member with
    | head => exact bin
    | tail _ member => exact served.sizes b member
  places := by
    intro b member
    cases member with
    | head => exact place
    | tail _ member => exact served.places b member
  distinct := List.nodup_cons.mpr ⟨unused, served.distinct⟩

theorem Served.free {live : List Block} (served : Served K c index live) (address : Nat) :
    Served K c index (live.eraseP (·.address = address)) where
  sizes b member := served.sizes b (List.mem_of_mem_eraseP member)
  places b member := served.places b (List.mem_of_mem_eraseP member)
  distinct := by
    rw [addresses_free]
    exact served.distinct.erase address

theorem Served.place {live : List Block} (served : Served K c index live) {address : Nat}
    (member : address ∈ addresses live) : address = block K c index 0 ∨ address = block K c index 2 := by
  obtain ⟨b, inside, rfl⟩ := List.mem_map.mp member
  exact served.places b inside

theorem Later.taken {s next : State} {head other : Nat} (spare : Spare c s head) (different : head ≠ other)
    (bin : next.heap.bins index = other) (mem : next.heap.mem = s.heap.mem)
    (live : addresses next.live = other :: addresses s.live) : Later c index other head next where
  bin := bin
  inUse _ := by
    rw [Spare, mem, live]
    cases spare with
    | inl empty => exact Or.inl empty
    | inr here => exact Or.inr ⟨here.1, by simp [different, here.2]⟩
  freed unused := by
    rw [live] at unused
    exact absurd (List.mem_cons_self ..) unused

theorem Later.free {s next : State} {address head other : Nat} (later : Later c index head other s)
    (distinct : (addresses s.live).Nodup) (member : address ∈ addresses s.live)
    (place : address = head ∨ address = other) (bins : next.heap.bins = s.heap.bins)
    (live : addresses next.live = (addresses s.live).erase address)
    (link : next.heap.mem address = s.heap.mem (PageMeta.freeList (c + 32)))
    (list : next.heap.mem (PageMeta.freeList (c + 32)) = address)
    (frame : head ≠ address → next.heap.mem head = s.heap.mem head) : Later c index head other next where
  bin := by rw [bins, later.bin]
  inUse member' := by
    rw [live, distinct.mem_erase_iff] at member'
    have freed : address = other := place.resolve_left (Ne.symm member'.1)
    refine Or.inr ⟨list.trans freed, ?_⟩
    rw [live, freed]
    exact distinct.not_mem_erase
  freed unused := by
    rw [live, distinct.mem_erase_iff] at unused
    by_cases same : head = address
    · subst same
      -- the link of the head is the list of the page as it was
      cases later.inUse member with
      | inl empty => exact Or.inl (link.trans empty)
      | inr spare =>
          refine Or.inr ⟨link.trans spare.1, ?_, list⟩
          rw [live]
          exact fun still => spare.2 (List.mem_of_mem_erase still)
    · have freed : address = other := place.resolve_left (Ne.symm same)
      cases later.freed fun still => unused ⟨same, still⟩ with
      | inl last => exact Or.inl ((frame same).trans last)
      | inr spare => exact absurd (freed ▸ member) spare.2.1

include small large

theorem Filled.data {h : Heap} (filled : Filled K c index h) {mem' : Nat → Nat}
    (same : ∀ a, a < c + 2 ^ K ∨ c + (config (2 ^ K)).clusterSize ≤ a → mem' a = h.mem a) :
    Filled K c index { h with mem := mem' } := by
  have page := Nat.pow_le_pow_right (show 0 < 2 by omega) small
  have wide := cluster_wide K small large
  have sentinel : mem' (h.binHead index) = h.mem (h.binHead index) := by
    refine same _ ?_
    have apart := filled.apart
    have fits := filled.fits
    simp only [Heap.binHead]
    omega
  have header (k : Nat) (inside : k < 32) : mem' (c + 32 + k) = h.mem (c + 32 + k) := same _ (by omega)
  have owner := filled.owner
  have used := filled.used
  have tethered := filled.tethered
  rw [← header 26 (by decide)] at owner
  rw [← header 24 (by decide)] at used
  rw [← header 28 (by decide), ← sentinel] at tethered
  exact { filled with owner, used, tethered }

theorem Going.safe {s : State} (going : Going K c index s) : Safe (config (2 ^ K)) s where
  placed b member := by
    have wide := cluster_wide K small large
    have extent := extent_eq going.served member
    have bounds : c + 2 ^ K ≤ b.address ∧ b.address + 2 ^ (index + 4) ≤ c + 2 * 2 ^ K := by
      cases going.served.places b member with
      | inl first => exact first ▸ block_bounds going.filled.fits (by omega)
      | inr third => exact third ▸ block_bounds going.filled.fits (by omega)
    have positive := going.filled.positive
    refine ⟨by omega, c, by simp [going.filled.reserved], ?_⟩
    rw [extent, config_pageSize]
    omega
  apart := by
    have distinct : s.live.Pairwise fun b b' => b.address ≠ b'.address := List.pairwise_map.mp going.served.distinct
    refine distinct.imp_of_mem ?_
    intro b b' first second different
    rw [extent_eq going.served first, extent_eq going.served second]
    have place := going.served.places b first
    have place' := going.served.places b' second
    simp only [block] at place place'
    omega

omit small in
theorem binAlloc_empty {h : Heap} {size base : Nat} (fits : index + 6 ≤ K) (bin : (config (2 ^ K)).binIndex size = index)
    (empty : h.bins index = 0) : h.binAlloc (config (2 ^ K)) size base = h.fetchPage (config (2 ^ K)) index base := by
  simp only [Heap.binAlloc, bin, noBin]
  rw [if_neg (by omega), if_pos empty]

omit small in
theorem binAlloc_head {h : Heap} {size : Nat} (base : Nat) (fits : index + 6 ≤ K) (bin : (config (2 ^ K)).binIndex size = index)
    (some' : h.bins index ≠ 0) (here : h.mapped (config (2 ^ K)) (h.bins index) = true) :
    h.binAlloc (config (2 ^ K)) size base =
      some ({ h with bins := Function.update h.bins index (h.mem (h.bins index)) }, h.mem (h.bins index)) := by
  simp only [Heap.binAlloc, bin, noBin]
  rw [if_neg (by omega), if_neg some', Heap.load_bind _ here]
  rfl

omit small large in
theorem step_alloc {cfg : Config} {s : State} {size base address : Nat} {heap : Heap}
    (run : s.heap.binAlloc cfg size base = some (heap, address)) :
    State.step cfg s (.alloc size base) = some { heap, live := { address, size } :: s.live } := by
  simp [State.step, run]

theorem alloc_start {pageBins size base : Nat}
    (enabled : Enabled (config (2 ^ K)) (start (config (2 ^ K)) pageBins) (.alloc size base)) :
    ∃ next, State.step (config (2 ^ K)) (start (config (2 ^ K)) pageBins) (.alloc size base) = some next ∧
      Going K base ((config (2 ^ K)).binIndex size) next := by
  obtain ⟨served, reserves⟩ := enabled
  have fits := binIndex_fits small served
  have count := binCount_eq small
  have page := Nat.pow_le_pow_right (show 0 < 2 by omega) small
  have wide := cluster_wide K small large
  obtain ⟨index, bin⟩ : ∃ index, (config (2 ^ K)).binIndex size = index := ⟨_, rfl⟩
  rw [bin] at fits reserves ⊢
  let h := (start (config (2 ^ K)) pageBins).heap
  have empty : h.mem (h.binHead index) = h.binTail index := by
    have within : pageBins ≤ pageBins + 72 * index ∧
        (pageBins + 72 * index - pageBins) / 72 < (config (2 ^ K)).binCount.toNat := by
      omega
    have first : (pageBins + 72 * index - pageBins) % 72 = 0 := by omega
    simp only [h, start, Heap.binHead, Heap.binTail]
    rw [if_pos within, if_pos first]
  have reservable := reserves { bin := rfl, returned := empty, pages := rfl, clusters := rfl }
  have apart : base + (config (2 ^ K)).clusterSize ≤ pageBins ∨ pageBins + 72 * (K - 4) ≤ base := by
    have apart := reservable.bins
    simp only [start] at apart
    omega
  obtain ⟨mem', next, run, frame, several, second, list, used, owner, tethered⟩ :=
    fetchPage_spec (c := base) (h := h) small large fits reservable.aligned reservable.room rfl rfl rfl empty
  rw [← binAlloc_empty large fits bin rfl] at run
  have sentinel : mem' (h.binHead index) = h.binTail index := by
    rw [← empty]
    refine frame _ ?_
    simp only [h, start, Heap.binHead]
    omega
  refine ⟨_, step_alloc run, ?filled, ?served, ?lists⟩
  case filled =>
    exact {
      fits, owner, used, apart
      aligned := reservable.aligned
      positive := reservable.positive
      room := reservable.room
      reserved := rfl
      committed := rfl
      others := fun j other => Function.update_of_ne other ..
      slots := several
      tethered := Or.inr ⟨tethered, sentinel⟩ }
  case served =>
    have none' : Served K base index [] := ⟨by simp, by simp, by simp [addresses]⟩
    exact none'.alloc (by simp [block]) (by simp [addresses]) bin
  case lists =>
    have positive := Nat.two_pow_pos (index + 4)
    refine Or.inl ⟨?_, ?_, ?_, Or.inl list⟩
    · simp [block]
    · simpa [block] using second
    · simp only [addresses, List.map_cons, List.mem_singleton, block, start, List.map_nil]
      omega

theorem Going.take {s : State} (going : Going K c index s) (base : Nat) {size head other : Nat}
    (bin : (config (2 ^ K)).binIndex size = index) (first : s.heap.bins index = head) (low : c + 2 ^ K ≤ head)
    (high : head < c + 2 * 2 ^ K) (link : s.heap.mem head = other)
    (place : other = block K c index 0 ∨ other = block K c index 2) (unused : other ∉ addresses s.live) :
    ∃ next, State.step (config (2 ^ K)) s (.alloc size base) = some next ∧ Filled K c index next.heap ∧
      Served K c index next.live ∧ next.heap.bins index = other ∧ next.heap.mem = s.heap.mem ∧
      addresses next.live = other :: addresses s.live := by
  have wide := cluster_wide K small large
  have filled := going.filled
  have here : s.heap.mapped (config (2 ^ K)) head = true := by
    rw [Heap.mapped_eq, filled.committed]
    exact accessible_cluster (c := c) (by simp [filled.reserved]) (by omega) (by omega)
  subst first
  have run := binAlloc_head large base filled.fits bin (by have positive := filled.positive; omega) here
  rw [link] at run
  exact ⟨_, step_alloc run, filled.bins other, going.served.alloc place unused bin, Function.update_self .., rfl, rfl⟩

-- A freed head whose link is not null: the two blocks change places.
theorem Going.swap {s : State} (going : Going K c index s) (base : Nat) {size head other : Nat}
    (bin : (config (2 ^ K)).binIndex size = index) (later : Later c index head other s) (low : c + 2 ^ K ≤ head)
    (high : head < c + 2 * 2 ^ K) (place : other = block K c index 0 ∨ other = block K c index 2)
    (different : head ≠ other) (unused : head ∉ addresses s.live) (more : s.heap.mem head ≠ 0) :
    ∃ next, State.step (config (2 ^ K)) s (.alloc size base) = some next ∧ Filled K c index next.heap ∧
      Served K c index next.live ∧ Later c index other head next := by
  obtain ⟨link, free, list⟩ := (later.freed unused).resolve_left more
  obtain ⟨next, step, filled, served, bin', mem, live⟩ :=
    going.take small large base bin later.bin low high link place free
  exact ⟨next, step, filled, served, Later.taken (Or.inr ⟨list, unused⟩) different bin' mem live⟩

theorem alloc_going {s : State} (going : Going K c index s) {size base : Nat}
    (enabled : Enabled (config (2 ^ K)) s (.alloc size base)) (ordinary : Ordinary (config (2 ^ K)) s (.alloc size base)) :
    ∃ next, State.step (config (2 ^ K)) s (.alloc size base) = some next ∧ Going K c index next := by
  have fits := binIndex_fits small enabled.1
  have filled := going.filled
  have positive := Nat.two_pow_pos (index + 4)
  have different : block K c index 0 ≠ block K c index 2 := by
    simp only [block]
    omega
  have bin : (config (2 ^ K)).binIndex size = index := by
    by_contra other
    -- another bin is empty, and only pages of 64 bytes leave no slot for it
    have empty := filled.others _ other
    simp only [Ordinary, empty, if_true] at ordinary
    have slots := filled.slots
    have fits' := filled.fits
    omega
  have positive' := filled.positive
  have bounds (n : Nat) (few : n ≤ 2) := block_bounds (c := c) filled.fits few
  simp only [Ordinary, bin] at ordinary
  cases going.lists with
  | inl first =>
      obtain ⟨next, step, filled', served', bin', mem, live⟩ := going.take small large base bin first.bin
        (bounds 1 (by omega)).1 (by have := bounds 1 (by omega); omega) first.next (Or.inr rfl) first.unused
      exact ⟨next, step, filled', served', Or.inr (Or.inr (Later.taken first.spare different bin' mem live))⟩
  | inr later =>
      cases later with
      | inl later =>
          rw [later.bin, if_neg (by have := bounds 0 (by omega); omega)] at ordinary
          obtain ⟨next, step, filled', served', later'⟩ := going.swap small large base bin later
            (bounds 0 (by omega)).1 (by have := bounds 0 (by omega); omega) (Or.inr rfl) different ordinary.1 ordinary.2
          exact ⟨next, step, filled', served', Or.inr (Or.inr later')⟩
      | inr later =>
          rw [later.bin, if_neg (by have := bounds 2 (by omega); omega)] at ordinary
          obtain ⟨next, step, filled', served', later'⟩ := going.swap small large base bin later
            (bounds 2 (by omega)).1 (by have := bounds 2 (by omega); omega) (Or.inl rfl) different.symm ordinary.1
            ordinary.2
          exact ⟨next, step, filled', served', Or.inr (Or.inl later')⟩

theorem free_going {s : State} (going : Going K c index s) {address : Nat}
    (enabled : Enabled (config (2 ^ K)) s (.free address)) (ordinary : Ordinary (config (2 ^ K)) s (.free address)) :
    ∃ next, State.step (config (2 ^ K)) s (.free address) = some next ∧ Going K c index next := by
  have filled := going.filled
  have served := going.served
  have wide := cluster_wide K small large
  have size := Nat.pow_le_pow_right (show 0 < 2 by omega) small
  have member : address ∈ addresses s.live := enabled
  have place := served.place member
  have bounds : c + 2 ^ K ≤ address ∧ address + 2 ^ (index + 4) ≤ c + 2 * 2 ^ K := by
    cases place with
    | inl first => exact first ▸ block_bounds filled.fits (by omega)
    | inr third => exact third ▸ block_bounds filled.fits (by omega)
  have positive := Nat.two_pow_pos (index + 4)
  have owns : owning (config (2 ^ K)) address = c + 32 := by
    have owns := owning_eq small large filled.aligned filled.room (address - c) (by omega)
    rwa [show c + (address - c) = address by omega] at owns
  simp only [Ordinary, owns] at ordinary
  obtain ⟨mem', run, frame, link, list, used, owner, tethered⟩ := freeBlock_spec small large filled.fits
    (by simp [filled.reserved]) filled.committed filled.apart filled.owner ordinary filled.used filled.tethered bounds.1
    (by omega)
  let next : State := { heap := { s.heap with mem := mem' }, live := s.live.eraseP (·.address = address) }
  have step : State.step (config (2 ^ K)) s (.free address) = some next := by
    simp [State.step, Heap.binFree, owns, run, next]
  refine ⟨next, step, ?filled, served.free address, ?lists⟩
  case filled => exact { filled with owner, used, tethered := Or.inl tethered }
  case lists =>
    have live : addresses next.live = (addresses s.live).erase address := addresses_free s.live address
    have kept (n : Nat) (few : n ≤ 2) (other : block K c index n ≠ address) :
        mem' (block K c index n) = s.heap.mem (block K c index n) := by
      have bounds := block_bounds (c := c) filled.fits few
      exact frame _ bounds.1 (by omega) other
    cases going.lists with
    | inl first =>
        have freed : address = block K c index 0 := place.resolve_right fun third => first.unused (third ▸ member)
        refine Or.inl ⟨first.bin, ?_, ?_, Or.inr ⟨list.trans freed, ?_⟩⟩
        · refine (kept 1 (by omega) ?_).trans first.next
          rw [freed]
          simp only [block]
          omega
        · rw [live]
          exact fun still => first.unused (List.mem_of_mem_erase still)
        · rw [live, freed]
          exact served.distinct.not_mem_erase
    | inr later =>
        cases later with
        | inl later =>
            exact Or.inr (Or.inl (later.free served.distinct member place rfl live link list (kept 0 (by omega))))
        | inr later =>
            exact Or.inr (Or.inr (later.free served.distinct member place.symm rfl live link list (kept 2 (by omega))))

theorem write_going {s : State} (going : Going K c index s) {address value : Nat}
    (enabled : Enabled (config (2 ^ K)) s (.write address value)) :
    ∃ next, State.step (config (2 ^ K)) s (.write address value) = some next ∧ Going K c index next := by
  obtain ⟨b, member, low, high⟩ := enabled
  have filled := going.filled
  have served := going.served
  have wide := cluster_wide K small large
  have size := Nat.pow_le_pow_right (show 0 < 2 by omega) small
  have place := served.places b member
  have bounds (n : Nat) (few : n ≤ 2) := block_bounds (c := c) filled.fits few
  have first := bounds 0 (by omega)
  have third := bounds 2 (by omega)
  rw [extent_eq served member] at high
  have inside : c + 2 ^ K ≤ address ∧ address < c + 2 * 2 ^ K := by
    cases place with
    | inl here => rw [here] at low high; omega
    | inr here => rw [here] at low high; omega
  have here : s.heap.mapped (config (2 ^ K)) address = true := by
    rw [Heap.mapped_eq, filled.committed]
    exact accessible_cluster (c := c) (by simp [filled.reserved]) (by omega) (by omega)
  let next : State := { s with heap := s.heap.set address value }
  have step : State.step (config (2 ^ K)) s (.write address value) = some next := by
    simp [State.step, Heap.store_mapped here, next]
  have header : next.heap.mem (PageMeta.freeList (c + 32)) = s.heap.mem (PageMeta.freeList (c + 32)) :=
    Function.update_of_ne (by simp only [PageMeta.freeList]; omega) ..
  -- a client has no access to a free block
  have kept (n : Nat) (few : n ≤ 2) (unused : block K c index n ∉ addresses s.live) :
      next.heap.mem (block K c index n) = s.heap.mem (block K c index n) := by
    have other : block K c index n ≠ b.address := fun same => unused (same ▸ List.mem_map_of_mem member)
    have which : n = 0 ∨ n = 1 ∨ n = 2 := by omega
    refine Function.update_of_ne ?_ ..
    obtain rfl | rfl | rfl := which
    all_goals
      simp only [block] at place other ⊢
      omega
  refine ⟨next, step, ?filled, served, ?lists⟩
  case filled =>
    refine filled.data small large ?_
    intro a outside
    exact Function.update_of_ne (by omega) ..
  case lists =>
    have spare (other : Nat) (before : Spare c s other) : Spare c next other := by
      rw [Spare, header]
      exact before
    have later (head other : Nat) (before : Later c index head other s)
        (same : head ∉ addresses s.live → next.heap.mem head = s.heap.mem head) : Later c index head other next := by
      refine ⟨before.bin, fun inUse => spare other (before.inUse inUse), ?_⟩
      intro unused
      rw [same unused, header]
      exact before.freed unused
    cases going.lists with
    | inl first =>
        have free : block K c index 1 ∉ addresses s.live := by
          intro inUse
          have positive := Nat.two_pow_pos (index + 4)
          have place := served.place inUse
          simp only [block] at place
          omega
        exact Or.inl ⟨first.bin, (kept 1 (by omega) free).trans first.next, first.unused, spare _ first.spare⟩
    | inr before =>
        cases before with
        | inl before => exact Or.inr (Or.inl (later _ _ before (kept 0 (by omega))))
        | inr before => exact Or.inr (Or.inr (later _ _ before (kept 2 (by omega))))

theorem step_taken {pageBins : Nat} {s : State} {op : Op} (inv : Inv K pageBins s)
    (enabled : Enabled (config (2 ^ K)) s op) (ordinary : Ordinary (config (2 ^ K)) s op) :
    ∃ next, State.step (config (2 ^ K)) s op = some next ∧ Inv K pageBins next := by
  cases inv with
  | inl initial =>
      subst initial
      cases op with
      | alloc size base =>
          obtain ⟨next, step, going⟩ := alloc_start small large enabled
          exact ⟨next, step, Or.inr ⟨base, _, going⟩⟩
      | free address => simp [Enabled, start, addresses] at enabled
      | write address value => simp [Enabled, start] at enabled
  | inr going =>
      obtain ⟨c, index, going⟩ := going
      have going' : ∃ next, State.step (config (2 ^ K)) s op = some next ∧ Going K c index next := by
        cases op with
        | alloc size base => exact alloc_going small large going enabled ordinary
        | free address => exact free_going small large going enabled ordinary
        | write address value => exact write_going small large going enabled
      obtain ⟨next, step, going'⟩ := going'
      exact ⟨next, step, Or.inr ⟨c, index, going'⟩⟩

theorem Inv.safe {pageBins : Nat} {s : State} (inv : Inv K pageBins s) : Safe (config (2 ^ K)) s := by
  cases inv with
  | inl initial =>
      subst initial
      exact ⟨by simp [start], by simp [start]⟩
  | inr going =>
      obtain ⟨c, index, going⟩ := going
      exact going.safe small large

end Steps

/-- On an ordinary run every call returns, and the blocks in use are places of their own in
the data pages. -/
theorem run_places_blocks (K : Nat) (small : 6 ≤ K) (large : K ≤ 18) (pageBins : Nat) (ops : List Op)
    (along : Runs.Along (State.step (config (2 ^ K)))
      (fun s op => Enabled (config (2 ^ K)) s op ∧ Ordinary (config (2 ^ K)) s op)
      (start (config (2 ^ K)) pageBins) ops) :
    ∃ s, Runs.exec (State.step (config (2 ^ K))) (start (config (2 ^ K)) pageBins) ops = some s ∧
      Safe (config (2 ^ K)) s := by
  obtain ⟨s, run, inv⟩ := along.progress (Inv K pageBins)
    (fun s op inv ok => step_taken small large inv ok.1 ok.2) (Or.inl rfl)
  exact ⟨s, run, inv.safe small large⟩

-- Two blocks of 1024 bytes, one of them given back and taken again.
theorem run_places_blocks_pair :
    ∃ s, Runs.exec (State.step (config (2 ^ 12))) (start (config (2 ^ 12)) 4096)
        [.alloc 1024 524288, .alloc 1000 0, .write 530432 7, .free 528384, .free 530432, .alloc 600 0] = some s ∧
      Safe (config (2 ^ 12)) s :=
  run_places_blocks 12 (by decide) (by decide) 4096
    [.alloc 1024 524288, .alloc 1000 0, .write 530432 7, .free 528384, .free 530432, .alloc 600 0]
    (Runs.Along.of_check (by decide +kernel))

/-- The fourth block of a page is null: the bin ends with the block that was returned last. -/
theorem page_exhausted_null :
    ∃ ops : List Op, Runs.Along (State.step (config (2 ^ 12))) (Enabled (config (2 ^ 12)))
        (start (config (2 ^ 12)) 4096) ops ∧
      ¬ ∃ s, Runs.exec (State.step (config (2 ^ 12))) (start (config (2 ^ 12)) 4096) ops = some s ∧
        Safe (config (2 ^ 12)) s := by
  refine ⟨[.alloc 1024 524288, .alloc 1024 0, .alloc 1024 0, .alloc 1024 0], Runs.Along.of_check (by decide +kernel), ?_⟩
  rintro ⟨s, run, safe⟩
  have live : (Runs.exec (State.step (config (2 ^ 12))) (start (config (2 ^ 12)) 4096)
      [.alloc 1024 524288, .alloc 1024 0, .alloc 1024 0, .alloc 1024 0]).map (fun s => s.live.head?) =
      some (some { address := 0, size := 1024 }) := by
    decide +kernel
  rw [run, Option.map_some, Option.some.injEq] at live
  exact (safe.placed _ (List.mem_of_head? live)).nonnull rfl

end PrototypeBundle.BinAlloc
