import PrototypeBundle.BinAlloc.Layers
import PrototypeBundle.Shared.Chain

set_option autoImplicit false

-- A `link` is the first field of a block, and its address the one of the block.

namespace PrototypeBundle.BinAlloc

def pointer (a : Nat) : Option Nat := if a = 0 then none else some a

def Linked (mem : Nat → Nat) (head : Nat) (nodes : List Nat) : Prop :=
  Intrusive.Chain (fun a => pointer (mem a)) (pointer head) nodes

theorem linked_nil {mem : Nat → Nat} {head : Nat} : Linked mem head [] ↔ head = 0 := by
  by_cases zero : head = 0 <;> simp [Linked, pointer, zero]

theorem linked_cons {mem : Nat → Nat} {head node : Nat} {nodes : List Nat} :
    Linked mem head (node :: nodes) ↔ head = node ∧ node ≠ 0 ∧ Linked mem (mem node) nodes := by
  by_cases zero : head = 0
  · subst zero
    simp only [Linked, pointer, if_true, Intrusive.chain_cons, reduceCtorEq, false_and, false_iff, not_and]
    rintro rfl different
    exact absurd rfl different
  · simp only [Linked, pointer, if_neg zero, Intrusive.chain_cons, Option.some.injEq]
    constructor
    · rintro ⟨rfl, rest⟩
      exact ⟨rfl, zero, rest⟩
    · rintro ⟨rfl, -, rest⟩
      exact ⟨rfl, rest⟩

theorem linked_nonnull {mem : Nat → Nat} {head : Nat} {nodes : List Nat} (linked : Linked mem head nodes) : 0 ∉ nodes := by
  induction nodes generalizing head with
  | nil => simp
  | cons node nodes ih =>
      obtain ⟨-, nonnull, rest⟩ := linked_cons.mp linked
      exact List.not_mem_cons_of_ne_of_not_mem (Ne.symm nonnull) (ih rest)

theorem Linked.congr {mem mem' : Nat → Nat} {head : Nat} {nodes : List Nat} (linked : Linked mem head nodes)
    (same : ∀ a ∈ nodes, mem' a = mem a) : Linked mem' head nodes :=
  Intrusive.Chain.congr (fun a inside => by rw [same a inside]) linked

section Format

def places (buffer stride count : Nat) : List Nat := (List.range count).map fun i => buffer + stride * i

theorem places_succ (buffer stride count : Nat) :
    places buffer stride (count + 1) = buffer :: places (buffer + stride) stride count := by
  rw [places, List.range_succ_eq_map, List.map_cons, List.map_map, Nat.mul_zero, Nat.add_zero, places]
  congr 1
  refine List.map_congr_left fun i _ => ?_
  rw [Function.comp_apply, Nat.succ_eq_add_one, Nat.mul_succ]
  omega

theorem mem_places {buffer stride count a : Nat} :
    a ∈ places buffer stride count ↔ ∃ i < count, a = buffer + stride * i := by
  simp [places, eq_comm]

theorem places_apart (buffer stride count : Nat) :
    (places buffer stride count).Pairwise fun a b => a + stride ≤ b := by
  rw [places, List.pairwise_map]
  refine List.pairwise_lt_range.imp fun {i j} less => ?_
  have next : stride * (i + 1) ≤ stride * j := Nat.mul_le_mul_left stride less
  rw [Nat.mul_succ] at next
  omega

theorem places_inside {buffer stride size a : Nat} (member : a ∈ places buffer stride (size / stride)) :
    buffer ≤ a ∧ a + stride ≤ buffer + size := by
  obtain ⟨i, below, rfl⟩ := mem_places.mp member
  have next : stride * (i + 1) ≤ stride * (size / stride) := Nat.mul_le_mul_left stride below
  have whole := Nat.mul_div_le size stride
  rw [Nat.mul_succ] at next
  omega

theorem linked_places {mem : Nat → Nat} {stride : Nat} (count : Nat) {buffer : Nat} (positive : 0 < buffer)
    (links : ∀ k, k < count → mem (buffer + stride * k) = buffer + stride * (k + 1))
    (last : mem (buffer + stride * count) = 0) : Linked mem buffer (places buffer stride (count + 1)) := by
  induction count generalizing buffer with
  | zero =>
      rw [places_succ, linked_cons]
      exact ⟨rfl, by omega, linked_nil.mpr last⟩
  | succ count ih =>
      have first := links 0 (by omega)
      rw [Nat.mul_zero, Nat.add_zero, Nat.zero_add, Nat.mul_one] at first
      rw [places_succ, linked_cons, first]
      refine ⟨rfl, by omega, ih (by omega) (fun k below => ?_) ?_⟩
      · have next := links (k + 1) (by omega)
        rw [Nat.mul_succ stride k, Nat.mul_succ stride (k + 1)] at next
        rw [Nat.add_assoc, Nat.add_comm stride, next]
        omega
      · rw [Nat.mul_succ] at last
        rw [Nat.add_assoc, Nat.add_comm stride, last]

structure Formatted (h h' : Heap) (buffer size stride : Nat) : Prop where
  only : ∃ mem', h' = { h with mem := mem' } ∧ ∀ a, a < buffer ∨ buffer + size ≤ a → mem' a = h.mem a
  linked : Linked h'.mem buffer (places buffer stride (size / stride))
  apart : (places buffer stride (size / stride)).Pairwise fun a b => a + stride ≤ b
  inside : ∀ a ∈ places buffer stride (size / stride), buffer ≤ a ∧ a + stride ≤ buffer + size

theorem formatStack_formatted (cfg : Config) (h : Heap) (buffer size stride : Nat) (nonnull : 0 < buffer)
    (positive : 0 < stride) (large : stride ≤ size)
    (mapped : ∀ a, buffer ≤ a → a < buffer + size → h.mapped cfg a = true) :
    ∃ h', h.formatStack cfg buffer size stride = some (h', buffer) ∧ Formatted h h' buffer size stride := by
  obtain ⟨mem', run, frame, links, last⟩ := formatStack_spec h buffer size stride positive large mapped
  have count : size / stride - 1 + 1 = size / stride := Nat.sub_add_cancel (Nat.div_pos large positive)
  have linked : Linked mem' buffer (places buffer stride (size / stride - 1 + 1)) :=
    linked_places (size / stride - 1) nonnull (fun k below => links k (by omega)) last
  rw [count] at linked
  exact ⟨_, run, ⟨mem', rfl, frame⟩, linked, places_apart _ _ _, fun a => places_inside⟩

theorem formatStack_slots (cfg : Config) (h : Heap) {c : Nat} (count : Nat)
    (mapped : ∀ a, c ≤ a → a < c + (32 * count + 32) → h.mapped cfg a = true) :
    ∃ mem' head, h.formatStack cfg (c + 32) (32 * count) 32 = some ({ h with mem := mem' }, head) ∧
      Linked mem' head (places (c + 32) 32 count) := by
  cases count with
  | zero => exact ⟨h.mem, 0, rfl, linked_nil.mpr rfl⟩
  | succ count =>
      obtain ⟨h', run, formatted⟩ := formatStack_formatted cfg h (c + 32) (32 * (count + 1)) 32 (by omega) (by omega)
        (by omega) (fun a low high => mapped a (by omega) (by omega))
      obtain ⟨mem', rfl, -⟩ := formatted.only
      have linked := formatted.linked
      rw [Nat.mul_div_cancel_left _ (by omega)] at linked
      exact ⟨mem', c + 32, run, linked⟩

end Format

section Cluster

variable {K c : Nat} {h : Heap} (fits : FieldsFit (2 ^ K))

include fits

theorem FieldsFit.cluster_header :
    2 ^ K ≤ (config (2 ^ K)).clusterSize ∧ 32 * (config (2 ^ K)).clusterPageCount + 32 = 2 ^ K := by
  obtain ⟨small, -⟩ := fits.bounds
  have count := fits.count
  have cluster := fits.cluster
  have whole : 2 ^ K = 32 * (2 ^ K / 32) := (Nat.mul_div_cancel' (Nat.pow_dvd_pow 2 small)).symm
  have slots := fits.slots
  have size : (config (2 ^ K)).clusterSize = 2 ^ K / 32 * 2 ^ K := by
    change ((config (2 ^ K)).clusterPageCount + 1) % 2 ^ 32 * 2 ^ K % 2 ^ 32 = _
    have word := fits.word
    rw [slots, show 2 ^ K / 32 - 1 + 1 = 2 ^ K / 32 by omega, Nat.mod_eq_of_lt (by omega : 2 ^ K / 32 < 2 ^ 32),
      Nat.mod_eq_of_lt cluster]
  constructor
  · rw [size]
    exact Nat.le_mul_of_pos_left _ (by omega)
  · omega

theorem makeCluster_list (member : c ∈ h.reserved) :
    ∃ mem', h.makeCluster (config (2 ^ K)) c = some { h with mem := mem' } ∧
      Linked mem' (mem' (ClusterMeta.freeList c)) (places (c + 32) 32 (config (2 ^ K)).clusterPageCount) := by
  obtain ⟨wide, header⟩ := fits.cluster_header
  have mapped (a : Nat) (low : c ≤ a) (high : a < c + 2 ^ K) :
      accessible (config (2 ^ K)) h.pageBins h.reserved h.decommitted a = true := by
    simp only [accessible, Bool.or_eq_true, List.any_eq_true, decide_eq_true_eq]
    exact Or.inl ⟨c, member, low, by omega, Or.inl high⟩
  obtain ⟨count, slots⟩ : ∃ count, (config (2 ^ K)).clusterPageCount = count := ⟨_, rfl⟩
  rw [slots] at header ⊢
  obtain ⟨mem₁, head, run, linked⟩ := formatStack_slots (config (2 ^ K)) h count (fun a low high => mapped a low (by omega))
  apply Exists.intro
  refine ⟨?run, ?linked⟩
  case run =>
    rw [Heap.makeCluster, config_pageMetaSize, slots, run]
    simp (disch := omega) only [ClusterMeta.next, ClusterMeta.freeList, ClusterMeta.used, ClusterMeta.state, Heap.store,
      Heap.mapped_eq, Heap.set, mapped, if_true, Option.bind_eq_bind, Option.bind_some]
    rfl
  case linked =>
    have outside (a : Nat) (inside : a ∈ places (c + 32) 32 count) : c + 32 ≤ a := by
      obtain ⟨i, -, rfl⟩ := mem_places.mp inside
      omega
    simp (disch := omega) only [ClusterMeta.freeList, Function.update_of_ne, Function.update_self]
    refine linked.congr fun a inside => ?_
    have above := outside a inside
    simp (disch := omega) only [Function.update_of_ne]

theorem FieldsFit.slots_count : (config (2 ^ K)).clusterPageCount % 2 ^ 16 = (config (2 ^ K)).clusterPageCount := by
  obtain ⟨small, large⟩ := fits.bounds
  have bound : 2 ^ K ≤ 2 ^ 18 := Nat.pow_le_pow_right (by omega) large
  have slots := fits.slots
  exact Nat.mod_eq_of_lt (by omega)

theorem makeCluster_transfer (member : c ∈ h.reserved) :
    ∃ h₁ h₂ nodes, h.makeCluster (config (2 ^ K)) c = some h₁ ∧
      Linked h₁.mem (h₁.mem (ClusterMeta.freeList c)) nodes ∧
      nodes.length = (config (2 ^ K)).clusterPageCount ∧ h₁.transferCluster (config (2 ^ K)) c = some h₂ ∧
      Linked h₂.mem h₂.pageFreeList nodes ∧ h₂.mem (ClusterMeta.used c) = nodes.length := by
  obtain ⟨wide, header⟩ := fits.cluster_header
  have counted := fits.slots_count
  have list := makeCluster_list fits member
  obtain ⟨count, slots⟩ : ∃ count, (config (2 ^ K)).clusterPageCount = count := ⟨_, rfl⟩
  rw [slots] at header counted list ⊢
  obtain ⟨mem₁, made, linked⟩ := list
  have mapped (a : Nat) (low : c ≤ a) (high : a < c + 32) :
      ({ h with mem := mem₁ } : Heap).mapped (config (2 ^ K)) a = true := by
    rw [Heap.mapped_eq]
    simp only [accessible, Bool.or_eq_true, List.any_eq_true, decide_eq_true_eq]
    exact Or.inl ⟨c, member, low, by omega, Or.inl (by simp only [config_pageSize]; omega)⟩
  obtain ⟨mem₂, transferred, frame, used⟩ := transferCluster_spec mapped
  have length : (places (c + 32) 32 count).length = count := by
    rw [places, List.length_map, List.length_range]
  have linked₂ : Linked mem₂ (mem₁ (ClusterMeta.freeList c)) (places (c + 32) 32 count) :=
    linked.congr fun a inside => frame a (by
      obtain ⟨i, -, rfl⟩ := mem_places.mp inside
      omega)
  have counts : mem₂ (ClusterMeta.used c) = (places (c + 32) 32 count).length := by
    rw [used, slots, counted, length]
  exact ⟨_, _, _, made, linked, length, transferred, linked₂, counts⟩

end Cluster

section Page

variable {K c : Nat} {h : Heap} (small : 6 ≤ K) (large : K ≤ 18)

include small large

theorem makePage_list {j index : Nat} (slot : j < (config (2 ^ K)).clusterPageCount) (fits : index + 5 ≤ K)
    (aligned : (config (2 ^ K)).clusterSize ∣ c) (room : c + (config (2 ^ K)).clusterSize ≤ 2 ^ 64)
    (member : c ∈ h.reserved) (committed : c ∉ h.decommitted) :
    ∃ mem', h.makePage (config (2 ^ K)) (slotMeta (config (2 ^ K)) c j) index = some { h with mem := mem' } ∧
      mem' (PageMeta.binIndex (slotMeta (config (2 ^ K)) c j)) = index ∧
      Linked mem' (mem' (PageMeta.freeList (slotMeta (config (2 ^ K)) c j)))
        (places (c + 2 ^ K) (2 ^ (index + 4)) ((config (2 ^ K)).binObjectCount index)) := by
  have wide := cluster_wide K small large
  have data := pageData_eq small large aligned room j slot
  have header := slot_header K small large j slot
  have block : 2 ^ (index + 4) ≤ 2 ^ K := Nat.pow_le_pow_right (by omega) (by omega)
  have positive := Nat.two_pow_pos (index + 4)
  have mapped (a : Nat) (low : c ≤ a) (high : a < c + 2 * 2 ^ K) :
      accessible (config (2 ^ K)) h.pageBins h.reserved h.decommitted a = true :=
    accessible_committed member committed low (by omega)
  have whole : 2 ^ K % 32 = 0 := Nat.mod_eq_zero_of_dvd (Nat.pow_dvd_pow 2 (by omega : 5 ≤ K))
  have place : slotMeta (config (2 ^ K)) c j = c + 32 * (j + 1) := rfl
  rw [place] at data ⊢
  obtain ⟨h', run, formatted⟩ := formatStack_formatted (config (2 ^ K)) h (c + 2 ^ K) (2 ^ K) (2 ^ (index + 4))
    (by omega) positive (by omega) (fun a low high => mapped a (by omega) (by omega))
  obtain ⟨mem₁, rfl, -⟩ := formatted.only
  have exist : index < (config (2 ^ K)).binCount.toNat := by
    have bins := binCount_eq small
    omega
  rw [← binIndexMaxSize_eq] at run
  obtain ⟨mem', made, frame, freeList, index'⟩ := makePage_frame exist data run
    fun a low high => mapped a (by omega) (by omega)
  refine ⟨mem', made, index', ?_⟩
  rw [Config.binObjectCount, binIndexMaxSize_eq, config_pageSize, freeList]
  refine formatted.linked.congr fun a inside => frame a ?_
  have above := (formatted.inside a inside).1
  omega

theorem makePage_transfer (fieldsFit : FieldsFit (2 ^ K)) {j index : Nat} (slot : j < (config (2 ^ K)).clusterPageCount)
    (exist : (index : Int) < (config (2 ^ K)).binCount) (aligned : (config (2 ^ K)).clusterSize ∣ c)
    (room : c + (config (2 ^ K)).clusterSize ≤ 2 ^ 64) (member : c ∈ h.reserved) (committed : c ∉ h.decommitted) :
    ∃ h₁ h₂ nodes, h.makePage (config (2 ^ K)) (slotMeta (config (2 ^ K)) c j) index = some h₁ ∧
      Linked h₁.mem (h₁.mem (PageMeta.freeList (slotMeta (config (2 ^ K)) c j))) nodes ∧
      nodes.length = (config (2 ^ K)).binObjectCount index ∧
      h₁.transferPage (config (2 ^ K)) (slotMeta (config (2 ^ K)) c j) index = some h₂ ∧
      Linked h₂.mem (h₂.bins index) nodes ∧
      h₂.mem (PageMeta.used (slotMeta (config (2 ^ K)) c j)) = nodes.length := by
  have bins := binCount_eq small
  have wide := cluster_wide K small large
  have header := slot_header K small large j slot
  have whole : 2 ^ K % 32 = 0 := Nat.mod_eq_zero_of_dvd (Nat.pow_dvd_pow 2 (by omega : 5 ≤ K))
  have room' : index + 5 ≤ K := by omega
  obtain ⟨mem₁, made, index₁, linked⟩ := makePage_list small large slot room' aligned room member committed
  obtain ⟨m, slotIs, place⟩ : ∃ m, slotMeta (config (2 ^ K)) c j = m ∧ m = c + 32 * (j + 1) := ⟨_, rfl, rfl⟩
  rw [slotIs] at made index₁ linked ⊢
  have mapped (a : Nat) (low : m ≤ a) (high : a < m + 32) :
      ({ h with mem := mem₁ } : Heap).mapped (config (2 ^ K)) a = true := by
    rw [Heap.mapped_eq]
    exact accessible_committed member committed (by omega) (by omega)
  obtain ⟨mem₂, transferred, frame, -, used, -⟩ := transferPage_spec { h with mem := mem₁ } m index mapped
  have counted := Nat.mod_eq_of_lt (fieldsFit.binObjectCount exist).2
  simp only [index₁] at used
  obtain ⟨count, objects⟩ : ∃ count, (config (2 ^ K)).binObjectCount index = count := ⟨_, rfl⟩
  rw [objects] at linked used counted ⊢
  have length : (places (c + 2 ^ K) (2 ^ (index + 4)) count).length = count := by
    rw [places, List.length_map, List.length_range]
  have linked₂ : Linked mem₂ (mem₁ (PageMeta.freeList m)) (places (c + 2 ^ K) (2 ^ (index + 4)) count) :=
    linked.congr fun a inside => frame a (by
      obtain ⟨i, -, rfl⟩ := mem_places.mp inside
      omega)
  refine ⟨_, _, _, made, linked, length, transferred, ?_, used.trans (counted.trans length.symm)⟩
  simpa only [Function.update_self] using linked₂

end Page

/-- What `format_stack` makes of a buffer, and that the lists of a new cluster and of a new page have the lengths that
`transfer` and `transfer_to` count. -/
theorem format_stack_lists :
    (∀ (cfg : Config) (h : Heap) (buffer size stride : Nat), 0 < buffer → 8 ≤ stride → stride ≤ size →
      (∀ a, buffer ≤ a → a < buffer + size → h.mapped cfg a = true) →
      ∃ h', h.formatStack cfg buffer size stride = some (h', buffer) ∧ Formatted h h' buffer size stride) ∧
    ∀ K, FieldsFit (2 ^ K) → ∀ (h : Heap) (c : Nat), c ∈ h.reserved →
      (∃ h₁ h₂ nodes, h.makeCluster (config (2 ^ K)) c = some h₁ ∧
        Linked h₁.mem (h₁.mem (ClusterMeta.freeList c)) nodes ∧ nodes.length = (config (2 ^ K)).clusterPageCount ∧
        h₁.transferCluster (config (2 ^ K)) c = some h₂ ∧ Linked h₂.mem h₂.pageFreeList nodes ∧
        h₂.mem (ClusterMeta.used c) = nodes.length) ∧
      ∀ j index : Nat, j < (config (2 ^ K)).clusterPageCount → (index : Int) < (config (2 ^ K)).binCount →
        (config (2 ^ K)).clusterSize ∣ c → c + (config (2 ^ K)).clusterSize ≤ 2 ^ 64 → c ∉ h.decommitted →
        ∃ h₁ h₂ nodes, h.makePage (config (2 ^ K)) (slotMeta (config (2 ^ K)) c j) index = some h₁ ∧
          Linked h₁.mem (h₁.mem (PageMeta.freeList (slotMeta (config (2 ^ K)) c j))) nodes ∧
          nodes.length = (config (2 ^ K)).binObjectCount index ∧
          h₁.transferPage (config (2 ^ K)) (slotMeta (config (2 ^ K)) c j) index = some h₂ ∧
          Linked h₂.mem (h₂.bins index) nodes ∧
          h₂.mem (PageMeta.used (slotMeta (config (2 ^ K)) c j)) = nodes.length := by
  refine ⟨fun cfg h buffer size stride nonnull wide large mapped =>
    formatStack_formatted cfg h buffer size stride nonnull (by omega) large mapped, fun K fits h c member => ?_⟩
  refine ⟨makeCluster_transfer fits member, fun j index slot exist aligned room committed => ?_⟩
  obtain ⟨least, large⟩ := fits.bounds
  have slots := fits.slots
  have small : 6 ≤ K := by
    by_contra five
    obtain rfl : K = 5 := by omega
    omega
  exact makePage_transfer small large fits slot exist aligned room member committed

theorem format_stack_lists_4096 :
    let h : Heap := { (start (config 4096) 4096).heap with reserved := [2 ^ 19] }
    (∃ h', h.formatStack (config 4096) (2 ^ 19) 48 32 = some (h', 2 ^ 19) ∧ Formatted h h' (2 ^ 19) 48 32) ∧
      ∃ h₁ h₂ nodes, h.makePage (config 4096) (slotMeta (config 4096) (2 ^ 19) 0) 0 = some h₁ ∧
        nodes.length = (config 4096).binObjectCount 0 ∧
        h₁.transferPage (config 4096) (slotMeta (config 4096) (2 ^ 19) 0) 0 = some h₂ ∧
        Linked h₂.mem (h₂.bins 0) nodes := by
  intro h
  constructor
  · refine format_stack_lists.1 (config 4096) h (2 ^ 19) 48 32 (by decide) (by decide) (by decide) fun a low high => ?_
    have wide : (config 4096).clusterSize = 2 ^ 19 := by decide
    have here : accessible (config 4096) h.pageBins h.reserved [] a = true :=
      accessible_cluster (c := 2 ^ 19) (by simp [h]) low (by omega)
    rwa [Heap.mapped_eq]
  · have fits : FieldsFit (2 ^ 12) := ⟨by decide, by decide, by decide⟩
    have lists := (format_stack_lists.2 12 fits h (2 ^ 19) (by simp [h])).2 0 0 (by decide) (by decide) (by decide)
      (by decide) List.not_mem_nil
    obtain ⟨h₁, h₂, nodes, made, -, length, transferred, linked, -⟩ := lists
    exact ⟨h₁, h₂, nodes, made, length, transferred, linked⟩

section Bins

variable {cfg : Config} {h : Heap} {index size : Nat} {nodes : List Nat}

/-- Calls of `bin_alloc` one after the other, with what they return. Each has its own answer of `reserve`. -/
def Heap.binAllocs (cfg : Config) (size : Nat) : List Nat → Heap → Option (List Nat × Heap)
  | [], h => some ([], h)
  | base :: bases, h => do
      let (h, address) ← h.binAlloc cfg size base
      let (addresses, h) ← h.binAllocs cfg size bases
      return (address :: addresses, h)

structure BinList (cfg : Config) (h : Heap) (index : Nat) (nodes : List Nat) : Prop where
  linked : Linked h.mem (h.bins index) nodes
  mapped : ∀ a ∈ nodes, h.mapped cfg a = true

theorem BinList.empty (list : BinList cfg h index []) : h.bins index = 0 := linked_nil.mp list.linked

theorem BinList.head {node : Nat} (list : BinList cfg h index (node :: nodes)) : h.bins index = node ∧ node ≠ 0 := by
  obtain ⟨first, nonnull, -⟩ := linked_cons.mp list.linked
  exact ⟨first, nonnull⟩

theorem BinList.binAlloc {node : Nat} (list : BinList cfg h index (node :: nodes)) (served : cfg.binIndex size ≠ noBin)
    (bin : cfg.binIndex size = index) (base : Nat) :
    ∃ h', h.binAlloc cfg size base = some (h', h'.bins index) ∧ BinList cfg h' index nodes := by
  obtain ⟨first, nonnull, rest⟩ := linked_cons.mp list.linked
  have here := list.mapped node (List.mem_cons_self ..)
  refine ⟨{ h with bins := Function.update h.bins index (h.mem node) }, ?_, ?_, ?_⟩
  · subst bin
    simp only [Heap.binAlloc, if_neg served, first, if_neg nonnull, Heap.load_bind _ here, Function.update_self]
    rfl
  · simpa only [Function.update_self] using rest
  · exact fun a inside => list.mapped a (List.mem_cons_of_mem _ inside)

theorem BinList.binAllocs {node : Nat} (list : BinList cfg h index (node :: nodes)) (served : cfg.binIndex size ≠ noBin)
    (bin : cfg.binIndex size = index) {bases : List Nat} (calls : bases.length = nodes.length + 1) :
    ∃ h', h.binAllocs cfg size bases = some (nodes ++ [0], h') ∧ h'.bins index = 0 := by
  induction nodes generalizing h node bases with
  | nil =>
      obtain ⟨base, rfl⟩ := List.length_eq_one_iff.mp calls
      obtain ⟨h', run, rest⟩ := list.binAlloc served bin base
      refine ⟨h', ?_, rest.empty⟩
      simp only [Heap.binAllocs, run, rest.empty, Option.bind_eq_bind, Option.bind_some]
      rfl
  | cons second nodes ih =>
      obtain ⟨base, bases, rfl⟩ := List.exists_cons_of_length_eq_add_one calls
      obtain ⟨h', run, rest⟩ := list.binAlloc served bin base
      obtain ⟨h'', runs, bin'⟩ := ih rest (by simpa using calls)
      refine ⟨h'', ?_, bin'⟩
      simp only [Heap.binAllocs, run, runs, rest.head.1, Option.bind_eq_bind, Option.bind_some]
      rfl

end Bins

/-- The calls that a list of free blocks is enough for return just its blocks only when it has none. -/
theorem bin_allocs_exact_iff (cfg : Config) (h : Heap) (size : Nat) (nodes bases : List Nat)
    (served : cfg.binIndex size ≠ noBin) (list : BinList cfg h (cfg.binIndex size) nodes)
    (calls : bases.length = nodes.length) :
    (∃ h', h.binAllocs cfg size bases = some (nodes, h') ∧ h'.bins (cfg.binIndex size) = 0) ↔ nodes = [] := by
  constructor
  · rintro ⟨h', run, -⟩
    cases nodes with
    | nil => rfl
    | cons node rest =>
        obtain ⟨h'', shifted, -⟩ := list.binAllocs served rfl calls
        rw [run, Option.some.injEq, Prod.mk.injEq] at shifted
        -- the last call returns null, which no block is
        obtain ⟨prior, last⟩ : ∃ prior, node :: rest = prior ++ [0] := ⟨rest, shifted.1⟩
        have member : 0 ∈ node :: rest := by simp [last]
        exact absurd member (linked_nonnull list.linked)
  · rintro rfl
    rw [List.length_nil, List.length_eq_zero_iff] at calls
    subst calls
    exact ⟨h, rfl, list.empty⟩

def twoBlocks : Heap :=
  { (start (config 4096) 4096).heap with
    mem := Function.update (fun _ => 0) 528384 528400
    bins := Function.update (fun _ => 0) 0 528384
    reserved := [2 ^ 19] }

theorem twoBlocks_list : BinList (config 4096) twoBlocks 0 [528384, 528400] where
  linked := by simp [linked_cons, linked_nil, twoBlocks]
  mapped := by decide

theorem bin_allocs_shifted :
    ∃ h', twoBlocks.binAllocs (config 4096) 16 [0, 0] = some ([528400, 0], h') ∧
      BinList (config 4096) twoBlocks ((config 4096).binIndex 16) [528384, 528400] :=
  ⟨_, rfl, twoBlocks_list⟩

theorem bin_allocs_exact_two :
    ¬ ∃ h', twoBlocks.binAllocs (config 4096) 16 [0, 0] = some ([528384, 528400], h') ∧
      h'.bins ((config 4096).binIndex 16) = 0 := by
  rw [bin_allocs_exact_iff (config 4096) twoBlocks 16 [528384, 528400] [0, 0] (by decide) twoBlocks_list rfl]
  simp

end PrototypeBundle.BinAlloc
