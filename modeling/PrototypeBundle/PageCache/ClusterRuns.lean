import PrototypeBundle.PageCache.Clusters

set_option autoImplicit false

namespace PrototypeBundle.PageCache

open BinAlloc (Config config)
open Intrusive

variable (cfg : Config)

inductive ClusterOp where
  | fetch (reserve : Option Nat)
  | free (p : Page)

-- `cluster_cache_fetch` and `cluster_meta::transfer` as `page_alloc_new_page` calls them.
def Store.fetchTransfer (s : Store) (reserve : Option Nat) : Store :=
  match s.clusterCacheFetch cfg reserve with
  | (fetched, none) => fetched
  | (fetched, some c) => fetched.clusterTransfer cfg c

def clusterStep (s : Store) : ClusterOp → Option Store
  | .fetch reserve => some (s.fetchTransfer cfg reserve)
  | .free p => some (s.clusterFree p)

structure Outside (s : Store) (p : Page) : Prop where
  made : p.cluster ∈ s.reserved
  inside : p.slot < cfg.clusterPageCount
  out : ∃ free, Chain s.nextNode (s.clusters p.cluster).freeList free ∧ Node.page p ∉ free

def ClusterEnabled (s : Store) : ClusterOp → Prop
  | .fetch reserve => ∀ c, reserve = some c → c ∉ s.reserved
  | .free p => Outside cfg s p

/-- Where the cluster is `untethered`, the page is the first one to come back. -/
def ReturnsOnce (s : Store) : ClusterOp → Prop
  | .fetch _ => True
  | .free p => (s.clusters p.cluster).state = .untethered → cfg.clusterPageCount ≤ (s.clusters p.cluster).used

structure ClusterSound (s : Store) : Prop where
  counts : ∀ c ∈ s.reserved, ∃ free, Chain s.nextNode (s.clusters c).freeList free ∧
    (s.clusters c).used + free.length = cfg.clusterPageCount
  once : ∃ cache, Chain s.nextCluster s.clusterFreeList cache ∧ cache.Nodup
  taken : ∀ c, s.clusterCachePop.2 = some c → (s.clusters c).freeList ≠ none

structure Filled (s : Store) (c : Nat) (free : List Node) : Prop where
  chain : Chain s.nextNode (s.clusters c).freeList free
  own : ∀ n ∈ free, ∃ i, i < cfg.clusterPageCount ∧ n = slot c i
  count : (s.clusters c).used + free.length = cfg.clusterPageCount

structure ClusterInv (s : Store) (cache : List Nat) : Prop where
  chain : Chain s.nextCluster s.clusterFreeList cache
  made : ∀ c ∈ cache, c ∈ s.reserved
  filled : ∀ c ∈ s.reserved, ∃ free, Filled cfg s c free ∧ (c ∈ cache ↔ free ≠ [])
  cached : ∀ c ∈ cache, (s.clusters c).state = .untethered ∨ (s.clusters c).state = .unused ∧ (s.clusters c).used = 0
  away : ∀ c ∈ s.reserved, c ∉ cache → (s.clusters c).state = .untethered

section Preservation

variable {cfg} {s : Store} {cache : List Nat}

theorem ClusterInv.sound (inv : ClusterInv cfg s cache) : ClusterSound cfg s where
  counts := by
    intro c made
    obtain ⟨free, filled, _⟩ := inv.filled c made
    exact ⟨free, filled.chain, filled.count⟩
  once := ⟨cache, inv.chain, inv.chain.nodup⟩
  taken := by
    intro c popped empty
    have first : s.clusterFreeList = some c := by
      unfold Store.clusterCachePop at popped
      split at popped
      · cases popped
      · rename_i head
        rw [head]
        exact popped
    have member := inv.chain.head_mem first
    obtain ⟨free, filled, nonempty⟩ := inv.filled c (inv.made c member)
    exact nonempty.mp member (filled.chain.head_none_iff.mp empty)

theorem Filled.congr {s' : Store} {c : Nat} {free : List Node} (filled : Filled cfg s c free)
    (freeList : (s'.clusters c).freeList = (s.clusters c).freeList)
    (used : (s'.clusters c).used = (s.clusters c).used)
    (links : ∀ i, i < cfg.clusterPageCount → s'.nextNode (slot c i) = s.nextNode (slot c i)) :
    Filled cfg s' c free where
  chain := by
    rw [freeList]
    refine filled.chain.congr ?_
    intro n member
    obtain ⟨i, below, rfl⟩ := filled.own n member
    exact links i below
  own := filled.own
  count := by rw [used, filled.count]

theorem Filled.complete {c : Nat} {free : List Node} (filled : Filled cfg s c free)
    (unused : (s.clusters c).used = 0) {i : Nat} (below : i < cfg.clusterPageCount) : slot c i ∈ free := by
  by_contra missing
  have less := length_lt_of_missing filled.chain.nodup filled.own below missing
  have count := filled.count
  omega

theorem fetchTransfer_cached {c : Nat} (reserve : Option Nat) (first : s.clusterFreeList = some c) :
    s.fetchTransfer cfg reserve =
      { s with
        pageFreeList := (s.clusters c).freeList
        clusters := Function.update s.clusters c
          { s.clusters c with
            freeList := none
            used := cfg.clusterPageCount % 2 ^ 16
            state := .untethered }
        clusterFreeList := (s.clusters c).next } := by
  simp only [Store.fetchTransfer, Store.clusterCacheFetch, Store.clusterTake, Store.clusterCachePop, first]
  -- whether the pages had to be committed does not show, `transfer` sets the state
  unfold Store.commitUnused
  split <;> simp [Store.clusterTransfer, Store.commit, Store.setCluster]

theorem fetchTransfer_fresh {c : Nat} (empty : s.clusterFreeList = none) :
    s.fetchTransfer cfg (some c) =
      { s.clusterMake cfg c with
        pageFreeList := formattedHead (slot c) (slotCount cfg)
        clusters := Function.update s.clusters c
          { used := cfg.clusterPageCount % 2 ^ 16
            state := .untethered } } := by
  simp [Store.fetchTransfer, Store.clusterCacheFetch, Store.clusterTake, Store.clusterCachePop, Store.clusterAlloc, empty,
    Store.clusterMake, Store.commitUnused, Store.clusterTransfer, Store.setCluster]

theorem fetchTransfer_none (empty : s.clusterFreeList = none) : s.fetchTransfer cfg none = s := by
  simp [Store.fetchTransfer, Store.clusterCacheFetch, Store.clusterTake, Store.clusterCachePop, Store.clusterAlloc, empty]

theorem clusterFree_untethered {p : Page} (state : (s.clusters p.cluster).state = .untethered) :
    s.clusterFree p =
      { s.setPage (.page p) { s.pages (.page p) with next := (s.clusters p.cluster).freeList } with
        clusters := Function.update s.clusters p.cluster
          { next := s.clusterFreeList
            freeList := some (.page p)
            used := decrement (s.clusters p.cluster).used
            state := if decrement (s.clusters p.cluster).used = 0 then .unused else .untethered }
        clusterFreeList := some p.cluster } := by
  by_cases last : decrement (s.clusters p.cluster).used = 0 <;>
    simp [Store.clusterFree, Store.clusterPush, Store.returnUntethered, Store.releaseUnused, Store.clusterCachePush,
      Store.decommit, Store.setCluster, Store.setPage, state, last]

theorem ClusterInv.fetch_cached {c : Nat} {rest : List Nat} (inv : ClusterInv cfg s (c :: rest))
    (fits : cfg.clusterPageCount < 2 ^ 16) (reserve : Option Nat) :
    ClusterInv cfg (s.fetchTransfer cfg reserve) rest := by
  have fresh : c ∉ rest := (List.nodup_cons.mp inv.chain.nodup).1
  have apart : ∀ c' ∈ rest, c' ≠ c := fun c' member same => fresh (same ▸ member)
  rw [fetchTransfer_cached reserve inv.chain.1]
  constructor
  case chain =>
    refine Chain.congr ?_ inv.chain.2
    intro c' member
    simp [Store.nextCluster, Function.update_of_ne (apart c' member)]
  case made =>
    intro c' member
    exact inv.made c' (List.mem_cons_of_mem _ member)
  case filled =>
    intro c' made
    by_cases same : c' = c
    · subst same
      refine ⟨[], ⟨?_, ?_, ?_⟩, ?_⟩
      · simp
      · simp
      · simpa using fits
      · simp [fresh]
    · obtain ⟨free, filled, nonempty⟩ := inv.filled c' made
      refine ⟨free, filled.congr ?_ ?_ (fun _ _ => rfl), ?_⟩
      · simp [Function.update_of_ne same]
      · simp [Function.update_of_ne same]
      · simpa [same] using nonempty
  case cached =>
    intro c' member
    have old := inv.cached c' (List.mem_cons_of_mem _ member)
    simpa [Function.update_of_ne (apart c' member)] using old
  case away =>
    intro c' made outside
    by_cases same : c' = c
    · simp [same]
    · have old := inv.away c' made (by simp [same, outside])
      simpa [Function.update_of_ne same] using old

theorem ClusterInv.fetch_fresh {c : Nat} (inv : ClusterInv cfg s []) (fits : cfg.clusterPageCount < 2 ^ 16)
    (unknown : c ∉ s.reserved) : ClusterInv cfg (s.fetchTransfer cfg (some c)) [] := by
  rw [fetchTransfer_fresh inv.chain]
  constructor
  case chain => exact inv.chain
  case made => simp
  case filled =>
    intro c' made
    by_cases same : c' = c
    · subst same
      refine ⟨[], ⟨?_, ?_, ?_⟩, ?_⟩
      · simp
      · simp
      · simpa using fits
      · simp
    · have old : c' ∈ s.reserved := by simpa [Store.clusterMake, same] using made
      obtain ⟨free, filled, nonempty⟩ := inv.filled c' old
      refine ⟨free, filled.congr ?_ ?_ ?_, nonempty⟩
      · simp [Function.update_of_ne same]
      · simp [Function.update_of_ne same]
      · intro i _
        simp [Store.nextNode, Store.clusterMake, slot, same]
  case cached => simp
  case away =>
    intro c' made _
    by_cases same : c' = c
    · simp [same]
    · have old := inv.away c' (by simpa [Store.clusterMake, same] using made) (by simp)
      simpa [Function.update_of_ne same] using old

theorem ClusterInv.fetch (inv : ClusterInv cfg s cache) (fits : cfg.clusterPageCount < 2 ^ 16)
    {reserve : Option Nat} (enabled : ClusterEnabled cfg s (.fetch reserve)) :
    ∃ cache', ClusterInv cfg (s.fetchTransfer cfg reserve) cache' := by
  cases cache with
  | cons c rest => exact ⟨rest, inv.fetch_cached fits reserve⟩
  | nil =>
      cases reserve with
      | none =>
          rw [fetchTransfer_none inv.chain]
          exact ⟨[], inv⟩
      | some c => exact ⟨[], inv.fetch_fresh fits (enabled c rfl)⟩

theorem ClusterInv.free_away (inv : ClusterInv cfg s cache) {p : Page} (outside : Outside cfg s p)
    (once : ReturnsOnce cfg s (.free p)) : p.cluster ∉ cache := by
  intro member
  obtain ⟨free, filled, nonempty⟩ := inv.filled p.cluster outside.made
  have positive := List.length_pos_of_ne_nil (nonempty.mp member)
  have count := filled.count
  cases inv.cached p.cluster member with
  | inl untethered =>
      have full := once untethered
      omega
  | inr unused =>
      obtain ⟨free', chain', out⟩ := outside.out
      rw [← filled.chain.unique chain'] at out
      exact out (filled.complete unused.2 outside.inside)

theorem ClusterInv.free (inv : ClusterInv cfg s cache) (fits : cfg.clusterPageCount < 2 ^ 16) {p : Page}
    (outside : Outside cfg s p) (once : ReturnsOnce cfg s (.free p)) :
    ClusterInv cfg (s.clusterFree p) (p.cluster :: cache) := by
  have away := inv.free_away outside once
  have apart : ∀ c ∈ cache, c ≠ p.cluster := fun c member same => away (same ▸ member)
  obtain ⟨free, filled, nonempty⟩ := inv.filled p.cluster outside.made
  have none : free = [] := by
    by_contra some
    exact away (nonempty.mpr some)
  subst none
  have full : (s.clusters p.cluster).used = cfg.clusterPageCount := by simpa using filled.count
  have below := outside.inside
  have less : decrement (s.clusters p.cluster).used = cfg.clusterPageCount - 1 := by
    rw [full, decrement_eq (by omega) fits]
  rw [clusterFree_untethered (inv.away p.cluster outside.made away)]
  constructor
  case chain =>
    refine ⟨rfl, ?_⟩
    simp only [Store.nextCluster, Function.update_self]
    refine Chain.congr ?_ inv.chain
    intro c member
    simp [Store.nextCluster, Function.update_of_ne (apart c member)]
  case made =>
    intro c member
    rcases List.mem_cons.mp member with same | old
    · exact same ▸ outside.made
    · exact inv.made c old
  case filled =>
    intro c made
    by_cases same : c = p.cluster
    · subst same
      refine ⟨[.page p], ⟨?_, ?_, ?_⟩, ?_⟩
      · simp [Store.nextNode, filled.chain.head_none_iff.mpr rfl]
      · simpa [slot] using ⟨p.slot, below, rfl⟩
      · simp only [Function.update_self, less, List.length_singleton]
        omega
      · simp
    · obtain ⟨free, filled, nonempty⟩ := inv.filled c made
      refine ⟨free, filled.congr ?_ ?_ ?_, ?_⟩
      · simp [Function.update_of_ne same]
      · simp [Function.update_of_ne same]
      · intro i _
        have other : slot c i ≠ .page p := by
          intro equal
          exact same (congrArg Page.cluster (Node.page.inj equal))
        simp [Store.nextNode, Function.update_of_ne other]
      · simpa [same] using nonempty
  case cached =>
    intro c member
    by_cases same : c = p.cluster
    · by_cases last : decrement (s.clusters p.cluster).used = 0
      · exact Or.inr (by simp [same, last])
      · exact Or.inl (by simp [same, last])
    · have old := inv.cached c ((List.mem_cons.mp member).resolve_left same)
      simpa [Function.update_of_ne same] using old
  case away =>
    intro c made outside'
    have same : c ≠ p.cluster := fun equal => outside' (by simp [equal])
    have old := inv.away c made (fun member => outside' (List.mem_cons_of_mem _ member))
    simpa [Function.update_of_ne same] using old

theorem start_clusterInv : ClusterInv cfg start [] where
  chain := rfl
  made := by simp
  filled := by simp [start]
  cached := by simp
  away := by simp [start]

end Preservation

section Exact

variable (pageSize : Nat)

-- A cluster that is pushed while it is in the cache closes the list to a circle.
theorem ClusterInv.free_circular {cfg : Config} {s : Store} {cache : List Nat} (inv : ClusterInv cfg s cache) {p : Page}
    (outside : Outside cfg s p) (again : ¬ ReturnsOnce cfg s (.free p)) : ¬ ClusterSound cfg (s.clusterFree p) := by
  simp only [ReturnsOnce, not_forall, not_le] at again
  obtain ⟨untethered, less⟩ := again
  have member : p.cluster ∈ cache := by
    by_contra away
    obtain ⟨free, filled, nonempty⟩ := inv.filled p.cluster outside.made
    have none : free = [] := by
      by_contra some
      exact away (nonempty.mpr some)
    have count := filled.count
    rw [none, List.length_nil] at count
    omega
  intro sound
  obtain ⟨cache', chain, nodup⟩ := sound.once
  rw [clusterFree_untethered untethered] at chain
  obtain ⟨before, after, split⟩ := List.append_of_mem member
  have first := inv.chain
  rw [split] at first
  have apart : p.cluster ∉ before := by
    intro early
    have distinct := inv.chain.nodup
    rw [split] at distinct
    exact (List.nodup_append.mp distinct).2.2 _ early _ (by simp) rfl
  obtain ⟨rest, rfl, tail⟩ := chain.tail rfl
  simp only [Store.nextCluster, Function.update_self] at tail
  have twice := first.reaches (fun c early => by
    have other : c ≠ p.cluster := fun same => apart (same ▸ early)
    simp [Store.nextCluster, Function.update_of_ne other]) tail
  exact (List.nodup_cons.mp nodup).1 twice

/-- The cluster cache is a list without repetitions of clusters with free pages,
and every cluster knows how many of its pages are in use, exactly as long as no
second page comes back while a cluster is `untethered`. -/
theorem cluster_runs_sound (fits : (config pageSize).clusterPageCount < 2 ^ 16) (ops : List ClusterOp)
    (enabled : Runs.Along (clusterStep (config pageSize)) (ClusterEnabled (config pageSize)) start ops) :
    Runs.Through (clusterStep (config pageSize)) (ClusterSound (config pageSize)) start ops ↔
      Runs.Along (clusterStep (config pageSize)) (ReturnsOnce (config pageSize)) start ops := by
  refine enabled.through_iff (fun s => ∃ cache, ClusterInv (config pageSize) s cache) ?_ ?_ ?_ ⟨[], start_clusterInv⟩
  · rintro s ⟨cache, inv⟩
    exact inv.sound
  · rintro s op next ⟨cache, inv⟩ allowed once taken
    cases op with
    | fetch reserve =>
        obtain rfl := Option.some.inj taken
        exact inv.fetch fits allowed
    | free p =>
        obtain rfl := Option.some.inj taken
        exact ⟨_, inv.free fits allowed once⟩
  · rintro s op ⟨cache, inv⟩ allowed again
    cases op with
    | fetch reserve => exact absurd True.intro again
    | free p => exact ⟨_, rfl, inv.free_circular allowed again⟩

-- A page of a cluster comes back and is fetched again, with a page size of 4096.
def fetchAgain : List ClusterOp := [.fetch (some 0), .free ⟨0, 0⟩, .fetch none]

theorem fetchAgain_enabled :
    Runs.Along (clusterStep (config 4096)) (ClusterEnabled (config 4096)) start fetchAgain := by
  refine Runs.Along.cons ?_ rfl (Runs.Along.cons ?_ rfl (Runs.Along.cons ?_ rfl True.intro))
  · simp [ClusterEnabled, start]
  · exact ⟨by decide, by decide, [], by decide +kernel, by simp⟩
  · simp [ClusterEnabled]

theorem cluster_runs_sound_fetchAgain :
    Runs.Through (clusterStep (config 4096)) (ClusterSound (config 4096)) start fetchAgain := by
  refine (cluster_runs_sound 4096 (by decide) fetchAgain fetchAgain_enabled).mpr ?_
  refine Runs.Along.cons True.intro rfl (Runs.Along.cons ?_ rfl (Runs.Along.cons True.intro rfl True.intro))
  intro _
  decide +kernel

-- Two pages of one cluster come back.
def twoBack : List ClusterOp := [.fetch (some 0), .free ⟨0, 0⟩, .free ⟨0, 1⟩]

theorem twoBack_enabled :
    Runs.Along (clusterStep (config 4096)) (ClusterEnabled (config 4096)) start twoBack := by
  refine Runs.Along.cons ?_ rfl (Runs.Along.cons ?_ rfl (Runs.Along.cons ?_ rfl True.intro))
  · simp [ClusterEnabled, start]
  · exact ⟨by decide, by decide, [], by decide +kernel, by simp⟩
  · exact ⟨by decide, by decide, [.page ⟨0, 0⟩], by decide +kernel, by simp⟩

/-- The second page makes the cluster its own successor. -/
theorem second_page_circular :
    Runs.Along (clusterStep (config 4096)) (ClusterEnabled (config 4096)) start twoBack ∧
      ∃ final, Runs.exec (clusterStep (config 4096)) start twoBack = some final ∧
        final.clusterFreeList = some 0 ∧ final.nextCluster 0 = some 0 ∧ ¬ ClusterSound (config 4096) final := by
  refine ⟨twoBack_enabled, _, rfl, by decide +kernel, by decide +kernel, ?_⟩
  intro sound
  obtain ⟨cache, chain, nodup⟩ := sound.once
  obtain ⟨rest, rfl, tail⟩ := chain.tail (x := 0) (by decide +kernel)
  exact (List.nodup_cons.mp nodup).1 (tail.head_mem (by decide +kernel))

end Exact

end PrototypeBundle.PageCache
