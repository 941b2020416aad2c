import PrototypeBundle.PageCache.Records
import PrototypeBundle.Shared.Run

set_option autoImplicit false

namespace PrototypeBundle.PageCache

open BinAlloc (Config)
open Intrusive

variable (cfg : Config)

-- Slots that `cluster_meta::make` formats, with the product on `std::uint32_t`.
def slotCount : Nat := cfg.pageMetaSize * cfg.clusterPageCount % 2 ^ 32 / cfg.pageMetaSize

def slot (c i : Nat) : Node := .page ⟨c, i⟩

def Store.clusterMake (s : Store) (c : Nat) : Store :=
  { s with
    pages := fun n => match n with
      | .page p => if p.cluster = c ∧ p.slot < slotCount cfg
          then { s.pages n with next := formatted (slot c) (slotCount cfg) p.slot }
          else s.pages n
      | _ => s.pages n
    clusters := Function.update s.clusters c { freeList := formattedHead (slot c) (slotCount cfg) }
    reserved := c :: s.reserved }

-- `reserve` is what the operating system returns for a new cluster.
def Store.clusterAlloc (s : Store) (reserve : Option Nat) : Store × Option Nat :=
  match reserve with
  | none => (s, none)
  | some c => (s.clusterMake cfg c, some c)

def Store.clusterCachePop (s : Store) : Store × Option Nat :=
  match s.clusterFreeList with
  | none => (s, none)
  | some c => ({ s with clusterFreeList := (s.clusters c).next }, some c)

-- `cluster_cache_return`
def Store.clusterCachePush (s : Store) (c : Nat) : Store :=
  { s.setCluster c { s.clusters c with next := s.clusterFreeList } with clusterFreeList := some c }

def Store.commit (s : Store) (c : Nat) : Store := s.setCluster c { s.clusters c with state := .inUse }

-- `cluster_cache_release`
def Store.decommit (s : Store) (c : Nat) : Store := s.setCluster c { s.clusters c with state := .unused }

def Store.clusterTake (s : Store) (reserve : Option Nat) : Store × Option Nat :=
  match s.clusterCachePop with
  | (s, none) => s.clusterAlloc cfg reserve
  | (s, some c) => (s, some c)

def Store.commitUnused (s : Store) (c : Nat) : Store := if (s.clusters c).state = .unused then s.commit c else s

def Store.clusterCacheFetch (s : Store) (reserve : Option Nat) : Store × Option Nat :=
  match s.clusterTake cfg reserve with
  | (s, none) => (s, none)
  | (s, some c) => (s.commitUnused c, some c)

-- `cluster_meta::transfer` to `page_cache::free_list`
def Store.clusterTransfer (s : Store) (c : Nat) : Store :=
  { s.setCluster c { s.clusters c with
      freeList := none
      used := cfg.clusterPageCount % 2 ^ 16
      state := .untethered } with
    pageFreeList := (s.clusters c).freeList }

-- The part of `cluster_meta::free` before the cluster goes back to the cache.
def Store.clusterPush (s : Store) (p : Page) : Store :=
  let cmeta := s.clusters p.cluster
  (s.setPage (.page p) { s.pages (.page p) with next := cmeta.freeList }).setCluster p.cluster
    { cmeta with freeList := some (.page p), used := decrement cmeta.used }

-- A cluster that is `untethered` goes back to the cache; its state stays.
def Store.returnUntethered (s : Store) (c : Nat) : Store :=
  if (s.clusters c).state = .untethered then s.clusterCachePush c else s

def Store.releaseUnused (s : Store) (c : Nat) : Store := if (s.clusters c).used = 0 then s.decommit c else s

-- `cluster_meta::free`
def Store.clusterFree (s : Store) (p : Page) : Store :=
  ((s.clusterPush p).returnUntethered p.cluster).releaseUnused p.cluster

section Frame

variable (s : Store) (c : Nat)

@[simp] theorem returnUntethered_pages : (s.returnUntethered c).pages = s.pages := by
  unfold Store.returnUntethered
  split <;> rfl

@[simp] theorem returnUntethered_links : (s.returnUntethered c).links = s.links := by
  unfold Store.returnUntethered
  split <;> rfl

@[simp] theorem releaseUnused_pages : (s.releaseUnused c).pages = s.pages := by
  unfold Store.releaseUnused
  split <;> rfl

@[simp] theorem releaseUnused_links : (s.releaseUnused c).links = s.links := by
  unfold Store.releaseUnused
  split <;> rfl

@[simp] theorem clusterFree_links (p : Page) : (s.clusterFree p).links = s.links := by
  simp [Store.clusterFree, Store.clusterPush]

theorem clusterFree_pages (p : Page) {n : Node} (different : n ≠ .page p) : (s.clusterFree p).pages n = s.pages n := by
  simp [Store.clusterFree, Store.clusterPush, Function.update_of_ne different]

theorem clusterFree_fields (p : Page) (n : Node) : ∃ next prev, (s.clusterFree p).pages n = { s.pages n with next, prev } := by
  by_cases same : n = .page p
  · subst same
    exact ⟨(s.clusters p.cluster).freeList, (s.pages (.page p)).prev, by simp [Store.clusterFree, Store.clusterPush]⟩
  · rw [clusterFree_pages s p same]
    exact ⟨_, _, rfl⟩

end Frame

end PrototypeBundle.PageCache
