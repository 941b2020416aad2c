import PrototypeBundle.BinAlloc.Config
import PrototypeBundle.Shared.Chain
import Mathlib.Data.List.Perm.Subperm

set_option autoImplicit false

/-!
# The records behind `sgc2::page_cache` and `sgc2::cluster_cache`

Pages and blocks are named by their place, so that an address always leads to
its own page and cluster. The first field of a `page_meta` is `next`; a page on
a free list keeps its link there.
-/

namespace PrototypeBundle.PageCache

open BinAlloc (Config)

structure Page where
  cluster : Nat
  slot : Nat
  deriving DecidableEq, Repr

structure Block where
  page : Page
  index : Nat
  deriving DecidableEq, Repr

inductive Node where
  | head (bin : Nat)
  | tail (bin : Nat)
  | page (p : Page)
  deriving DecidableEq, Repr

structure PageMeta where
  next : Option Node := none
  prev : Option Node := none
  freeList : Option Block := none
  used : Nat := 0
  binIndex : Nat := 0
  isTethered : Bool := true
  deriving DecidableEq

inductive ClusterState where
  | unused
  | inUse
  | untethered
  deriving DecidableEq, Repr

structure ClusterMeta where
  next : Option Nat := none
  freeList : Option Node := none
  used : Nat := 0
  state : ClusterState := .inUse
  deriving DecidableEq

structure Store where
  pages : Node → PageMeta
  links : Block → Option Block
  -- `page_cache::free_list`
  pageFreeList : Option Node
  clusters : Nat → ClusterMeta
  -- `cluster_cache::free_list`
  clusterFreeList : Option Nat
  reserved : List Nat

-- `--used` on `std::uint16_t`
def decrement (used : Nat) : Nat := (used + (2 ^ 16 - 1)) % 2 ^ 16

theorem decrement_eq {used : Nat} (positive : 0 < used) (fits : used < 2 ^ 16) : decrement used = used - 1 := by
  unfold decrement
  omega

def Store.setPage (s : Store) (n : Node) (m : PageMeta) : Store := { s with pages := Function.update s.pages n m }

def Store.setCluster (s : Store) (c : Nat) (m : ClusterMeta) : Store :=
  { s with clusters := Function.update s.clusters c m }

def Store.nextNode (s : Store) (n : Node) : Option Node := (s.pages n).next

def Store.prevNode (s : Store) (n : Node) : Option Node := (s.pages n).prev

def Store.nextCluster (s : Store) (c : Nat) : Option Nat := (s.clusters c).next

def start : Store where
  pages
    | .head bin => { next := some (.tail bin) }
    | .tail bin => { prev := some (.head bin) }
    | .page _ => {}
  links := fun _ => none
  pageFreeList := none
  clusters := fun _ => {}
  clusterFreeList := none
  reserved := []

-- The link that `stack::format_stack` leaves in item `i` of `count`.
def formatted {α : Type} (item : Nat → α) (count i : Nat) : Option α :=
  if i + 1 < count then some (item (i + 1)) else none

def formattedHead {α : Type} (item : Nat → α) (count : Nat) : Option α :=
  if count = 0 then none else some (item 0)

open Intrusive

theorem formatted_chain_from {α : Type} {next : α → Option α} (item : Nat → α) (count : Nat) (rest i : Nat)
    (links : ∀ j, j < count → next (item j) = formatted item count j) (total : i + rest = count) :
    Chain next (if i < count then some (item i) else none) ((List.range' i rest).map item) := by
  induction rest generalizing i with
  | zero => simp [show ¬ i < count by omega]
  | succ rest ih =>
      rw [List.range'_succ, List.map_cons, if_pos (by omega)]
      refine ⟨rfl, ?_⟩
      rw [links i (by omega)]
      exact ih (i + 1) (by omega)

theorem formatted_chain {α : Type} (next : α → Option α) (item : Nat → α) (count : Nat)
    (links : ∀ j, j < count → next (item j) = formatted item count j) :
    Chain next (formattedHead item count) ((List.range count).map item) := by
  have chain := formatted_chain_from item count count 0 links (by omega)
  rw [← List.range_eq_range'] at chain
  unfold formattedHead
  by_cases empty : count = 0
  · simp [empty]
  · rw [if_neg empty]
    rwa [if_pos (by omega)] at chain

theorem length_lt_of_missing {α : Type} {item : Nat → α} {count i : Nat} {xs : List α} (distinct : xs.Nodup)
    (own : ∀ x ∈ xs, ∃ j, j < count ∧ x = item j) (below : i < count) (missing : item i ∉ xs) : xs.length < count := by
  have part : item i :: xs ⊆ (List.range count).map item := by
    intro x member
    rcases List.mem_cons.mp member with rfl | old
    · exact List.mem_map_of_mem (List.mem_range.mpr below)
    · obtain ⟨j, bound, rfl⟩ := own x old
      exact List.mem_map_of_mem (List.mem_range.mpr bound)
  have length := (List.subperm_of_subset (List.nodup_cons.mpr ⟨missing, distinct⟩) part).length_le
  simp only [List.length_cons, List.length_map, List.length_range] at length
  omega

section Setters

variable (s : Store)

@[simp] theorem setPage_pages (n : Node) (m : PageMeta) : (s.setPage n m).pages = Function.update s.pages n m := rfl

@[simp] theorem setPage_links (n : Node) (m : PageMeta) : (s.setPage n m).links = s.links := rfl

@[simp] theorem setPage_pageFreeList (n : Node) (m : PageMeta) : (s.setPage n m).pageFreeList = s.pageFreeList := rfl

@[simp] theorem setPage_clusters (n : Node) (m : PageMeta) : (s.setPage n m).clusters = s.clusters := rfl

@[simp] theorem setPage_clusterFreeList (n : Node) (m : PageMeta) :
    (s.setPage n m).clusterFreeList = s.clusterFreeList := rfl

@[simp] theorem setPage_reserved (n : Node) (m : PageMeta) : (s.setPage n m).reserved = s.reserved := rfl

@[simp] theorem setCluster_pages (c : Nat) (m : ClusterMeta) : (s.setCluster c m).pages = s.pages := rfl

@[simp] theorem setCluster_links (c : Nat) (m : ClusterMeta) : (s.setCluster c m).links = s.links := rfl

@[simp] theorem setCluster_pageFreeList (c : Nat) (m : ClusterMeta) :
    (s.setCluster c m).pageFreeList = s.pageFreeList := rfl

@[simp] theorem setCluster_clusters (c : Nat) (m : ClusterMeta) :
    (s.setCluster c m).clusters = Function.update s.clusters c m := rfl

@[simp] theorem setCluster_clusterFreeList (c : Nat) (m : ClusterMeta) :
    (s.setCluster c m).clusterFreeList = s.clusterFreeList := rfl

@[simp] theorem setCluster_reserved (c : Nat) (m : ClusterMeta) : (s.setCluster c m).reserved = s.reserved := rfl

end Setters

end PrototypeBundle.PageCache
