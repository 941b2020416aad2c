import PrototypeBundle.BinAlloc.Reserve
import PrototypeBundle.PageCache.Threads

set_option autoImplicit false

namespace PrototypeBundle.PageCache

open BinAlloc (Config config FieldsFit mapFailed reserve Fails)
open Intrusive

variable (cfg : Config)

-- Null is the address 0. A cluster is named by its address here.
def pointer (address : Nat) : Option Nat := if address = 0 then none else some address

-- The end of `page_alloc_new_page`
def Store.popNewPage (s : Store) (bin : Nat) : Option (Store × Option Page) :=
  match s.pageFreeList with
  | some (.page p) => do
      let popped := { s with pageFreeList := (s.pages (.page p)).next }
      return (← popped.pageMake cfg p bin, some p)
  | _ => none

def Store.pageAllocNewPage (s : Store) (bin : Nat) (reserve : Option Nat) : Option (Store × Option Page) :=
  if s.pageFreeList.isNone then
    match s.clusterCacheFetch cfg reserve with
    | (s, none) => some (s, none)
    | (s, some c) => (s.clusterTransfer cfg c).popNewPage cfg bin
  else s.popNewPage cfg bin

def Store.pageCacheFetch (s : Store) (bin : Nat) (reserve : Option Nat) : Option (Store × Option Page) := do
  match ← s.binPop bin with
  | (s, some p) => return (s, some p)
  | (s, none) => s.pageAllocNewPage cfg bin reserve

def failedCluster (pageSize : Nat) : Option Nat :=
  pointer (reserve pageSize (fun _ => mapFailed) (config pageSize).clusterSize (config pageSize).clusterSize).address

section Failure

variable {s : Store} {bin : Nat}

theorem clusterTake_failed (noCluster : s.clusterFreeList = none) : s.clusterTake cfg none = (s, none) := by
  rw [Store.clusterTake, Store.clusterCachePop, noCluster]
  rfl

theorem clusterCacheFetch_failed (noCluster : s.clusterFreeList = none) : s.clusterCacheFetch cfg none = (s, none) := by
  rw [Store.clusterCacheFetch, clusterTake_failed cfg noCluster]

theorem pageCacheFetch_failed (noCluster : s.clusterFreeList = none) (noPage : s.pageFreeList = none)
    (empty : BinList s bin []) : s.pageCacheFetch cfg bin none = some (s, none) := by
  rw [Store.pageCacheFetch, binPop_nil empty]
  simp [Store.pageAllocNewPage, noPage, clusterCacheFetch_failed cfg noCluster]

theorem failedCluster_none {K : Nat} (fits : FieldsFit (2 ^ K)) : failedCluster (2 ^ K) = none := by
  obtain ⟨small, large⟩ := fits.bounds
  rw [failedCluster, fits.clusterSize, BinAlloc.reserve_failed_null _ _ _ (by omega) (by omega)]
  rfl

/-- A thread that is told so gives up with everything as it was. -/
theorem thread_failed {s : System} {t : Nat} (idle : s.pcs t = .idle) (unlocked : s.cacheLocked = false)
    (noHead : s.heads t = none) (noCluster : s.store.clusterFreeList = none) (noPage : s.store.pageFreeList = none)
    (empty : BinList s.store bin []) :
    Runs.exec (System.step cfg bin) s [.alloc t, .resume t none, .resume t none] = some s := by
  have first : s.step cfg bin (.alloc t) = some (s.goto t .newPage) := by
    simp [System.step, idle, System.binAlloc, noHead, binPop_nil empty]
  have second : (s.goto t .newPage).step cfg bin (.resume t none) =
      some ({ s with cacheLocked := true }.goto t .fetchCluster) := by
    simp [System.step, System.resume, System.goto, System.newPage, unlocked, noPage]
  have third : ({ s with cacheLocked := true }.goto t .fetchCluster).step cfg bin (.resume t none) = some s := by
    simp [System.step, System.resume, System.goto, System.fetchCluster, clusterTake_failed cfg noCluster, ← unlocked, ← idle]
  exact Runs.exec_cons.mpr ⟨_, first, Runs.exec_cons.mpr ⟨_, second, Runs.exec_cons.mpr ⟨_, third, rfl⟩⟩⟩

end Failure

/-- `reserve` always unmaps something, or returns no null; the layers above it do find null and leave their lists alone. -/
theorem mmap_failure (pageSize size alignment : Nat) :
    ¬ Fails pageSize (fun _ => mapFailed) size alignment ∧
      ∀ K, FieldsFit (2 ^ K) → ∀ (s : Store) (bin : Nat), s.clusterFreeList = none →
        s.clusterCacheFetch (config (2 ^ K)) (failedCluster (2 ^ K)) = (s, none) ∧
          (s.pageFreeList = none → BinList s bin [] →
            s.pageCacheFetch (config (2 ^ K)) bin (failedCluster (2 ^ K)) = some (s, none)) := by
  refine ⟨BinAlloc.reserve_never_fails pageSize size alignment, fun K fits s bin noCluster => ?_⟩
  rw [failedCluster_none fits]
  exact ⟨clusterCacheFetch_failed _ noCluster, fun noPage empty => pageCacheFetch_failed _ noCluster noPage empty⟩

theorem mmap_failure_start : start.clusterCacheFetch (config (2 ^ 12)) (failedCluster (2 ^ 12)) = (start, none) ∧
    start.pageCacheFetch (config (2 ^ 12)) 0 (failedCluster (2 ^ 12)) = some (start, none) := by
  have fetched := (mmap_failure 4096 0x80000 0x80000).2 12 ⟨by decide, by decide, by decide⟩ start 0 rfl
  exact ⟨fetched.1, fetched.2 rfl (start_empty 0)⟩

/-- A cluster for pages of 4 KiB: the last byte of the address space is unmapped, and most of a region
at the address 0x80000. -/
theorem failed_cluster_unmaps : ¬ Fails 4096 (fun _ => mapFailed) 0x80000 0x80000 := by
  rintro ⟨-, silent⟩
  exact absurd silent (by decide)

end PrototypeBundle.PageCache
