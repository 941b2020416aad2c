import PrototypeBundle.BinAlloc.Address
import PrototypeBundle.Shared.Run
import Mathlib.Logic.Function.Basic

set_option autoImplicit false

/-!
# The layers of `binalloc`

All structures and all blocks share one memory, a cell for every address at which a field
starts. The null pointer is 0. On a single thread the locks have no effect.
-/

namespace PrototypeBundle.BinAlloc

structure Heap where
  mem : Nat → Nat
  -- the `bin_cache` of the thread
  bins : Nat → Nat
  -- `page_cache::free_list`
  pageFreeList : Nat
  -- `cluster_cache::free_list`
  clusterFreeList : Nat
  -- the array `page_cache::bins`
  pageBins : Nat
  reserved : List Nat
  decommitted : List Nat

namespace PageMeta

abbrev next (pmeta : Nat) : Nat := pmeta
abbrev prev (pmeta : Nat) : Nat := pmeta + 8
abbrev freeList (pmeta : Nat) : Nat := pmeta + 16
abbrev used (pmeta : Nat) : Nat := pmeta + 24
abbrev binIndex (pmeta : Nat) : Nat := pmeta + 26
abbrev isTethered (pmeta : Nat) : Nat := pmeta + 28

end PageMeta

namespace ClusterMeta

abbrev next (cmeta : Nat) : Nat := cmeta
abbrev freeList (cmeta : Nat) : Nat := cmeta + 8
abbrev used (cmeta : Nat) : Nat := cmeta + 16
abbrev state (cmeta : Nat) : Nat := cmeta + 19

def unused : Nat := 0
def inUse : Nat := 1
def untethered : Nat := 2

end ClusterMeta

namespace Heap

-- `sizeof (page_cache_bin)` is 72: two sentinels and a mutex.
def binHead (h : Heap) (index : Nat) : Nat := h.pageBins + 72 * index

def binTail (h : Heap) (index : Nat) : Nat := h.pageBins + 72 * index + 32

def mapped (cfg : Config) (h : Heap) (a : Nat) : Bool :=
  (h.reserved.any fun c =>
    decide (c ≤ a ∧ a < c + cfg.clusterSize ∧ (a < c + cfg.pageSize ∨ c ∉ h.decommitted))) ||
    decide (h.pageBins ≤ a ∧ a < h.pageBins + 72 * cfg.binCount.toNat)

def set (h : Heap) (a value : Nat) : Heap := { h with mem := Function.update h.mem a value }

def load (cfg : Config) (h : Heap) (a : Nat) : Option Nat := if h.mapped cfg a then some (h.mem a) else none

def store (cfg : Config) (h : Heap) (a value : Nat) : Option Heap := if h.mapped cfg a then some (h.set a value) else none

-- The loop of `format_stack`.
def formatNodes (cfg : Config) (stride last : Nat) : Nat → Nat → Heap → Option Heap
  | 0, _, h => some h
  | fuel + 1, cursor, h =>
      if cursor < last then do
        let h ← h.store cfg cursor (cursor + stride)
        formatNodes cfg stride last fuel (cursor + stride) h
      else some h

-- `stack::format_stack` with the head of the list.
def formatStack (cfg : Config) (h : Heap) (buffer size stride : Nat) : Option (Heap × Nat) :=
  if size < stride then some (h, 0)
  else do
    let last := buffer + stride * (size / stride - 1)
    let h ← formatNodes cfg stride last (size / stride) buffer h
    let h ← h.store cfg last 0
    return (h, buffer)

-- `cluster_meta::make`
def makeCluster (cfg : Config) (h : Heap) (address : Nat) : Option Heap := do
  let (h, freeList) ← h.formatStack cfg (address + cfg.pageMetaSize) (cfg.pageMetaSize * cfg.clusterPageCount)
    cfg.pageMetaSize
  let h ← h.store cfg (ClusterMeta.next address) 0
  let h ← h.store cfg (ClusterMeta.freeList address) freeList
  let h ← h.store cfg (ClusterMeta.used address) 0
  h.store cfg (ClusterMeta.state address) ClusterMeta.inUse

-- `cluster_cache_fetch`; `reserve` returns `base` when it is called.
def clusterCacheFetch (cfg : Config) (h : Heap) (base : Nat) : Option (Heap × Nat) := do
  let (h, cmeta) ←
    if h.clusterFreeList = 0 then do
      let h ← { h with reserved := base :: h.reserved }.makeCluster cfg base
      some (h, base)
    else do
      let cmeta := h.clusterFreeList
      let next ← h.load cfg (ClusterMeta.next cmeta)
      some ({ h with clusterFreeList := next }, cmeta)
  let state ← h.load cfg (ClusterMeta.state cmeta)
  if state = ClusterMeta.unused then do
    let h ← { h with decommitted := h.decommitted.erase cmeta }.store cfg (ClusterMeta.state cmeta) ClusterMeta.inUse
    return (h, cmeta)
  else return (h, cmeta)

-- `cluster_meta::transfer` to `page_cache::free_list`
def transferCluster (cfg : Config) (h : Heap) (cmeta : Nat) : Option Heap := do
  let freeList ← h.load cfg (ClusterMeta.freeList cmeta)
  let h ← { h with pageFreeList := freeList }.store cfg (ClusterMeta.freeList cmeta) 0
  let h ← h.store cfg (ClusterMeta.used cmeta) (cfg.clusterPageCount % 2 ^ 16)
  h.store cfg (ClusterMeta.state cmeta) ClusterMeta.untethered

-- `page_meta::make`
def makePage (cfg : Config) (h : Heap) (address index : Nat) : Option Heap :=
  if cfg.binCount.toNat ≤ index then none
  else do
    let data := pageData cfg address
    let (h, freeList) ← h.formatStack cfg data.1 data.2 (cfg.binIndexMaxSize index)
    let h ← h.store cfg (PageMeta.next address) 0
    let h ← h.store cfg (PageMeta.prev address) 0
    let h ← h.store cfg (PageMeta.freeList address) freeList
    let h ← h.store cfg (PageMeta.used address) 0
    let h ← h.store cfg (PageMeta.binIndex address) index
    h.store cfg (PageMeta.isTethered address) 1

def pageAllocNewPage (cfg : Config) (h : Heap) (index base : Nat) : Option (Heap × Nat) := do
  let h ←
    if h.pageFreeList = 0 then do
      let (h, cmeta) ← h.clusterCacheFetch cfg base
      h.transferCluster cfg cmeta
    else some h
  let head := h.pageFreeList
  let next ← h.load cfg head
  let h ← { h with pageFreeList := next }.makePage cfg head index
  return (h, head)

-- `page_cache_bin::pop`; null for an empty list
def popPage (cfg : Config) (h : Heap) (index : Nat) : Option (Heap × Nat) := do
  let pmeta ← h.load cfg (PageMeta.next (h.binHead index))
  if pmeta = h.binTail index then return (h, 0)
  else do
    let next ← h.load cfg (PageMeta.next pmeta)
    let h ← h.store cfg (PageMeta.next (h.binHead index)) next
    let h ← h.store cfg (PageMeta.prev next) (h.binHead index)
    return (h, pmeta)

def pageCacheFetch (cfg : Config) (h : Heap) (index base : Nat) : Option (Heap × Nat) := do
  let (h, pmeta) ← h.popPage cfg index
  if pmeta = 0 then h.pageAllocNewPage cfg index base else return (h, pmeta)

-- `page_meta::transfer_to` the thread bin `index`
def transferPage (cfg : Config) (h : Heap) (pmeta index : Nat) : Option Heap := do
  let freeList ← h.load cfg (PageMeta.freeList pmeta)
  let h ← { h with bins := Function.update h.bins index freeList }.store cfg (PageMeta.freeList pmeta) 0
  let pageIndex ← h.load cfg (PageMeta.binIndex pmeta)
  let h ← h.store cfg (PageMeta.used pmeta) (cfg.binObjectCount pageIndex % 2 ^ 16)
  h.store cfg (PageMeta.isTethered pmeta) 0

-- `bin_alloc_fetch_page`
def fetchPage (cfg : Config) (h : Heap) (index base : Nat) : Option (Heap × Nat) := do
  let (h, pmeta) ← h.pageCacheFetch cfg (index % 2 ^ 8) base
  let h ← h.transferPage cfg pmeta index
  let head := h.bins index
  if head = 0 then return (h, head)
  else do
    let next ← h.load cfg head
    return ({ h with bins := Function.update h.bins index next }, head)

-- `bin_alloc`; too large a size is an exception
def binAlloc (cfg : Config) (h : Heap) (size base : Nat) : Option (Heap × Nat) :=
  let index := cfg.binIndex size
  if index = noBin then none
  else if h.bins index = 0 then h.fetchPage cfg index base
  else do
    let next ← h.load cfg (h.bins index)
    -- the new head of the bin is returned and stays in the bin
    return ({ h with bins := Function.update h.bins index next }, next)

-- `page_cache_return`, `page_cache_bin::push`
def pageCacheReturn (cfg : Config) (h : Heap) (pmeta : Nat) : Option Heap := do
  let index ← h.load cfg (PageMeta.binIndex pmeta)
  let first ← h.load cfg (PageMeta.next (h.binHead index))
  let h ← h.store cfg (PageMeta.next pmeta) first
  let h ← h.store cfg (PageMeta.prev pmeta) (h.binHead index)
  let h ← h.store cfg (PageMeta.prev first) pmeta
  h.store cfg (PageMeta.next (h.binHead index)) pmeta

-- `cluster_meta::free`
def freeSlot (cfg : Config) (h : Heap) (cmeta pmeta : Nat) : Option Heap := do
  let freeList ← h.load cfg (ClusterMeta.freeList cmeta)
  let h ← h.store cfg pmeta freeList
  let h ← h.store cfg (ClusterMeta.freeList cmeta) pmeta
  let used ← h.load cfg (ClusterMeta.used cmeta)
  let used := (used + (2 ^ 16 - 1)) % 2 ^ 16
  let h ← h.store cfg (ClusterMeta.used cmeta) used
  let state ← h.load cfg (ClusterMeta.state cmeta)
  let h ←
    if state = ClusterMeta.untethered then do
      let h ← h.store cfg (ClusterMeta.next cmeta) h.clusterFreeList
      some { h with clusterFreeList := cmeta }
    else some h
  if used = 0 then
    ({ h with decommitted := cmeta :: h.decommitted } : Heap).store cfg (ClusterMeta.state cmeta) ClusterMeta.unused
  else return h

-- `page_cache_release`, `page_cache_bin::detach`
def pageCacheRelease (cfg : Config) (h : Heap) (pmeta : Nat) : Option Heap := do
  let prev ← h.load cfg (PageMeta.prev pmeta)
  let next ← h.load cfg (PageMeta.next pmeta)
  let h ← h.store cfg (PageMeta.next prev) next
  let next ← h.load cfg (PageMeta.next pmeta)
  let prev ← h.load cfg (PageMeta.prev pmeta)
  let h ← h.store cfg (PageMeta.prev next) prev
  h.freeSlot cfg (clusterOwning cfg pmeta) pmeta

-- `page_meta::free`
def freeBlock (cfg : Config) (h : Heap) (pmeta address : Nat) : Option Heap := do
  let freeList ← h.load cfg (PageMeta.freeList pmeta)
  let h ← h.store cfg address freeList
  let h ← h.store cfg (PageMeta.freeList pmeta) address
  let used ← h.load cfg (PageMeta.used pmeta)
  let h ← h.store cfg (PageMeta.used pmeta) ((used + (2 ^ 16 - 1)) % 2 ^ 16)
  let tethered ← h.load cfg (PageMeta.isTethered pmeta)
  let h ←
    if tethered = 0 then do
      let h ← h.pageCacheReturn cfg pmeta
      h.store cfg (PageMeta.isTethered pmeta) 1
    else some h
  let used ← h.load cfg (PageMeta.used pmeta)
  if used = 0 then h.pageCacheRelease cfg pmeta else return h

def binFree (cfg : Config) (h : Heap) (address : Nat) : Option Heap := h.freeBlock cfg (owning cfg address) address

end Heap

/-- A block in use, with the size that was requested. -/
structure Block where
  address : Nat
  size : Nat
  deriving DecidableEq, Repr

def Block.extent (cfg : Config) (b : Block) : Nat := cfg.binIndexMaxSize (cfg.binIndex b.size)

structure State where
  heap : Heap
  live : List Block

inductive Op where
  -- `base` is what `reserve` returns if it is called
  | alloc (size base : Nat)
  | free (address : Nat)
  -- a client writes to a block
  | write (address value : Nat)
  deriving DecidableEq, Repr

def State.step (cfg : Config) (s : State) : Op → Option State
  | .alloc size base => do
      let (heap, address) ← s.heap.binAlloc cfg size base
      return { heap, live := { address, size } :: s.live }
  | .free address => do
      let heap ← s.heap.binFree cfg address
      return { heap, live := s.live.eraseP (·.address = address) }
  | .write address value => do
      let heap ← s.heap.store cfg address value
      return { s with heap }

-- The array `page_cache::bins` is at `pageBins`.
def start (cfg : Config) (pageBins : Nat) : State where
  heap :=
    { mem := fun a =>
        -- the sentinels of each bin are linked with each other
        if pageBins ≤ a ∧ (a - pageBins) / 72 < cfg.binCount.toNat then
          if (a - pageBins) % 72 = 0 then a + 32
          else if (a - pageBins) % 72 = 40 then a - 40
          else if (a - pageBins) % 72 = 28 ∨ (a - pageBins) % 72 = 60 then 1
          else 0
        else 0
      bins := fun _ => 0
      pageFreeList := 0
      clusterFreeList := 0
      pageBins
      reserved := []
      decommitted := [] }
  live := []

end PrototypeBundle.BinAlloc
