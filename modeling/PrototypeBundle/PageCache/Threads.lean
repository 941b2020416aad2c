import PrototypeBundle.PageCache.Places

set_option autoImplicit false

/-!
# Threads that share one bin

A step is a section under one lock, up to the next lock that is taken or given
back inside of it. Reads and writes of what the locks already held guard, and
of what only this thread can reach, belong to the step before or after.
-/

namespace PrototypeBundle.PageCache

open BinAlloc (Config)

inductive Pc where
  | idle
  -- take the lock of the page cache in `page_alloc_new_page`
  | newPage
  -- take the lock of the cluster cache in `cluster_cache_fetch`
  | fetchCluster
  -- the rest of `cluster_cache_fetch`
  | commitCluster (c : Nat)
  -- `cluster_meta::transfer`
  | transferCluster (c : Nat)
  -- the rest of `page_alloc_new_page`
  | formatPage
  -- `page_meta::transfer_to`
  | fetched (p : Page)
  -- take the lock of the bin in `page_cache_return`
  | returning (p : Page)
  -- take the lock of the bin in `page_cache_release`
  | releasing (p : Page)
  -- `cluster_meta::free`
  | freeing (p : Page)
  -- take the lock of the cluster cache in `cluster_cache_return`
  | clusterReturning (p : Page)
  -- the rest of `cluster_meta::free`
  | clusterReleasing (p : Page)
  deriving DecidableEq

structure System where
  store : Store
  -- the bin of each thread's `bin_cache`
  heads : Nat → Option Block
  pcs : Nat → Pc
  pageLocked : Page → Bool
  cacheLocked : Bool
  clusterLocked : Nat → Bool
  -- handed out and not given back, as often as that happened
  live : List Block

def System.start : System where
  store := PageCache.start
  heads := fun _ => none
  pcs := fun _ => .idle
  pageLocked := fun _ => false
  cacheLocked := false
  clusterLocked := fun _ => false
  live := []

def System.goto (s : System) (t : Nat) (pc : Pc) : System := { s with pcs := Function.update s.pcs t pc }

def System.lockPage (s : System) (p : Page) (locked : Bool) : System :=
  { s with pageLocked := Function.update s.pageLocked p locked }

variable (cfg : Config) (bin : Nat)

-- `bin_alloc`; a thread with an empty bin goes on with `page_cache_bin::pop`.
def System.binAlloc (s : System) (t : Nat) : Option System :=
  match s.heads t with
  | some head =>
      -- what is returned is the block behind the head, which stays in the bin as its new head
      let next := s.store.links head
      some { s with heads := Function.update s.heads t next, live := next.toList ++ s.live }
  | none => do
      match ← s.store.binPop bin with
      | (store, some p) => return { s with store }.goto t (.fetched p)
      | (store, none) => return { s with store }.goto t .newPage

def System.newPage (s : System) (t : Nat) : Option System :=
  if s.cacheLocked then none
  else some ({ s with cacheLocked := true }.goto t (if s.store.pageFreeList.isNone then .fetchCluster else .formatPage))

def System.fetchCluster (s : System) (t : Nat) (reserve : Option Nat) : Option System :=
  match s.store.clusterTake cfg reserve with
  | (store, some c) => some ({ s with store }.goto t (.commitCluster c))
  | (store, none) => some ({ s with store, cacheLocked := false }.goto t .idle)

def System.commitCluster (s : System) (t c : Nat) : System :=
  { s with store := s.store.commitUnused c }.goto t (.transferCluster c)

def System.transferCluster (s : System) (t c : Nat) : Option System :=
  if s.clusterLocked c then none
  else some ({ s with store := s.store.clusterTransfer cfg c }.goto t .formatPage)

def System.formatPage (s : System) (t : Nat) : Option System :=
  match s.store.pageFreeList with
  | some (.page p) => do
      let popped := { s.store with pageFreeList := (s.store.pages (.page p)).next }
      return { s with store := ← popped.pageMake cfg p bin, cacheLocked := false }.goto t (.fetched p)
  | _ => none

-- The rest of `bin_alloc_fetch_page`.
def System.transferPage (s : System) (t : Nat) (p : Page) : Option System :=
  if s.pageLocked p then none
  else
    let (store, head) := s.store.transferTo cfg p
    some ({ s with
      store
      heads := Function.update s.heads t (head.bind store.links)
      live := head.toList ++ s.live }.goto t .idle)

-- `page_meta::free` of a page that is in its bin
def System.settle (s : System) (t : Nat) (p : Page) : System :=
  if (s.store.pages (.page p)).used = 0 then (s.lockPage p true).goto t (.releasing p)
  else (s.lockPage p false).goto t .idle

def System.binFree (s : System) (t : Nat) (b : Block) : Option System :=
  if s.pageLocked b.page then none
  else
    let s := { s with store := s.store.pagePush b.page b, live := s.live.erase b }
    if (s.store.pages (.page b.page)).isTethered then some (s.settle t b.page)
    else some ((s.lockPage b.page true).goto t (.returning b.page))

def System.pageReturn (s : System) (t : Nat) (p : Page) : Option System := do
  return { s with store := ← s.store.pageReturn p }.settle t p

def System.detach (s : System) (t : Nat) (p : Page) : Option System := do
  return { s with store := ← s.store.detach p }.goto t (.freeing p)

-- `cluster_meta::free` up to the cluster cache, with the lock of the cluster held
def System.freePage (s : System) (t : Nat) (p : Page) : Option System :=
  if s.clusterLocked p.cluster then none
  else
    let store := s.store.clusterPush p
    let next := if (store.clusters p.cluster).state = .untethered then Pc.clusterReturning p else .clusterReleasing p
    some ({ s with store, clusterLocked := Function.update s.clusterLocked p.cluster true }.goto t next)

def System.returnCluster (s : System) (t : Nat) (p : Page) : System :=
  { s with store := s.store.clusterCachePush p.cluster }.goto t (.clusterReleasing p)

def System.releaseCluster (s : System) (t : Nat) (p : Page) : System :=
  ({ s with
    store := s.store.releaseUnused p.cluster
    clusterLocked := Function.update s.clusterLocked p.cluster false }.lockPage p false).goto t .idle

def System.write (s : System) (b : Block) (link : Option Block) : System :=
  { s with store := { s.store with links := Function.update s.store.links b link } }

inductive Action where
  | alloc (t : Nat)
  | free (t : Nat) (b : Block)
  -- A client stores a pointer in the first word of a block, which is where `link::next` of a free block lies.
  | write (b : Block) (link : Option Block)
  -- The next step of a call that is under way.
  | resume (t : Nat) (reserve : Option Nat)

def System.resume (s : System) (t : Nat) (reserve : Option Nat) : Option System :=
  match s.pcs t with
  | .idle => none
  | .newPage => s.newPage t
  | .fetchCluster => s.fetchCluster cfg t reserve
  | .commitCluster c => some (s.commitCluster t c)
  | .transferCluster c => s.transferCluster cfg t c
  | .formatPage => s.formatPage cfg bin t
  | .fetched p => s.transferPage cfg t p
  | .returning p => s.pageReturn t p
  | .releasing p => s.detach t p
  | .freeing p => s.freePage t p
  | .clusterReturning p => some (s.returnCluster t p)
  | .clusterReleasing p => some (s.releaseCluster t p)

def System.step (s : System) : Action → Option System
  | .alloc t => if s.pcs t = .idle then s.binAlloc bin t else none
  | .free t b => if s.pcs t = .idle then s.binFree t b else none
  | .write b link => some (s.write b link)
  | .resume t reserve => s.resume cfg bin t reserve

/-- Callers give back and write to blocks that they were given, and `reserve` answers with new regions. -/
def System.Enabled (s : System) : Action → Prop
  | .alloc _ => True
  | .free _ b => b ∈ s.live
  | .write b _ => b ∈ s.live
  | .resume _ reserve => ∀ c, reserve = some c → c ∉ s.store.reserved

instance (s : System) : (a : Action) → Decidable (s.Enabled a)
  | .alloc _ => inferInstanceAs (Decidable True)
  | .free _ b => inferInstanceAs (Decidable (b ∈ s.live))
  | .write b _ => inferInstanceAs (Decidable (b ∈ s.live))
  | .resume _ reserve =>
      decidable_of_iff (reserve.all (· ∉ s.store.reserved) = true) (by cases reserve <;> simp [System.Enabled])

/-- No block comes back that a thread still has at the head of its bin. -/
def System.LeavesHeads (s : System) : Action → Prop
  | .free _ b => ∀ t, s.heads t ≠ some b
  | _ => True

/-- Nor is the link of such a block changed, which the next `bin_alloc` of the thread follows. -/
def System.LeavesLinks (s : System) : Action → Prop
  | .write b link => ∀ t, s.heads t = some b → link = s.store.links b
  | _ => True

structure System.Careful (s : System) (a : Action) : Prop where
  enabled : s.Enabled a
  heads : s.LeavesHeads a
  links : s.LeavesLinks a

end PrototypeBundle.PageCache
