import PrototypeBundle.PageCache.Steps
import PrototypeBundle.Shared.Run

set_option autoImplicit false

namespace PrototypeBundle.PageCache

open BinAlloc (Config config FieldsFit config_pageMetaSize)
open Intrusive

variable (cfg : Config) (bin : Nat)

def InCluster (s : Store) (p : Page) : Prop :=
  ∃ list, Chain s.nextNode (s.clusters p.cluster).freeList list ∧ .page p ∈ list

def InPageCache (s : Store) (p : Page) : Prop := ∃ list, Chain s.nextNode s.pageFreeList list ∧ .page p ∈ list

def InBin (s : Store) (bin : Nat) (p : Page) : Prop := ∃ list, BinList s bin list ∧ p ∈ list

def System.Holds (s : System) (t : Nat) (b : Block) : Prop := ∃ list, Chain s.store.links (s.heads t) list ∧ b ∈ list

/-- One thread is fetching the page, or its blocks were handed to the bins of threads, each to one. -/
def System.Detached (s : System) (p : Page) : Prop :=
  (∃ t, s.pcs t = .fetched p ∧ ∀ t', s.pcs t' = .fetched p → t' = t) ∨
    (∀ t, s.pcs t ≠ .fetched p) ∧ (s.store.pages (.page p)).freeList = none ∧
      ∀ t t' b, b.page = p → s.Holds t b → s.Holds t' b → t = t'

/-- A page is never at two places, and at none only while its lock is held in `page_meta::free`. -/
structure System.Placed (s : System) (bin : Nat) (p : Page) : Prop where
  clusterOrCache : ¬ (InCluster s.store p ∧ InPageCache s.store p)
  clusterOrBin : ¬ (InCluster s.store p ∧ InBin s.store bin p)
  cacheOrBin : ¬ (InPageCache s.store p ∧ InBin s.store bin p)
  detached : ¬ InCluster s.store p → ¬ InPageCache s.store p → ¬ InBin s.store bin p → s.pageLocked p = false →
    s.Detached p

def System.Releases (s : System) (t : Nat) (p : Page) : Prop :=
  s.pcs t = .releasing p ∨ s.pcs t = .freeing p ∨ s.pcs t = .clusterReturning p ∨ s.pcs t = .clusterReleasing p

/-- `allowed` says which actions a run may take. -/
structure System.Sound (s : System) (allowed : System → Action → Prop) : Prop where
  placed : ∀ p : Page, p.cluster ∈ s.store.reserved → p.slot < cfg.clusterPageCount → s.Placed bin p
  fetching : ∀ t p, s.pcs t = .fetched p → (∀ t', ¬ s.Releases t' p) ∧ ¬ InCluster s.store p
  untouched : ∀ a next, allowed s a → s.step cfg bin a = some next →
    ∀ p : Page, p.cluster ∈ s.store.reserved → InCluster s.store p →
      next.store.pages (.page p) = s.store.pages (.page p)

section Soundness

variable {cfg bin} {s : System} {l : Lists}

theorem Inv.bin_active (inv : Inv cfg bin s l) (exist : (bin : Int) < cfg.binCount) {p : Page}
    (inside : InBin s.store bin p) : p ∈ l.bins bin := by
  obtain ⟨list, strung, member⟩ := inside
  rwa [binNodes_unique _ strung (inv.hands.places.strung bin exist)] at member

theorem Inv.cache_listed (inv : Inv cfg bin s l) {p : Page} (inside : InPageCache s.store p) : p ∈ l.pageList := by
  obtain ⟨list, chain, member⟩ := inside
  rw [chain.unique inv.cache.chain] at member
  obtain ⟨q, listed, same⟩ := List.mem_map.mp member
  exact Node.page.inj same ▸ listed

theorem Inv.cluster_moving (inv : Inv cfg bin s l) {p : Page} (member : p.cluster ∈ s.store.reserved)
    (inside : InCluster s.store p) : ∃ t, (s.pcs t).stage = .moving p.cluster := by
  by_contra rest
  simp only [not_exists] at rest
  obtain ⟨list, chain, listed⟩ := inside
  rw [chain.head_none_iff.mp (inv.cache.settled p.cluster member rest)] at listed
  simp at listed

theorem Inv.cluster_apart (inv : Inv cfg bin s l) {p : Page} (member : p.cluster ∈ s.store.reserved)
    (inside : InCluster s.store p) : p ∉ l.made ∧ p ∉ l.pageList := by
  obtain ⟨t, moves⟩ := inv.cluster_moving member inside
  refine ⟨(inv.cache.moving t p.cluster moves).2.2 p.slot, ?_⟩
  rw [inv.cache.empty t (Or.inr ⟨_, moves⟩)]
  simp

theorem Inv.sound (inv : Inv cfg bin s l) (exist : (bin : Int) < cfg.binCount)
    (bounds : 2 ≤ cfg.binObjectCount bin ∧ cfg.binObjectCount bin < 2 ^ 16)
    (slots : slotCount cfg = cfg.clusterPageCount) : s.Sound cfg bin System.Careful := by
  constructor
  · intro p member below
    have active (inside : InBin s.store bin p) : p ∈ l.made :=
      Or.inr ((inv.hands.places.linked bin p).mp (inv.bin_active exist inside)).1
    constructor
    case clusterOrCache =>
      rintro ⟨cluster, cache⟩
      exact (inv.cluster_apart member cluster).2 (inv.cache_listed cache)
    case clusterOrBin =>
      rintro ⟨cluster, inside⟩
      exact (inv.cluster_apart member cluster).1 (active inside)
    case cacheOrBin =>
      rintro ⟨cache, inside⟩
      exact (inv.cache.listed p (inv.cache_listed cache)).1 (active inside)
    case detached =>
      intro notCluster notCache notBin unlocked
      have made : p ∈ l.made := by
        rcases inv.cache.covered p member (slots ▸ below) with listed | made | ⟨t, moves⟩
        · exact absurd ⟨_, inv.cache.chain, List.mem_map_of_mem listed⟩ notCache
        · exact made
        · refine absurd ⟨_, (inv.cache.moving t p.cluster moves).2.1, ?_⟩ notCluster
          exact List.mem_map.mpr ⟨p.slot, List.mem_range.mpr (slots ▸ below), rfl⟩
      by_cases held : p ∈ l.fresh ∨ p ∈ l.popped
      · obtain ⟨t, at'⟩ := (inv.hands.fetched p).mp held
        exact Or.inl ⟨t, at', fun t' at'' => inv.hands.fetchedOnce t' t p at'' at'⟩
      · simp only [not_or] at held
        have working : p ∈ l.active := made.resolve_left held.1
        have loose : (s.store.pages (.page p)).isTethered = false := by
          by_contra tethered
          have linked := (inv.hands.places.linked bin p).mpr
            ⟨working, held.2, inv.hands.served p (Or.inr working), by simpa using tethered⟩
          exact notBin ⟨_, inv.hands.places.strung bin exist, linked⟩
        refine Or.inr ⟨?_, inv.hands.loose p working loose unlocked, ?_⟩
        · intro t at'
          rcases (inv.hands.fetched p).mpr ⟨t, at'⟩ with fresh | popped
          · exact held.1 fresh
          · exact held.2 popped
        · rintro t t' b _ ⟨list, chain, member₁⟩ ⟨list', chain', member₂⟩
          rw [chain.unique (inv.blocks.chains t)] at member₁
          rw [chain'.unique (inv.blocks.chains t')] at member₂
          exact inv.blocks.apart t t' b member₁ member₂
  · intro t p at'
    refine ⟨?_, ?_⟩
    · intro t' releases
      have kept := inv.hands.kept t'
      rcases releases with here | here | here | here <;> simp [here, Pc.releases] at kept
    · intro inside
      have made : p ∈ l.made := by
        rcases (inv.hands.fetched p).mpr ⟨t, at'⟩ with fresh | popped
        · exact Or.inl fresh
        · exact Or.inr (inv.hands.places.fetched p popped).1
      exact (inv.cluster_apart (inv.cache.known p made) inside).1 made
  · intro a next careful run p member inside
    have apart := inv.cluster_apart member inside
    exact (inv.step exist bounds careful run).2 p member apart.1 apart.2

end Soundness

def firstAlloc (t : Nat) : List Action :=
  [.alloc t, .resume t none, .resume t (some 0), .resume t none, .resume t none, .resume t none, .resume t none]

-- A client writes to its block, which comes back from another thread, which then fetches the page.
def handover : List Action :=
  firstAlloc 0 ++ [.write ⟨⟨0, 0⟩, 0⟩ (some ⟨⟨0, 0⟩, 0⟩), .free 1 ⟨⟨0, 0⟩, 0⟩, .resume 1 none, .alloc 1, .resume 1 none]

-- One thread stores pointers in its blocks, which `bin_alloc` follows to a block that is in use; every
-- block comes back after the bin has run empty.
def overwritten : List Action :=
  firstAlloc 0 ++ [.alloc 0, .write ⟨⟨0, 0⟩, 2⟩ (some ⟨⟨0, 0⟩, 0⟩), .alloc 0, .write ⟨⟨0, 0⟩, 0⟩ (some ⟨⟨0, 0⟩, 1⟩), .alloc 0,
    .write ⟨⟨0, 0⟩, 1⟩ (some ⟨⟨0, 0⟩, 3⟩), .alloc 0, .write ⟨⟨0, 0⟩, 3⟩ none, .alloc 0, .free 0 ⟨⟨0, 0⟩, 3⟩, .resume 0 none,
    .free 0 ⟨⟨0, 0⟩, 1⟩, .free 0 ⟨⟨0, 0⟩, 2⟩, .free 0 ⟨⟨0, 0⟩, 0⟩, .resume 0 none, .resume 0 none, .resume 0 none,
    .resume 0 none]

/-- No block comes back from the head of a bin here: the links alone are enough. -/
theorem overwritten_page_written :
    Runs.Along (System.step (config (2 ^ 12)) 6) (fun s a => s.Enabled a ∧ s.LeavesHeads a) .start overwritten ∧
      ∃ final, Runs.exec (System.step (config (2 ^ 12)) 6) .start overwritten = some final ∧
        final.live = [⟨⟨0, 0⟩, 0⟩] ∧ InCluster final.store ⟨0, 0⟩ ∧
        ¬ final.Sound (config (2 ^ 12)) 6 (fun s a => s.Enabled a ∧ s.LeavesHeads a) := by
  have enabled : Runs.Along (System.step (config (2 ^ 12)) 6) System.Enabled .start overwritten :=
    Runs.Along.of_check (by decide +kernel)
  have leaves : Runs.Along (System.step (config (2 ^ 12)) 6) System.LeavesHeads .start overwritten := by
    iterate 16 refine Runs.Along.cons True.intro rfl ?_
    refine Runs.Along.cons ?_ rfl (Runs.Along.cons True.intro rfl (Runs.Along.cons ?_ rfl (Runs.Along.cons ?_ rfl
      (Runs.Along.cons ?_ rfl ?_))))
    iterate 4 · rintro (_ | t) <;> exact nofun
    iterate 4 refine Runs.Along.cons True.intro rfl ?_
    exact True.intro
  refine ⟨enabled.and leaves, _, rfl, by decide +kernel, ⟨[.page ⟨0, 0⟩], by decide +kernel, by simp⟩, ?_⟩
  intro sound
  have same := sound.untouched (.free 0 ⟨⟨0, 0⟩, 0⟩) _ ⟨by decide +kernel, ?_⟩ rfl ⟨0, 0⟩ (by decide +kernel)
    ⟨[.page ⟨0, 0⟩], by decide +kernel, by simp⟩
  · exact absurd same (by decide +kernel)
  · rintro (_ | t) <;> exact nofun

end PrototypeBundle.PageCache
