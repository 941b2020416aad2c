import PrototypeBundle.PageCache.Blocks
import PrototypeBundle.PageCache.Ownership

set_option autoImplicit false

namespace PrototypeBundle.PageCache

open BinAlloc (Config)
open Intrusive

variable (cfg : Config) (bin : Nat)

structure Lists where
  bins : Nat → List Page
  fresh : Set Page
  popped : Set Page
  active : Set Page
  pageList : List Page
  pageBlocks : Page → List Block
  binBlocks : Nat → List Block

def Lists.made (l : Lists) : Set Page := l.fresh ∪ l.active

structure Inv (s : System) (l : Lists) : Prop where
  hands : HandsInv cfg bin s l.bins l.fresh l.popped l.active
  cache : CacheInv cfg s l.made l.pageList
  blocks : BlockInv cfg bin s l.active l.pageBlocks l.binBlocks

def Untouched (s s' : System) (l : Lists) : Prop :=
  ∀ p : Page, p.cluster ∈ s.store.reserved → p ∉ l.made → p ∉ l.pageList →
    s'.store.pages (.page p) = s.store.pages (.page p)

section Steps

variable {cfg bin} {s : System} {l : Lists} {t : Nat}

theorem stages_update (pcs : Nat → Pc) (t : Nat) (pc : Pc) (same : pc.stage = (pcs t).stage) (t' : Nat) :
    (Function.update pcs t pc t').stage = (pcs t').stage := by
  by_cases here : t' = t
  · subst here
    simpa using same
  · simp [here]

theorem binAlloc_head {head : Block} (first : s.heads t = some head) :
    s.binAlloc bin t = some { s with
      heads := Function.update s.heads t (s.store.links head)
      live := (s.store.links head).toList ++ s.live } := by
  simp only [System.binAlloc, first]

theorem Inv.allocHead (inv : Inv cfg bin s l) (idle : s.pcs t = .idle) {head : Block} (first : s.heads t = some head) :
    ∃ s', s.binAlloc bin t = some s' ∧ (∃ l', Inv cfg bin s' l') ∧ Untouched s s' l := by
  obtain ⟨rest, shape, _⟩ := (inv.blocks.chains t).tail first
  refine ⟨_, binAlloc_head first, ⟨{ l with binBlocks := Function.update l.binBlocks t rest }, ?_, ?_, ?_⟩,
    fun _ _ _ _ => rfl⟩
  · refine inv.hands.congr (t := t) (fun _ => ⟨rfl, rfl⟩) (fun _ _ => rfl) rfl rfl
      (show _ = Function.update s.pcs t .idle from ?_) (by simp [idle, Pc.quiet]) rfl
      ?_ (by simp [Pc.fetching])
    · simp [← idle]
    · intro t' different
      simp [different]
  · exact inv.cache.congr (fun _ => rfl) rfl rfl rfl (fun _ => rfl) rfl rfl (fun _ _ => rfl)
  · exact inv.blocks.advance shape

theorem Inv.allocEmpty (inv : Inv cfg bin s l) (exist : (bin : Int) < cfg.binCount) (idle : s.pcs t = .idle)
    (none' : s.heads t = none) :
    ∃ s', s.binAlloc bin t = some s' ∧ (∃ l', Inv cfg bin s' l') ∧ Untouched s s' l := by
  have strung := inv.hands.places.strung bin exist
  cases shape : l.bins bin with
  | nil =>
      rw [shape] at strung
      refine ⟨s.goto t .newPage, ?_, ⟨l, ?_, ?_, ?_⟩, fun _ _ _ _ => rfl⟩
      · simp only [System.binAlloc, none', binPop_nil strung]
        rfl
      · exact inv.hands.congr (fun _ => ⟨rfl, rfl⟩) (fun _ _ => rfl) rfl rfl rfl (by simp [idle, Pc.quiet]) rfl
          (fun _ _ => rfl) (fun _ => none')
      · exact inv.cache.congr (stages_update _ _ _ (by simp [idle, Pc.stage])) rfl rfl rfl (fun _ => rfl) rfl rfl (fun _ _ => rfl)
      · exact inv.blocks.congr (fun _ _ => ⟨rfl, rfl, rfl⟩) (fun _ _ => rfl) rfl rfl
  | cons p rest =>
      have first := (inv.hands.places.linked bin p).mp (by simp [shape])
      obtain ⟨store, run, relinked, places⟩ := inv.hands.places.pop exist shape
      have field (q : Page) := relinked.field (.page q)
      have outside (q : Page) (unknown : q ∉ l.made) : store.pages (.page q) = s.store.pages (.page q) := by
        refine relinked.others _ ?_
        intro listed
        have inside : q ∈ l.bins bin := by simp [shape, page_mem_binNodes.mp listed]
        exact unknown (Or.inr ((inv.hands.places.linked bin q).mp inside).1)
      refine ⟨{ s with store }.goto t (.fetched p), ?_,
        ⟨{ l with bins := Function.update l.bins bin rest, popped := insert p l.popped }, ?_, ?_, ?_⟩, ?_⟩
      · simp only [System.binAlloc, none', run]
        rfl
      · refine inv.hands.fetch places (by simp [idle, Pc.quiet]) none' (by simp [idle]) ?_ ?_ ?_ ?_
        · rintro (fresh | popped)
          · exact inv.hands.places.apart p fresh first.1
          · exact first.2.1 popped
        · intro q
          simp only [Set.mem_insert_iff]
          tauto
        · intro q member
          exact (field q).2.2.1.trans (inv.hands.served q member)
        · intro q _
          exact ⟨(field q).1, (field q).2.2.2⟩
      · refine inv.cache.congr (stages_update _ _ _ (by simp [idle, Pc.stage])) rfl rfl relinked.pageFreeList
          (fun c => by simp [System.goto, relinked.clusters]) relinked.clusterFreeList relinked.reserved ?_
        intro q unknown
        simp [System.goto, Store.nextNode, outside q unknown]
      · exact inv.blocks.congr (fun q _ => ⟨(field q).1, (field q).2.1, (field q).2.2.1⟩)
          (fun b _ => by simp [System.goto, relinked.links]) rfl rfl
      · intro q _ unknown _
        exact outside q unknown

theorem Inv.newPage (inv : Inv cfg bin s l) (at' : s.pcs t = .newPage) {s' : System} (run : s.newPage t = some s') :
    (∃ l', Inv cfg bin s' l') ∧ Untouched s s' l := by
  unfold System.newPage at run
  split at run
  · cases run
  · rename_i free
    obtain rfl := Option.some.inj run
    have outside := inv.cache.free (by simpa using free)
    have none' := inv.hands.empty t (by simp [at', Pc.fetching])
    refine ⟨⟨l, ?_, ?_, ?_⟩, fun _ _ _ _ => rfl⟩
    · refine inv.hands.congr (fun _ => ⟨rfl, rfl⟩) (fun _ _ => rfl) rfl rfl rfl (by simp [at', Pc.quiet]) ?_ (fun _ _ => rfl)
        (fun _ => none')
      split <;> rfl
    · refine CacheInv.single t (if s.store.pageFreeList.isNone then .waiting else .formatting) ?_ ?_
        (fun _ => rfl) inv.cache.unlocked inv.cache.chain inv.cache.listed ?_ inv.cache.noCluster ?_ ?_ ?_ inv.cache.known
      · simp only [System.goto, Function.update_self]
        split <;> rfl
      · intro t' different
        simpa [System.goto, different] using outside t'
      · intro waits
        by_cases none'' : s.store.pageFreeList.isNone
        · have empty := inv.cache.chain.head_none_iff.mp (by simpa using none'')
          simpa using empty
        · simp [none''] at waits
      · intro c moves
        split at moves <;> cases moves
      · intro c member _
        exact inv.cache.settled c member (fun t' => by simp [outside t'])
      · intro p member below
        rcases inv.cache.covered p member below with list | known | ⟨t', moves⟩
        · exact Or.inl list
        · exact Or.inr (Or.inl known)
        · simp [outside t'] at moves
    · exact inv.blocks.congr (fun _ _ => ⟨rfl, rfl, rfl⟩) (fun _ _ => rfl) rfl rfl

theorem clusterTake_empty (empty : s.store.clusterFreeList = none) (reserve : Option Nat) :
    s.store.clusterTake cfg reserve = s.store.clusterAlloc cfg reserve := by
  simp only [Store.clusterTake, Store.clusterCachePop, empty]

theorem Inv.fetchCluster (inv : Inv cfg bin s l) (at' : s.pcs t = .fetchCluster) {reserve : Option Nat}
    (unknown : ∀ c, reserve = some c → c ∉ s.store.reserved) {s' : System}
    (run : s.fetchCluster cfg t reserve = some s') : (∃ l', Inv cfg bin s' l') ∧ Untouched s s' l := by
  have inside : (s.pcs t).stage ≠ .outside := by simp [at', Pc.stage]
  have outside := inv.cache.others inside
  have none' := inv.hands.empty t (by simp [at', Pc.fetching])
  have empty := inv.cache.empty t (by simp [at', Pc.stage])
  have chain := inv.cache.chain
  rw [empty] at chain
  unfold System.fetchCluster at run
  rw [clusterTake_empty inv.cache.noCluster] at run
  cases reserve with
  | none =>
      obtain rfl := Option.some.inj run
      refine ⟨⟨l, ?_, ?_, ?_⟩, fun _ _ _ _ => rfl⟩
      · exact inv.hands.congr (fun _ => ⟨rfl, rfl⟩) (fun _ _ => rfl) rfl rfl rfl (by simp [at', Pc.quiet]) rfl
          (fun _ _ => rfl) (by simp [Pc.fetching])
      · refine CacheInv.single t .outside (by simp [System.goto, Pc.stage]) ?_ (fun other => absurd rfl other)
          inv.cache.unlocked inv.cache.chain inv.cache.listed (by simp) inv.cache.noCluster (by simp) ?_ ?_ inv.cache.known
        · intro t' different
          simpa [System.goto, different] using outside t' different
        · intro c member _
          exact inv.cache.settled_of outside member (by simp [at', Pc.stage])
        · intro p member below
          rcases inv.cache.covered_of outside member below with list | known | moves
          · exact Or.inl list
          · exact Or.inr (Or.inl known)
          · simp [at', Pc.stage] at moves
      · exact inv.blocks.congr (fun _ _ => ⟨rfl, rfl, rfl⟩) (fun _ _ => rfl) rfl rfl
  | some c =>
      obtain rfl := Option.some.inj run
      have fresh := unknown c rfl
      have other (p : Page) (member : p.cluster ∈ s.store.reserved) :
          (s.store.clusterMake cfg c).pages (.page p) = s.store.pages (.page p) := by
        have different : p.cluster ≠ c := fun same => fresh (same ▸ member)
        simp [Store.clusterMake, different]
      have made (p : Page) (member : p ∈ l.fresh ∨ p ∈ l.active) := other p (inv.cache.known p member)
      refine ⟨⟨l, ?_, ?_, ?_⟩, ?_⟩
      · exact inv.hands.congr (fun _ => ⟨rfl, rfl⟩) made rfl rfl rfl (by simp [at', Pc.quiet]) rfl (fun _ _ => rfl)
          (fun _ => none')
      · refine CacheInv.single t (.moving c) (by simp [System.goto, Pc.stage]) ?_ ?_ inv.cache.unlocked ?_ ?_
          (fun _ => empty) inv.cache.noCluster ?_ ?_ ?_ ?_
        · intro t' different
          simpa [System.goto, different] using outside t' different
        · intro _
          exact inv.cache.locked t inside
        · simpa [empty, System.goto, Store.clusterMake] using chain
        · simp [empty]
        · rintro c' ⟨rfl⟩
          refine ⟨List.mem_cons_self, ?_, ?_⟩
          · have slots := formatted_chain (s.store.clusterMake cfg c).nextNode (slot c) (slotCount cfg) (by
              intro j below
              simp [Store.nextNode, Store.clusterMake, slot, below])
            simpa [System.goto, Store.clusterMake] using slots
          · intro i known
            exact fresh (inv.cache.known _ known)
        · intro c' member rest
          have different : c' ≠ c := fun same => rest (by rw [same])
          have old : c' ∈ s.store.reserved := (List.mem_cons.mp member).resolve_left different
          have settled := inv.cache.settled_of outside old (by simp [at', Pc.stage])
          simpa [System.goto, Store.clusterMake, different] using settled
        · intro p member below
          rcases List.mem_cons.mp member with same | old
          · exact Or.inr (Or.inr (by rw [same]))
          · rcases inv.cache.covered_of outside old below with list | known | moves
            · exact Or.inl list
            · exact Or.inr (Or.inl known)
            · simp [at', Pc.stage] at moves
        · intro p known
          exact List.mem_cons_of_mem _ (inv.cache.known p known)
      · refine inv.blocks.congr ?_ (fun _ _ => rfl) rfl rfl
        intro p member
        have same := made p (Or.inr member)
        exact ⟨by simp [System.goto, same], by simp [System.goto, same], by simp [System.goto, same]⟩
      · intro p member _ _
        exact other p member

theorem commitUnused_clusters (s : Store) (c c' : Nat) :
    ((s.commitUnused c).clusters c').freeList = (s.clusters c').freeList := by
  unfold Store.commitUnused
  split
  · by_cases same : c' = c
    · subst same
      simp [Store.commit]
    · simp [Store.commit, same]
  · rfl

theorem commitUnused_eq (s : Store) (c : Nat) : ∃ clusters, s.commitUnused c = { s with clusters } := by
  unfold Store.commitUnused
  split
  · exact ⟨_, rfl⟩
  · exact ⟨_, rfl⟩

theorem Inv.commitCluster (inv : Inv cfg bin s l) {c : Nat} (at' : s.pcs t = .commitCluster c) :
    (∃ l', Inv cfg bin (s.commitCluster t c) l') ∧ Untouched s (s.commitCluster t c) l := by
  have freeLists := commitUnused_clusters s.store c
  obtain ⟨clusters, same⟩ := commitUnused_eq s.store c
  have none' := inv.hands.empty t (by simp [at', Pc.fetching])
  unfold System.commitCluster
  rw [same] at freeLists ⊢
  refine ⟨⟨l, ?_, ?_, ?_⟩, fun _ _ _ _ => rfl⟩
  · exact inv.hands.congr (fun _ => ⟨rfl, rfl⟩) (fun _ _ => rfl) rfl rfl rfl (by simp [at', Pc.quiet]) rfl (fun _ _ => rfl)
      (fun _ => none')
  · exact inv.cache.congr (stages_update _ _ _ (by simp [at', Pc.stage])) rfl rfl rfl freeLists rfl rfl (fun _ _ => rfl)
  · exact inv.blocks.congr (fun _ _ => ⟨rfl, rfl, rfl⟩) (fun _ _ => rfl) rfl rfl

theorem Inv.transferCluster (inv : Inv cfg bin s l) {c : Nat} (at' : s.pcs t = .transferCluster c) {s' : System}
    (run : s.transferCluster cfg t c = some s') : (∃ l', Inv cfg bin s' l') ∧ Untouched s s' l := by
  have stage : (s.pcs t).stage = .moving c := by simp [at', Pc.stage]
  have inside : (s.pcs t).stage ≠ .outside := by simp [stage]
  have outside := inv.cache.others inside
  have none' := inv.hands.empty t (by simp [at', Pc.fetching])
  obtain ⟨member, chain, away⟩ := inv.cache.moving t c stage
  unfold System.transferCluster at run
  rw [if_neg (by simp [inv.cache.unlocked])] at run
  obtain rfl := Option.some.inj run
  refine ⟨⟨{ l with pageList := (List.range (slotCount cfg)).map (Page.mk c) }, ?_, ?_, ?_⟩, fun _ _ _ _ => rfl⟩
  · exact inv.hands.congr (fun _ => ⟨rfl, rfl⟩) (fun _ _ => rfl) rfl rfl rfl (by simp [at', Pc.quiet]) rfl (fun _ _ => rfl)
      (fun _ => none')
  · refine CacheInv.single t .formatting (by simp [System.goto, Pc.stage]) ?_ ?_ inv.cache.unlocked ?_ ?_
      (by simp) inv.cache.noCluster (by simp) ?_ ?_ inv.cache.known
    · intro t' different
      simpa [System.goto, different] using outside t' different
    · intro _
      exact inv.cache.locked t inside
    · rw [List.map_map]
      exact chain
    · intro p listed
      obtain ⟨i, _, rfl⟩ := List.mem_map.mp listed
      exact ⟨away i, member⟩
    · intro c' member' _
      by_cases same : c' = c
      · subst same
        simp [System.goto, Store.clusterTransfer]
      · have settled := inv.cache.settled_of outside member' (by simp [stage, Ne.symm same])
        simpa [System.goto, Store.clusterTransfer, same] using settled
    · intro p member' below
      rcases inv.cache.covered_of outside member' below with list | known | moves
      · rw [inv.cache.empty t (Or.inr ⟨c, stage⟩)] at list
        simp at list
      · exact Or.inr (Or.inl known)
      · -- the slots of the cluster are now the list of the page cache
        have same : c = p.cluster := by simpa [stage] using moves
        refine Or.inl (List.mem_map.mpr ⟨p.slot, List.mem_range.mpr below, ?_⟩)
        rw [same]
  · exact inv.blocks.congr (fun _ _ => ⟨rfl, rfl, rfl⟩) (fun _ _ => rfl) rfl rfl

theorem Inv.formatPage (inv : Inv cfg bin s l) (exist : (bin : Int) < cfg.binCount) (at' : s.pcs t = .formatPage)
    {s' : System} (run : s.formatPage cfg bin t = some s') : (∃ l', Inv cfg bin s' l') ∧ Untouched s s' l := by
  have stage : (s.pcs t).stage = .formatting := by simp [at', Pc.stage]
  have outside := inv.cache.others (t := t) (by simp [stage])
  have none' := inv.hands.empty t (by simp [at', Pc.fetching])
  have chain := inv.cache.chain
  unfold System.formatPage at run
  cases shape : l.pageList with
  | nil =>
      rw [shape] at chain
      simp only [List.map_nil, chain_nil] at chain
      simp [chain] at run
  | cons p rest =>
      rw [shape] at chain
      obtain ⟨first, tail⟩ := chain
      have distinct : (p :: rest).Nodup := by
        have whole := inv.cache.chain.nodup
        rw [shape] at whole
        exact List.Nodup.of_map _ whole
      obtain ⟨unknown, member⟩ := inv.cache.listed p (by simp [shape])
      have unused : p ∉ l.fresh := fun fresh => unknown (Or.inl fresh)
      have idle : p ∉ l.active := fun active => unknown (Or.inr active)
      simp only [first, Store.pageMake, if_neg (show ¬ cfg.binCount ≤ bin by omega), Option.pure_def, Option.bind_eq_bind,
        Option.bind_some] at run
      obtain rfl := Option.some.inj run
      have popped : PageInv cfg { s.store with pageFreeList := (s.store.pages (.page p)).next } l.bins l.fresh l.popped
          l.active := inv.hands.places.congr (fun _ => ⟨rfl, rfl⟩) (fun _ _ => rfl) rfl
      have other (q : Page) (different : q ≠ p) :
          (Store.pageFormat cfg { s.store with pageFreeList := (s.store.pages (.page p)).next } p bin).pages (.page q) =
            s.store.pages (.page q) := by
        simp [Store.pageFormat, different]
      have away (q : Page) (known : q ∈ l.active) : q ≠ p := fun same => idle (same ▸ known)
      refine ⟨⟨{ l with fresh := insert p l.fresh, pageList := rest }, ?_, ?_, ?_⟩, ?_⟩
      · have hands : HandsInv cfg bin { s with cacheLocked := false } l.bins l.fresh l.popped l.active :=
          ⟨inv.hands.places, inv.hands.served, inv.hands.fetched, inv.hands.fetchedOnce, inv.hands.returning,
            inv.hands.returningOnce, inv.hands.kept, inv.hands.loose, inv.hands.empty⟩
        refine hands.fetch (popped.format unused idle exist) (by simp [at', Pc.quiet]) none' (by simp [at']) ?_ ?_ ?_ ?_
        · rintro (fresh | popped)
          · exact unused fresh
          · exact idle (inv.hands.places.fetched p popped).1
        · intro q
          simp only [Set.mem_insert_iff]
          tauto
        · intro q known
          by_cases same : q = p
          · subst same
            simp [Store.pageFormat]
          · have old : q ∈ l.fresh ∨ q ∈ l.active := by simpa [same] using known
            simpa [other q same] using inv.hands.served q old
        · intro q known
          rw [other q (away q known)]
          exact ⟨rfl, rfl⟩
      · have listed (q : Page) (inside : q ∈ rest) : q ≠ p := fun same => (List.nodup_cons.mp distinct).1 (same ▸ inside)
        refine CacheInv.single t .outside (by simp [System.goto, Pc.stage]) ?_ (fun other => absurd rfl other)
          inv.cache.unlocked ?_ ?_ (by simp) inv.cache.noCluster (by simp) ?_ ?_ ?_
        · intro t' different
          simpa [System.goto, different] using outside t' different
        · refine Chain.congr ?_ tail
          intro n inside
          obtain ⟨q, later, rfl⟩ := List.mem_map.mp inside
          simp [System.goto, Store.nextNode, other q (listed q later)]
        · intro q later
          have old := inv.cache.listed q (by simp [shape, later])
          refine ⟨?_, old.2⟩
          rintro ((same | fresh) | active)
          · exact listed q later same
          · exact old.1 (Or.inl fresh)
          · exact old.1 (Or.inr active)
        · intro c member' _
          exact inv.cache.settled_of outside member' (by simp [stage])
        · intro q member' below
          rcases inv.cache.covered_of outside member' below with list | known | moves
          · rw [shape] at list
            rcases List.mem_cons.mp list with same | later
            · exact Or.inr (Or.inl (Or.inl (Or.inl same)))
            · exact Or.inl later
          · refine Or.inr (Or.inl ?_)
            rcases known with fresh | active
            · exact Or.inl (Or.inr fresh)
            · exact Or.inr active
          · simp [stage] at moves
        · rintro q ((same | fresh) | active)
          · exact same ▸ member
          · exact inv.cache.known q (Or.inl fresh)
          · exact inv.cache.known q (Or.inr active)
      · refine inv.blocks.congr ?_ ?_ rfl rfl
        · intro q known
          have same := other q (away q known)
          exact ⟨by simp [System.goto, same], by simp [System.goto, same], by simp [System.goto, same]⟩
        · intro b known
          have different := away b.page known
          simp [System.goto, Store.pageFormat, different]
      · intro q _ _ unlisted
        have different : q ≠ p := fun same => unlisted (by simp [shape, same])
        exact other q different

theorem transferPage_eq {p : Page} (unlocked : s.pageLocked p = false) :
    s.transferPage cfg t p = some ({ s with
      store := (s.store.transferTo cfg p).1
      heads := Function.update s.heads t ((s.store.pages (.page p)).freeList.bind s.store.links)
      live := (s.store.pages (.page p)).freeList.toList ++ s.live }.goto t .idle) := by
  simp [System.transferPage, unlocked, Store.transferTo]

theorem Inv.transferPage (inv : Inv cfg bin s l)
    (bounds : 2 ≤ cfg.binObjectCount bin ∧ cfg.binObjectCount bin < 2 ^ 16) {p : Page} (at' : s.pcs t = .fetched p)
    {s' : System} (run : s.transferPage cfg t p = some s') : (∃ l', Inv cfg bin s' l') ∧ Untouched s s' l := by
  have none' := inv.hands.empty t (by simp [at', Pc.fetching])
  have unlocked : s.pageLocked p = false := by
    by_contra locked
    simp [System.transferPage, locked] at run
  rw [transferPage_eq unlocked] at run
  obtain rfl := Option.some.inj run
  have other (q : Page) (different : q ≠ p) : (s.store.transferTo cfg p).1.pages (.page q) = s.store.pages (.page q) :=
    transferTo_other (by simpa using different)
  have held := (inv.hands.fetched p).mpr ⟨t, at'⟩
  have index : (s.store.pages (.page p)).binIndex = bin := by
    refine inv.hands.served p ?_
    rcases held with fresh | popped
    · exact Or.inl fresh
    · exact Or.inr (inv.hands.places.fetched p popped).1
  have fits : cfg.binObjectCount (s.store.pages (.page p)).binIndex < 2 ^ 16 := index ▸ bounds.2
  have transferred (bound : (bin : Int) < cfg.binCount) : Active cfg (s.store.transferTo cfg p).1 p [] :=
    Active.transferred (index ▸ bound) fits
  have older (q : Page) (member : q ∈ l.active) (different : q ≠ p) :
      Active cfg (s.store.transferTo cfg p).1 q (l.pageBlocks q) := by
    have same := other q different
    exact (inv.blocks.lists q member).congr (by rw [same]) (by rw [same]) (by rw [same]) (fun _ => rfl)
  have stages := stages_update s.pcs t .idle (by simp [at', Pc.stage])
  cases held with
  | inl fresh =>
      have idle := inv.hands.places.apart p fresh
      have old := inv.hands.places.formatted p fresh
      have places := inv.hands.places.transferFresh fresh fits
      have chain := old.chain
      rw [index] at chain
      have same : l.fresh \ {p} ∪ insert p l.active = l.made := by
        ext q
        simp only [Lists.made, Set.mem_union, Set.mem_sdiff, Set.mem_singleton_iff, Set.mem_insert_iff]
        by_cases here : q = p
        · simp [here, fresh]
        · simp [here]
      refine ⟨⟨{ l with
        fresh := l.fresh \ {p}
        active := insert p l.active
        pageBlocks := Function.update l.pageBlocks p []
        binBlocks := Function.update l.binBlocks t
          ((List.range (cfg.binObjectCount bin)).map (Block.mk p)).tail }, ?_, ?_, ?_⟩, ?_⟩
      · refine inv.hands.hand places at' unlocked ?_ (Set.subset_insert _ _) ?_ (by simp) (by simp) other
        · intro q
          have notPopped : p ∉ l.popped := fun popped => idle (inv.hands.places.fetched p popped).1
          by_cases here : q = p
          · simp [here, notPopped]
          · simp [here]
        · intro q member different
          exact member.resolve_left different
      · refine CacheInv.congr ?_ stages rfl rfl rfl (fun _ => rfl) rfl rfl ?_
        · change CacheInv cfg s (l.fresh \ {p} ∪ insert p l.active) l.pageList
          rw [same]
          exact inv.cache
        · intro q unknown
          have different : q ≠ p := fun here => unknown (Or.inr (Or.inl here))
          simp [System.goto, Store.nextNode, other q different]
      · refine inv.blocks.take chain ?_ ?_ none' ?_ ?_
        · intro b member
          obtain ⟨i, below, rfl⟩ := List.mem_map.mp member
          exact ⟨rfl, List.mem_range.mp below⟩
        · intro b member
          obtain ⟨i, _, rfl⟩ := List.mem_map.mp member
          exact ⟨fun live => idle (inv.blocks.live _ live).1, fun t' listed => idle (inv.blocks.cached t' _ listed).1⟩
        · intro q member
          by_cases here : q = p
          · subst here
            rw [Function.update_self]
            exact transferred (index ▸ old.bin)
          · rw [Function.update_of_ne here]
            exact older q (member.resolve_left here) here
        · -- the second block heads the bin, where the fast path will skip it
          obtain ⟨n, size⟩ : ∃ n, cfg.binObjectCount bin = n + 2 := ⟨_, (Nat.sub_add_cancel bounds.1).symm⟩
          refine ⟨1, by omega, fun live => idle (inv.blocks.live _ live).1,
            fun t' listed => idle (inv.blocks.cached t' _ (List.mem_of_mem_tail listed)).1, ?_, ?_⟩
          · simp [size, List.range_succ_eq_map]
          · simp [size, List.range_succ_eq_map]
      · intro q _ unknown _
        have different : q ≠ p := fun here => unknown (Or.inl (here ▸ fresh))
        simp [System.goto, other q different]
  | inr popped =>
      have active := (inv.hands.places.fetched p popped).1
      have old := inv.blocks.lists p active
      have places := inv.hands.places.transferPopped popped fits
      have grown : insert p l.active = l.active := Set.insert_eq_of_mem active
      refine ⟨⟨{ l with
        popped := l.popped \ {p}
        pageBlocks := Function.update l.pageBlocks p []
        binBlocks := Function.update l.binBlocks t (l.pageBlocks p).tail }, ?_, ?_, ?_⟩, ?_⟩
      · refine inv.hands.hand places at' unlocked ?_ (le_refl _) (fun q member _ => member) (by simp) (by simp) other
        intro q
        have notFresh : p ∉ l.fresh := fun fresh => inv.hands.places.apart p fresh active
        by_cases here : q = p
        · simp [here, notFresh]
        · simp [here]
      · refine inv.cache.congr stages rfl rfl rfl (fun _ => rfl) rfl rfl ?_
        intro q unknown
        have different : q ≠ p := fun here => unknown (Or.inr (here ▸ active))
        simp [System.goto, Store.nextNode, other q different]
      · have taken := inv.blocks.take (t := t) (p := p) old.chain ?_ ?_ none' ?_ ?_
        · rw [grown] at taken
          exact taken
        · intro b member
          obtain ⟨i, below, rfl⟩ := old.own b member
          exact ⟨rfl, index ▸ below⟩
        · intro b member
          obtain ⟨i, below, rfl⟩ := old.own b member
          exact ⟨fun live => (inv.blocks.live _ live).2.2 member, fun t' listed => (inv.blocks.cached t' _ listed).2.2 member⟩
        · intro q member
          by_cases here : q = p
          · subst here
            rw [Function.update_self]
            exact transferred (index ▸ old.bin)
          · rw [Function.update_of_ne here]
            exact older q (member.resolve_left here) here
        · obtain ⟨i, below, free, out, away⟩ := inv.blocks.stuck p active
          refine ⟨i, below, out, away, ?_, fun listed => free (List.mem_of_mem_tail (List.mem_of_mem_tail listed))⟩
          intro first
          exact free (List.mem_of_head? first)
      · intro q _ unknown _
        have different : q ≠ p := fun here => unknown (Or.inr (here ▸ active))
        simp [System.goto, other q different]

theorem Inv.used_pos (inv : Inv cfg bin s l) {p : Page} (member : p ∈ l.active) : 0 < (s.store.pages (.page p)).used := by
  obtain ⟨i, below, free, _⟩ := inv.blocks.stuck p member
  refine (inv.blocks.lists p member).used_pos ?_ free
  rwa [inv.hands.served p (Or.inr member)]

theorem settle_used {p : Page} (used : 0 < (s.store.pages (.page p)).used) :
    s.settle t p = (s.lockPage p false).goto t .idle := by
  rw [System.settle, if_neg (by omega)]

theorem Inv.binFree (inv : Inv cfg bin s l) (bounds : 2 ≤ cfg.binObjectCount bin ∧ cfg.binObjectCount bin < 2 ^ 16)
    (idle : s.pcs t = .idle) {b : Block} (live : b ∈ s.live) (leaves : ∀ t, s.heads t ≠ some b) {s' : System}
    (run : s.binFree t b = some s') : (∃ l', Inv cfg bin s' l') ∧ Untouched s s' l := by
  obtain ⟨p, i⟩ := b
  obtain ⟨member, below, out⟩ : p ∈ l.active ∧ i < cfg.binObjectCount bin ∧ Block.mk p i ∉ l.pageBlocks p :=
    inv.blocks.live _ live
  have index := inv.hands.served p (Or.inr member)
  rw [← index] at below
  obtain ⟨places, pushed⟩ := inv.hands.places.push (inv.blocks.lists p member) member (index ▸ bounds.2) below out
  have other (q : Page) (different : q ≠ p) : (s.store.pagePush p ⟨p, i⟩).pages (.page q) = s.store.pages (.page q) := by
    simp [Store.pagePush, different]
  have fields : ((s.store.pagePush p ⟨p, i⟩).pages (.page p)).binIndex = (s.store.pages (.page p)).binIndex ∧
      ((s.store.pagePush p ⟨p, i⟩).pages (.page p)).isTethered = (s.store.pages (.page p)).isTethered := by
    simp [Store.pagePush]
  have outside (q : Page) (unknown : q ∉ l.made) : q ≠ p := fun same => unknown (Or.inr (same ▸ member))
  have links (b : Block) (different : b ≠ ⟨p, i⟩) : (s.store.pagePush p ⟨p, i⟩).links b = s.store.links b := by
    simp [Store.pagePush, different]
  have stages (pc : Pc) (same : pc.stage = .outside) := stages_update s.pcs t pc (by
    rw [same, idle]
    rfl)
  unfold System.binFree at run
  split at run
  · cases run
  rename_i free
  have unlocked : s.pageLocked p = false := by simpa using free
  obtain ⟨tethered, flag⟩ : ∃ tethered, (s.store.pages (.page p)).isTethered = tethered := ⟨_, rfl⟩
  have hands := inv.hands.give (s.live.erase ⟨p, i⟩) places idle unlocked member flag fields other
  -- in both cases the lock of the page is all that is left to settle
  have done : s' = ({ s with store := s.store.pagePush p ⟨p, i⟩, live := s.live.erase ⟨p, i⟩ }.lockPage p (!tethered)).goto t
      (if tethered then .idle else .returning p) := by
    cases tethered with
    | true =>
        have positive : 0 < ((s.store.pagePush p ⟨p, i⟩).pages (.page p)).used := by
          obtain ⟨j, below', free', out', _⟩ := inv.blocks.stuck p member
          refine pushed.used_pos (i := j) ?_ ?_
          · rw [fields.1, index]
            exact below'
          · simp only [List.mem_cons, not_or]
            exact ⟨fun same => out' (same ▸ live), free'⟩
        simp only [fields.2, flag, if_true, settle_used (s := { s with
          store := s.store.pagePush p ⟨p, i⟩
          live := s.live.erase ⟨p, i⟩ }) positive, Option.some.injEq] at run
        exact run.symm
    | false =>
        simp only [fields.2, flag, Bool.false_eq_true, if_false, Option.some.injEq] at run
        exact run.symm
  subst done
  refine ⟨⟨{ l with pageBlocks := Function.update l.pageBlocks p (⟨p, i⟩ :: l.pageBlocks p) }, hands, ?_, ?_⟩, ?_⟩
  · refine inv.cache.congr (stages _ (by cases tethered <;> rfl)) rfl rfl rfl (fun _ => rfl) rfl rfl ?_
    intro q unknown
    simp [System.goto, System.lockPage, Store.nextNode, other q (outside q unknown)]
  · exact inv.blocks.give live leaves pushed other links rfl rfl
  · intro q _ unknown _
    exact other q (outside q unknown)

theorem Inv.pageReturn (inv : Inv cfg bin s l) {p : Page} (at' : s.pcs t = .returning p) {s' : System}
    (run : s.pageReturn t p = some s') : (∃ l', Inv cfg bin s' l') ∧ Untouched s s' l := by
  obtain ⟨member, loose, _⟩ := inv.hands.returning t p at'
  have index := inv.hands.served p (Or.inr member)
  obtain ⟨store, back, relinked, places⟩ := inv.hands.places.pageReturn member loose
  have tether (q : Page) (different : q ≠ p) : (s.store.tether p).pages (.page q) = s.store.pages (.page q) := by
    simp [Store.tether, different]
  have field (q : Page) : (store.pages (.page q)).freeList = (s.store.pages (.page q)).freeList ∧
      (store.pages (.page q)).used = (s.store.pages (.page q)).used ∧
      (store.pages (.page q)).binIndex = (s.store.pages (.page q)).binIndex := by
    have kept := relinked.field (.page q)
    by_cases same : q = p
    · subst same
      simp only [Store.tether, setPage_pages, Function.update_self] at kept
      exact ⟨kept.1, kept.2.1, kept.2.2.1⟩
    · rw [tether q same] at kept
      exact ⟨kept.1, kept.2.1, kept.2.2.1⟩
  have tethered : (store.pages (.page p)).isTethered = true := by
    rw [(relinked.field (.page p)).2.2.2]
    simp [Store.tether]
  have outside (q : Page) (unknown : q ∉ l.made) : store.pages (.page q) = s.store.pages (.page q) := by
    have different : q ≠ p := fun same => unknown (Or.inr (same ▸ member))
    rw [relinked.others, tether q different]
    intro listed
    rcases List.mem_cons.mp (page_mem_binNodes.mp listed) with same | linked
    · exact different same
    · exact unknown (Or.inr ((inv.hands.places.linked _ q).mp linked).1)
  have used : 0 < (store.pages (.page p)).used := by
    rw [(field p).2.1]
    exact inv.used_pos member
  simp only [System.pageReturn, back, Option.pure_def, Option.bind_eq_bind, Option.bind_some,
    settle_used (s := { s with store }) used, Option.some.injEq] at run
  subst run
  refine ⟨⟨{ l with
    bins := Function.update l.bins (s.store.pages (.page p)).binIndex
      (p :: l.bins (s.store.pages (.page p)).binIndex) }, inv.hands.giveBack places at' tethered (fun q => (field q).2.2) ?_, ?_, ?_⟩, ?_⟩
  · intro q different
    have kept := relinked.field (.page q)
    rw [tether q different] at kept
    exact ⟨kept.1, kept.2.2.2⟩
  · refine inv.cache.congr (stages_update _ _ _ (by simp [System.lockPage, at', Pc.stage])) rfl rfl relinked.pageFreeList ?_
      relinked.clusterFreeList relinked.reserved ?_
    · intro c
      simp [System.goto, System.lockPage, relinked.clusters, Store.tether]
    · intro q unknown
      simp [System.goto, System.lockPage, Store.nextNode, outside q unknown]
  · refine inv.blocks.congr (fun q _ => field q) ?_ rfl rfl
    intro b _
    simp [System.goto, System.lockPage, relinked.links, Store.tether]
  · intro q _ unknown _
    exact outside q unknown

theorem Inv.write (inv : Inv cfg bin s l) {b : Block} {link : Option Block} (live : b ∈ s.live)
    (leaves : ∀ t, s.heads t = some b → link = s.store.links b) :
    (∃ l', Inv cfg bin (s.write b link) l') ∧ Untouched s (s.write b link) l := by
  refine ⟨⟨l, ?_⟩, fun _ _ _ _ => rfl⟩
  by_cases heads : ∃ t, s.heads t = some b
  · obtain ⟨t, first⟩ := heads
    have same : s.write b link = s := by rw [System.write, leaves t first, Function.update_eq_self]
    rwa [same]
  · simp only [not_exists] at heads
    obtain ⟨inside, _, out⟩ := inv.blocks.live b live
    have places := inv.hands.places.write inside (inv.blocks.lists _ inside) out link
    exact ⟨{ inv.hands with places }, { inv.cache with }, inv.blocks.write live heads link⟩

theorem Inv.resume (inv : Inv cfg bin s l) (exist : (bin : Int) < cfg.binCount)
    (bounds : 2 ≤ cfg.binObjectCount bin ∧ cfg.binObjectCount bin < 2 ^ 16) {reserve : Option Nat}
    (unknown : ∀ c, reserve = some c → c ∉ s.store.reserved) {s' : System}
    (run : s.resume cfg bin t reserve = some s') : (∃ l', Inv cfg bin s' l') ∧ Untouched s s' l := by
  have kept := inv.hands.kept t
  unfold System.resume at run
  cases at' : s.pcs t with
  | idle => simp [at'] at run
  | newPage =>
      rw [at'] at run
      exact inv.newPage at' run
  | fetchCluster =>
      rw [at'] at run
      exact inv.fetchCluster at' unknown run
  | commitCluster c =>
      rw [at'] at run
      obtain rfl := Option.some.inj run
      exact inv.commitCluster at'
  | transferCluster c =>
      rw [at'] at run
      exact inv.transferCluster at' run
  | formatPage =>
      rw [at'] at run
      exact inv.formatPage exist at' run
  | fetched p =>
      rw [at'] at run
      exact inv.transferPage bounds at' run
  | returning p =>
      rw [at'] at run
      exact inv.pageReturn at' run
  -- no page is on its way to its cluster
  | releasing p => simp [at', Pc.releases] at kept
  | freeing p => simp [at', Pc.releases] at kept
  | clusterReturning p => simp [at', Pc.releases] at kept
  | clusterReleasing p => simp [at', Pc.releases] at kept

theorem Inv.step (inv : Inv cfg bin s l) (exist : (bin : Int) < cfg.binCount)
    (bounds : 2 ≤ cfg.binObjectCount bin ∧ cfg.binObjectCount bin < 2 ^ 16) {a : Action} (careful : s.Careful a)
    {s' : System} (run : s.step cfg bin a = some s') : (∃ l', Inv cfg bin s' l') ∧ Untouched s s' l := by
  cases a with
  | alloc t =>
      simp only [System.step] at run
      split at run
      · rename_i idle
        obtain ⟨next, taken, result⟩ : ∃ next, s.binAlloc bin t = some next ∧ (∃ l', Inv cfg bin next l') ∧
            Untouched s next l := by
          cases first : s.heads t with
          | some head => exact inv.allocHead idle first
          | none => exact inv.allocEmpty exist idle first
        obtain rfl := Option.some.inj (taken.symm.trans run)
        exact result
      · cases run
  | free t b =>
      simp only [System.step] at run
      split at run
      · rename_i idle
        exact inv.binFree bounds idle careful.enabled careful.heads run
      · cases run
  | write b link =>
      obtain rfl := Option.some.inj run
      exact inv.write careful.enabled careful.links
  | resume t reserve => exact inv.resume exist bounds careful.enabled run

theorem start_inv : ∃ l, Inv cfg bin .start l := by
  refine ⟨⟨fun _ => [], ∅, ∅, ∅, [], fun _ => [], fun _ => []⟩, ?_, ?_, ?_⟩
  · constructor
    case places =>
      constructor
      case strung =>
        intro b _
        exact List.isChain_pair.mpr ⟨rfl, rfl⟩
      case distinct => simp
      case linked => simp
      case formatted => simp
      case serving => simp
      case apart => simp
      case fetched => simp
    case served => simp
    case fetched => simp [System.start]
    case fetchedOnce => simp [System.start]
    case returning => simp [System.start]
    case returningOnce => simp [System.start]
    case kept => simp [System.start, Pc.releases]
    case loose => simp
    case empty => simp [System.start]
  · exact CacheInv.single 0 .outside rfl (fun _ _ => rfl) (fun other => absurd rfl other) (fun _ => rfl) rfl
      (by simp) (by simp) rfl (by simp) (by simp [System.start, PageCache.start])
      (by simp [System.start, PageCache.start]) (by simp [Lists.made])
  · constructor
    case lists => simp
    case chains =>
      intro t
      rfl
    case live => simp [System.start]
    case once => simp [System.start]
    case cached => simp
    case apart => simp
    case behind => simp
    case stuck => simp

end Steps

end PrototypeBundle.PageCache
