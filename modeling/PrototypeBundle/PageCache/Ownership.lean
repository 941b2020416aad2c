import PrototypeBundle.PageCache.Threads

set_option autoImplicit false

namespace PrototypeBundle.PageCache

open BinAlloc (Config)
open Intrusive

variable (cfg : Config) (bin : Nat)

inductive Stage where
  | outside
  | waiting
  | moving (c : Nat)
  | formatting
  deriving DecidableEq

def Pc.stage : Pc → Stage
  | .fetchCluster => .waiting
  | .commitCluster c | .transferCluster c => .moving c
  | .formatPage => .formatting
  | _ => .outside

def Pc.fetching : Pc → Bool
  | .newPage | .fetchCluster | .commitCluster _ | .transferCluster _ | .formatPage | .fetched _ => true
  | _ => false

def Pc.quiet : Pc → Bool
  | .idle | .newPage | .fetchCluster | .commitCluster _ | .transferCluster _ | .formatPage => true
  | _ => false

def Pc.releases : Pc → Bool
  | .releasing _ | .freeing _ | .clusterReturning _ | .clusterReleasing _ => true
  | _ => false

structure HandsInv (s : System) (bins : Nat → List Page) (fresh popped active : Set Page) : Prop where
  places : PageInv cfg s.store bins fresh popped active
  served : ∀ p, p ∈ fresh ∨ p ∈ active → (s.store.pages (.page p)).binIndex = bin
  fetched : ∀ p, (p ∈ fresh ∨ p ∈ popped) ↔ ∃ t, s.pcs t = .fetched p
  fetchedOnce : ∀ t t' p, s.pcs t = .fetched p → s.pcs t' = .fetched p → t = t'
  returning : ∀ t p, s.pcs t = .returning p →
    p ∈ active ∧ (s.store.pages (.page p)).isTethered = false ∧ s.pageLocked p = true
  returningOnce : ∀ t t' p, s.pcs t = .returning p → s.pcs t' = .returning p → t = t'
  kept : ∀ t, (s.pcs t).releases = false
  loose : ∀ p ∈ active, (s.store.pages (.page p)).isTethered = false → s.pageLocked p = false →
    (s.store.pages (.page p)).freeList = none
  empty : ∀ t, (s.pcs t).fetching = true → s.heads t = none

structure CacheInv (s : System) (made : Set Page) (pageList : List Page) : Prop where
  locked : ∀ t, (s.pcs t).stage ≠ .outside → s.cacheLocked = true
  alone : ∀ t t', (s.pcs t).stage ≠ .outside → (s.pcs t').stage ≠ .outside → t = t'
  unlocked : ∀ c, s.clusterLocked c = false
  chain : Chain s.store.nextNode s.store.pageFreeList (pageList.map .page)
  listed : ∀ p ∈ pageList, p ∉ made ∧ p.cluster ∈ s.store.reserved
  empty : ∀ t, (s.pcs t).stage = .waiting ∨ (∃ c, (s.pcs t).stage = .moving c) → pageList = []
  noCluster : s.store.clusterFreeList = none
  moving : ∀ t c, (s.pcs t).stage = .moving c → c ∈ s.store.reserved ∧
    Chain s.store.nextNode (s.store.clusters c).freeList ((List.range (slotCount cfg)).map (slot c)) ∧ ∀ i, Page.mk c i ∉ made
  settled : ∀ c ∈ s.store.reserved, (∀ t, (s.pcs t).stage ≠ .moving c) → (s.store.clusters c).freeList = none
  covered : ∀ p, p.cluster ∈ s.store.reserved → p.slot < slotCount cfg →
    p ∈ pageList ∨ p ∈ made ∨ ∃ t, (s.pcs t).stage = .moving p.cluster
  known : ∀ p ∈ made, p.cluster ∈ s.store.reserved

section Frames

variable {cfg bin} {s s' : System} {bins : Nat → List Page} {fresh popped active made : Set Page} {pageList : List Page}

theorem PageInv.congr {s s' : Store} (inv : PageInv cfg s bins fresh popped active)
    (sentinels : ∀ b, s'.pages (.head b) = s.pages (.head b) ∧ s'.pages (.tail b) = s.pages (.tail b))
    (pages : ∀ p, p ∈ fresh ∨ p ∈ active → s'.pages (.page p) = s.pages (.page p)) (links : s'.links = s.links) :
    PageInv cfg s' bins fresh popped active := by
  constructor
  case strung =>
    intro b exist
    refine (inv.strung b exist).congr ?_
    intro n member
    rcases mem_binNodes.mp member with rfl | ⟨p, listed, rfl⟩ | rfl
    · rw [(sentinels b).1]
      exact ⟨rfl, rfl⟩
    · rw [pages p (Or.inr ((inv.linked b p).mp listed).1)]
      exact ⟨rfl, rfl⟩
    · rw [(sentinels b).2]
      exact ⟨rfl, rfl⟩
  case distinct => exact inv.distinct
  case linked =>
    intro b p
    rw [inv.linked]
    by_cases member : p ∈ active
    · rw [pages p (Or.inr member)]
    · simp [member]
  case formatted =>
    intro p member
    have same := pages p (Or.inl member)
    exact (inv.formatted p member).congr (by rw [same]) (by rw [same]) (by rw [same]) (by simp [links])
  case serving =>
    intro p member
    obtain ⟨free, old⟩ := inv.serving p member
    have same := pages p (Or.inr member)
    exact ⟨free, old.congr (by rw [same]) (by rw [same]) (by rw [same]) (by simp [links])⟩
  case apart => exact inv.apart
  case fetched =>
    intro p member
    have old := inv.fetched p member
    rw [pages p (Or.inr old.1)]
    exact old

theorem PageInv.write {s : Store} (inv : PageInv cfg s bins fresh popped active) {b : Block} {free : List Block}
    (inside : b.page ∈ active) (list : Active cfg s b.page free) (out : b ∉ free) (link : Option Block) :
    PageInv cfg { s with links := Function.update s.links b link } bins fresh popped active := by
  refine { inv with formatted := ?_, serving := ?_ }
  · intro p member
    have different : p ≠ b.page := fun same => inv.apart p member (same ▸ inside)
    refine (inv.formatted p member).congr rfl rfl rfl ?_
    intro i
    exact Function.update_of_ne (fun same => different (congrArg Block.page same)) ..
  · intro p member
    by_cases same : p = b.page
    · subst same
      exact ⟨free, list.write out link⟩
    · obtain ⟨others, old⟩ := inv.serving p member
      refine ⟨others, old.write ?_ link⟩
      intro listed
      obtain ⟨i, _, rfl⟩ := old.own b listed
      exact same rfl

theorem HandsInv.kept_update (inv : HandsInv cfg bin s bins fresh popped active) (t : Nat) {pc : Pc} (keeps : pc.releases = false)
    (t' : Nat) : (Function.update s.pcs t pc t').releases = false := by
  by_cases same : t' = t
  · subst same
    rwa [Function.update_self]
  · rw [Function.update_of_ne same]
    exact inv.kept t'

theorem HandsInv.empty_update (inv : HandsInv cfg bin s bins fresh popped active) (t : Nat) {pc : Pc}
    (none : pc.fetching = true → s.heads t = none) (t' : Nat) (fetching : (Function.update s.pcs t pc t').fetching = true) :
    s.heads t' = .none := by
  by_cases same : t' = t
  · subst same
    rw [Function.update_self] at fetching
    exact none fetching
  · rw [Function.update_of_ne same] at fetching
    exact inv.empty t' fetching

theorem HandsInv.congr (inv : HandsInv cfg bin s bins fresh popped active)
    (sentinels : ∀ b, s'.store.pages (.head b) = s.store.pages (.head b) ∧ s'.store.pages (.tail b) = s.store.pages (.tail b))
    (pages : ∀ p, p ∈ fresh ∨ p ∈ active → s'.store.pages (.page p) = s.store.pages (.page p))
    (links : s'.store.links = s.store.links) (pageLocked : s'.pageLocked = s.pageLocked) {t : Nat} {pc : Pc}
    (pcs : s'.pcs = Function.update s.pcs t pc) (old : (s.pcs t).quiet = true) (new : pc.quiet = true)
    (others : ∀ t', t' ≠ t → s'.heads t' = s.heads t') (heads : pc.fetching = true → s'.heads t = none) :
    HandsInv cfg bin s' bins fresh popped active := by
  have notNew : (∀ p, pc ≠ .fetched p) ∧ (∀ p, pc ≠ .returning p) ∧ pc.releases = false := by
    cases pc <;> simp [Pc.quiet, Pc.releases] at new ⊢
  have notOld : (∀ p, s.pcs t ≠ .fetched p) ∧ (∀ p, s.pcs t ≠ .returning p) := by
    cases at' : s.pcs t <;> simp [at', Pc.quiet] at old ⊢
  have fetched (t' : Nat) (p : Page) : s'.pcs t' = .fetched p ↔ s.pcs t' = .fetched p := by
    by_cases same : t' = t
    · subst same
      simp [pcs, notNew.1, notOld.1]
    · simp [pcs, same]
  have returning (t' : Nat) (p : Page) : s'.pcs t' = .returning p ↔ s.pcs t' = .returning p := by
    by_cases same : t' = t
    · subst same
      simp [pcs, notNew.2.1, notOld.2]
    · simp [pcs, same]
  constructor
  case places => exact inv.places.congr sentinels pages links
  case served =>
    intro p member
    rw [pages p member]
    exact inv.served p member
  case fetched =>
    intro p
    simp only [fetched]
    exact inv.fetched p
  case fetchedOnce =>
    intro t₁ t₂ p first second
    exact inv.fetchedOnce t₁ t₂ p ((fetched t₁ p).mp first) ((fetched t₂ p).mp second)
  case returning =>
    intro t' p at'
    have known := inv.returning t' p ((returning t' p).mp at')
    rw [pages p (Or.inr known.1), pageLocked]
    exact known
  case returningOnce =>
    intro t₁ t₂ p first second
    exact inv.returningOnce t₁ t₂ p ((returning t₁ p).mp first) ((returning t₂ p).mp second)
  case kept =>
    intro t'
    rw [pcs]
    exact inv.kept_update t notNew.2.2 t'
  case loose =>
    intro p member
    rw [pages p (Or.inr member), pageLocked]
    exact inv.loose p member
  case empty =>
    intro t' fetching
    by_cases same : t' = t
    · subst same
      exact heads (by simpa [pcs] using fetching)
    · rw [others t' same]
      exact inv.empty t' (by simpa [pcs, same] using fetching)

theorem HandsInv.fetch (inv : HandsInv cfg bin s bins fresh popped active) {store : Store} {bins' : Nat → List Page}
    {fresh' popped' : Set Page} {t : Nat} {p : Page} (places : PageInv cfg store bins' fresh' popped' active)
    (old : (s.pcs t).quiet = true) (empty : s.heads t = none) (notReturning : ∀ q, s.pcs t ≠ .returning q)
    (unclaimed : ¬ (p ∈ fresh ∨ p ∈ popped)) (held : ∀ q, q ∈ fresh' ∨ q ∈ popped' ↔ q = p ∨ q ∈ fresh ∨ q ∈ popped)
    (served : ∀ q, q ∈ fresh' ∨ q ∈ active → (store.pages (.page q)).binIndex = bin)
    (fields : ∀ q ∈ active, (store.pages (.page q)).freeList = (s.store.pages (.page q)).freeList ∧
      (store.pages (.page q)).isTethered = (s.store.pages (.page q)).isTethered) :
    HandsInv cfg bin ({ s with store }.goto t (.fetched p)) bins' fresh' popped' active := by
  have free : ∀ t', s.pcs t' ≠ .fetched p := fun t' at' => unclaimed ((inv.fetched p).mpr ⟨t', at'⟩)
  have notFetched : ∀ q, s.pcs t ≠ .fetched q := by
    cases at' : s.pcs t <;> simp [at', Pc.quiet] at old ⊢
  have fetched (t' : Nat) (q : Page) : Function.update s.pcs t (.fetched p) t' = .fetched q ↔
      t' = t ∧ q = p ∨ s.pcs t' = .fetched q := by
    by_cases same : t' = t
    · subst same
      simp [notFetched, eq_comm]
    · simp [same]
  have returning (t' : Nat) (q : Page) : Function.update s.pcs t (.fetched p) t' = .returning q ↔
      s.pcs t' = .returning q := by
    by_cases same : t' = t
    · subst same
      simp [notReturning]
    · simp [same]
  constructor
  case places => exact places
  case served => exact served
  case fetched =>
    intro q
    simp only [System.goto, fetched, exists_or, ← inv.fetched q]
    simpa using held q
  case fetchedOnce =>
    intro t₁ t₂ q one two
    rcases (fetched t₁ q).mp one with ⟨here, same⟩ | earlier
    · rcases (fetched t₂ q).mp two with ⟨here', _⟩ | later
      · rw [here, here']
      · exact absurd (same ▸ later) (free t₂)
    · rcases (fetched t₂ q).mp two with ⟨_, same⟩ | later
      · exact absurd (same ▸ earlier) (free t₁)
      · exact inv.fetchedOnce t₁ t₂ q earlier later
  case returning =>
    intro t' q at'
    have known := inv.returning t' q ((returning t' q).mp at')
    exact ⟨known.1, (fields q known.1).2.trans known.2.1, known.2.2⟩
  case returningOnce =>
    intro t₁ t₂ q one two
    exact inv.returningOnce t₁ t₂ q ((returning t₁ q).mp one) ((returning t₂ q).mp two)
  case kept => exact inv.kept_update t rfl
  case loose =>
    intro q member loose unlocked
    have same := fields q member
    exact same.1.trans (inv.loose q member (same.2.symm.trans loose) unlocked)
  case empty => exact inv.empty_update t fun _ => empty

theorem HandsInv.hand (inv : HandsInv cfg bin s bins fresh popped active) {store : Store} {fresh' popped' active' : Set Page}
    {t : Nat} {p : Page} {head : Option Block} {live : List Block} (places : PageInv cfg store bins fresh' popped' active')
    (at' : s.pcs t = .fetched p) (unlocked : s.pageLocked p = false)
    (held : ∀ q, q ∈ fresh' ∨ q ∈ popped' ↔ q ≠ p ∧ (q ∈ fresh ∨ q ∈ popped)) (more : active ⊆ active')
    (only : ∀ q ∈ active', q ≠ p → q ∈ active)
    (served : (store.pages (.page p)).binIndex = (s.store.pages (.page p)).binIndex)
    (taken : (store.pages (.page p)).freeList = none)
    (others : ∀ q, q ≠ p → store.pages (.page q) = s.store.pages (.page q)) :
    HandsInv cfg bin ({ s with store, heads := Function.update s.heads t head, live }.goto t .idle)
      bins fresh' popped' active' := by
  have fetched (t' : Nat) (q : Page) : Function.update s.pcs t .idle t' = .fetched q ↔ q ≠ p ∧ s.pcs t' = .fetched q := by
    by_cases same : t' = t
    · subst same
      simp only [Function.update_self, at', reduceCtorEq, Pc.fetched.injEq, false_iff, not_and]
      exact fun different same => different same.symm
    · simp only [Function.update_of_ne same, iff_and_self]
      rintro claimed rfl
      exact same (inv.fetchedOnce t' t q claimed at')
  have returning (t' : Nat) (q : Page) : Function.update s.pcs t .idle t' = .returning q → s.pcs t' = .returning q := by
    by_cases same : t' = t
    · subst same
      simp
    · simp [same]
  have known : p ∈ fresh ∨ p ∈ active := by
    rcases (inv.fetched p).mpr ⟨t, at'⟩ with fresh | popped
    · exact Or.inl fresh
    · exact Or.inr (inv.places.fetched p popped).1
  constructor
  case places => exact places
  case served =>
    intro q member
    by_cases same : q = p
    · subst same
      exact served.trans (inv.served q known)
    · have old : q ∈ fresh ∨ q ∈ active := by
        cases member with
        | inl fresh' =>
            rcases ((held q).mp (Or.inl fresh')).2 with fresh | popped
            · exact Or.inl fresh
            · exact Or.inr (inv.places.fetched q popped).1
        | inr active' => exact Or.inr (only q active' same)
      simpa [System.goto, others q same] using inv.served q old
  case fetched =>
    intro q
    simp only [System.goto, fetched, exists_and_left, ← inv.fetched q]
    exact held q
  case fetchedOnce =>
    intro t₁ t₂ q one two
    exact inv.fetchedOnce t₁ t₂ q ((fetched t₁ q).mp one).2 ((fetched t₂ q).mp two).2
  case returning =>
    intro t' q at''
    have old := inv.returning t' q (returning t' q at'')
    have different : q ≠ p := by
      rintro rfl
      simp [unlocked] at old
    refine ⟨more old.1, ?_, old.2.2⟩
    simpa [System.goto, others q different] using old.2.1
  case returningOnce =>
    intro t₁ t₂ q one two
    exact inv.returningOnce t₁ t₂ q (returning t₁ q one) (returning t₂ q two)
  case kept => exact inv.kept_update t rfl
  case loose =>
    intro q member
    by_cases same : q = p
    · subst same
      exact fun _ _ => taken
    · simpa [System.goto, others q same] using inv.loose q (only q member same)
  case empty =>
    intro t' fetching
    by_cases same : t' = t
    · subst same
      simp [System.goto, Pc.fetching] at fetching
    · simpa [System.goto, same] using inv.empty t' (by simpa [System.goto, same] using fetching)

theorem HandsInv.give (inv : HandsInv cfg bin s bins fresh popped active) (live : List Block) {store : Store} {t : Nat}
    {p : Page} {tethered : Bool} (places : PageInv cfg store bins fresh popped active) (idle : s.pcs t = .idle)
    (unlocked : s.pageLocked p = false) (member : p ∈ active)
    (flag : (s.store.pages (.page p)).isTethered = tethered)
    (fields : (store.pages (.page p)).binIndex = (s.store.pages (.page p)).binIndex ∧
      (store.pages (.page p)).isTethered = (s.store.pages (.page p)).isTethered)
    (others : ∀ q, q ≠ p → store.pages (.page q) = s.store.pages (.page q)) :
    HandsInv cfg bin (({ s with store, live }.lockPage p (!tethered)).goto t (if tethered then .idle else .returning p))
      bins fresh popped active := by
  have fetched (t' : Nat) (q : Page) :
      Function.update s.pcs t (if tethered then .idle else .returning p) t' = .fetched q ↔ s.pcs t' = .fetched q := by
    by_cases same : t' = t
    · subst same
      cases tethered <;> simp [idle]
    · simp [same]
  have returning (t' : Nat) (q : Page)
      (at' : Function.update s.pcs t (if tethered then .idle else .returning p) t' = .returning q) :
      t' = t ∧ q = p ∧ tethered = false ∨ s.pcs t' = .returning q ∧ q ≠ p := by
    by_cases same : t' = t
    · subst same
      cases tethered with
      | true => simp at at'
      | false =>
          have here : p = q := by simpa using at'
          exact Or.inl ⟨rfl, here.symm, rfl⟩
    · rw [Function.update_of_ne same] at at'
      refine Or.inr ⟨at', ?_⟩
      rintro rfl
      have known := inv.returning t' q at'
      simp [unlocked] at known
  constructor
  case places => exact places
  case served =>
    intro q known
    by_cases same : q = p
    · subst same
      exact fields.1.trans (inv.served q known)
    · simpa [System.goto, System.lockPage, others q same] using inv.served q known
  case fetched =>
    intro q
    simp only [System.goto, System.lockPage, fetched]
    exact inv.fetched q
  case fetchedOnce =>
    intro t₁ t₂ q one two
    exact inv.fetchedOnce t₁ t₂ q ((fetched t₁ q).mp one) ((fetched t₂ q).mp two)
  case returning =>
    intro t' q at'
    rcases returning t' q at' with ⟨_, rfl, loose⟩ | ⟨earlier, different⟩
    · subst loose
      exact ⟨member, fields.2.trans flag, by simp [System.goto, System.lockPage]⟩
    · have known := inv.returning t' q earlier
      simpa [System.goto, System.lockPage, others q different, different] using known
  case returningOnce =>
    intro t₁ t₂ q one two
    rcases returning t₁ q one with ⟨here, same, _⟩ | ⟨earlier, different⟩
    · rcases returning t₂ q two with ⟨here', _, _⟩ | ⟨_, different⟩
      · rw [here, here']
      · exact absurd same different
    · rcases returning t₂ q two with ⟨_, same, _⟩ | ⟨later, _⟩
      · exact absurd same different
      · exact inv.returningOnce t₁ t₂ q earlier later
  case kept => exact inv.kept_update t (by cases tethered <;> rfl)
  case loose =>
    intro q known loose free
    by_cases same : q = p
    · subst same
      have contrary : tethered = false := flag.symm.trans (fields.2.symm.trans loose)
      simp [System.goto, System.lockPage, contrary] at free
    · have old := inv.loose q known
      simp only [System.goto, System.lockPage, others q same, Function.update_of_ne same] at loose free ⊢
      exact old loose free
  case empty => exact inv.empty_update t (by cases tethered <;> simp [Pc.fetching])

theorem HandsInv.giveBack (inv : HandsInv cfg bin s bins fresh popped active) {store : Store} {bins' : Nat → List Page}
    {t : Nat} {p : Page} (places : PageInv cfg store bins' fresh popped active) (at' : s.pcs t = .returning p)
    (tethered : (store.pages (.page p)).isTethered = true)
    (fields : ∀ q, (store.pages (.page q)).binIndex = (s.store.pages (.page q)).binIndex)
    (others : ∀ q, q ≠ p → (store.pages (.page q)).freeList = (s.store.pages (.page q)).freeList ∧
      (store.pages (.page q)).isTethered = (s.store.pages (.page q)).isTethered) :
    HandsInv cfg bin (({ s with store }.lockPage p false).goto t .idle) bins' fresh popped active := by
  have fetched (t' : Nat) (q : Page) : Function.update s.pcs t .idle t' = .fetched q ↔ s.pcs t' = .fetched q := by
    by_cases same : t' = t
    · subst same
      simp [at']
    · simp [same]
  have returning (t' : Nat) (q : Page) (still : Function.update s.pcs t .idle t' = .returning q) :
      s.pcs t' = .returning q ∧ q ≠ p := by
    by_cases same : t' = t
    · subst same
      simp at still
    · rw [Function.update_of_ne same] at still
      refine ⟨still, ?_⟩
      rintro rfl
      exact same (inv.returningOnce t' t q still at')
  constructor
  case places => exact places
  case served =>
    intro q known
    exact (fields q).trans (inv.served q known)
  case fetched =>
    intro q
    simp only [System.goto, System.lockPage, fetched]
    exact inv.fetched q
  case fetchedOnce =>
    intro t₁ t₂ q one two
    exact inv.fetchedOnce t₁ t₂ q ((fetched t₁ q).mp one) ((fetched t₂ q).mp two)
  case returning =>
    intro t' q still
    obtain ⟨earlier, different⟩ := returning t' q still
    have known := inv.returning t' q earlier
    refine ⟨known.1, (others q different).2.trans known.2.1, ?_⟩
    simpa [System.goto, System.lockPage, different] using known.2.2
  case returningOnce =>
    intro t₁ t₂ q one two
    exact inv.returningOnce t₁ t₂ q (returning t₁ q one).1 (returning t₂ q two).1
  case kept => exact inv.kept_update t rfl
  case loose =>
    intro q known loose free
    by_cases same : q = p
    · subst same
      simp [System.goto, System.lockPage, tethered] at loose
    · refine (others q same).1.trans (inv.loose q known ((others q same).2.symm.trans loose) ?_)
      simpa [System.goto, System.lockPage, same] using free
  case empty => exact inv.empty_update t (by simp [Pc.fetching])

theorem CacheInv.congr (inv : CacheInv cfg s made pageList)
    (stages : ∀ t, (s'.pcs t).stage = (s.pcs t).stage) (cacheLocked : s'.cacheLocked = s.cacheLocked)
    (clusterLocked : s'.clusterLocked = s.clusterLocked) (pageFreeList : s'.store.pageFreeList = s.store.pageFreeList)
    (clusters : ∀ c, (s'.store.clusters c).freeList = (s.store.clusters c).freeList)
    (clusterFreeList : s'.store.clusterFreeList = s.store.clusterFreeList)
    (reserved : s'.store.reserved = s.store.reserved)
    (pages : ∀ p, p ∉ made → s'.store.nextNode (.page p) = s.store.nextNode (.page p)) : CacheInv cfg s' made pageList := by
  constructor
  case locked =>
    intro t inside
    rw [cacheLocked]
    exact inv.locked t (stages t ▸ inside)
  case alone =>
    intro t t' inside inside'
    exact inv.alone t t' (stages t ▸ inside) (stages t' ▸ inside')
  case unlocked =>
    rw [clusterLocked]
    exact inv.unlocked
  case chain =>
    rw [pageFreeList]
    refine inv.chain.congr ?_
    intro n member
    obtain ⟨p, listed, rfl⟩ := List.mem_map.mp member
    exact pages p (inv.listed p listed).1
  case listed =>
    rw [reserved]
    exact inv.listed
  case empty =>
    intro t waits
    rw [stages] at waits
    exact inv.empty t waits
  case noCluster =>
    rw [clusterFreeList]
    exact inv.noCluster
  case moving =>
    intro t c moves
    obtain ⟨member, chain, away⟩ := inv.moving t c (stages t ▸ moves)
    refine ⟨reserved ▸ member, ?_, away⟩
    rw [clusters]
    refine chain.congr ?_
    intro n listed
    obtain ⟨i, _, rfl⟩ := List.mem_map.mp listed
    exact pages _ (away i)
  case settled =>
    intro c member rest
    rw [clusters]
    exact inv.settled c (reserved ▸ member) (fun t => stages t ▸ rest t)
  case covered =>
    intro p member below
    simp only [stages]
    exact inv.covered p (reserved ▸ member) below
  case known =>
    rw [reserved]
    exact inv.known

theorem CacheInv.single (t : Nat) (stage : Stage) (here : (s.pcs t).stage = stage)
    (others : ∀ t', t' ≠ t → (s.pcs t').stage = .outside) (locked : stage ≠ .outside → s.cacheLocked = true)
    (unlocked : ∀ c, s.clusterLocked c = false)
    (chain : Chain s.store.nextNode s.store.pageFreeList (pageList.map .page))
    (listed : ∀ p ∈ pageList, p ∉ made ∧ p.cluster ∈ s.store.reserved)
    (empty : stage = .waiting ∨ (∃ c, stage = .moving c) → pageList = []) (noCluster : s.store.clusterFreeList = none)
    (moving : ∀ c, stage = .moving c → c ∈ s.store.reserved ∧
      Chain s.store.nextNode (s.store.clusters c).freeList ((List.range (slotCount cfg)).map (slot c)) ∧
      ∀ i, Page.mk c i ∉ made)
    (settled : ∀ c ∈ s.store.reserved, stage ≠ .moving c → (s.store.clusters c).freeList = none)
    (covered : ∀ p, p.cluster ∈ s.store.reserved → p.slot < slotCount cfg →
      p ∈ pageList ∨ p ∈ made ∨ stage = .moving p.cluster)
    (known : ∀ p ∈ made, p.cluster ∈ s.store.reserved) : CacheInv cfg s made pageList := by
  have only (t' : Nat) (inside : (s.pcs t').stage ≠ .outside) : t' = t := by
    by_contra different
    exact inside (others t' different)
  constructor
  case locked =>
    intro t' inside
    exact locked (here ▸ only t' inside ▸ inside)
  case alone =>
    intro t₁ t₂ first second
    exact (only t₁ first).trans (only t₂ second).symm
  case unlocked => exact unlocked
  case chain => exact chain
  case listed => exact listed
  case empty =>
    intro t' waits
    have inside : (s.pcs t').stage ≠ .outside := by
      rcases waits with waits | ⟨c, waits⟩ <;> simp [waits]
    rw [only t' inside, here] at waits
    exact empty waits
  case noCluster => exact noCluster
  case moving =>
    intro t' c moves
    rw [only t' (by simp [moves]), here] at moves
    exact moving c moves
  case settled =>
    intro c member rest
    exact settled c member (here ▸ rest t)
  case covered =>
    intro p member below
    rcases covered p member below with list | known | moves
    · exact Or.inl list
    · exact Or.inr (Or.inl known)
    · exact Or.inr (Or.inr ⟨t, here.trans moves⟩)
  case known => exact known

theorem CacheInv.free (inv : CacheInv cfg s made pageList) (free : s.cacheLocked = false) (t : Nat) :
    (s.pcs t).stage = .outside := by
  by_contra inside
  simp [inv.locked t inside] at free

theorem CacheInv.others (inv : CacheInv cfg s made pageList) {t : Nat} (inside : (s.pcs t).stage ≠ .outside) (t' : Nat)
    (different : t' ≠ t) : (s.pcs t').stage = .outside := by
  by_contra inside'
  exact different (inv.alone t' t inside' inside)

theorem CacheInv.settled_of (inv : CacheInv cfg s made pageList) {t : Nat}
    (others : ∀ t', t' ≠ t → (s.pcs t').stage = .outside) {c : Nat} (member : c ∈ s.store.reserved)
    (rest : (s.pcs t).stage ≠ .moving c) : (s.store.clusters c).freeList = none := by
  refine inv.settled c member ?_
  intro t'
  by_cases same : t' = t
  · exact same ▸ rest
  · simp [others t' same]

theorem CacheInv.covered_of (inv : CacheInv cfg s made pageList) {t : Nat}
    (others : ∀ t', t' ≠ t → (s.pcs t').stage = .outside) {p : Page} (member : p.cluster ∈ s.store.reserved)
    (below : p.slot < slotCount cfg) : p ∈ pageList ∨ p ∈ made ∨ (s.pcs t).stage = .moving p.cluster := by
  rcases inv.covered p member below with list | known | ⟨t', moves⟩
  · exact Or.inl list
  · exact Or.inr (Or.inl known)
  · by_cases same : t' = t
    · exact Or.inr (Or.inr (same ▸ moves))
    · simp [others t' same] at moves

end Frames

end PrototypeBundle.PageCache
