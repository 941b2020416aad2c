import PrototypeBundle.PageCache.Pages
import Mathlib.Data.Set.Insert

set_option autoImplicit false

-- A page is formatted and waits for its first `transfer_to` (`fresh`), or serves
-- its bin (`active`); a `popped` page has left its bin for another `transfer_to`.

namespace PrototypeBundle.PageCache

open BinAlloc (Config)
open Intrusive

variable (cfg : Config)

structure Fresh (s : Store) (p : Page) : Prop where
  bin : ((s.pages (.page p)).binIndex : Int) < cfg.binCount
  chain : Chain s.links (s.pages (.page p)).freeList
    ((List.range (cfg.binObjectCount (s.pages (.page p)).binIndex)).map (Block.mk p))
  used : (s.pages (.page p)).used = 0

/-- The blocks that are not in `free` are counted in `used`. -/
structure Active (s : Store) (p : Page) (free : List Block) : Prop where
  bin : ((s.pages (.page p)).binIndex : Int) < cfg.binCount
  chain : Chain s.links (s.pages (.page p)).freeList free
  own : ∀ b ∈ free, ∃ i, i < cfg.binObjectCount (s.pages (.page p)).binIndex ∧ b = Block.mk p i
  count : (s.pages (.page p)).used + free.length = cfg.binObjectCount (s.pages (.page p)).binIndex

structure PageInv (s : Store) (bins : Nat → List Page) (fresh popped active : Set Page) : Prop where
  strung : ∀ bin : Nat, (bin : Int) < cfg.binCount → BinList s bin (bins bin)
  distinct : ∀ bin, (bins bin).Nodup
  linked : ∀ bin p, p ∈ bins bin ↔ p ∈ active ∧ p ∉ popped ∧ (s.pages (.page p)).binIndex = bin ∧
    (s.pages (.page p)).isTethered = true
  formatted : ∀ p ∈ fresh, Fresh cfg s p
  serving : ∀ p ∈ active, ∃ free, Active cfg s p free
  apart : ∀ p ∈ fresh, p ∉ active
  fetched : ∀ p ∈ popped, p ∈ active ∧ (s.pages (.page p)).isTethered = true

section Operations

variable {cfg} {s : Store} {bins : Nat → List Page} {fresh popped active : Set Page} {p : Page}

theorem Fresh.congr {s' : Store} (old : Fresh cfg s p)
    (freeList : (s'.pages (.page p)).freeList = (s.pages (.page p)).freeList)
    (used : (s'.pages (.page p)).used = (s.pages (.page p)).used)
    (binIndex : (s'.pages (.page p)).binIndex = (s.pages (.page p)).binIndex)
    (links : ∀ i, s'.links (Block.mk p i) = s.links (Block.mk p i)) : Fresh cfg s' p where
  bin := by rw [binIndex]; exact old.bin
  chain := by
    rw [binIndex, freeList]
    refine old.chain.congr ?_
    intro b member
    obtain ⟨i, _, rfl⟩ := List.mem_map.mp member
    exact links i
  used := by rw [used, old.used]

theorem Active.congr {s' : Store} {free : List Block} (old : Active cfg s p free)
    (freeList : (s'.pages (.page p)).freeList = (s.pages (.page p)).freeList)
    (used : (s'.pages (.page p)).used = (s.pages (.page p)).used)
    (binIndex : (s'.pages (.page p)).binIndex = (s.pages (.page p)).binIndex)
    (links : ∀ i, s'.links (Block.mk p i) = s.links (Block.mk p i)) : Active cfg s' p free where
  bin := by rw [binIndex]; exact old.bin
  chain := by
    rw [freeList]
    refine old.chain.congr ?_
    intro b member
    obtain ⟨i, _, rfl⟩ := old.own b member
    exact links i
  own := by rw [binIndex]; exact old.own
  count := by rw [used, binIndex, old.count]

theorem Active.write {free : List Block} (old : Active cfg s p free) {b : Block} (out : b ∉ free) (link : Option Block) :
    Active cfg { s with links := Function.update s.links b link } p free where
  bin := old.bin
  chain := by
    refine old.chain.congr ?_
    intro c member
    exact Function.update_of_ne (fun same : c = b => out (same ▸ member)) ..
  own := old.own
  count := old.count

theorem Active.used_pos {free : List Block} (old : Active cfg s p free) {i : Nat}
    (below : i < cfg.binObjectCount (s.pages (.page p)).binIndex) (out : Block.mk p i ∉ free) :
    0 < (s.pages (.page p)).used := by
  have less := length_lt_of_missing old.chain.nodup old.own below out
  have count := old.count
  omega

theorem pageMake_eq {bin : Nat} (exist : (bin : Int) < cfg.binCount) :
    s.pageMake cfg p bin = some (s.pageFormat cfg p bin) := if_neg (Int.not_le.mpr exist)

theorem Fresh.format {bin : Nat} (exist : (bin : Int) < cfg.binCount) : Fresh cfg (s.pageFormat cfg p bin) p where
  bin := by simpa [Store.pageFormat] using exist
  chain := by
    have chain := formatted_chain (s.pageFormat cfg p bin).links (Block.mk p) (cfg.binObjectCount bin) (by
      intro j below
      have below' : j < cfg.pageSize / cfg.binIndexMaxSize bin := below
      simp [Store.pageFormat, below', Config.binObjectCount])
    simpa [Store.pageFormat, Config.binObjectCount] using chain
  used := by simp [Store.pageFormat]

theorem PageInv.format (inv : PageInv cfg s bins fresh popped active) (unused : p ∉ fresh) (idle : p ∉ active)
    {bin : Nat} (exist : (bin : Int) < cfg.binCount) :
    PageInv cfg (s.pageFormat cfg p bin) bins (insert p fresh) popped active := by
  have other (q : Page) (different : q ≠ p) : (s.pageFormat cfg p bin).pages (.page q) = s.pages (.page q) := by
    simp [Store.pageFormat, different]
  have kept (q : Page) (different : q ≠ p) (i : Nat) :
      (s.pageFormat cfg p bin).links (Block.mk q i) = s.links (Block.mk q i) := by
    simp [Store.pageFormat, different]
  have away (q : Page) (member : q ∈ active) : q ≠ p := fun same => idle (same ▸ member)
  constructor
  case strung =>
    intro bin' inside
    refine (inv.strung bin' inside).congr ?_
    intro n member
    have different : n ≠ .page p := by
      rintro rfl
      exact idle ((inv.linked bin' p).mp (page_mem_binNodes.mp member)).1
    simp [Store.pageFormat, different]
  case distinct => exact inv.distinct
  case linked =>
    intro bin' q
    rw [inv.linked]
    constructor
    · intro linked
      rw [other q (away q linked.1)]
      exact linked
    · intro linked
      rw [other q (away q linked.1)] at linked
      exact linked
  case formatted =>
    intro q member
    by_cases same : q = p
    · subst same
      exact .format exist
    · have old := inv.formatted q (member.resolve_left same)
      exact old.congr (by rw [other q same]) (by rw [other q same]) (by rw [other q same]) (kept q same)
  case serving =>
    intro q member
    obtain ⟨free, old⟩ := inv.serving q member
    have same := away q member
    exact ⟨free, old.congr (by rw [other q same]) (by rw [other q same]) (by rw [other q same]) (kept q same)⟩
  case apart =>
    intro q member
    rcases member with rfl | old
    · exact idle
    · exact inv.apart q old
  case fetched =>
    intro q member
    have old := inv.fetched q member
    rw [other q (away q old.1)]
    exact old

@[simp] theorem transferTo_page : (s.transferTo cfg p).1.pages (.page p) =
    { s.pages (.page p) with
      freeList := none
      used := cfg.binObjectCount (s.pages (.page p)).binIndex % 2 ^ 16
      isTethered := false } := by
  simp [Store.transferTo]

theorem transferTo_other {n : Node} (different : n ≠ .page p) : (s.transferTo cfg p).1.pages n = s.pages n := by
  simp [Store.transferTo, Function.update_of_ne different]

theorem BinList.transferTo {bin : Nat} {list : List Page} (strung : BinList s bin list) :
    BinList (s.transferTo cfg p).1 bin list := by
  refine strung.congr ?_
  intro n _
  by_cases same : n = .page p
  · simp [same]
  · rw [transferTo_other same]
    exact ⟨rfl, rfl⟩

theorem Active.transferred (bin : ((s.pages (.page p)).binIndex : Int) < cfg.binCount)
    (fits : cfg.binObjectCount (s.pages (.page p)).binIndex < 2 ^ 16) : Active cfg (s.transferTo cfg p).1 p [] where
  bin := by simpa using bin
  chain := by simp
  own := by simp
  count := by simpa using fits

theorem PageInv.transferred {fresh' popped' active' : Set Page} (inv : PageInv cfg s bins fresh popped active)
    (unlinked : p ∈ active → p ∈ popped) (bin : ((s.pages (.page p)).binIndex : Int) < cfg.binCount)
    (fits : cfg.binObjectCount (s.pages (.page p)).binIndex < 2 ^ 16)
    (others : ∀ q, q ≠ p → (q ∈ active' ↔ q ∈ active) ∧ (q ∈ popped' ↔ q ∈ popped))
    (fewer : ∀ q ∈ fresh', q ∈ fresh ∧ q ≠ p) (apart : ∀ q ∈ fresh', q ∉ active') (settled : p ∉ popped') :
    PageInv cfg (s.transferTo cfg p).1 bins fresh' popped' active' := by
  have other (q : Page) (different : q ≠ p) : (s.transferTo cfg p).1.pages (.page q) = s.pages (.page q) :=
    transferTo_other (by simpa using different)
  constructor
  case strung =>
    intro bin inside
    exact (inv.strung bin inside).transferTo
  case distinct => exact inv.distinct
  case linked =>
    intro bin q
    by_cases same : q = p
    · subst same
      simpa [inv.linked] using fun inActive notPopped => absurd (unlinked inActive) notPopped
    · rw [inv.linked, other q same, (others q same).1, (others q same).2]
  case formatted =>
    intro q inside
    obtain ⟨old, same⟩ := fewer q inside
    exact (inv.formatted q old).congr (by rw [other q same]) (by rw [other q same]) (by rw [other q same]) (fun _ => rfl)
  case serving =>
    intro q inside
    by_cases same : q = p
    · subst same
      exact ⟨[], Active.transferred bin fits⟩
    · obtain ⟨free, old⟩ := inv.serving q ((others q same).1.mp inside)
      exact ⟨free, old.congr (by rw [other q same]) (by rw [other q same]) (by rw [other q same]) (fun _ => rfl)⟩
  case apart => exact apart
  case fetched =>
    intro q inside
    have same : q ≠ p := fun equal => settled (equal ▸ inside)
    rw [other q same, (others q same).1]
    exact inv.fetched q ((others q same).2.mp inside)

theorem PageInv.transferFresh (inv : PageInv cfg s bins fresh popped active) (member : p ∈ fresh)
    (fits : cfg.binObjectCount (s.pages (.page p)).binIndex < 2 ^ 16) :
    PageInv cfg (s.transferTo cfg p).1 bins (fresh \ {p}) popped (insert p active) := by
  have idle := inv.apart p member
  refine inv.transferred (fun inside => absurd inside idle) (inv.formatted p member).bin fits ?_ (fun _ => id) ?_ ?_
  · exact fun q different => ⟨by simp [different], Iff.rfl⟩
  · intro q inside
    rintro (same | old)
    · exact inside.2 same
    · exact inv.apart q inside.1 old
  · exact fun inside => idle (inv.fetched p inside).1

theorem PageInv.transferPopped (inv : PageInv cfg s bins fresh popped active) (member : p ∈ popped)
    (fits : cfg.binObjectCount (s.pages (.page p)).binIndex < 2 ^ 16) :
    PageInv cfg (s.transferTo cfg p).1 bins fresh (popped \ {p}) active := by
  have busy := (inv.fetched p member).1
  obtain ⟨_, old⟩ := inv.serving p busy
  refine inv.transferred (fun _ => member) old.bin fits ?_ ?_ inv.apart (by simp)
  · exact fun q different => ⟨Iff.rfl, by simp [different]⟩
  · exact fun q inside => ⟨inside, fun equal => inv.apart q inside (equal ▸ busy)⟩

theorem PageInv.relink {s' : Store} {bin : Nat} {list : List Page} {nodes : List Node} {popped' active' : Set Page}
    (inv : PageInv cfg s bins fresh popped active) (relinked : Relinked s s' nodes) (strung : BinList s' bin list)
    (distinct : list.Nodup) (nodes' : ∀ bin', bin' ≠ bin → ∀ n ∈ binNodes bin' (bins bin'), n ∉ nodes)
    (linked : ∀ bin' q, q ∈ Function.update bins bin list bin' ↔ q ∈ active' ∧ q ∉ popped' ∧
      (s.pages (.page q)).binIndex = bin' ∧ (s.pages (.page q)).isTethered = true)
    (less : active' ⊆ active)
    (fetched : ∀ q ∈ popped', q ∈ active' ∧ (s.pages (.page q)).isTethered = true) :
    PageInv cfg s' (Function.update bins bin list) fresh popped' active' := by
  constructor
  case strung =>
    intro bin' inside
    by_cases same : bin' = bin
    · subst same
      simpa using strung
    · rw [Function.update_of_ne same]
      refine (inv.strung bin' inside).congr ?_
      intro n member
      rw [relinked.others n (nodes' bin' same n member)]
      exact ⟨rfl, rfl⟩
  case distinct =>
    intro bin'
    by_cases same : bin' = bin
    · subst same
      simpa using distinct
    · rw [Function.update_of_ne same]
      exact inv.distinct bin'
  case linked =>
    intro bin' q
    have field := relinked.field (.page q)
    rw [linked, field.2.2.1, field.2.2.2]
  case formatted =>
    intro q inside
    have field := relinked.field (.page q)
    exact (inv.formatted q inside).congr field.1 field.2.1 field.2.2.1 (fun _ => by rw [relinked.links])
  case serving =>
    intro q inside
    have field := relinked.field (.page q)
    obtain ⟨free, old⟩ := inv.serving q (less inside)
    exact ⟨free, old.congr field.1 field.2.1 field.2.2.1 (fun _ => by rw [relinked.links])⟩
  case apart =>
    intro q inside working
    exact inv.apart q inside (less working)
  case fetched =>
    intro q inside
    rw [(relinked.field (.page q)).2.2.2]
    exact fetched q inside

theorem PageInv.bins_apart (inv : PageInv cfg s bins fresh popped active) {bin : Nat} {list : List Page}
    (own : ∀ q ∈ list, (s.pages (.page q)).binIndex = bin) {bin' : Nat} (different : bin' ≠ bin) {n : Node}
    (member : n ∈ binNodes bin' (bins bin')) : n ∉ binNodes bin list := by
  intro inside
  rcases mem_binNodes.mp member with rfl | ⟨q, linked, rfl⟩ | rfl
  · simp [mem_binNodes, different] at inside
  · have index := ((inv.linked bin' q).mp linked).2.2.1
    exact different (index.symm.trans (own q (page_mem_binNodes.mp inside)))
  · simp [mem_binNodes, different] at inside

theorem PageInv.pop (inv : PageInv cfg s bins fresh popped active) {bin : Nat} {rest : List Page}
    (exist : (bin : Int) < cfg.binCount) (shape : bins bin = p :: rest) :
    ∃ s', s.binPop bin = some (s', some p) ∧ Relinked s s' (binNodes bin rest) ∧
      PageInv cfg s' (Function.update bins bin rest) fresh (insert p popped) active := by
  have distinct := inv.distinct bin
  have strung := inv.strung bin exist
  rw [shape] at distinct strung
  obtain ⟨s', run, strung', relinked⟩ := binPop_cons strung distinct
  have fresh' := (List.nodup_cons.mp distinct).1
  have first := (inv.linked bin p).mp (by simp [shape])
  have old (q : Page) (member : q ∈ rest) := (inv.linked bin q).mp (by simp [shape, member])
  refine ⟨s', run, relinked, inv.relink relinked strung' (List.nodup_cons.mp distinct).2 ?_ ?_ (le_refl _) ?_⟩
  · intro bin' different n member
    exact inv.bins_apart (fun q inside => (old q inside).2.2.1) different member
  · intro bin' q
    by_cases same : bin' = bin
    · subst same
      rw [Function.update_self]
      constructor
      · intro member
        have linked := old q member
        refine ⟨linked.1, ?_, linked.2.2⟩
        rintro (rfl | inside)
        · exact fresh' member
        · exact linked.2.1 inside
      · intro linked
        have member := (inv.linked bin' q).mpr ⟨linked.1, fun inside => linked.2.1 (Or.inr inside), linked.2.2⟩
        rw [shape] at member
        exact (List.mem_cons.mp member).resolve_left (fun equal => linked.2.1 (Or.inl equal))
    · rw [Function.update_of_ne same, inv.linked]
      constructor
      · intro linked
        refine ⟨linked.1, ?_, linked.2.2⟩
        rintro (rfl | inside)
        · exact same (linked.2.2.1.symm.trans first.2.2.1)
        · exact linked.2.1 inside
      · intro linked
        exact ⟨linked.1, fun inside => linked.2.1 (Or.inr inside), linked.2.2⟩
  · intro q member
    rcases member with rfl | inside
    · exact ⟨first.1, first.2.2.2⟩
    · exact inv.fetched q inside

theorem PageInv.push (inv : PageInv cfg s bins fresh popped active) {free : List Block} (old : Active cfg s p free)
    (member : p ∈ active) (fits : cfg.binObjectCount (s.pages (.page p)).binIndex < 2 ^ 16) {i : Nat}
    (below : i < cfg.binObjectCount (s.pages (.page p)).binIndex) (out : Block.mk p i ∉ free) :
    PageInv cfg (s.pagePush p ⟨p, i⟩) bins fresh popped active ∧
      Active cfg (s.pagePush p ⟨p, i⟩) p (⟨p, i⟩ :: free) := by
  have positive := old.used_pos below out
  have count := old.count
  have other (q : Page) (different : q ≠ p) : (s.pagePush p ⟨p, i⟩).pages (.page q) = s.pages (.page q) := by
    simp [Store.pagePush, different]
  have kept (q : Page) (different : q ≠ p) (j : Nat) :
      (s.pagePush p ⟨p, i⟩).links (Block.mk q j) = s.links (Block.mk q j) := by
    simp [Store.pagePush, different]
  have pushed : Active cfg (s.pagePush p ⟨p, i⟩) p (⟨p, i⟩ :: free) := by
    constructor
    case bin => simpa [Store.pagePush] using old.bin
    case chain =>
      have head : ((s.pagePush p ⟨p, i⟩).pages (.page p)).freeList = some ⟨p, i⟩ := by simp [Store.pagePush]
      rw [head]
      refine old.chain.push (by simp [Store.pagePush]) ?_
      intro b inside
      have different : b ≠ ⟨p, i⟩ := fun same => out (same ▸ inside)
      simp [Store.pagePush, different]
    case own =>
      intro b inside
      rcases List.mem_cons.mp inside with rfl | earlier
      · exact ⟨i, by simpa [Store.pagePush] using below, rfl⟩
      · simpa [Store.pagePush] using old.own b earlier
    case count =>
      have less := decrement_eq positive (by omega)
      simp only [Store.pagePush, setPage_pages, Function.update_self, less, List.length_cons]
      omega
  refine ⟨?_, pushed⟩
  constructor
  case strung =>
    intro bin inside
    refine (inv.strung bin inside).congr ?_
    intro n _
    by_cases same : n = .page p
    · simp [Store.pagePush, same]
    · simp [Store.pagePush, Function.update_of_ne same]
  case distinct => exact inv.distinct
  case linked =>
    intro bin q
    by_cases same : q = p
    · subst same
      simpa [Store.pagePush] using inv.linked bin q
    · rw [inv.linked, other q same]
  case formatted =>
    intro q inside
    have same : q ≠ p := fun equal => inv.apart q inside (equal ▸ member)
    exact (inv.formatted q inside).congr (by rw [other q same]) (by rw [other q same]) (by rw [other q same]) (kept q same)
  case serving =>
    intro q inside
    by_cases same : q = p
    · subst same
      exact ⟨_, pushed⟩
    · obtain ⟨free', old'⟩ := inv.serving q inside
      exact ⟨free', old'.congr (by rw [other q same]) (by rw [other q same]) (by rw [other q same]) (kept q same)⟩
  case apart => exact inv.apart
  case fetched =>
    intro q inside
    by_cases same : q = p
    · subst same
      simpa [Store.pagePush] using inv.fetched q inside
    · rw [other q same]
      exact inv.fetched q inside

def Store.tether (s : Store) (p : Page) : Store := s.setPage (.page p) { s.pages (.page p) with isTethered := true }

theorem Relinked.tether {s' : Store} {nodes : List Node} (relinked : Relinked s s' nodes) (out : Node.page p ∈ nodes) :
    Relinked (s.tether p) (s'.tether p) nodes where
  links := relinked.links
  pageFreeList := relinked.pageFreeList
  clusters := relinked.clusters
  clusterFreeList := relinked.clusterFreeList
  reserved := relinked.reserved
  fields := by
    intro n
    by_cases same : n = .page p
    · obtain ⟨next, prev, equal⟩ := relinked.fields (.page p)
      exact ⟨next, prev, by simp [Store.tether, same, equal]⟩
    · obtain ⟨next, prev, equal⟩ := relinked.fields n
      exact ⟨next, prev, by simp [Store.tether, Function.update_of_ne same, equal]⟩
  others := by
    intro n outside
    have different : n ≠ .page p := fun same => outside (same ▸ out)
    simp only [Store.tether, setPage_pages, Function.update_of_ne different]
    exact relinked.others n outside

theorem BinList.tether {bin : Nat} {list : List Page} (strung : BinList s bin list) : BinList (s.tether p) bin list := by
  refine strung.congr ?_
  intro n _
  by_cases same : n = .page p
  · simp [Store.tether, same]
  · simp [Store.tether, Function.update_of_ne same]

theorem PageInv.tether (inv : PageInv cfg s bins fresh popped active) (member : p ∈ active)
    (loose : (s.pages (.page p)).isTethered = false) :
    PageInv cfg (s.tether p) bins fresh (insert p popped) active := by
  have other (q : Page) (different : q ≠ p) : (s.tether p).pages (.page q) = s.pages (.page q) := by
    simp [Store.tether, different]
  constructor
  case strung =>
    intro bin inside
    exact (inv.strung bin inside).tether
  case distinct => exact inv.distinct
  case linked =>
    intro bin q
    by_cases same : q = p
    · subst same
      simp [inv.linked, loose]
    · rw [inv.linked, other q same]
      simp [same]
  case formatted =>
    intro q inside
    have same : q ≠ p := fun equal => inv.apart q inside (equal ▸ member)
    exact (inv.formatted q inside).congr (by rw [other q same]) (by rw [other q same]) (by rw [other q same]) (fun _ => rfl)
  case serving =>
    intro q inside
    obtain ⟨free, old⟩ := inv.serving q inside
    by_cases same : q = p
    · subst same
      exact ⟨free, old.congr (by simp [Store.tether]) (by simp [Store.tether]) (by simp [Store.tether]) (fun _ => rfl)⟩
    · exact ⟨free, old.congr (by rw [other q same]) (by rw [other q same]) (by rw [other q same]) (fun _ => rfl)⟩
  case apart => exact inv.apart
  case fetched =>
    intro q inside
    by_cases same : q = p
    · subst same
      exact ⟨member, by simp [Store.tether]⟩
    · rw [other q same]
      exact inv.fetched q (inside.resolve_left same)

theorem PageInv.pageReturn (inv : PageInv cfg s bins fresh popped active) (member : p ∈ active)
    (loose : (s.pages (.page p)).isTethered = false) :
    let bin := (s.pages (.page p)).binIndex
    ∃ s', s.pageReturn p = some s' ∧ Relinked (s.tether p) s' (binNodes bin (p :: bins bin)) ∧
      PageInv cfg s' (Function.update bins bin (p :: bins bin)) fresh popped active := by
  intro bin
  obtain ⟨_, old⟩ := inv.serving p member
  have out : ∀ bin', p ∉ bins bin' := by
    intro bin' linked
    simp [inv.linked, loose] at linked
  have notPopped : p ∉ popped := by
    intro inside
    simp [(inv.fetched p inside).2] at loose
  obtain ⟨s', run, strung, relinked⟩ := binPush_spec (inv.strung bin old.bin) (inv.distinct bin) (out bin)
  have relinked' := relinked.tether (p := p) (by simp [page_mem_binNodes])
  have tethered := inv.tether member loose
  have field (q : Page) : ((s.tether p).pages (.page q)).binIndex = (s.pages (.page q)).binIndex := by
    by_cases same : q = p <;> simp [Store.tether, same]
  refine ⟨s'.tether p, ?_, relinked', ?_⟩
  · simp only [Store.pageReturn]
    rw [run]
    rfl
  · refine tethered.relink relinked' strung.tether (List.nodup_cons.mpr ⟨out bin, inv.distinct bin⟩) ?_ ?_ (le_refl _) ?_
    · intro bin' different n inside
      refine tethered.bins_apart ?_ different inside
      intro q listed
      rw [field]
      rcases List.mem_cons.mp listed with rfl | linked
      · rfl
      · exact ((inv.linked bin q).mp linked).2.2.1
    · intro bin' q
      have linked := tethered.linked bin' q
      by_cases same : q = p
      · subst same
        have index : (s.pages (.page q)).binIndex = bin' ↔ bin' = bin := eq_comm
        by_cases here : bin' = bin
        · subst here
          simp [member, notPopped, bin, Store.tether]
        · simp [out bin', field, index, here]
      · have list : q ∈ Function.update bins bin (p :: bins bin) bin' ↔ q ∈ bins bin' := by
          by_cases here : bin' = bin
          · subst here
            simp [same]
          · rw [Function.update_of_ne here]
        rw [list, linked]
        simp [same]
    · intro q inside
      exact tethered.fetched q (Or.inr inside)

theorem PageInv.clusterFree (inv : PageInv cfg s bins fresh popped active) (unused : p ∉ fresh) (idle : p ∉ active) :
    PageInv cfg (s.clusterFree p) bins fresh popped active := by
  have other (q : Page) (different : q ≠ p) : (s.clusterFree p).pages (.page q) = s.pages (.page q) :=
    clusterFree_pages s p (by simpa using different)
  have away (q : Page) (member : q ∈ active) : q ≠ p := fun same => idle (same ▸ member)
  constructor
  case strung =>
    intro bin inside
    refine (inv.strung bin inside).congr ?_
    intro n member
    have different : n ≠ .page p := by
      rintro rfl
      exact idle ((inv.linked bin p).mp (page_mem_binNodes.mp member)).1
    rw [clusterFree_pages s p different]
    exact ⟨rfl, rfl⟩
  case distinct => exact inv.distinct
  case linked =>
    intro bin q
    rw [inv.linked]
    by_cases same : q = p
    · subst same
      simp [idle]
    · rw [other q same]
  case formatted =>
    intro q inside
    have same : q ≠ p := fun equal => unused (equal ▸ inside)
    exact (inv.formatted q inside).congr (by rw [other q same]) (by rw [other q same]) (by rw [other q same]) (by simp)
  case serving =>
    intro q inside
    obtain ⟨free, old⟩ := inv.serving q inside
    have same := away q inside
    exact ⟨free, old.congr (by rw [other q same]) (by rw [other q same]) (by rw [other q same]) (by simp)⟩
  case apart => exact inv.apart
  case fetched =>
    intro q inside
    have old := inv.fetched q inside
    rw [other q (away q old.1)]
    exact old

theorem PageInv.pageRelease (inv : PageInv cfg s bins fresh popped active) (member : p ∈ active)
    (stays : p ∉ popped) (tethered : (s.pages (.page p)).isTethered = true) :
    let bin := (s.pages (.page p)).binIndex
    ∃ s', s.pageRelease p = some s' ∧ s'.links = s.links ∧
      (∀ n, ∃ next prev, s'.pages n = { s.pages n with next, prev }) ∧
      PageInv cfg s' (Function.update bins bin ((bins bin).erase p)) fresh popped (active \ {p}) := by
  intro bin
  obtain ⟨_, old⟩ := inv.serving p member
  have inside := (inv.linked bin p).mpr ⟨member, stays, rfl, tethered⟩
  have distinct := inv.distinct bin
  have strung := inv.strung bin old.bin
  obtain ⟨before, after, split⟩ := List.append_of_mem inside
  have rest : (bins bin).erase p = before ++ after := by
    rw [split] at distinct ⊢
    have early : p ∉ before := by
      intro listed
      exact (List.nodup_append.mp distinct).2.2 p listed p (by simp) rfl
    rw [List.erase_append_right _ early, List.erase_cons_head]
  have own (q : Page) (listed : q ∈ (bins bin).erase p) := (inv.linked bin q).mp (List.mem_of_mem_erase listed)
  have erased := distinct.erase p
  rw [split] at strung distinct
  obtain ⟨s', run, strung', relinked⟩ := detach_spec strung distinct
  rw [← rest] at strung' relinked
  have fields (n : Node) : ∃ next prev, (s'.clusterFree p).pages n = { s.pages n with next, prev } := by
    obtain ⟨_, _, detached⟩ := relinked.fields n
    obtain ⟨next, prev, freed⟩ := clusterFree_fields s' p n
    exact ⟨next, prev, by rw [freed, detached]⟩
  refine ⟨s'.clusterFree p, by simp [Store.pageRelease, run], by simp [relinked.links], fields, ?_⟩
  have detached : PageInv cfg s' (Function.update bins bin ((bins bin).erase p)) fresh popped (active \ {p}) := by
    refine inv.relink relinked strung' erased ?_ ?_ Set.sdiff_subset ?_
    · intro bin' different n listed
      exact inv.bins_apart (fun q listed' => (own q listed').2.2.1) different listed
    · intro bin' q
      by_cases here : bin' = bin
      · subst here
        rw [Function.update_self, (inv.distinct bin).mem_erase_iff, inv.linked]
        simp only [Set.mem_sdiff, Set.mem_singleton_iff]
        tauto
      · rw [Function.update_of_ne here, inv.linked]
        constructor
        · intro linked
          refine ⟨⟨linked.1, ?_⟩, linked.2⟩
          rintro rfl
          exact here linked.2.2.1.symm
        · intro linked
          exact ⟨linked.1.1, linked.2⟩
    · intro q waits
      have known := inv.fetched q waits
      refine ⟨⟨known.1, ?_⟩, known.2⟩
      rintro rfl
      exact stays waits
  exact detached.clusterFree (fun listed => inv.apart p listed member) (fun listed => listed.2 rfl)

end Operations

theorem made_counted {cfg : Config} {s : Store} {p : Page} {bin : Nat} (exist : (bin : Int) < cfg.binCount) :
    ∃ s' nodes, s.pageMake cfg p bin = some s' ∧ Chain s'.links (s'.pages (.page p)).freeList nodes ∧
      nodes.length = cfg.binObjectCount bin ∧
      ((s'.transferTo cfg p).1.pages (.page p)).used = cfg.binObjectCount bin % 2 ^ 16 := by
  have fresh : Fresh cfg (s.pageFormat cfg p bin) p := .format exist
  have index : ((s.pageFormat cfg p bin).pages (.page p)).binIndex = bin := by simp [Store.pageFormat]
  refine ⟨_, _, pageMake_eq exist, fresh.chain, ?_, ?_⟩
  · rw [index, List.length_map, List.length_range]
  · rw [transferTo_page, index]

/-- With pages of 1 MiB a new page has 65536 blocks of 16 bytes, and `transfer_to` counts 0. -/
theorem used_truncated :
    ∃ s nodes, start.pageMake (BinAlloc.config (2 ^ 20)) ⟨0, 0⟩ 0 = some s ∧
      Chain s.links (s.pages (.page ⟨0, 0⟩)).freeList nodes ∧ nodes.length = 2 ^ 16 ∧
      nodes.length = (BinAlloc.config (2 ^ 20)).binObjectCount 0 ∧
      ((s.transferTo (BinAlloc.config (2 ^ 20)) ⟨0, 0⟩).1.pages (.page ⟨0, 0⟩)).used = 0 := by
  have count : (BinAlloc.config (2 ^ 20)).binObjectCount 0 = 2 ^ 16 := by decide
  obtain ⟨s, nodes, made, chain, length, used⟩ := @made_counted (BinAlloc.config (2 ^ 20)) start ⟨0, 0⟩ 0 (by decide)
  rw [count] at used
  exact ⟨s, nodes, made, chain, length.trans count, length, used⟩

end PrototypeBundle.PageCache
