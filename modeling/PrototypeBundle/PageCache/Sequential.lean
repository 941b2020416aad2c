import PrototypeBundle.PageCache.Places
import PrototypeBundle.Shared.Run

set_option autoImplicit false

namespace PrototypeBundle.PageCache

open BinAlloc (Config config FieldsFit)
open Intrusive

variable (cfg : Config)

/-- With the pages that were formatted and not yet transferred, and those that
were transferred and not yet released. -/
structure PageState where
  store : Store
  fresh : List Page
  active : List Page

def PageState.start : PageState := ⟨PageCache.start, [], []⟩

inductive PageOp where
  | make (p : Page) (bin : Nat)
  | transferFresh (p : Page)
  | transferPopped (bin : Nat)
  | free (b : Block)

def pageStep (s : PageState) : PageOp → Option PageState
  | .make p bin => do
      return { s with store := ← s.store.pageMake cfg p bin, fresh := p :: s.fresh }
  | .transferFresh p =>
      some ⟨(s.store.transferTo cfg p).1, s.fresh.filter (· ≠ p), p :: s.active⟩
  | .transferPopped bin => do
      match ← s.store.binPop bin with
      | (_, none) => none
      | (store, some p) => return { s with store := (store.transferTo cfg p).1 }
  | .free b => do
      let (store, released) ← s.store.pageFree b.page b
      return { s with store, active := if released then s.active.filter (· ≠ b.page) else s.active }

def Outstanding (s : Store) (b : Block) : Prop :=
  b.index < cfg.binObjectCount (s.pages (.page b.page)).binIndex ∧
    ∃ free, Chain s.links (s.pages (.page b.page)).freeList free ∧ b ∉ free

def PageEnabled (s : PageState) : PageOp → Prop
  | .make p bin => p ∉ s.fresh ∧ p ∉ s.active ∧ (bin : Int) < cfg.binCount
  | .transferFresh p => p ∈ s.fresh
  | .transferPopped bin => (bin : Int) < cfg.binCount ∧ (s.store.pages (.head bin)).next ≠ some (.tail bin)
  | .free b => b.page ∈ s.active ∧ Outstanding cfg s.store b

def Linked (s : Store) (p : Page) : Prop := ∃ list, BinList s (s.pages (.page p)).binIndex list ∧ p ∈ list

/-- Every block of the page is counted in `used` or is in its free list. -/
def Counted (s : Store) (p : Page) : Prop :=
  ∃ free, Chain s.links (s.pages (.page p)).freeList free ∧
    (s.pages (.page p)).used + free.length = cfg.binObjectCount (s.pages (.page p)).binIndex

structure PageSound (s : PageState) : Prop where
  lists : ∀ p, p ∈ s.fresh ∨ p ∈ s.active →
    ∃ free, Chain s.store.links (s.store.pages (.page p)).freeList free ∧ free.Nodup
  counts : ∀ p ∈ s.active, Counted cfg s.store p
  tethered : ∀ p ∈ s.active, (s.store.pages (.page p)).isTethered = true ↔ Linked s.store p
  -- Neither counting down nor the count of all blocks wraps.
  unwrapped : ∀ p ∈ s.active, 0 < (s.store.pages (.page p)).used ∧
    cfg.binObjectCount (s.store.pages (.page p)).binIndex < 2 ^ 16
  -- A page that was just released still counts.
  frees : ∀ b, PageEnabled cfg s (.free b) → ∃ store released, s.store.pageFree b.page b = some (store, released) ∧
    (released = true ↔ ∀ i, Outstanding cfg s.store ⟨b.page, i⟩ → i = b.index) ∧ Counted cfg store b.page

section Steps

variable {cfg} {s : Store} {bins : Nat → List Page} {fresh popped active : Set Page} {p : Page}

theorem PageInv.linked_iff (inv : PageInv cfg s bins fresh ∅ active) (member : p ∈ active) :
    (s.pages (.page p)).isTethered = true ↔ Linked s p := by
  obtain ⟨_, old⟩ := inv.serving p member
  have strung := inv.strung _ old.bin
  constructor
  · intro tethered
    exact ⟨_, strung, (inv.linked _ p).mpr ⟨member, by simp, rfl, tethered⟩⟩
  · rintro ⟨list, strung', inside⟩
    rw [binNodes_unique _ strung' strung] at inside
    exact ((inv.linked _ p).mp inside).2.2.2

/-- All pages that serve a bin have blocks in use. -/
def Used (s : Store) (active : Set Page) : Prop := ∀ p ∈ active, 0 < (s.pages (.page p)).used

theorem last_outstanding {free : List Block} (old : Active cfg s p free) {i : Nat}
    (below : i < cfg.binObjectCount (s.pages (.page p)).binIndex) (out : Block.mk p i ∉ free) :
    (s.pages (.page p)).used = 1 ↔ ∀ j, Outstanding cfg s ⟨p, j⟩ → j = i := by
  have positive := old.used_pos below out
  have count := old.count
  constructor
  · rintro last j ⟨below', free', chain, out'⟩
    rw [← old.chain.unique chain] at out'
    by_contra different
    have distinct : (Block.mk p i :: free).Nodup := List.nodup_cons.mpr ⟨out, old.chain.nodup⟩
    have missing : Block.mk p j ∉ Block.mk p i :: free := by simp [different, out']
    have less := length_lt_of_missing distinct (by
      intro b member
      rcases List.mem_cons.mp member with rfl | inside
      · exact ⟨i, below, rfl⟩
      · exact old.own b inside) below' missing
    rw [List.length_cons] at less
    change free.length + 1 < cfg.binObjectCount (s.pages (.page p)).binIndex at less
    omega
  · intro only
    have all : (List.range (cfg.binObjectCount (s.pages (.page p)).binIndex)).map (Block.mk p) ⊆ Block.mk p i :: free := by
      intro b member
      obtain ⟨j, below', rfl⟩ := List.mem_map.mp member
      by_contra missing
      simp only [List.mem_cons, not_or] at missing
      have same := only j ⟨List.mem_range.mp below', free, old.chain, missing.2⟩
      exact missing.1 (by rw [same])
    have distinct := (List.nodup_range (n := cfg.binObjectCount (s.pages (.page p)).binIndex)).map
      (f := Block.mk p) (fun j k equal => (Block.mk.inj equal).2)
    have length := (List.subperm_of_subset distinct all).length_le
    simp only [List.length_map, List.length_range, List.length_cons] at length
    omega

def Moved (s s' : Store) (p : Page) : Prop :=
  s'.links = s.links ∧ ∃ next prev isTethered, s'.pages (.page p) = { s.pages (.page p) with next, prev, isTethered }

theorem Active.moved {s' : Store} {free : List Block} (old : Active cfg s p free) (moved : Moved s s' p) :
    Active cfg s' p free := by
  obtain ⟨links, next, prev, isTethered, equal⟩ := moved
  exact old.congr (by rw [equal]) (by rw [equal]) (by rw [equal]) (by simp [links])

theorem Moved.trans {s' s'' : Store} (first : Moved s s' p) (second : Moved s' s'' p) : Moved s s'' p := by
  obtain ⟨links, _, _, _, equal⟩ := first
  obtain ⟨links', next, prev, isTethered, equal'⟩ := second
  exact ⟨links'.trans links, next, prev, isTethered, by rw [equal', equal]⟩

theorem PageInv.settle (inv : PageInv cfg s bins fresh ∅ active) (member : p ∈ active)
    (tethered : (s.pages (.page p)).isTethered = true) (used : Used s (active \ {p})) :
    ∃ s' released bins', s.pageSettle p = some (s', released) ∧ (released = true ↔ (s.pages (.page p)).used = 0) ∧
      Moved s s' p ∧ PageInv cfg s' bins' fresh ∅ (if released then active \ {p} else active) ∧
      Used s' (if released then active \ {p} else active) := by
  by_cases last : (s.pages (.page p)).used = 0
  · obtain ⟨s', run, links, fields, inv'⟩ := inv.pageRelease member (by simp) tethered
    have moved : Moved s s' p := by
      obtain ⟨next, prev, equal⟩ := fields (.page p)
      exact ⟨links, next, prev, _, equal⟩
    have used' : Used s' (active \ {p}) := by
      intro q inside
      obtain ⟨_, _, same⟩ := fields (.page q)
      simpa [same] using used q inside
    exact ⟨s', true, _, by simp [Store.pageSettle, last, run], by simp [last], moved, by simpa using inv', by simpa using used'⟩
  · have used' : Used s active := by
      intro q inside
      by_cases same : q = p
      · subst same
        omega
      · exact used q ⟨inside, same⟩
    exact ⟨s, false, bins, by simp [Store.pageSettle, last], by simp [last], ⟨rfl, _, _, _, rfl⟩, by simpa using inv,
      by simpa using used'⟩

theorem PageInv.free (inv : PageInv cfg s bins fresh ∅ active) (used : Used s active) (member : p ∈ active)
    (fits : cfg.binObjectCount (s.pages (.page p)).binIndex < 2 ^ 16) {i : Nat} (outstanding : Outstanding cfg s ⟨p, i⟩) :
    ∃ s' released bins', s.pageFree p ⟨p, i⟩ = some (s', released) ∧
      (released = true ↔ ∀ j, Outstanding cfg s ⟨p, j⟩ → j = i) ∧ Counted cfg s' p ∧
      PageInv cfg s' bins' fresh ∅ (if released then active \ {p} else active) ∧
      Used s' (if released then active \ {p} else active) := by
  obtain ⟨free, old⟩ := inv.serving p member
  have below : i < cfg.binObjectCount (s.pages (.page p)).binIndex := outstanding.1
  have out : Block.mk p i ∉ free := by
    obtain ⟨_, free', chain, out⟩ := outstanding
    rwa [← old.chain.unique chain] at out
  obtain ⟨inv₁, pushed⟩ := inv.push old member fits below out
  have counted : ((s.pagePush p ⟨p, i⟩).pages (.page p)).used = (s.pages (.page p)).used - 1 := by
    have count := old.count
    simp only [Store.pagePush, setPage_pages, Function.update_self]
    exact decrement_eq (old.used_pos below out) (by omega)
  have others : Used (s.pagePush p ⟨p, i⟩) (active \ {p}) := by
    intro q inside
    have different : q ≠ p := inside.2
    simpa [Store.pagePush, different] using used q inside.1
  have only := last_outstanding old below out
  have positive := old.used_pos below out
  by_cases tethered : (s.pages (.page p)).isTethered = true
  · have flag : ((s.pagePush p ⟨p, i⟩).pages (.page p)).isTethered = true := by simpa [Store.pagePush] using tethered
    obtain ⟨s', released, bins', run, call, moved, inv', used'⟩ := inv₁.settle member flag others
    have settled := pushed.moved moved
    refine ⟨s', released, bins', ?_, ?_, ⟨_, settled.chain, settled.count⟩, inv', used'⟩
    · simp only [Store.pageFree, flag, if_true]
      exact run
    · rw [call, counted, ← only]
      omega
  · have flag : ((s.pagePush p ⟨p, i⟩).pages (.page p)).isTethered = false := by simpa [Store.pagePush] using tethered
    obtain ⟨s₂, back, relinked, inv₂⟩ := inv₁.pageReturn member flag
    have field (q : Page) : (s₂.pages (.page q)).used = ((s.pagePush p ⟨p, i⟩).pages (.page q)).used := by
      rw [(relinked.field (.page q)).2.1]
      by_cases same : q = p <;> simp [Store.tether, same]
    have flag₂ : (s₂.pages (.page p)).isTethered = true := by
      rw [(relinked.field (.page p)).2.2.2]
      simp [Store.tether]
    have others₂ : Used s₂ (active \ {p}) := by
      intro q inside
      rw [field]
      exact others q inside
    have back' : Moved (s.pagePush p ⟨p, i⟩) s₂ p := by
      obtain ⟨next, prev, equal⟩ := relinked.fields (.page p)
      refine ⟨relinked.links, next, prev, true, ?_⟩
      simp [equal, Store.tether]
    obtain ⟨s', released, bins', run, call, moved, inv', used'⟩ := inv₂.settle member flag₂ others₂
    have settled := pushed.moved (back'.trans moved)
    refine ⟨s', released, bins', ?_, ?_, ⟨_, settled.chain, settled.count⟩, inv', used'⟩
    · simp only [Store.pageFree, flag, back, Bool.false_eq_true, if_false]
      exact run
    · rw [call, field, counted, ← only]
      omega

end Steps

structure RunInv (s : PageState) : Prop where
  places : ∃ bins, PageInv cfg s.store bins {p | p ∈ s.fresh} ∅ {p | p ∈ s.active}
  used : Used s.store {p | p ∈ s.active}

section Runs

variable {cfg} {s : PageState} (bounds : ∀ bin : Nat, (bin : Int) < cfg.binCount →
  0 < cfg.binObjectCount bin ∧ cfg.binObjectCount bin < 2 ^ 16)

include bounds

theorem RunInv.sound (inv : RunInv cfg s) : PageSound cfg s := by
  obtain ⟨bins, places⟩ := inv.places
  constructor
  case lists =>
    intro p made
    cases made with
    | inl fresh =>
        have old := places.formatted p fresh
        exact ⟨_, old.chain, old.chain.nodup⟩
    | inr active =>
        obtain ⟨free, old⟩ := places.serving p active
        exact ⟨free, old.chain, old.chain.nodup⟩
  case counts =>
    intro p active
    obtain ⟨free, old⟩ := places.serving p active
    exact ⟨free, old.chain, old.count⟩
  case tethered =>
    intro p active
    exact places.linked_iff active
  case unwrapped =>
    intro p active
    obtain ⟨_, old⟩ := places.serving p active
    exact ⟨inv.used p active, (bounds _ old.bin).2⟩
  case frees =>
    rintro b ⟨active, outstanding⟩
    obtain ⟨_, old⟩ := places.serving b.page active
    obtain ⟨store, released, _, run, call, counted, _⟩ := places.free inv.used active (bounds _ old.bin).2 outstanding
    exact ⟨store, released, run, call, counted⟩

omit bounds in
theorem RunInv.make (inv : RunInv cfg s) {p : Page} {bin : Nat} (enabled : PageEnabled cfg s (.make p bin)) :
    ∃ next, pageStep cfg s (.make p bin) = some next ∧ RunInv cfg next := by
  obtain ⟨unused, idle, exist⟩ := enabled
  obtain ⟨bins, places⟩ := inv.places
  refine ⟨⟨s.store.pageFormat cfg p bin, p :: s.fresh, s.active⟩, by simp [pageStep, pageMake_eq exist], ⟨bins, ?_⟩, ?_⟩
  · have inv' := places.format unused idle exist
    have same : {q | q ∈ p :: s.fresh} = insert p {q | q ∈ s.fresh} := by
      ext q
      simp
    rw [same]
    exact inv'
  · intro q active
    have different : q ≠ p := fun same => idle (same ▸ active)
    simpa [Store.pageFormat, different] using inv.used q active

theorem RunInv.transferFresh (inv : RunInv cfg s) {p : Page} (enabled : PageEnabled cfg s (.transferFresh p)) :
    ∃ next, pageStep cfg s (.transferFresh p) = some next ∧ RunInv cfg next := by
  obtain ⟨bins, places⟩ := inv.places
  have old := places.formatted p enabled
  have size := bounds _ old.bin
  refine ⟨_, rfl, ⟨bins, ?_⟩, ?_⟩
  · have inv' := places.transferFresh enabled size.2
    have less : {q | q ∈ s.fresh.filter (· ≠ p)} = {q | q ∈ s.fresh} \ {p} := by
      ext q
      simp
    have more : {q | q ∈ p :: s.active} = insert p {q | q ∈ s.active} := by
      ext q
      simp
    rw [less, more]
    exact inv'
  · intro q active
    by_cases same : q = p
    · subst same
      rw [transferTo_page]
      change 0 < _ % 2 ^ 16
      rw [Nat.mod_eq_of_lt size.2]
      exact size.1
    · rw [transferTo_other (by simpa using same)]
      exact inv.used q ((List.mem_cons.mp active).resolve_left same)

theorem RunInv.transferPopped (inv : RunInv cfg s) {bin : Nat} (enabled : PageEnabled cfg s (.transferPopped bin)) :
    ∃ next, pageStep cfg s (.transferPopped bin) = some next ∧ RunInv cfg next := by
  obtain ⟨exist, some'⟩ := enabled
  obtain ⟨bins, places⟩ := inv.places
  cases shape : bins bin with
  | nil =>
      have strung := places.strung bin exist
      rw [shape] at strung
      have pair : Strung s.store.prevNode s.store.nextNode ([] ++ .head bin :: .tail bin :: []) := strung
      exact absurd pair.neighbours.1 some'
  | cons p rest =>
      have first := (places.linked bin p).mp (by simp [shape])
      obtain ⟨_, old⟩ := places.serving p first.1
      obtain ⟨store, run, relinked, places'⟩ := places.pop exist shape
      have index := (relinked.field (.page p)).2.2.1
      have size := bounds _ old.bin
      rw [← index] at size
      refine ⟨{ s with store := (store.transferTo cfg p).1 }, by simp [pageStep, run], ⟨Function.update bins bin rest, ?_⟩, ?_⟩
      · have inv' := places'.transferPopped (by simp) size.2
        have none : insert p (∅ : Set Page) \ {p} = ∅ := by simp
        rw [none] at inv'
        exact inv'
      · intro q active
        by_cases same : q = p
        · subst same
          rw [transferTo_page]
          change 0 < _ % 2 ^ 16
          rw [Nat.mod_eq_of_lt size.2]
          exact size.1
        · rw [transferTo_other (by simpa using same), (relinked.field (.page q)).2.1]
          exact inv.used q active

theorem RunInv.free (inv : RunInv cfg s) {b : Block} (enabled : PageEnabled cfg s (.free b)) :
    ∃ next, pageStep cfg s (.free b) = some next ∧ RunInv cfg next := by
  obtain ⟨active, outstanding⟩ := enabled
  obtain ⟨bins, places⟩ := inv.places
  obtain ⟨_, old⟩ := places.serving b.page active
  obtain ⟨store, released, bins', run, _, _, places', used⟩ := places.free inv.used active (bounds _ old.bin).2 outstanding
  have rest : {p | p ∈ (if released then s.active.filter (· ≠ b.page) else s.active)} =
      if released then {p | p ∈ s.active} \ {b.page} else {p | p ∈ s.active} := by
    cases released with
    | true =>
        ext p
        simp
    | false => rfl
  refine ⟨_, by simp only [pageStep, run]; rfl, ⟨bins', ?_⟩, ?_⟩
  · rw [rest]
    exact places'
  · rw [rest]
    exact used

end Runs

theorem start_runInv : RunInv cfg .start where
  places := by
    refine ⟨fun _ => [], ?_, ?_, ?_, ?_, ?_, ?_, ?_⟩
    · intro bin _
      exact List.isChain_pair.mpr ⟨rfl, rfl⟩
    · simp
    · simp [PageState.start]
    · simp [PageState.start]
    · simp [PageState.start]
    · simp [PageState.start]
    · simp
  used := by simp [Used, PageState.start]

/-- Once a page was transferred its counter, its free list, its flag and its place
agree, whatever the bins and the order of partial frees and further transfers. -/
theorem page_runs_sound (K : Nat) (fits : FieldsFit (2 ^ K)) (ops : List PageOp) (final : PageState)
    (enabled : Runs.Along (pageStep (config (2 ^ K))) (PageEnabled (config (2 ^ K))) .start ops)
    (run : Runs.exec (pageStep (config (2 ^ K))) .start ops = some final) : PageSound (config (2 ^ K)) final := by
  have bounds : ∀ bin : Nat, (bin : Int) < (config (2 ^ K)).binCount →
      0 < (config (2 ^ K)).binObjectCount bin ∧ (config (2 ^ K)).binObjectCount bin < 2 ^ 16 :=
    fun _ exist => ⟨by have size := fits.binObjectCount exist; omega, (fits.binObjectCount exist).2⟩
  have inv := enabled.invariant (RunInv (config (2 ^ K))) (by
    intro s op next inv allowed taken
    obtain ⟨next', step, inv'⟩ : ∃ next', pageStep (config (2 ^ K)) s op = some next' ∧ RunInv (config (2 ^ K)) next' := by
      cases op with
      | make p bin => exact inv.make allowed
      | transferFresh p => exact inv.transferFresh bounds allowed
      | transferPopped bin => exact inv.transferPopped bounds allowed
      | free b => exact inv.free bounds allowed
    obtain rfl := Option.some.inj (step.symm.trans taken)
    exact inv') (start_runInv _) run
  exact inv.sound bounds

-- A page is filled, partly emptied, fetched again and emptied.
def refill : List PageOp :=
  [.make ⟨0, 0⟩ 6, .transferFresh ⟨0, 0⟩, .free ⟨⟨0, 0⟩, 0⟩, .transferPopped 6, .free ⟨⟨0, 0⟩, 3⟩, .free ⟨⟨0, 0⟩, 1⟩,
    .free ⟨⟨0, 0⟩, 0⟩, .free ⟨⟨0, 0⟩, 2⟩]

theorem refill_enabled : Runs.Along (pageStep (config (2 ^ 12))) (PageEnabled (config (2 ^ 12))) .start refill := by
  refine Runs.Along.cons ?_ rfl (Runs.Along.cons ?_ rfl (Runs.Along.cons ?_ rfl (Runs.Along.cons ?_ rfl
    (Runs.Along.cons ?_ rfl (Runs.Along.cons ?_ rfl (Runs.Along.cons ?_ rfl (Runs.Along.cons ?_ rfl True.intro)))))))
  · exact ⟨by decide +kernel, by decide +kernel, by decide +kernel⟩
  · exact List.mem_singleton.mpr rfl
  · exact ⟨by decide +kernel, by decide +kernel, [], by decide +kernel, by simp⟩
  · exact ⟨by decide +kernel, by decide +kernel⟩
  · exact ⟨by decide +kernel, by decide +kernel, [], by decide +kernel, by simp⟩
  · exact ⟨by decide +kernel, by decide +kernel, [⟨⟨0, 0⟩, 3⟩], by decide +kernel, by simp⟩
  · exact ⟨by decide +kernel, by decide +kernel, [⟨⟨0, 0⟩, 1⟩, ⟨⟨0, 0⟩, 3⟩], by decide +kernel, by simp⟩
  · exact ⟨by decide +kernel, by decide +kernel, [⟨⟨0, 0⟩, 0⟩, ⟨⟨0, 0⟩, 1⟩, ⟨⟨0, 0⟩, 3⟩], by decide +kernel, by simp⟩

theorem page_runs_sound_refill : ∃ final, Runs.exec (pageStep (config (2 ^ 12))) .start refill = some final ∧
    final.active = [] ∧ PageSound (config (2 ^ 12)) final := by
  have fits : FieldsFit (2 ^ 12) := ⟨by decide, by decide, by decide⟩
  exact ⟨_, rfl, by decide +kernel, page_runs_sound 12 fits refill _ refill_enabled rfl⟩

/-- A formatted page is marked as tethered before it is in any list. -/
theorem formatted_not_linked :
    let s := PageCache.start.pageFormat (config (2 ^ 12)) ⟨0, 0⟩ 6
    PageCache.start.pageMake (config (2 ^ 12)) ⟨0, 0⟩ 6 = some s ∧ (s.pages (.page ⟨0, 0⟩)).isTethered = true ∧
      ¬ Linked s ⟨0, 0⟩ := by
  refine ⟨rfl, rfl, ?_⟩
  rintro ⟨list, strung, member⟩
  cases list with
  | nil => simp at member
  | cons q rest =>
      have first := (List.isChain_cons_cons.mp strung).1.1
      cases first

end PrototypeBundle.PageCache
