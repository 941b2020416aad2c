import PrototypeBundle.Buddy.Invariant

set_option autoImplicit false

namespace PrototypeBundle.Buddy

open Memory Dyadic

def Page.FreeAt (p : Page) (l o : Nat) : Prop :=
  ∃ nodes, IsList p.availableNodes.nodes (p.freeLevels l) nodes ∧
    ∃ n ∈ nodes, (p.availableNodes.nodes n).val = some o

/-- The blocks, as offset and level, when the free blocks of level `l` start at `free l`. -/
def PageRun.IsBlock (s : PageRun) (free : Nat → List Nat) (b : Nat × Nat) : Prop :=
  b.1 ∈ free b.2 ∨ s.owns b.1 ∧ b.2 = (s.page.buffer b.1).level

structure Consistent (capacity : Nat) (s : PageRun) (free : Nat → List Nat) : Prop where
  tile : ∀ x < capacity, ∃! b, s.IsBlock free b ∧ b.1 ≤ x ∧ x < b.1 + (32 <<< b.2)
  inside : ∀ b, s.IsBlock free b → b.1 + (32 <<< b.2) ≤ capacity
  aligned : ∀ b, s.IsBlock free b → 32 <<< b.2 ∣ b.1
  lists : ∀ l ≤ s.page.topLevel, ∃ nodes,
    IsList s.page.availableNodes.nodes (s.page.freeLevels l) nodes ∧
      nodes.map (fun n => (s.page.availableNodes.nodes n).val) = (free l).map some ∧
      ∀ n ∈ nodes, ∀ o, (s.page.availableNodes.nodes n).val = some o →
        s.page.buffer o = { userData := some n, free := true, level := l }
  once : ∀ l, (free l).Nodup
  above : ∀ l, s.page.topLevel < l → free l = []
  busy : ∀ h, s.owns h → (s.page.buffer h).free = false
  handedOutOnce : (s.live.map Prod.fst).Nodup
  long : ∀ block ∈ s.live, block.2 + headerSize ≤ 32 <<< (s.page.buffer block.1).level

theorem size_eq (l : Nat) : 32 <<< l = 2 ^ (l + 5) := by
  rw [Nat.shiftLeft_eq, show (32 : Nat) = 2 ^ 5 from rfl, ← Nat.pow_add, Nat.add_comm]

variable {K : Nat} {s : PageRun} {free : Set Block}

theorem FreeLists.offsets {p : Page} {lists : Nat → List Nat} {spare : List Nat} (ok : FreeLists p lists spare)
    {l : Nat} (bound : l ≤ p.topLevel) (nodes : List Nat) (inside : ∀ n ∈ nodes, n ∈ lists l)
    (nodup : nodes.Nodup) :
    ∃ offsets : List Nat, nodes.map (fun n => (p.availableNodes.nodes n).val) = offsets.map some ∧
      offsets.Nodup := by
  induction nodes with
  | nil => exact ⟨[], rfl, List.nodup_nil⟩
  | cons n nodes ih =>
      obtain ⟨fresh, nodup'⟩ := List.nodup_cons.mp nodup
      obtain ⟨offsets, equal, distinct⟩ := ih (fun k member => inside k (List.mem_cons_of_mem _ member)) nodup'
      obtain ⟨o, val, -⟩ := ok.links l bound n (inside n (by simp))
      refine ⟨o :: offsets, by simp [val, equal], List.nodup_cons.mpr ⟨?_, distinct⟩⟩
      intro again
      have listed : some o ∈ nodes.map (fun n => (p.availableNodes.nodes n).val) := by
        rw [equal]
        exact List.mem_map_of_mem again
      obtain ⟨k, member, valK⟩ := List.mem_map.mp listed
      have same := ok.node_unique bound bound (inside n (by simp))
        (inside k (List.mem_cons_of_mem _ member)) val valK
      exact fresh (same.1 ▸ member)

theorem Inv.consistent (inv : Inv K s free) : ∃ offsets, Consistent (2 ^ K) s offsets := by
  classical
  obtain ⟨lists, spare, ok, holds⟩ := inv.listed
  have chosen (l : Nat) : ∃ offsets : List Nat, offsets.Nodup ∧
      (l ≤ s.page.topLevel →
        (lists l).map (fun n => (s.page.availableNodes.nodes n).val) = offsets.map some) ∧
      (s.page.topLevel < l → offsets = []) := by
    by_cases bound : l ≤ s.page.topLevel
    · obtain ⟨offsets, equal, nodup⟩ := ok.offsets bound (lists l) (fun _ member => member) (ok.list l bound).nodup
      exact ⟨offsets, nodup, fun _ => equal, fun above => by omega⟩
    · exact ⟨[], List.nodup_nil, fun below => absurd below bound, fun _ => rfl⟩
  choose offsets nodup listed above using chosen
  have member (l o : Nat) : o ∈ offsets l ↔ (⟨o, l + 5⟩ : Block) ∈ free := by
    rw [holds]
    constructor
    · intro inside
      have bound : l ≤ s.page.topLevel := by
        by_contra large
        rw [above l (by omega)] at inside
        simp at inside
      have mapped : some o ∈ (offsets l).map some := List.mem_map_of_mem inside
      rw [← listed l bound] at mapped
      obtain ⟨n, inList, val⟩ := List.mem_map.mp mapped
      exact ⟨l, bound, rfl, n, inList, val⟩
    · rintro ⟨l', bound, order, n, inList, val⟩
      have same : l' = l := by simp only at order; omega
      subst same
      have mapped : some o ∈ (lists l').map (fun n => (s.page.availableNodes.nodes n).val) :=
        List.mem_map.mpr ⟨n, inList, val⟩
      rw [listed l' bound] at mapped
      obtain ⟨o', inside, equal⟩ := List.mem_map.mp mapped
      exact Option.some.inj equal ▸ inside
  have block (b : Nat × Nat) : s.IsBlock offsets b ↔ (⟨b.1, b.2 + 5⟩ : Block) ∈ free ∪ s.held := by
    constructor
    · rintro (inside | ⟨owned, level⟩)
      · exact Or.inl ((member _ _).mp inside)
      · exact Or.inr ⟨owned, by rw [level]⟩
    · rintro (inside | ⟨owned, order⟩)
      · exact Or.inl ((member _ _).mpr inside)
      · exact Or.inr ⟨owned, by simp only at order; omega⟩
  refine ⟨offsets, ?_, ?_, ?_, ?_, nodup, above, ?_, inv.once, ?_⟩
  · intro x bound
    obtain ⟨b, inside, within⟩ := inv.tiles.cover x bound
    have large : b.order = b.order - 5 + 5 := by
      rcases inside with isFree | isHeld
      · obtain ⟨l, -, shape⟩ := inv.listed.order isFree
        have := congrArg Block.order shape
        simp only at this
        omega
      · have := isHeld.2
        omega
    have shape : b = ⟨b.offset, b.order - 5 + 5⟩ := by rw [← large]
    refine ⟨(b.offset, b.order - 5), ⟨(block _).mpr (shape ▸ inside), within.1, ?_⟩, ?_⟩
    · simp only
      rw [size_eq, ← large]
      exact within.2
    · rintro ⟨o, l⟩ ⟨isBlock, low, high⟩
      simp only at low high
      rw [size_eq] at high
      have same := inv.tiles.disjoint _ ((block _).mp isBlock) b inside x ⟨low, high⟩ within
      subst same
      simp
  · intro b isBlock
    rw [size_eq]
    exact inv.tiles.inside _ ((block b).mp isBlock)
  · intro b isBlock
    rw [size_eq]
    exact inv.tiles.aligned _ ((block b).mp isBlock)
  · intro l bound
    refine ⟨lists l, ok.list l bound, listed l bound, ?_⟩
    intro n inside o val
    obtain ⟨o', val', header⟩ := ok.links l bound n inside
    exact Option.some.inj (val'.symm.trans val) ▸ header
  · intro h owned
    exact (inv.heads ⟨h, (s.page.buffer h).level + 5⟩ ⟨owned, rfl⟩).1
  · intro block live
    rw [size_eq]
    exact (inv.busy block live).2

theorem Inv.freeAt_iff (inv : Inv K s free) {l o : Nat} (bound : l ≤ s.page.topLevel) :
    s.page.FreeAt l o ↔ (⟨o, l + 5⟩ : Block) ∈ free := by
  obtain ⟨lists, spare, ok, holds⟩ := inv.listed
  rw [holds]
  constructor
  · rintro ⟨nodes, list, n, inside, val⟩
    have same : nodes = lists l := list.isChain.unique (ok.list l bound).isChain
    exact ⟨l, bound, rfl, n, same ▸ inside, val⟩
  · rintro ⟨l', _, order, n, inside, val⟩
    have same : l' = l := by simp only at order; omega
    subst same
    exact ⟨lists l', ok.list l' bound, n, inside, val⟩

def pageRun (capacity : Nat) (contents : Nat → Header) (ops : List PageOp) : Option PageRun :=
  (page capacity contents).bind fun page => Runs.exec PageRun.step { page, live := [] } ops

def zeroed : Nat → Header := fun _ => { userData := none, free := false, level := 0 }

theorem pageRun_inv {K : Nat} (large : 6 ≤ K) {contents : Nat → Header} {ops : List PageOp} {final : PageRun}
    (fits : ∀ op ∈ ops, Fits (2 ^ K) op) (run : pageRun (2 ^ K) contents ops = some final) :
    ∃ free, Inv K final free := by
  obtain ⟨p, start, initial⟩ := page_inv large contents
  rw [pageRun, start, Option.bind_some] at run
  have along : Runs.Along PageRun.step (fun _ op => Fits (2 ^ K) op) { page := p, live := [] } ops :=
    Runs.Along.of_forall fits
  refine along.invariant (fun s => ∃ free, Inv K s free) ?_ ⟨_, initial⟩ run
  rintro s op next ⟨free, inv⟩ ok taken
  exact step_inv inv ok taken

/-- Every run of successful calls whose buddies are found leaves blocks, headers,
chains and node pool in agreement. -/
theorem page_run_consistent (K : Nat) (large : 6 ≤ K) (contents : Nat → Header) (ops : List PageOp)
    (final : PageRun) (fits : ∀ op ∈ ops, Fits (2 ^ K) op)
    (run : pageRun (2 ^ K) contents ops = some final) : ∃ free, Consistent (2 ^ K) final free := by
  obtain ⟨free, inv⟩ := pageRun_inv large fits run
  exact inv.consistent

theorem page_run_consistent_four :
    ∃ free, Consistent 128
      ((pageRun 128 zeroed [.allocate 1, .allocate 10, .free 0, .allocate 40]).get (by decide)) free :=
  page_run_consistent 7 (by decide) zeroed [.allocate 1, .allocate 10, .free 0, .allocate 40] _
    (by simp [Fits]) (Option.some_get _).symm

section EightGiB

-- In a page of `2 ^ 33` bytes the first split of the whole block takes the block for its
-- own buddy and puts the lower half, which is being handed out, on a free list.
theorem first_split {s : PageRun} (inv : Inv 33 s {⟨0, 33⟩}) (expected : Nat) :
    ∃ node p₁ p₂ n, s.page.freeLevels 28 = some node ∧
      (s.page.availableNodes.nodes node).val = some 0 ∧
      s.page.registerAsUsed 0 expected = some p₁ ∧ p₁.registerAsFree 0 27 = some p₂ ∧
      Listed p₂ {⟨0, 32⟩} ∧ p₂.topLevel = 28 ∧
      p₂.buffer 0 = { userData := some n, free := true, level := 27 } := by
  have top : s.page.topLevel = 28 := by have := inv.top; omega
  have isFree : (⟨0, 28 + 5⟩ : Block) ∈ ({⟨0, 33⟩} : Set Block) := rfl
  obtain ⟨node, head⟩ : ∃ node, s.page.freeLevels 28 = some node := by
    cases head : s.page.freeLevels 28 with
    | none => exact absurd isFree (inv.listed.empty_level (by omega) head 0)
    | some node => exact ⟨node, rfl⟩
  obtain ⟨h, val, member⟩ := inv.listed.head (by omega) head
  have zero : h = 0 := congrArg Block.offset (show (⟨h, 33⟩ : Block) = ⟨0, 33⟩ from member)
  subst zero
  obtain ⟨p₁, used, listed₁, top₁, -⟩ := registerAsUsed_spec expected inv.listed isFree
  rw [Set.sdiff_eq_empty.mpr (by simp)] at listed₁
  obtain ⟨p₂, n, freed, listed₂, top₂, buffer₂⟩ :=
    registerAsFree_spec 0 27 listed₁ (by omega) (by simp)
  refine ⟨node, p₁, p₂, n, head, val, used, freed, ?_, by omega, by rw [buffer₂]; exact modifyAt_same _ _ _⟩
  simpa using listed₂

theorem findFit_whole {s : PageRun} (inv : Inv 33 s {⟨0, 33⟩}) (expected : Nat) (lower : 26 ≤ expected)
    (below : expected < 28) : s.page.findFit (s.page.topLevel + 1) expected = .ok 28 := by
  obtain ⟨node, -, -, -, head, -⟩ := first_split inv 0
  have top : s.page.topLevel = 28 := by have := inv.top; omega
  have empty (l : Nat) (less : l < 28) : s.page.freeLevels l = none := by
    cases head : s.page.freeLevels l with
    | none => rfl
    | some node =>
        obtain ⟨h, -, member⟩ := inv.listed.head (by omega) head
        have order : l + 5 = 33 := congrArg Block.order (show (⟨h, l + 5⟩ : Block) = ⟨0, 33⟩ from member)
        omega
  have cases : expected = 26 ∨ expected = 27 := by omega
  rcases cases with rfl | rfl <;> simp [Page.findFit, empty, head, top]

/-- 2 GiB out of 8 GiB: the block handed out is on the list of level 27. -/
theorem page_run_inconsistent : ∃ final, pageRun (2 ^ 33) zeroed [.allocate (2 ^ 31)] = some final ∧
    ¬ ∃ free, Consistent (2 ^ 33) final free := by
  obtain ⟨p, start, inv⟩ := page_inv (K := 33) (by omega) zeroed
  obtain ⟨node, p₁, p₂, n, head, val, used, freed, -, -, header⟩ := first_split inv 27
  have level : levelOf (nextPow2 ((2 ^ 31 + headerSize) % 2 ^ 64)) = some 27 := by decide
  have top : p.topLevel = 28 := by have := inv.top; simp only at this; omega
  have found := findFit_whole inv 27 (by omega) (by omega)
  have taken : p.take 28 27 = some (0, p₂) := by
    simp only at head val used freed
    simp [Page.take, head, val, used, Page.split, findBuddy_self, freed]
  have allocated : p.allocate (2 ^ 31) = .ok (0, p₂) := by
    rw [Page.allocate, level]
    simp only at found ⊢
    rw [if_neg (by omega), found]
    simp only [taken]
  refine ⟨{ page := p₂, live := [(0, 2 ^ 31)] }, ?_, ?_⟩
  · rw [pageRun, start, Option.bind_some, Runs.exec_cons]
    refine ⟨_, ?_, rfl⟩
    rw [PageRun.step, if_pos (by decide)]
    simp only [allocated]
  · rintro ⟨free, consistent⟩
    have busy := consistent.busy 0 (by simp [PageRun.owns])
    simp only [header] at busy
    exact absurd busy (by simp)

end EightGiB

def NoFreeBuddies (s : PageRun) : Prop :=
  ∀ l < s.page.topLevel, ∀ o, s.page.FreeAt l o → ¬ s.page.FreeAt l (o ^^^ 32 <<< l)

def WholeFree (capacity : Nat) (s : PageRun) : Prop :=
  s.live = [] ∧ 32 <<< s.page.topLevel = capacity ∧
    (∃ node, IsList s.page.availableNodes.nodes (s.page.freeLevels s.page.topLevel) [node] ∧
      (s.page.availableNodes.nodes node).val = some 0) ∧
    ∀ l < s.page.topLevel, s.page.freeLevels l = none

theorem Inv.noFreeBuddies (inv : Inv K s free) : NoFreeBuddies s := by
  intro l below o isFree buddyFree
  rw [inv.freeAt_iff (Nat.le_of_lt below)] at isFree buddyFree
  have top := inv.top
  have aligned : 2 ^ (l + 5) ∣ o := inv.tiles.aligned _ (Or.inl isFree)
  rw [size_eq, xor_eq_buddy aligned] at buddyFree
  exact inv.alone _ isFree (by simp only; omega) buddyFree

theorem Inv.wholeFree (inv : Inv K s free) (nothing : s.live = []) : WholeFree (2 ^ K) s := by
  have held : s.held = ∅ := by
    ext b
    simp [PageRun.held, PageRun.owns, nothing]
  have tiles := inv.tiles
  rw [held, Set.union_empty] at tiles
  have single := tiles.coalesced inv.alone
  have top := inv.top
  obtain ⟨lists, spare, ok, holds⟩ := inv.listed
  have atTop := ok.list s.page.topLevel (Nat.le_refl _)
  refine ⟨nothing, by rw [size_eq, top], ?_, ?_⟩
  · have inside : (⟨0, s.page.topLevel + 5⟩ : Block) ∈ free := by
      rw [single, top]
      rfl
    obtain ⟨l, -, order, node, member, val⟩ := (holds _).mp inside
    have same : l = s.page.topLevel := by simp only at order; omega
    subst same
    have alone (n : Nat) (other : n ∈ lists s.page.topLevel) : n = node := by
      obtain ⟨o, valN, -⟩ := ok.links _ (Nat.le_refl _) n other
      have isFree : (⟨o, s.page.topLevel + 5⟩ : Block) ∈ free :=
        (holds _).mpr ⟨_, Nat.le_refl _, rfl, n, other, valN⟩
      rw [single] at isFree
      have zero : o = 0 := congrArg Block.offset isFree
      subst zero
      exact (ok.node_unique (Nat.le_refl _) (Nat.le_refl _) other member valN val).1
    refine ⟨node, ?_, val⟩
    have shape : lists s.page.topLevel = [node] := by
      cases list : lists s.page.topLevel with
      | nil => simp [list] at member
      | cons first rest =>
          have nodup := atTop.nodup
          rw [list] at nodup alone
          have head := alone first (by simp)
          subst head
          cases rest with
          | nil => rfl
          | cons second rest =>
              have again := alone second (by simp)
              subst again
              simp at nodup
    exact shape ▸ atTop
  · intro l below
    have list := ok.list l (Nat.le_of_lt below)
    cases head : s.page.freeLevels l with
    | none => rfl
    | some node =>
        obtain ⟨h, -, isFree⟩ := inv.listed.head (Nat.le_of_lt below) head
        rw [single] at isFree
        have order := congrArg Block.order isFree
        simp only at order
        omega

theorem free_all (inv : Inv K s free) (order : List Nat) (all : order.Perm (s.live.map Prod.fst)) :
    ∃ final, Runs.exec PageRun.step s (order.map .free) = some final ∧ WholeFree (2 ^ K) final := by
  induction order generalizing s free with
  | nil =>
      have nothing : s.live = [] := by
        have empty := List.nil_perm.mp all
        simpa using empty
      exact ⟨s, rfl, inv.wholeFree nothing⟩
  | cons h rest ih =>
      have owned : s.owns h := all.mem_iff.mp (by simp)
      obtain ⟨p', free', done, inv', -⟩ := free_inv inv owned
      have remaining : rest.Perm ((s.live.filter (fun block => block.1 ≠ h)).map Prod.fst) := by
        have erased : (s.live.map Prod.fst).erase h =
            (s.live.filter (fun block => block.1 ≠ h)).map Prod.fst := by
          rw [inv.once.erase_eq_filter, List.filter_map]
          refine congrArg (List.map Prod.fst) (List.filter_congr fun block _ => ?_)
          by_cases same : block.1 = h <;> simp [same]
        rw [← erased]
        simpa using all.erase h
      obtain ⟨final, run, whole⟩ := ih inv' remaining
      refine ⟨final, Runs.exec_cons.mpr ⟨_, ?_, run⟩, whole⟩
      simp [PageRun.step, owned, done]

/-- Freeing the live blocks in any order leaves one free block. -/
def FreesToWhole (capacity : Nat) (s : PageRun) : Prop :=
  ∀ order : List Nat, order.Perm (s.live.map Prod.fst) →
    ∃ freed, Runs.exec PageRun.step s (order.map .free) = some freed ∧ WholeFree capacity freed

/-- No reachable state has two free buddies, and freeing all live blocks in any
order restores the single free block. -/
theorem page_run_coalesced (K : Nat) (large : 6 ≤ K) (contents : Nat → Header) (ops : List PageOp)
    (final : PageRun) (fits : ∀ op ∈ ops, Fits (2 ^ K) op)
    (run : pageRun (2 ^ K) contents ops = some final) :
    NoFreeBuddies final ∧ FreesToWhole (2 ^ K) final := by
  obtain ⟨free, inv⟩ := pageRun_inv large fits run
  exact ⟨inv.noFreeBuddies, fun order all => free_all inv order all⟩

theorem page_run_coalesced_three :
    let final := (pageRun 128 zeroed [.allocate 1, .allocate 10, .allocate 3]).get (by decide)
    NoFreeBuddies final ∧ FreesToWhole 128 final :=
  page_run_coalesced 7 (by decide) zeroed [.allocate 1, .allocate 10, .allocate 3] _
    (by simp [Fits]) (Option.some_get _).symm

/-- 1 GiB out of 8 GiB, freed again: its buddy stays on the list of level 26. -/
theorem page_run_uncoalesced : ∃ final,
    pageRun (2 ^ 33) zeroed [.allocate (2 ^ 30), .free 0] = some final ∧ ¬ FreesToWhole (2 ^ 33) final := by
  obtain ⟨p, start, inv⟩ := page_inv (K := 33) (by omega) zeroed
  obtain ⟨node, p₁, p₂, n, head, val, used, freed, listed, top₂, header⟩ := first_split inv 26
  have level : levelOf (nextPow2 ((2 ^ 30 + headerSize) % 2 ^ 64)) = some 26 := by decide
  have top : p.topLevel = 28 := by have := inv.top; simp only at this; omega
  have found := findFit_whole inv 26 (by omega) (by omega)
  obtain ⟨p₃, m, freed₃, listed₃, top₃, buffer₃⟩ :=
    registerAsFree_spec (2 ^ 31) 26 listed (by omega) (by simp)
  have header₃ : p₃.buffer 0 = { userData := some n, free := true, level := 27 } := by
    rw [buffer₃, modifyAt_other _ _ _ (by decide), header]
  have buddy : findBuddy 0 26 = some (2 ^ 31) := by decide
  have taken : p.take 28 26 = some (0, p₃) := by
    simp only at head val used freed
    simp only [Nat.reducePow] at freed₃
    simp [Page.take, head, val, used, Page.split, findBuddy_self, freed, buddy, freed₃]
  have allocated : p.allocate (2 ^ 30) = .ok (0, p₃) := by
    rw [Page.allocate, level]
    simp only at found ⊢
    rw [if_neg (by omega), found]
    simp only [taken]
  -- the free block is its own buddy and is merged with itself
  obtain ⟨p₄, used₄, listed₄, top₄, buffer₄⟩ :=
    registerAsUsed_spec (o := 0) (l := 27) 27 listed₃ (by simp)
  obtain ⟨p₅, k, freed₅, listed₅, top₅, buffer₅⟩ :=
    registerAsFree_spec 0 28 listed₄ (by omega) (by
      rintro b ⟨rfl | rfl, other⟩
      · simp
      · exact absurd rfl other)
  have merged : p₃.coalesce 0 27 1 = some (p₄, 0, 28) := by
    simp [Page.coalesce, findBuddy_self, header₃, used₄]
  have returned : p₃.free 0 = some p₅ := by
    have levels : p₃.topLevel - 27 = 1 := by omega
    simp [Page.free, header₃, levels, merged, freed₅]
  refine ⟨{ page := p₅, live := [] }, ?_, ?_⟩
  · rw [pageRun, start, Option.bind_some, Runs.exec_cons]
    refine ⟨{ page := p₃, live := [(0, 2 ^ 30)] }, ?_, ?_⟩
    · rw [PageRun.step, if_pos (by decide)]
      simp only [allocated]
    · simp [Runs.exec, PageRun.step, PageRun.owns, returned]
  · intro frees
    obtain ⟨last, run, whole⟩ := frees [] (by simp)
    have same : last = { page := p₅, live := [] } := (Option.some.inj run).symm
    subst same
    have empty := whole.2.2.2 26 (by simp only; omega)
    exact listed₅.empty_level (by omega) empty (2 ^ 31) (by simp)

end PrototypeBundle.Buddy
