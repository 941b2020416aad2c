import PrototypeBundle.Buddy.Coalescing

set_option autoImplicit false

namespace PrototypeBundle.Buddy

open Memory Dyadic

def PageRun.held (s : PageRun) : Set Block :=
  {b | s.owns b.offset ∧ b.order = (s.page.buffer b.offset).level + 5}

structure Inv (K : Nat) (s : PageRun) (free : Set Block) : Prop where
  top : s.page.topLevel + 5 = K
  listed : Listed s.page free
  tiles : Tiles K (free ∪ s.held)
  alone : Alone K free
  busy : ∀ block ∈ s.live, (s.page.buffer block.1).free = false ∧
    block.2 + headerSize ≤ 2 ^ ((s.page.buffer block.1).level + 5)
  once : (s.live.map Prod.fst).Nodup
  whole : K ≤ 32 ∨ ∀ b ∈ s.held, b.order = K

/-- Either every buddy is found, or the request takes the whole page and none is looked for. -/
def Fits (capacity : Nat) : PageOp → Prop
  | .allocate len => capacity ≤ 2 ^ 32 ∨ capacity ≤ 2 * (len + headerSize)
  | .free _ => True
  | .write _ _ => True

section Start

theorem page_eq (capacity : Nat) (contents : Nat → Header) (topLevel : Nat)
    (level : levelOf capacity = some topLevel) :
    page capacity contents = Page.registerAsFree
      { bufferSize := capacity, topLevel, availableNodes := nodePool (capacity / 32 / 2),
        buffer := contents, freeLevels := fun _ => none } 0 topLevel := by
  have headers (node : Nat) :
      modifyAt (headerWrite contents 0 true topLevel) 0 (fun header => { header with userData := some node }) =
        modifyAt (modifyAt contents 0 fun header => { header with free := true, level := topLevel }) 0
          (fun header => { header with userData := some node }) := by
    funext place
    by_cases same : place = 0 <;> simp [headerWrite, modifyAt, same]
  cases reserve : (nodePool (capacity / 32 / 2) : NodePool (Option Nat)).reserve with
  | none => simp [page, level, reserve, Page.registerAsFree]
  | some result =>
      simp [page, level, reserve, Page.registerAsFree, Page.prependFree, Page.link, headers]

theorem page_inv {K : Nat} (large : 6 ≤ K) (contents : Nat → Header) :
    ∃ p, page (2 ^ K) contents = some p ∧ Inv K { page := p, live := [] } {⟨0, K⟩} := by
  have positive : 0 < 2 ^ K / 32 / 2 := by
    have bound : 2 ^ 6 ≤ 2 ^ K := Nat.pow_le_pow_right (by omega) large
    omega
  let blank : Page :=
    { bufferSize := 2 ^ K, topLevel := K - 5, availableNodes := nodePool (2 ^ K / 32 / 2),
      buffer := contents, freeLevels := fun _ => none }
  have empty : Listed blank ∅ := by
    refine ⟨fun _ => [], _, ⟨fun _ _ => rfl, nodePool_ok positive, ?_, ?_, ?_⟩, ?_⟩
    · simp
    · simp
    · simp
    · simp [Holds]
  obtain ⟨p, n, done, listed, top, buffer⟩ :=
    registerAsFree_spec 0 (K - 5) empty (Nat.le_refl _) (by simp)
  have order : K - 5 + 5 = K := by omega
  rw [order, insert_empty_eq] at listed
  have none_held : (PageRun.held { page := p, live := [] }) = ∅ := by
    ext b
    simp [PageRun.held, PageRun.owns]
  refine ⟨p, ?_, ?_, listed, ?_, ?_, ?_, ?_, ?_⟩
  · rw [page_eq _ _ (K - 5) (levelOf_two_pow K (by omega))]
    exact done
  · exact (congrArg (· + 5) top).trans order
  · rw [none_held, Set.union_empty]
    exact Tiles.single K
  · rintro b rfl below
    exact absurd below (Nat.lt_irrefl _)
  · simp
  · simp
  · exact Or.inr (by simp [none_held])

end Start

variable {K : Nat} {s : PageRun} {free : Set Block}

theorem Inv.heads (inv : Inv K s free) (b : Block) (member : b ∈ s.held) :
    (s.page.buffer b.offset).free = false ∧ (s.page.buffer b.offset).level + 5 = b.order := by
  obtain ⟨owned, order⟩ := member
  obtain ⟨block, live, offset⟩ := List.mem_map.mp owned
  exact ⟨offset ▸ (inv.busy block live).1, order.symm⟩

theorem Inv.apart (inv : Inv K s free) {b c : Block} (isFree : b ∈ free) (isHeld : c ∈ s.held) :
    b.offset ≠ c.offset := by
  intro equal
  obtain ⟨l, -, shape⟩ := inv.listed.order isFree
  rw [shape] at isFree
  obtain ⟨-, n, header⟩ := inv.listed.header isFree
  have busy := (inv.heads c isHeld).1
  rw [← equal, header] at busy
  simp at busy

theorem Listed.head {p : Page} {free : Set Block} (listed : Listed p free) {level node : Nat}
    (bound : level ≤ p.topLevel) (head : p.freeLevels level = some node) :
    ∃ h, (p.availableNodes.nodes node).val = some h ∧ ⟨h, level + 5⟩ ∈ free := by
  obtain ⟨lists, spare, ok, holds⟩ := listed
  have inside : node ∈ lists level := Intrusive.Chain.head_mem (ok.list level bound).isChain head
  obtain ⟨h, val, -⟩ := ok.links level bound node inside
  exact ⟨h, val, (holds _).mpr ⟨level, bound, rfl, node, inside, val⟩⟩

theorem Listed.empty_level {p : Page} {free : Set Block} (listed : Listed p free) {level : Nat}
    (bound : level ≤ p.topLevel) (head : p.freeLevels level = none) (o : Nat) :
    (⟨o, level + 5⟩ : Block) ∉ free := by
  obtain ⟨lists, spare, ok, holds⟩ := listed
  intro member
  obtain ⟨l, -, order, n, inside, -⟩ := (holds _).mp member
  have same : l = level := by simp only at order; omega
  subst same
  have nothing := (Intrusive.Chain.head_none_iff (ok.list l bound).isChain).mp head
  simp [nothing] at inside

theorem findFit_ok {p : Page} {fuel start level : Nat} (bound : start ≤ p.topLevel)
    (found : p.findFit fuel start = .ok level) :
    start ≤ level ∧ level ≤ p.topLevel ∧ ∃ node, p.freeLevels level = some node := by
  induction fuel generalizing start with
  | zero => simp [Page.findFit] at found
  | succ fuel ih =>
      unfold Page.findFit at found
      cases head : p.freeLevels start with
      | some node =>
          simp only [head, Except.ok.injEq] at found
          exact found ▸ ⟨Nat.le_refl _, bound, node, head⟩
      | none =>
          simp only [head] at found
          split at found
          · simp at found
          · obtain ⟨lower, upper, node⟩ := ih (by omega) found
            exact ⟨by omega, upper, node⟩

theorem take_spec (inv : Inv K s free) {level expected node : Nat}
    (order : expected ≤ level) (bound : level ≤ s.page.topLevel) (low : level ≤ 27 ∨ level = expected)
    (head : s.page.freeLevels level = some node) :
    ∃ h p' free', s.page.take level expected = some (h, p') ∧ Hand K p' free' s.held h (expected + 5) ∧
      p'.buffer h = { userData := none, free := false, level := expected } ∧
      ∀ c ∈ s.held, p'.buffer c.offset = s.page.buffer c.offset := by
  obtain ⟨o, val, member⟩ := inv.listed.head bound head
  obtain ⟨p₁, used, listed, top, buffer⟩ := registerAsUsed_spec expected inv.listed member
  have heads (c : Block) (isHeld : c ∈ s.held) : p₁.buffer c.offset = s.page.buffer c.offset := by
    rw [buffer, headerWrite, modifyAt_other _ _ _ (inv.apart member isHeld).symm]
  have remaining : insert ⟨o, level + 5⟩ (free \ {⟨o, level + 5⟩} ∪ s.held) = free ∪ s.held := by
    rw [← Set.insert_union, Set.insert_sdiff_singleton, Set.insert_eq_of_mem member]
  have hand : Hand K p₁ (free \ {⟨o, level + 5⟩}) s.held o (expected + (level - expected) + 5) := by
    rw [Nat.add_sub_cancel' order]
    refine ⟨by rw [top, inv.top], listed, ?_, remaining ▸ inv.tiles, ?_, inv.alone.subset Set.sdiff_subset⟩
    · intro c isHeld
      rw [heads c isHeld]
      exact inv.heads c isHeld
    · rintro ⟨o', k⟩ (⟨isFree, other⟩ | isHeld) equal
      · simp only at equal
        subst equal
        exact other (by rw [inv.tiles.start_unique (Or.inl isFree) (Or.inl member)]; rfl)
      · exact inv.apart member isHeld equal.symm
  obtain ⟨p₂, free', cut, hand', head', heads'⟩ := hand.split_spec (level - expected) (by omega)
  refine ⟨o, p₂, free', ?_, hand', ?_, fun c isHeld => (heads' c isHeld).trans (heads c isHeld)⟩
  · simp [Page.take, head, val, used, cut]
  · rw [head', buffer]
    exact modifyAt_same _ _ _

theorem Fits.low {len expected found : Nat} (ok : Fits (2 ^ K) (.allocate len))
    (upper : len + headerSize < 2 ^ (expected + 5)) (order : expected ≤ found) (bound : found + 5 ≤ K) :
    found ≤ 27 ∨ found = expected := by
  rcases ok with small | all
  · have : K ≤ 32 := (Nat.pow_le_pow_iff_right (by omega : 1 < 2)).mp small
    omega
  · have less : 2 ^ K < 2 ^ (expected + 6) := by
      have double : (2 : Nat) ^ (expected + 6) = 2 ^ (expected + 5) + 2 ^ (expected + 5) := by
        rw [show expected + 6 = expected + 5 + 1 by omega, pow_succ]
        omega
      omega
    have := (Nat.pow_lt_pow_iff_right (by omega : 1 < 2)).mp less
    omega

theorem allocate_inv (inv : Inv K s free) {len h : Nat} {p' : Page} (fits : len + headerSize < 2 ^ 64)
    (ok : Fits (2 ^ K) (.allocate len)) (done : s.page.allocate len = .ok (h, p')) :
    (∃ free', Inv K { page := p', live := (h, len) :: s.live } free') ∧
      ∀ o, s.owns o → p'.buffer o = s.page.buffer o := by
  unfold Page.allocate at done
  rcases allocate_level len fits with ⟨none, -⟩ | ⟨expected, level, lower, upper⟩
  · rw [none] at done
    simp at done
  rw [level] at done
  simp only at done
  split at done
  · simp at done
  rename_i inTable
  split at done
  · simp at done
  rename_i found search
  obtain ⟨order, bound, node, head⟩ := findFit_ok (by omega) search
  split at done
  · rename_i result taken
    rw [Except.ok.injEq] at done
    subst done
    have top := inv.top
    have low := ok.low upper order (by omega : found + 5 ≤ K)
    obtain ⟨h', p₁, free', taken', hand, header, heads⟩ := take_spec inv order bound low head
    obtain ⟨same, samePage⟩ := Prod.mk.inj (Option.some.inj (taken.symm.trans taken'))
    subst same samePage
    have heldEq : PageRun.held { page := p', live := (h, len) :: s.live } =
        insert ⟨h, expected + 5⟩ s.held := by
      ext b
      have fresh (owned : s.owns b.offset) : b.offset ≠ h := fun equal =>
        hand.fresh ⟨b.offset, (s.page.buffer b.offset).level + 5⟩ (Or.inr ⟨owned, rfl⟩) equal
      constructor
      · rintro ⟨owned, orderB⟩
        rcases List.mem_cons.mp owned with equal | old
        · left
          obtain ⟨o, k⟩ := b
          simp only at equal orderB
          subst equal
          rw [orderB, header]
        · right
          have isHeld : (⟨b.offset, (s.page.buffer b.offset).level + 5⟩ : Block) ∈ s.held := ⟨old, rfl⟩
          have same := heads _ isHeld
          simp only at same orderB
          exact ⟨old, by rw [orderB, same]⟩
      · rintro (rfl | isHeld)
        · exact ⟨by simp [PageRun.owns], by rw [header]⟩
        · exact ⟨List.mem_cons_of_mem _ isHeld.1, by simp only; rw [heads b isHeld, isHeld.2]⟩
    refine ⟨⟨free', hand.top, hand.listed, ?_, hand.alone, ?_, ?_, ?_⟩,
      fun o owned => heads ⟨o, (s.page.buffer o).level + 5⟩ ⟨owned, rfl⟩⟩
    · rw [heldEq, Set.union_insert]
      exact hand.tiles
    · rintro ⟨o, len'⟩ member
      rcases List.mem_cons.mp member with equal | old
      · simp only [Prod.mk.injEq] at equal
        obtain ⟨rfl, rfl⟩ := equal
        simp only [header]
        exact ⟨trivial, Nat.le_of_lt upper⟩
      · have isHeld : (⟨o, (s.page.buffer o).level + 5⟩ : Block) ∈ s.held :=
          ⟨List.mem_map_of_mem old, rfl⟩
        simp only
        rw [heads _ isHeld]
        exact inv.busy _ old
    · refine List.nodup_cons.mpr ⟨?_, inv.once⟩
      intro old
      exact hand.fresh ⟨h, (s.page.buffer h).level + 5⟩ (Or.inr ⟨old, rfl⟩) rfl
    · by_cases small : K ≤ 32
      · exact Or.inl small
      right
      have all : expected + 5 = K := by
        have capacity : 2 ^ K ≤ 2 * (len + headerSize) := by
          rcases ok with le | le
          · exact absurd ((Nat.pow_le_pow_iff_right (by omega : 1 < 2)).mp le) small
          · exact le
        have double : (2 : Nat) ^ (expected + 6) = 2 ^ (expected + 5) + 2 ^ (expected + 5) := by
          rw [show expected + 6 = expected + 5 + 1 by omega, pow_succ]
          omega
        have := (Nat.pow_lt_pow_iff_right (by omega : 1 < 2)).mp
          (show (2 : Nat) ^ K < 2 ^ (expected + 6) by omega)
        omega
      rw [heldEq]
      rintro b (rfl | isHeld)
      · exact all
      · exact (inv.whole.resolve_left small) b isHeld
  · simp at done

theorem free_inv (inv : Inv K s free) {h : Nat} (owned : s.owns h) :
    ∃ p' free', s.page.free h = some p' ∧
      Inv K { page := p', live := s.live.filter (fun block => block.1 ≠ h) } free' ∧
      ∀ o, s.owns o → o ≠ h → p'.buffer o = s.page.buffer o := by
  let l := (s.page.buffer h).level
  have isHeld : (⟨h, l + 5⟩ : Block) ∈ s.held := ⟨owned, rfl⟩
  let others : Set Block := s.held \ {⟨h, l + 5⟩}
  have bound := inv.tiles.order_le (Or.inr isHeld)
  have top := inv.top
  simp only at bound
  have otherOffset (b : Block) (member : b ∈ others) : b.offset ≠ h := by
    obtain ⟨o, k⟩ := b
    rintro rfl
    exact member.2 (by rw [inv.tiles.start_unique (Or.inr member.1) (Or.inr isHeld)]; rfl)
  have hand : Hand K s.page free others h (l + 5) := by
    refine ⟨inv.top, inv.listed, fun b member => inv.heads b member.1, ?_, ?_, inv.alone⟩
    · rw [← Set.union_insert, Set.insert_sdiff_singleton, Set.insert_eq_of_mem isHeld]
      exact inv.tiles
    · rintro b (isFree | other)
      · exact inv.apart isFree isHeld
      · exact otherOffset b other
  have low : s.page.topLevel ≤ 27 ∨ s.page.topLevel - l = 0 := by
    rcases inv.whole with small | whole
    · exact Or.inl (by omega)
    · right
      have := whole _ isHeld
      simp only at this
      omega
  obtain ⟨p₁, h', level', free₁, merged, hand₁, other, heads₁⟩ :=
    hand.coalesce_spec (s.page.topLevel - l) (by omega) low
  obtain ⟨p', n, done, listed, topLevel, alone, buffer⟩ := hand₁.insert_free rfl other
  have heads (b : Block) (member : b ∈ others) : p'.buffer b.offset = s.page.buffer b.offset := by
    rw [buffer, modifyAt_other _ _ _ (hand₁.fresh b (Or.inr member)), heads₁ b member]
  have stillOwned (o : Nat) : PageRun.owns { page := p', live := s.live.filter (fun block => block.1 ≠ h) } o ↔
      s.owns o ∧ o ≠ h := by
    simp only [PageRun.owns, List.mem_map, List.mem_filter, decide_eq_true_eq]
    constructor
    · rintro ⟨block, ⟨live, different⟩, rfl⟩
      exact ⟨⟨block, live, rfl⟩, different⟩
    · rintro ⟨⟨block, live, rfl⟩, different⟩
      exact ⟨block, ⟨live, different⟩, rfl⟩
  have heldEq : PageRun.held { page := p', live := s.live.filter (fun block => block.1 ≠ h) } = others := by
    ext b
    constructor
    · rintro ⟨owns, order⟩
      obtain ⟨old, different⟩ := (stillOwned _).mp owns
      have member : (⟨b.offset, (s.page.buffer b.offset).level + 5⟩ : Block) ∈ others :=
        ⟨⟨old, rfl⟩, fun equal => different (congrArg Block.offset equal)⟩
      have same := heads _ member
      simp only at same order
      obtain ⟨o, k⟩ := b
      simp only at order same member ⊢
      rw [order, same]
      exact member
    · intro member
      refine ⟨(stillOwned _).mpr ⟨member.1.1, otherOffset b member⟩, ?_⟩
      simp only
      rw [heads b member, member.1.2]
  refine ⟨p', insert ⟨h', level' + 5⟩ free₁, ?_, ⟨?_, listed, ?_, alone, ?_, ?_, ?_⟩,
    fun o owns different => heads ⟨o, (s.page.buffer o).level + 5⟩
      ⟨⟨owns, rfl⟩, fun equal => different (congrArg Block.offset equal)⟩⟩
  · simp only [Page.free, Option.bind_eq_bind]
    rw [merged]
    exact done
  · simp only
    rw [topLevel, hand₁.top]
  · rw [heldEq, Set.insert_union]
    exact hand₁.tiles
  · rintro ⟨o, len⟩ member
    obtain ⟨live, different⟩ := List.mem_filter.mp member
    simp only [decide_eq_true_eq] at different
    have old : (⟨o, (s.page.buffer o).level + 5⟩ : Block) ∈ others :=
      ⟨⟨List.mem_map_of_mem live, rfl⟩, fun equal => different (congrArg Block.offset equal)⟩
    simp only
    rw [heads _ old]
    exact inv.busy _ live
  · exact inv.once.sublist (List.Sublist.map _ List.filter_sublist)
  · rw [heldEq]
    exact inv.whole.imp id fun whole b member => whole b member.1

-- The invariant speaks of the headers of blocks, and not of what a held one has for its owner.
theorem Inv.withBuffer (inv : Inv K s free) {buffer : Nat → Header}
    (freeSame : ∀ b ∈ free, buffer b.offset = s.page.buffer b.offset)
    (heldSame : ∀ o, s.owns o → (buffer o).free = (s.page.buffer o).free ∧ (buffer o).level = (s.page.buffer o).level) :
    Inv K { s with page := { s.page with buffer } } free := by
  have heldEq : PageRun.held { s with page := { s.page with buffer } } = s.held := by
    ext b
    constructor
    · rintro ⟨owns, order⟩
      simp only at order
      exact ⟨owns, by rw [order, (heldSame _ owns).2]⟩
    · rintro ⟨owns, order⟩
      exact ⟨owns, by simp only; rw [(heldSame _ owns).2, order]⟩
  refine ⟨inv.top, ?_, by rw [heldEq]; exact inv.tiles, inv.alone, ?_, inv.once, by rw [heldEq]; exact inv.whole⟩
  · obtain ⟨lists, spare, ok, holds⟩ := inv.listed
    refine ⟨lists, spare, ⟨ok.list, ok.pool, ok.apart, ok.used, ?_⟩, holds⟩
    intro l bound n inside
    obtain ⟨o, val, header⟩ := ok.links l bound n inside
    have member : (⟨o, l + 5⟩ : Block) ∈ free := (holds _).mpr ⟨l, bound, rfl, n, inside, val⟩
    exact ⟨o, val, (freeSame _ member).trans header⟩
  · intro block live
    obtain ⟨free, level⟩ := heldSame block.1 (List.mem_map_of_mem live)
    simp only
    rw [free, level]
    exact inv.busy block live

theorem write_inv (inv : Inv K s free) {h : Nat} (owned : s.owns h) (contents : Nat → Header) :
    Inv K { s with page := s.page.clientWrite h contents } free ∧
      ∀ o, s.owns o → (s.page.clientWrite h contents).buffer o = s.page.buffer o := by
  have isHeld : (⟨h, (s.page.buffer h).level + 5⟩ : Block) ∈ s.held := ⟨owned, rfl⟩
  have power : 32 * 2 ^ (s.page.buffer h).level = 2 ^ ((s.page.buffer h).level + 5) := by
    rw [pow_add, Nat.mul_comm]
    rfl
  have kept (b : Block) (member : b ∈ free ∪ s.held) :
      (s.page.clientWrite h contents).buffer b.offset = s.page.buffer b.offset := by
    simp only [Page.clientWrite]
    rw [if_neg]
    rintro ⟨after, before⟩
    rw [power] at before
    have same := inv.tiles.disjoint b member _ (Or.inr isHeld) b.offset b.contains_offset
      ⟨Nat.le_of_lt after, before⟩
    have offsets := congrArg Block.offset same
    simp only at offsets
    omega
  have keptLive (o : Nat) (owns : s.owns o) :
      (s.page.clientWrite h contents).buffer o = s.page.buffer o :=
    kept ⟨o, (s.page.buffer o).level + 5⟩ (Or.inr ⟨owns, rfl⟩)
  refine ⟨inv.withBuffer (fun b isFree => kept b (Or.inl isFree)) fun o owns => ?_, keptLive⟩
  have same := keptLive o owns
  simp only [Page.clientWrite] at same
  rw [same]
  exact ⟨rfl, rfl⟩

theorem setUserData_inv (inv : Inv K s free) {h : Nat} (owned : s.owns h) (userData : Option Nat) :
    Inv K { s with page := s.page.setUserData h userData } free := by
  have isHeld : (⟨h, (s.page.buffer h).level + 5⟩ : Block) ∈ s.held := ⟨owned, rfl⟩
  refine inv.withBuffer (fun b isFree => modifyAt_other _ _ _ (inv.apart isFree isHeld)) fun o _ => ?_
  by_cases same : o = h <;> simp [modifyAt, same]

theorem step_inv (inv : Inv K s free) {op : PageOp} {s' : PageRun} (ok : Fits (2 ^ K) op)
    (taken : s.step op = some s') : ∃ free', Inv K s' free' := by
  cases op with
  | allocate len =>
      simp only [PageRun.step] at taken
      split at taken
      · rename_i fits
        split at taken
        · rename_i h p' done
          rw [Option.some.injEq] at taken
          exact taken ▸ (allocate_inv inv fits ok done).1
        · simp at taken
      · simp at taken
  | free h =>
      simp only [PageRun.step] at taken
      split at taken
      · rename_i owned
        obtain ⟨p', free', done, inv', -⟩ := free_inv inv owned
        rw [done, Option.map_some, Option.some.injEq] at taken
        exact taken ▸ ⟨free', inv'⟩
      · simp at taken
  | write h contents =>
      simp only [PageRun.step] at taken
      split at taken
      · rename_i owned
        rw [Option.some.injEq] at taken
        exact taken ▸ ⟨free, (write_inv inv owned contents).1⟩
      · simp at taken

end PrototypeBundle.Buddy
