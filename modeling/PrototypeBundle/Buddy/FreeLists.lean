import PrototypeBundle.Buddy.Page
import PrototypeBundle.Shared.Dyadic

set_option autoImplicit false

namespace PrototypeBundle.Buddy

open Memory Dyadic

structure FreeLists (p : Page) (lists : Nat → List Nat) (spare : List Nat) : Prop where
  list : ∀ l ≤ p.topLevel, IsList p.availableNodes.nodes (p.freeLevels l) (lists l)
  pool : p.availableNodes.Ok spare
  apart : ∀ l ≤ p.topLevel, ∀ m ≤ p.topLevel, ∀ n ∈ lists l, n ∈ lists m → l = m
  used : ∀ l ≤ p.topLevel, ∀ n ∈ lists l, n < p.availableNodes.size ∧ n ∉ spare
  links : ∀ l ≤ p.topLevel, ∀ n ∈ lists l, ∃ o, (p.availableNodes.nodes n).val = some o ∧
    p.buffer o = { userData := some n, free := true, level := l }

/-- The free lists hold exactly the blocks `free`; level `l` is order `l + 5`. -/
def Holds (p : Page) (lists : Nat → List Nat) (free : Set Block) : Prop :=
  ∀ b, b ∈ free ↔ ∃ l ≤ p.topLevel, b.order = l + 5 ∧
    ∃ n ∈ lists l, (p.availableNodes.nodes n).val = some b.offset

def Listed (p : Page) (free : Set Block) : Prop :=
  ∃ lists spare, FreeLists p lists spare ∧ Holds p lists free

theorem FreeLists.node_unique {p : Page} {lists : Nat → List Nat} {spare : List Nat}
    (ok : FreeLists p lists spare) {l m n k o : Nat} (levelL : l ≤ p.topLevel) (levelM : m ≤ p.topLevel)
    (inL : n ∈ lists l) (inM : k ∈ lists m) (valN : (p.availableNodes.nodes n).val = some o)
    (valK : (p.availableNodes.nodes k).val = some o) : n = k ∧ l = m := by
  obtain ⟨o₁, at₁, header₁⟩ := ok.links l levelL n inL
  obtain ⟨o₂, at₂, header₂⟩ := ok.links m levelM k inM
  have same₁ : o₁ = o := Option.some.inj (at₁.symm.trans valN)
  have same₂ : o₂ = o := Option.some.inj (at₂.symm.trans valK)
  subst same₁ same₂
  rw [header₁] at header₂
  simp only [Header.mk.injEq, Option.some.injEq, true_and] at header₂
  exact header₂

theorem FreeLists.block {p : Page} {lists : Nat → List Nat} {spare : List Nat} {free : Set Block}
    (ok : FreeLists p lists spare) (holds : Holds p lists free) {o l : Nat} (member : ⟨o, l + 5⟩ ∈ free) :
    l ≤ p.topLevel ∧ ∃ n ∈ lists l, (p.availableNodes.nodes n).val = some o ∧
      p.buffer o = { userData := some n, free := true, level := l } := by
  obtain ⟨m, bound, order, n, inside, val⟩ := (holds _).mp member
  have equal : m = l := by simp only at order; omega
  subst equal
  obtain ⟨o', val', header⟩ := ok.links m bound n inside
  have same : o' = o := Option.some.inj (val'.symm.trans val)
  exact ⟨bound, n, inside, val, same ▸ header⟩

theorem Listed.header {p : Page} {free : Set Block} (listed : Listed p free) {o l : Nat}
    (member : ⟨o, l + 5⟩ ∈ free) :
    l ≤ p.topLevel ∧ ∃ n, p.buffer o = { userData := some n, free := true, level := l } := by
  obtain ⟨lists, spare, ok, holds⟩ := listed
  obtain ⟨bound, n, -, -, header⟩ := ok.block holds member
  exact ⟨bound, n, header⟩

theorem Listed.order {p : Page} {free : Set Block} (listed : Listed p free) {b : Block}
    (member : b ∈ free) : ∃ l ≤ p.topLevel, b = ⟨b.offset, l + 5⟩ := by
  obtain ⟨lists, spare, ok, holds⟩ := listed
  obtain ⟨l, bound, order, -⟩ := (holds b).mp member
  exact ⟨l, bound, by cases b; simp_all⟩

theorem registerAsUsed_spec {p : Page} {free : Set Block} {o l : Nat} (level : Nat) (listed : Listed p free)
    (member : ⟨o, l + 5⟩ ∈ free) :
    ∃ p', p.registerAsUsed o level = some p' ∧ Listed p' (free \ {⟨o, l + 5⟩}) ∧
      p'.topLevel = p.topLevel ∧ p'.buffer = headerWrite p.buffer o false level := by
  obtain ⟨lists, spare, ok, holds⟩ := listed
  obtain ⟨bound, n, inside, val, header⟩ := ok.block holds member
  let removed := Memory.remove p.availableNodes.nodes (p.freeLevels l) n
  let pool : NodePool (Option Nat) := { p.availableNodes with nodes := removed.1 }
  let p' : Page :=
    { p with
      availableNodes := pool.release n
      freeLevels := Function.update p.freeLevels l removed.2
      buffer := headerWrite p.buffer o false level }
  let lists' := Function.update lists l ((lists l).erase n)
  have listM := ok.list l bound
  have notSpare := (ok.used l bound n inside).2
  have sparePool : pool.Ok spare :=
    ⟨ok.pool.chain.congr fun k free => by
        have outside : k ∉ lists l := fun inM => (ok.used l bound k inM).2 free
        exact congrArg ChainNode.next (remove_frame listM inside outside),
      ok.pool.bound, ok.pool.capacity⟩
  have rest (l' k : Nat) (inL : k ∈ lists' l') : k ∈ lists l' ∧ k ≠ n ∨ l' > p.topLevel := by
    by_cases levels : l' ≤ p.topLevel
    · left
      by_cases same : l' = l
      · subst same
        simp only [lists', Function.update_self] at inL
        exact ⟨List.mem_of_mem_erase inL, fun equal =>
          (List.Nodup.not_mem_erase listM.nodup) (equal ▸ inL)⟩
      · simp only [lists', Function.update_of_ne same] at inL
        refine ⟨inL, fun equal => same ?_⟩
        exact ok.apart l' levels l bound k inL (equal ▸ inside)
    · right
      omega
  have vals (k : Nat) : (p'.availableNodes.nodes k).val = (p.availableNodes.nodes k).val := by
    simp [p', pool, removed, NodePool.release]
  have released (k : Nat) (different : k ≠ n) (outside : k ∉ spare) :
      p'.availableNodes.nodes k = removed.1 k := NodePool.release_frame sparePool different outside
  refine ⟨p', ?_, ⟨lists', n :: spare, ?_, ?_⟩, rfl, rfl⟩
  · unfold Page.registerAsUsed
    simp only [header, Option.bind_eq_bind, Option.bind_some]
    rw [if_neg (by omega)]
  · constructor
    case list =>
      intro l' levels
      by_cases same : l' = l
      · subst same
        have erased : IsList removed.1 removed.2 ((lists l').erase n) := listM.remove inside
        simp only [p', lists', Function.update_self]
        refine erased.congr fun k inL => ?_
        have inOld := List.mem_of_mem_erase inL
        have different : k ≠ n := fun equal => (List.Nodup.not_mem_erase listM.nodup) (equal ▸ inL)
        have frame := released k different (ok.used l' levels k inOld).2
        exact ⟨congrArg ChainNode.prev frame, congrArg ChainNode.next frame⟩
      · simp only [p', lists', Function.update_of_ne same]
        refine (ok.list l' levels).congr fun k inL => ?_
        have outside : k ∉ lists l := fun inM => same (ok.apart l' levels l bound k inL inM)
        have different : k ≠ n := fun equal => outside (equal ▸ inside)
        have frame := (released k different (ok.used l' levels k inL).2).trans
          (remove_frame listM inside outside)
        exact ⟨congrArg ChainNode.prev frame, congrArg ChainNode.next frame⟩
    case pool =>
      exact NodePool.release_ok sparePool (ok.used l bound n inside).1 notSpare
    case apart =>
      intro l' levels m' levels' k inL inM
      have first := (rest l' k inL).resolve_right (by simp only [p'] at levels; omega)
      have second := (rest m' k inM).resolve_right (by simp only [p'] at levels'; omega)
      exact ok.apart l' levels m' levels' k first.1 second.1
    case used =>
      intro l' levels k inL
      have old := (rest l' k inL).resolve_right (by simp only [p'] at levels; omega)
      have was := ok.used l' levels k old.1
      exact ⟨was.1, by simp [old.2, was.2]⟩
    case links =>
      intro l' levels k inL
      have old := (rest l' k inL).resolve_right (by simp only [p'] at levels; omega)
      obtain ⟨place, valK, headerK⟩ := ok.links l' levels k old.1
      refine ⟨place, by rw [vals, valK], ?_⟩
      have different : place ≠ o := by
        rintro rfl
        rw [header] at headerK
        simp only [Header.mk.injEq, Option.some.injEq] at headerK
        exact old.2 headerK.1.symm
      simp only [p', headerWrite]
      rw [modifyAt_other _ _ _ different, headerK]
  · intro b
    constructor
    · rintro ⟨old, other⟩
      obtain ⟨l', levels, orderB, k, inL, valB⟩ := (holds b).mp old
      refine ⟨l', levels, orderB, k, ?_, by rw [vals, valB]⟩
      by_cases same : l' = l
      · subst same
        simp only [lists', Function.update_self]
        refine (List.mem_erase_of_ne ?_).mpr inL
        rintro rfl
        refine other ?_
        have offsets : b.offset = o := Option.some.inj (valB.symm.trans val)
        cases b
        simp_all
      · simpa only [lists', Function.update_of_ne same] using inL
    · rintro ⟨l', levels, orderB, k, inL, valB⟩
      have old := (rest l' k inL).resolve_right (by simp only [p'] at levels; omega)
      rw [vals] at valB
      refine ⟨(holds b).mpr ⟨l', levels, orderB, k, old.1, valB⟩, ?_⟩
      rintro rfl
      exact old.2 (ok.node_unique levels bound old.1 inside valB val).1

theorem registerAsFree_spec {p : Page} {free : Set Block} (o level : Nat) (listed : Listed p free)
    (bound : level ≤ p.topLevel) (fresh : ∀ b ∈ free, b.offset ≠ o) :
    ∃ p' n, p.registerAsFree o level = some p' ∧ Listed p' (insert ⟨o, level + 5⟩ free) ∧
      p'.topLevel = p.topLevel ∧
      p'.buffer = modifyAt p.buffer o fun _ => { userData := some n, free := true, level } := by
  obtain ⟨lists, spare, ok, holds⟩ := listed
  obtain ⟨n, pool, spare', reserve, got⟩ := NodePool.reserve_spec ok.pool
  let prepended := Memory.prepend pool.nodes (p.freeLevels level) n
  let p' : Page :=
    { p with
      availableNodes := { pool with nodes := setVal prepended.1 n (some o) }
      freeLevels := Function.update p.freeLevels level prepended.2
      buffer := modifyAt p.buffer o fun _ => { userData := some n, free := true, level } }
  let lists' := Function.update lists level (n :: lists level)
  -- nodes already in use keep their links through `reserve`
  have kept (l : Nat) (levels : l ≤ p.topLevel) (k : Nat) (inL : k ∈ lists l) :
      pool.nodes k = p.availableNodes.nodes k ∧ k ≠ n ∧ k ∉ spare' ∧ k < pool.size := by
    have was := ok.used l levels k inL
    refine ⟨got.frame k was.1 was.2, ?_, ?_, Nat.lt_of_lt_of_le was.1 got.size_le⟩
    · rintro rfl
      rcases got.node_new with old | new
      · exact was.2 old
      · omega
    · intro now
      rcases got.free_new k now with old | new
      · exact was.2 old
      · omega
  have listLevel : IsList pool.nodes (p.freeLevels level) (lists level) :=
    (ok.list level bound).congr fun k inL => by rw [(kept level bound k inL).1]; exact ⟨rfl, rfl⟩
  have notListed : n ∉ lists level := fun inL => (kept level bound n inL).2.1 rfl
  have elsewhere (k : Nat) (different : k ≠ n) (outside : k ∉ lists level) :
      p'.availableNodes.nodes k = pool.nodes k := by
    simp only [p']
    rw [setVal_other _ _ _ _ different]
    exact prepend_frame listLevel.isChain different outside
  have vals (k : Nat) (different : k ≠ n) :
      (p'.availableNodes.nodes k).val = (pool.nodes k).val := by
    simp [p', prepended, different]
  have valN : (p'.availableNodes.nodes n).val = some o := by simp [p']
  have cases (l : Nat) (k : Nat) (inL : k ∈ lists' l) : k = n ∧ l = level ∨ k ∈ lists l := by
    by_cases same : l = level
    · subst same
      simp only [lists', Function.update_self, List.mem_cons] at inL
      rcases inL with equal | old
      · exact Or.inl ⟨equal, rfl⟩
      · exact Or.inr old
    · simp only [lists', Function.update_of_ne same] at inL
      exact Or.inr inL
  have old (l k : Nat) (inL : k ∈ lists l) : k ∈ lists' l := by
    by_cases same : l = level
    · subst same
      simp [lists', inL]
    · simpa only [lists', Function.update_of_ne same] using inL
  have first : n ∈ lists' level := by simp [lists']
  refine ⟨p', n, ?_, ⟨lists', spare', ?_, ?_⟩, rfl, rfl⟩
  · unfold Page.registerAsFree
    simp only [reserve, Option.bind_eq_bind, Option.bind_some]
    rw [if_neg (by omega)]
    have headers : modifyAt (modifyAt p.buffer o fun header => { header with free := true, level }) o
        (fun header => { header with userData := some n }) =
        modifyAt p.buffer o fun _ => { userData := some n, free := true, level } := by
      funext place
      by_cases same : place = o <;> simp [modifyAt, same]
    simp [p', prepended, Page.prependFree, Page.link, headers]
  · constructor
    case list =>
      intro l levels
      by_cases same : l = level
      · subst same
        simp only [p', lists', Function.update_self]
        refine IsList.congr (listLevel.prepend notListed) fun k _ => ?_
        simp [prepended]
      · simp only [p', lists', Function.update_of_ne same]
        refine (ok.list l levels).congr fun k inL => ?_
        have outside : k ∉ lists level := fun inM => same (ok.apart l levels level bound k inL inM)
        have unchanged := (elsewhere k (kept l levels k inL).2.1 outside).trans (kept l levels k inL).1
        exact ⟨congrArg ChainNode.prev unchanged, congrArg ChainNode.next unchanged⟩
    case pool =>
      refine ⟨got.ok.chain.congr fun k inside => ?_, got.ok.bound, got.ok.capacity⟩
      have different : k ≠ n := fun equal => got.not_free (equal ▸ inside)
      have outside : k ∉ lists level := fun inL => (kept level bound k inL).2.2.1 inside
      exact congrArg ChainNode.next (elsewhere k different outside)
    case apart =>
      intro l levels m levels' k inL inM
      rcases cases l k inL with ⟨equal, levelL⟩ | oldL
      · rcases cases m k inM with ⟨_, levelM⟩ | oldM
        · rw [levelL, levelM]
        · exact absurd equal (kept m levels' k oldM).2.1
      · rcases cases m k inM with ⟨equal, _⟩ | oldM
        · exact absurd equal (kept l levels k oldL).2.1
        · exact ok.apart l levels m levels' k oldL oldM
    case used =>
      intro l levels k inL
      rcases cases l k inL with ⟨equal, -⟩ | oldL
      · exact equal ▸ ⟨got.node_lt, got.not_free⟩
      · exact ⟨(kept l levels k oldL).2.2.2, (kept l levels k oldL).2.2.1⟩
    case links =>
      intro l levels k inL
      rcases cases l k inL with ⟨equal, levelL⟩ | oldL
      · subst equal levelL
        exact ⟨o, valN, by simp [p', modifyAt]⟩
      · obtain ⟨place, valK, headerK⟩ := ok.links l levels k oldL
        have keptK := kept l levels k oldL
        refine ⟨place, by rw [vals k keptK.2.1, keptK.1, valK], ?_⟩
        have member : (⟨place, l + 5⟩ : Block) ∈ free := (holds _).mpr ⟨l, levels, rfl, k, oldL, valK⟩
        simp only [p']
        rw [modifyAt_other _ _ _ (fresh _ member), headerK]
  · intro b
    constructor
    · rintro (rfl | member)
      · exact ⟨level, bound, rfl, n, first, valN⟩
      · obtain ⟨l, levels, order, k, inL, val⟩ := (holds b).mp member
        have keptK := kept l levels k inL
        exact ⟨l, levels, order, k, old l k inL, by rw [vals k keptK.2.1, keptK.1, val]⟩
    · rintro ⟨l, levels, order, k, inL, val⟩
      rcases cases l k inL with ⟨equal, levelL⟩ | oldL
      · left
        subst equal levelL
        have offsets : b.offset = o := Option.some.inj (val.symm.trans valN)
        cases b
        simp_all
      · right
        have keptK := kept l levels k oldL
        rw [vals k keptK.2.1, keptK.1] at val
        exact (holds b).mpr ⟨l, levels, order, k, oldL, val⟩

end PrototypeBundle.Buddy
