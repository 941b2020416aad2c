import PrototypeBundle.HeapPages.Layout
import Mathlib.Algebra.Ring.Nat
import Mathlib.Data.List.Forall2
import Mathlib.Data.List.Perm.Basic

set_option autoImplicit false

-- The surviving blocks go to the pages in order; a page is closed when the work page
-- has no capacity for the next block.

namespace PrototypeBundle.HeapPages

variable {β : Type}

def total (blocks : List (Block β)) : Nat := (blocks.map Block.size).sum

/-- The pages that packing `blocks` fills, the first of which holds `current` already. -/
def pack (capacity : Nat) (marked : Nat → Bool) : List (Block β) → List (Block β) → List (List (Block β))
  | current, [] => [current]
  | current, b :: rest =>
      if capacity > total current + b.length then
        pack capacity marked (if marked b.node then current ++ [b] else current) rest
      else current :: pack capacity marked (if marked b.node then [b] else []) rest

theorem total_concat (blocks : List (Block β)) (b : Block β) : total (blocks ++ [b]) = total blocks + b.size := by
  simp [total]

theorem Laid.total {store : Store β} {buffer start last : Nat} {blocks : List (Block β)}
    (laid : Laid store buffer start blocks last) : last = start + total blocks := by
  induction blocks generalizing start with
  | nil => exact laid.symm.trans (Nat.add_zero _).symm
  | cons b rest ih =>
      have later := ih laid.2
      simp only [HeapPages.total, List.map_cons, List.sum_cons] at later ⊢
      omega

theorem pack_flatten (capacity : Nat) (marked : Nat → Bool) (current blocks : List (Block β)) :
    (pack capacity marked current blocks).flatten = current ++ blocks.filter fun b => marked b.node := by
  induction blocks generalizing current with
  | nil => simp [pack]
  | cons b rest ih =>
      rw [pack]
      split
      all_goals
        by_cases survives : marked b.node = true
        · simp [ih, survives]
        · simp [ih, survives]

theorem forall₂_of_mem {γ δ : Type} {R S : γ → δ → Prop} {xs : List γ} {ys : List δ} (related : List.Forall₂ R xs ys)
    (implies : ∀ x ∈ xs, ∀ y ∈ ys, R x y → S x y) : List.Forall₂ S xs ys := by
  induction related with
  | nil => exact .nil
  | cons head _ ih =>
      refine .cons (implies _ List.mem_cons_self _ List.mem_cons_self head) (ih fun x left y right => ?_)
      exact implies x (List.mem_cons_of_mem _ left) y (List.mem_cons_of_mem _ right)

section Invariant

variable (capacity : Nat) (marked : Nat → Bool)

/-- `h` before the compaction, `c` in its course: `seen` has been visited, `rest` not yet;
the swapped pages hold `packs`, the work page `current`. -/
structure Packing (h : Paging β) (c : Compaction β) (packs : List (List (Block β)))
    (current seen rest : List (Block β)) : Prop where
  length : c.pages.length = h.pages.length
  count : c.recyclePage = packs.length
  untouched : ∀ k, c.recyclePage ≤ k → c.pages[k]? = h.pages[k]?
  nodup : (h.workPage.buffer :: h.pages.map Page.buffer).Nodup
  shuffled : (h.workPage.buffer :: h.pages.map Page.buffer).Perm (c.workPage.buffer :: c.pages.map Page.buffer)
  malloc : c.buffers = h.buffers
  filled : List.Forall₂ (Filled c.store) (c.pages.take c.recyclePage) packs
  work : Filled c.store c.workPage current
  same : packs ++ pack capacity marked current rest = pack capacity marked [] (seen ++ rest)
  pointed : ((seen ++ rest).map Block.node).Nodup →
    List.Forall₂ (fun page => Pointed c.ptr page.buffer 0) (c.pages.take c.recyclePage) packs ∧
      Pointed c.ptr c.workPage.buffer 0 current
  disposed : c.disposed = h.disposed ++ seen.filter fun b => !marked b.node
  swaps : ∀ s ∈ c.swaps, s.1 < s.2

variable {capacity marked}
variable {h : Paging β} {c : Compaction β} {packs : List (List (Block β))} {current seen rest : List (Block β)}

theorem Packing.kept (packing : Packing capacity marked h c packs current seen rest) :
    packs.flatten ++ current = seen.filter fun b => marked b.node := by
  have same := congrArg List.flatten packing.same
  rw [List.flatten_append, pack_flatten, pack_flatten, List.filter_append, ← List.append_assoc] at same
  exact List.append_cancel_right same

theorem Packing.offset (packing : Packing capacity marked h c packs current seen rest) :
    c.workPage.offset = total current := by
  have laid := Laid.total packing.work
  omega

def Compaction.Behind (c : Compaction β) (index start : Nat) : Prop :=
  c.recyclePage < index ∨ c.recyclePage = index ∧ c.workPage.offset ≤ start

theorem Packing.swapOut (packing : Packing capacity marked h c packs current seen rest)
    (inside : c.recyclePage < h.pages.length) :
    ∃ page, c.pages[c.recyclePage]? = some page ∧
      c.swapOut = some { c with pages := c.pages.set c.recyclePage c.workPage, workPage := page } ∧
      (c.workPage.buffer :: c.pages.map Page.buffer).Perm
        (page.buffer :: (c.pages.set c.recyclePage c.workPage).map Page.buffer) ∧
      (c.pages.set c.recyclePage c.workPage).take (c.recyclePage + 1) =
        c.pages.take c.recyclePage ++ [c.workPage] := by
  have bound : c.recyclePage < c.pages.length := packing.length ▸ inside
  refine ⟨c.pages[c.recyclePage], List.getElem?_eq_getElem bound, ?_, ?_, ?_⟩
  · simp [Compaction.swapOut, bound]
  · -- the buffers are those from before in another order
    have bound' : c.recyclePage < (c.pages.map Page.buffer).length := by simpa using bound
    have set' := List.set_perm_cons_eraseIdx bound' c.workPage.buffer
    have whole := List.getElem_cons_eraseIdx_perm bound'
    rw [List.getElem_map] at whole
    rw [List.map_set]
    exact ((whole.symm.cons _).trans (.swap _ _ _)).trans (set'.symm.cons _)
  · rw [List.take_add_one, List.take_set_of_le (Nat.le_refl _)]
    simp [bound]

theorem Packing.makeRoom (packing : Packing capacity marked h c packs current seen rest) {index start : Nat} {b : Block β}
    {tail : List (Block β)} (next : rest = b :: tail) (behind : c.Behind index start) (index_lt : index < h.pages.length)
    (few : h.pages.length ≤ 2 ^ 32) (fits : start + b.size ≤ capacity) :
    ∃ c' packs' current', c.makeRoom capacity index b.length = some c' ∧
      Packing capacity marked h c' packs' current' seen rest ∧ c'.Behind index start ∧
      c'.workPage.hasCapacity capacity b.length ∧ c'.store = c.store ∧ c'.visited = c.visited := by
  by_cases room : c.workPage.hasCapacity capacity b.length
  · exact ⟨c, packs, current, if_pos room, packing, behind, room, rfl, rfl⟩
  have full : capacity ≤ total current + b.length := by
    rw [← packing.offset]
    exact Nat.le_of_not_lt room
  have sizes : start + (headerSize + b.length) ≤ capacity := fits
  have positive : 0 < headerSize := by decide
  have strict : c.recyclePage < index := by
    rcases behind with below | ⟨-, offset⟩
    · exact below
    · have same := packing.offset
      omega
  obtain ⟨page, found, swapped, shuffled, closed⟩ := packing.swapOut (Nat.lt_trans strict index_lt)
  have counted : (c.recyclePage + 1) % 2 ^ 32 = c.recyclePage + 1 := Nat.mod_eq_of_lt (by omega)
  let c' : Compaction β :=
    { c with
      pages := c.pages.set c.recyclePage c.workPage
      workPage := page.reset
      recyclePage := c.recyclePage + 1
      swaps := c.swaps ++ [(c.recyclePage, index)] }
  have run : c.makeRoom capacity index b.length = some c' := by
    rw [Compaction.makeRoom, if_neg room, swapped, Option.map_some, counted]
  refine ⟨c', packs ++ [current], [], run, ?_, ?_, ?_, rfl, rfl⟩
  · subst next
    refine ⟨by simpa [c'] using packing.length, by simp [c', packing.count], ?_, packing.nodup,
      packing.shuffled.trans shuffled, packing.malloc, ?_, rfl, ?_, ?_, packing.disposed, ?_⟩
    · intro k beyond
      have later : c.recyclePage + 1 ≤ k := beyond
      have kept := packing.untouched k (by omega)
      rw [← kept]
      exact List.getElem?_set_ne (by omega)
    · change List.Forall₂ _ ((c.pages.set c.recyclePage c.workPage).take (c.recyclePage + 1)) _
      rw [closed]
      exact List.rel_append packing.filled (.cons packing.work .nil)
    · have same := packing.same
      rw [pack, if_neg (by omega)] at same
      rw [pack, if_pos (by simp [total]; omega), List.append_assoc, List.singleton_append, ← same]
      simp
    · intro distinct
      obtain ⟨done, work⟩ := packing.pointed distinct
      refine ⟨?_, True.intro⟩
      change List.Forall₂ _ ((c.pages.set c.recyclePage c.workPage).take (c.recyclePage + 1)) _
      rw [closed]
      exact List.rel_append done (.cons work .nil)
    · intro s member
      rcases List.mem_append.mp member with old | new
      · exact packing.swaps s old
      · rw [List.mem_singleton.mp new]
        exact strict
  · rcases Nat.lt_or_eq_of_le (Nat.succ_le_of_lt strict) with below | last
    · exact Or.inl below
    · exact Or.inr ⟨last, Nat.zero_le _⟩
  · have empty : c'.workPage.offset = 0 := rfl
    unfold Page.hasCapacity
    omega

theorem moveAllocated_eq (p : Page) (store : Store β) (b : Block β) : p.moveAllocated store b =
    (p.offset, { p with offset := p.offset + b.size }, store.write p.buffer p.offset b) := by
  have length := alignLength_aligned b.aligned b.small
  simp only [Page.moveAllocated, Page.allocate, length, Block.size, Nat.add_comm b.length]

theorem Packing.apart (packing : Packing capacity marked h c packs current seen rest) {page : Page}
    (member : page ∈ c.pages) : page.buffer ≠ c.workPage.buffer := by
  intro same
  have fresh := (List.nodup_cons.mp (packing.shuffled.nodup_iff.mp packing.nodup)).1
  exact fresh (same ▸ List.mem_map_of_mem member)

theorem Packing.settle {b : Block β} (packing : Packing capacity marked h c packs current seen (b :: rest))
    (room : c.workPage.hasCapacity capacity b.length) {index start : Nat} (behind : c.Behind index start) :
    ∃ current', Packing capacity marked h (c.settle marked b) packs current' (seen ++ [b]) rest ∧
      (c.settle marked b).Behind index (start + b.size) ∧
      (∀ other, other ≠ c.workPage.buffer → (c.settle marked b).store other = c.store other) ∧
      (c.settle marked b).visited = c.visited := by
  have offset := packing.offset
  have fits : capacity > total current + b.length := offset ▸ room
  have same := packing.same
  rw [pack, if_pos fits] at same
  have regroup : seen ++ [b] ++ rest = seen ++ b :: rest := by simp
  by_cases survives : marked b.node = true
  · let c' : Compaction β :=
      { c with
        store := c.store.write c.workPage.buffer c.workPage.offset b
        workPage := { c.workPage with offset := c.workPage.offset + b.size }
        ptr := Function.update c.ptr b.node (some (c.workPage.buffer, c.workPage.offset + headerSize)) }
    have run : c.settle marked b = c' := by
      rw [Compaction.settle, if_pos survives, moveAllocated_eq]
    rw [if_pos survives] at same
    rw [run]
    refine ⟨current ++ [b], ⟨packing.length, packing.count, packing.untouched, packing.nodup,
      packing.shuffled, packing.malloc, ?_, ?_, ?_, ?_, ?_, packing.swaps⟩, ?_, ?_, rfl⟩
    · -- the pages that are closed lie in other buffers
      refine forall₂_of_mem packing.filled ?_
      intro page member blocks _ filled
      exact Laid.write_other filled (packing.apart (List.mem_of_mem_take member))
    · exact Laid.write packing.work
    · rw [regroup]
      exact same
    · intro distinct
      rw [regroup] at distinct
      obtain ⟨done, work⟩ := packing.pointed distinct
      have new (b' : Block β) (old : b' ∈ packs.flatten ++ current) : b'.node ≠ b.node := by
        rw [packing.kept] at old
        have earlier := List.mem_of_mem_filter old
        rw [List.map_append, List.map_cons, List.nodup_append] at distinct
        exact distinct.2.2 b'.node (List.mem_map_of_mem earlier) b.node List.mem_cons_self
      refine ⟨?_, ?_⟩
      · refine forall₂_of_mem done ?_
        intro page _ blocks member pointed
        refine pointed.congr fun b' inside => ?_
        refine Function.update_of_ne (new b' ?_) _ _
        exact List.mem_append_left _ (List.mem_flatten_of_mem member inside)
      · refine Pointed.concat ?_ packing.work ?_
        · refine work.congr fun b' inside => ?_
          exact Function.update_of_ne (new b' (List.mem_append_right _ inside)) _ _
        · exact Function.update_self _ _ _
    · rw [List.filter_append, List.filter_singleton]
      simp [c', survives, packing.disposed]
    · rcases behind with below | ⟨equal, least⟩
      · exact Or.inl below
      · exact Or.inr ⟨equal, Nat.add_le_add_right least _⟩
    · exact fun other different => write_other different
  · have run : c.settle marked b = { c with disposed := c.disposed ++ [b] } := by
      rw [Compaction.settle, if_neg survives]
    rw [if_neg survives] at same
    rw [run]
    refine ⟨current, ⟨packing.length, packing.count, packing.untouched, packing.nodup, packing.shuffled,
      packing.malloc, packing.filled, packing.work, ?_, ?_, ?_, packing.swaps⟩, ?_, fun _ _ => rfl, rfl⟩
    · rw [regroup]
      exact same
    · rw [regroup]
      exact packing.pointed
    · rw [List.filter_append, List.filter_singleton]
      simp [survives, packing.disposed]
    · rcases behind with below | ⟨equal, least⟩
      · exact Or.inl below
      · exact Or.inr ⟨equal, Nat.le_trans least (Nat.le_add_right _ _)⟩

end Invariant

end PrototypeBundle.HeapPages
