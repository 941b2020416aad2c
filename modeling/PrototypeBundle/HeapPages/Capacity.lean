import PrototypeBundle.HeapPages.Compress
import PrototypeBundle.Shared.Run
import Mathlib.Algebra.Order.BigOperators.Group.List
import Mathlib.Algebra.Order.Group.Nat

set_option autoImplicit false

-- `has_capacity` counts the bytes of a payload, `allocate` takes those of the header
-- and of the alignment as well.

namespace PrototypeBundle.HeapPages

open Runs

variable {β : Type}

inductive HeapOp (β : Type) where
  | allocate (length node destructor : Nat) (payload : β)
  | compress (marked : Nat → Bool)

def heapStep (capacity : Nat) (h : Paging β) : HeapOp β → Option (Paging β)
  | .allocate length node destructor payload => h.allocate capacity length node destructor payload
  | .compress marked => h.compress capacity marked

def Paging.Inside (capacity : Nat) (h : Paging β) : Prop := ∀ page ∈ h.workPage :: h.pages, page.offset ≤ capacity

/-- `page_length` has 32 bits, which the aligned length must not leave; header and aligned payload fit an empty page. -/
def HeapOp.Valid (capacity : Nat) (_ : Paging β) : HeapOp β → Prop
  | allocate length _ _ _ => length + 7 < 2 ^ 32 ∧ headerSize + (length + 7) / 8 * 8 ≤ capacity
  | compress _ => True

-- `recycle_page` has 32 bits.
def HeapOp.Counted (h : Paging β) : HeapOp β → Prop
  | allocate _ _ _ _ => True
  | compress _ => h.pages.length < 2 ^ 32

instance (capacity : Nat) (h : Paging β) : (op : HeapOp β) → Decidable (op.Valid capacity h)
  | .allocate _ _ _ _ => inferInstanceAs (Decidable (_ ∧ _))
  | .compress _ => inferInstanceAs (Decidable True)

instance (h : Paging β) : (op : HeapOp β) → Decidable (op.Counted h)
  | .allocate _ _ _ _ => inferInstanceAs (Decidable True)
  | .compress _ => inferInstanceAs (Decidable (_ < _))

/-- The page has capacity for the payload, but not for header and aligned payload. -/
def Overhangs (capacity offset length : Nat) : Prop :=
  capacity > offset + length ∧ capacity < offset + (headerSize + alignLength length 8)

instance (capacity offset length : Nat) : Decidable (Overhangs capacity offset length) :=
  inferInstanceAs (Decidable (_ ∧ _))

/-- Some block that is moved overhangs when `blocks` are packed from `offset` on. -/
def Overruns (capacity : Nat) (marked : Nat → Bool) : Nat → List (Block β) → Prop
  | _, [] => False
  | offset, b :: rest =>
      let offset := if capacity > offset + b.length then offset else 0
      if marked b.node then Overhangs capacity offset b.length ∨ Overruns capacity marked (offset + b.size) rest
      else Overruns capacity marked offset rest

/-- No block is placed where it overhangs. -/
def HeapOp.Placed (capacity : Nat) (h : Paging β) : HeapOp β → Prop
  | allocate length _ _ _ => ∀ back, h.pages.getLast? = some back → ¬ Overhangs capacity back.offset length
  | compress marked =>
      ∀ layouts, List.Forall₂ (Filled h.store) h.pages layouts → ¬ Overruns capacity marked 0 layouts.flatten

instance (capacity length node destructor : Nat) (payload : β) (h : Paging β) :
    Decidable ((HeapOp.allocate length node destructor payload).Placed capacity h) :=
  inferInstanceAs (Decidable (∀ back ∈ h.pages.getLast?, ¬ Overhangs capacity back.offset length))

/-- Pages are filled with blocks, in buffers of their own. -/
structure Paging.WellFormed (h : Paging β) : Prop where
  filled : ∃ layouts, List.Forall₂ (Filled h.store) h.pages layouts
  nonempty : h.pages ≠ []
  nodup : (h.workPage.buffer :: h.pages.map Page.buffer).Nodup
  allocated : ∀ page ∈ h.workPage :: h.pages, page.buffer < h.buffers

section Pack

variable {capacity : Nat} {marked : Nat → Bool}

theorem pack_extends (capacity : Nat) (marked : Nat → Bool) (current blocks : List (Block β)) :
    ∃ page ∈ pack capacity marked current blocks, total current ≤ total page := by
  induction blocks generalizing current with
  | nil => exact ⟨current, by simp [pack], Nat.le_refl _⟩
  | cons b rest ih =>
      rw [pack]
      split
      case isTrue =>
        obtain ⟨page, member, longer⟩ := ih (if marked b.node then current ++ [b] else current)
        refine ⟨page, member, Nat.le_trans ?_ longer⟩
        split
        · rw [total_concat]
          exact Nat.le_add_right _ _
        · exact Nat.le_refl _
      case isFalse => exact ⟨current, List.mem_cons_self, Nat.le_refl _⟩

theorem pack_inside {current blocks : List (Block β)} (fits : ∀ b ∈ blocks, b.size ≤ capacity)
    (start : total current ≤ capacity) :
    (∀ page ∈ pack capacity marked current blocks, total page ≤ capacity) ↔
      ¬ Overruns capacity marked (total current) blocks := by
  induction blocks generalizing current with
  | nil => simp [pack, Overruns, start]
  | cons b rest ih =>
      have later : ∀ b ∈ rest, b.size ≤ capacity := fun b' member => fits b' (List.mem_cons_of_mem _ member)
      have size : b.size ≤ capacity := fits b List.mem_cons_self
      have aligned := alignLength_aligned b.aligned b.small
      have whole : b.size = headerSize + b.length := rfl
      rw [pack, Overruns]
      split
      case isTrue room =>
        by_cases survives : marked b.node = true
        · rw [if_pos survives, if_pos survives, ← total_concat]
          by_cases inside : total (current ++ [b]) ≤ capacity
          · rw [ih later inside]
            have notOver : ¬ Overhangs capacity (total current) b.length := by
              rw [Overhangs, aligned]
              rw [total_concat] at inside
              omega
            simp [notOver]
          · -- the page of the block is too long whatever follows
            obtain ⟨page, member, longer⟩ := pack_extends capacity marked (current ++ [b]) rest
            have overhangs : Overhangs capacity (total current) b.length := by
              rw [total_concat] at inside
              rw [Overhangs, aligned]
              omega
            constructor
            · intro all
              have bounded := all page member
              omega
            · exact fun none' => absurd (Or.inl overhangs) none'
        · rw [if_neg survives, if_neg survives]
          exact ih later start
      case isFalse full =>
        simp only [List.mem_cons, forall_eq_or_imp]
        by_cases survives : marked b.node = true
        · have single : total [b] = 0 + b.size := by simp [total]
          have notOver : ¬ Overhangs capacity 0 b.length := by
            rw [Overhangs, aligned]
            omega
          rw [if_pos survives, if_pos survives, ih later (by omega), single]
          simp [start, notOver]
        · have none' : total ([] : List (Block β)) = 0 := rfl
          rw [if_neg survives, if_neg survives, ih later (Nat.zero_le _), none']
          simp [start]

end Pack

section Steps

variable {capacity : Nat} {h : Paging β}

theorem paging_wellFormed : (paging : Paging β).WellFormed ∧ (paging : Paging β).Inside capacity := by
  refine ⟨⟨⟨[[]], .cons rfl .nil⟩, by simp [paging], by simp [paging], ?_⟩, ?_⟩
  · intro page member
    simp only [paging, List.mem_cons, List.not_mem_nil, or_false] at member
    rcases member with rfl | rfl
    · exact Nat.zero_lt_two
    · exact Nat.one_lt_two
  · intro page member
    simp only [paging, List.mem_cons, List.not_mem_nil, or_false] at member
    rcases member with rfl | rfl <;> exact Nat.zero_le _

theorem forall₂_append_left {γ δ : Type} {R : γ → δ → Prop} {xs ys : List γ} {zs : List δ}
    (related : List.Forall₂ R (xs ++ ys) zs) :
    ∃ us vs, zs = us ++ vs ∧ List.Forall₂ R xs us ∧ List.Forall₂ R ys vs := by
  induction xs generalizing zs with
  | nil => exact ⟨[], zs, rfl, .nil, related⟩
  | cons x xs ih =>
      obtain ⟨z, zs, head, tail, rfl⟩ := List.forall₂_cons_left_iff.mp related
      obtain ⟨us, vs, rfl, left, right⟩ := ih tail
      exact ⟨z :: us, vs, rfl, .cons head left, right⟩

theorem Paging.WellFormed.append (wellFormed : h.WellFormed) {front : List Page} {back : Page}
    (last : h.pages = front ++ [back]) (b : Block β) (ptr : Nat → Option (Nat × Nat)) :
    ({ h with
        store := h.store.write back.buffer back.offset b
        pages := front ++ [{ back with offset := back.offset + b.size }]
        ptr } : Paging β).WellFormed := by
  obtain ⟨layouts, filled⟩ := wellFormed.filled
  have nodup := wellFormed.nodup
  rw [last] at filled nodup
  obtain ⟨early, tail, rfl, done, rest⟩ := forall₂_append_left filled
  obtain ⟨blocks, none', here, empty, rfl⟩ := List.forall₂_cons_left_iff.mp rest
  cases empty
  have buffers : (front ++ [{ back with offset := back.offset + b.size }]).map Page.buffer =
      (front ++ [back]).map Page.buffer := by simp
  have apart (page : Page) (member : page ∈ front) : page.buffer ≠ back.buffer := by
    intro same
    rw [List.map_append, List.nodup_cons, List.nodup_append] at nodup
    exact nodup.2.2.2 page.buffer (List.mem_map_of_mem member) back.buffer (by simp) same
  refine ⟨⟨early ++ [blocks ++ [b]], ?_⟩, by simp, ?_, ?_⟩
  · refine List.rel_append ?_ (.cons (Laid.write here) .nil)
    exact forall₂_of_mem done fun page member _ _ filled => Laid.write_other filled (apart page member)
  · rw [buffers]
    exact nodup
  · intro page member
    have old : page.buffer ∈ (h.workPage :: h.pages).map Page.buffer := by
      rw [last, List.map_cons, ← buffers, ← List.map_cons]
      exact List.mem_map_of_mem member
    obtain ⟨page', known, same⟩ := List.mem_map.mp old
    rw [← same]
    exact wellFormed.allocated page' known

theorem Paging.WellFormed.grow (wellFormed : h.WellFormed) :
    ({ h with pages := h.pages ++ [{ buffer := h.buffers, offset := 0 }], buffers := h.buffers + 1 } : Paging β).WellFormed := by
  obtain ⟨layouts, filled⟩ := wellFormed.filled
  refine ⟨⟨layouts ++ [[]], List.rel_append filled (.cons rfl .nil)⟩, by simp, ?_, ?_⟩
  · have fresh : h.buffers ∉ h.workPage.buffer :: h.pages.map Page.buffer := by
      intro member
      obtain ⟨page, known, same⟩ := List.mem_map.mp (show h.buffers ∈ (h.workPage :: h.pages).map Page.buffer from member)
      have below := wellFormed.allocated page known
      omega
    change (h.workPage.buffer :: (h.pages ++ [({ buffer := h.buffers, offset := 0 } : Page)]).map Page.buffer).Nodup
    rw [List.map_append, ← List.cons_append, List.nodup_append]
    refine ⟨wellFormed.nodup, by simp, fun x left y right => ?_⟩
    simp only [List.map_cons, List.map_nil, List.mem_singleton] at right
    rintro rfl
    exact fresh (right ▸ left)
  · intro page member
    rcases List.mem_cons.mp member with rfl | inside
    · exact Nat.lt_succ_of_lt (wellFormed.allocated _ List.mem_cons_self)
    · rcases List.mem_append.mp inside with old | new
      · exact Nat.lt_succ_of_lt (wellFormed.allocated _ (List.mem_cons_of_mem _ old))
      · rw [List.mem_singleton.mp new]
        exact Nat.lt_succ_self _

theorem Paging.allocate_spec (wellFormed : h.WellFormed) (inside : h.Inside capacity) {length : Nat} (node destructor : Nat)
    (payload : β) (small : length < 2 ^ 32) (fits : headerSize + (length + 7) / 8 * 8 ≤ capacity) :
    ∃ next, h.allocate capacity length node destructor payload = some next ∧ next.WellFormed ∧
      (next.Inside capacity ↔ ∀ back, h.pages.getLast? = some back → ¬ Overhangs capacity back.offset length) := by
  obtain ⟨front, back, last⟩ : ∃ front back, h.pages = front ++ [back] :=
    ⟨_, _, (List.dropLast_append_getLast wellFormed.nonempty).symm⟩
  have found : h.pages.getLast? = some back := by simp [last]
  let b : Block β :=
    { length := alignLength length 8, node, destructor, payload, aligned := alignLength_dvd length, small := alignLength_lt length }
  have shorter : alignLength length 8 ≤ (length + 7) / 8 * 8 := by
    unfold alignLength
    omega
  have size : b.size = headerSize + alignLength length 8 := rfl
  have older (page : Page) (member : page ∈ h.workPage :: front) : page.offset ≤ capacity :=
    inside page (by rw [last]; simp only [List.mem_cons, List.mem_append] at member ⊢; tauto)
  rw [found]
  simp only [Option.some.injEq, forall_eq']
  by_cases room : back.hasCapacity capacity length
  · refine ⟨_, ?_, wellFormed.append last b (Function.update h.ptr node (some (back.buffer, back.offset + headerSize))), ?_⟩
    · simp [Paging.allocate, Page.allocate, last, room, size, Nat.add_comm headerSize, b]
    · have roomy : capacity > back.offset + length := room
      constructor
      · intro all overhangs
        have bounded := all { back with offset := back.offset + b.size } (by simp)
        have beyond := overhangs.2
        rw [← size] at beyond
        exact absurd bounded (Nat.not_le_of_lt beyond)
      · intro notOver page member
        have bounded : back.offset + b.size ≤ capacity := by
          rw [Overhangs, ← size] at notOver
          omega
        simp only [List.mem_cons, List.mem_append, List.not_mem_nil, or_false] at member
        rcases member with rfl | old | rfl
        · exact older _ List.mem_cons_self
        · exact older page (List.mem_cons_of_mem _ old)
        · exact bounded
  · refine ⟨_, ?_, wellFormed.grow.append rfl b (Function.update h.ptr node (some (h.buffers, 0 + headerSize))), ?_⟩
    · simp [Paging.allocate, Page.allocate, found, room, size, Nat.add_comm headerSize, b]
    · have notOver : ¬ Overhangs capacity back.offset length := fun overhangs => room overhangs.1
      refine iff_of_true (fun page member => ?_) notOver
      simp only [List.mem_cons, List.mem_append, List.not_mem_nil, or_false] at member
      rcases member with rfl | old | rfl
      · exact older _ List.mem_cons_self
      · exact inside page (List.mem_cons_of_mem _ old)
      · change 0 + b.size ≤ capacity
        omega

theorem filled_inside (capacity : Nat) {store : Store β} {pages : List Page} {layouts : List (List (Block β))}
    (filled : List.Forall₂ (Filled store) pages layouts) :
    (∀ page ∈ pages, page.offset ≤ capacity) ↔ ∀ blocks ∈ layouts, total blocks ≤ capacity := by
  induction filled with
  | nil => simp
  | @cons page blocks pages layouts here _ ih =>
      have offset : page.offset = total blocks := (Laid.total here).trans (Nat.zero_add _)
      simp only [List.mem_cons, forall_eq_or_imp, ih, offset]

theorem size_le_total {b : Block β} {blocks : List (Block β)} (member : b ∈ blocks) : b.size ≤ total blocks :=
  List.le_sum_of_mem (List.mem_map_of_mem member)

theorem filled_rightUnique (store : Store β) : Relator.RightUnique (List.Forall₂ (Filled store)) := by
  refine Relator.RightUnique.forall₂ ?_
  intro page blocks blocks' here here'
  exact Laid.unique here here'

theorem Paging.compress_spec (wellFormed : h.WellFormed) (inside : h.Inside capacity) (marked : Nat → Bool)
    (counted : h.pages.length < 2 ^ 32) :
    ∃ next, h.compress capacity marked = some next ∧ next.WellFormed ∧
      (next.Inside capacity ↔ ∀ layouts, List.Forall₂ (Filled h.store) h.pages layouts →
        ¬ Overruns capacity marked 0 layouts.flatten) := by
  obtain ⟨layouts, filled⟩ := wellFormed.filled
  have pagesInside (page : Page) (member : page ∈ h.pages) : page.offset ≤ capacity :=
    inside page (List.mem_cons_of_mem _ member)
  obtain ⟨c, compacted, -, -, recycled, -, result, -, -, -, malloc, work, shuffled⟩ :=
    compaction_spec marked wellFormed.nonempty (Nat.le_of_lt counted) filled pagesInside wellFormed.nodup
  have wrap : (c.recyclePage + 1) % 2 ^ 32 = c.recyclePage + 1 := Nat.mod_eq_of_lt (by omega)
  let next : Paging β := { c.toPaging with pages := c.pages.take (c.recyclePage + 1) }
  have short : (next.workPage.buffer :: next.pages.map Page.buffer).Sublist (c.workPage.buffer :: c.pages.map Page.buffer) :=
    ((List.take_sublist _ _).map _).cons_cons _
  refine ⟨next, by rw [Paging.compress, compacted, Option.map_some, wrap], ⟨⟨_, result⟩, ?_, ?_, ?_⟩, ?_⟩
  · intro none'
    have packed := result
    rw [show c.pages.take (c.recyclePage + 1) = [] from none', List.forall₂_nil_left_iff] at packed
    obtain ⟨page, member, -⟩ := pack_extends capacity marked [] layouts.flatten
    rw [packed] at member
    exact List.not_mem_nil member
  · exact short.nodup (shuffled.nodup_iff.mp wellFormed.nodup)
  · intro page member
    have old : page.buffer ∈ (h.workPage :: h.pages).map Page.buffer :=
      shuffled.symm.subset (short.subset (List.mem_map_of_mem (f := Page.buffer) member))
    obtain ⟨page', known, same⟩ := List.mem_map.mp old
    rw [← same]
    exact Nat.lt_of_lt_of_eq (wellFormed.allocated page' known) malloc.symm
  · have smaller (b : Block β) (member : b ∈ layouts.flatten) : b.size ≤ capacity := by
      obtain ⟨blocks, known, here⟩ := List.mem_flatten.mp member
      exact Nat.le_trans (size_le_total here) ((filled_inside capacity filled).mp pagesInside blocks known)
    have packed := (filled_inside capacity result).trans (pack_inside smaller (Nat.zero_le capacity))
    constructor
    · intro all other filled'
      rw [filled_rightUnique h.store filled' filled]
      exact packed.mp fun page member => all page (List.mem_cons_of_mem _ member)
    · intro none' page member
      rcases List.mem_cons.mp member with rfl | kept
      · exact pagesInside _ work
      · exact packed.mpr (none' layouts filled) page kept

end Steps

/-- In a run that allocates blocks which fit an empty page, and compacts, the pages stay
within their buffers as long as no block is placed where it overhangs, and no longer. -/
theorem pages_inside (capacity : Nat) (actions : List (HeapOp β))
    (valid : Along (heapStep capacity) (HeapOp.Valid capacity) paging actions) :
    (Along (heapStep capacity) (fun h op => HeapOp.Counted h op ∧ HeapOp.Placed capacity h op) paging actions →
        Through (heapStep capacity) (Paging.Inside capacity) paging actions) ∧
      (Along (heapStep capacity) HeapOp.Counted paging actions →
        (Through (heapStep capacity) (Paging.Inside capacity) paging actions ↔
          Along (heapStep capacity) (HeapOp.Placed capacity) paging actions)) := by
  have stepSpec (h : Paging β) (op : HeapOp β) (invariant : h.WellFormed ∧ h.Inside capacity)
      (enabled : op.Valid capacity h ∧ op.Counted h) :
      ∃ next, heapStep capacity h op = some next ∧ next.WellFormed ∧ (next.Inside capacity ↔ op.Placed capacity h) := by
    cases op with
    | allocate length node destructor payload =>
        have small : length < 2 ^ 32 := Nat.lt_of_add_right_lt enabled.1.1
        exact Paging.allocate_spec invariant.1 invariant.2 node destructor payload small enabled.1.2
    | compress marked => exact Paging.compress_spec invariant.1 invariant.2 marked enabled.2
  have exact' (counted : Along (heapStep capacity) HeapOp.Counted paging actions) :
      Through (heapStep capacity) (Paging.Inside capacity) paging actions ↔
        Along (heapStep capacity) (HeapOp.Placed capacity) paging actions := by
    refine Along.through_iff (fun h => h.WellFormed ∧ h.Inside capacity) (fun _ holds => holds.2) ?_ ?_
      (valid.and counted) paging_wellFormed
    · intro h op next invariant enabled placed taken
      obtain ⟨next', taken', wellFormed, same⟩ := stepSpec h op invariant enabled
      obtain rfl := Option.some.inj (taken.symm.trans taken')
      exact ⟨wellFormed, same.mpr placed⟩
    · intro h op invariant enabled misplaced
      obtain ⟨next, taken, -, same⟩ := stepSpec h op invariant enabled
      exact ⟨next, taken, fun holds => misplaced (same.mp holds)⟩
  refine ⟨fun along => ?_, exact'⟩
  have counted := along.mono fun _ _ both => both.1
  exact (exact' counted).mpr (along.mono fun _ _ both => both.2)

def eight (node : Nat) : HeapOp Unit := .allocate 8 node 0 ()

def occupied : Paging Unit :=
  { paging with
    store := (paging : Paging Unit).store.write 1 0 (smallBlock 0)
    pages := [{ buffer := 1, offset := 40 }]
    ptr := Function.update (fun _ => none) 0 (some (1, 32)) }

theorem pages_inside_compacted :
    Through (heapStep 80) (Paging.Inside 80) paging [eight 0, .compress fun _ => true] := by
  refine (pages_inside 80 _ (Along.of_check (by decide))).1 ?_
  refine Along.cons ⟨True.intro, ?_⟩ (show _ = some occupied from rfl) ⟨⟨by decide, ?_⟩, fun _ _ => True.intro⟩
  · intro back last
    obtain rfl := Option.some.inj last
    decide
  · intro layouts filled
    have here : occupied.store 1 0 = some (smallBlock 0) := rfl
    have single : List.Forall₂ (Filled occupied.store) occupied.pages [[smallBlock 0]] := .cons ⟨here, rfl⟩ .nil
    rw [filled_rightUnique _ filled single]
    simp [Overruns, Overhangs, smallBlock, alignLength, headerSize]

/-- 40 bytes are taken, 16 fit below 64, header and payload take 48. -/
theorem overhanging_block :
    Along (heapStep 64) (HeapOp.Valid 64) paging [eight 0, .allocate 16 1 0 ()] ∧
      ∃ h, Runs.exec (heapStep 64) paging [eight 0, .allocate 16 1 0 ()] = some h ∧ ¬ h.Inside 64 := by
  refine ⟨Along.of_check (by decide), _, rfl, fun inside => ?_⟩
  have bounded := inside { buffer := 1, offset := 88 } (by decide)
  exact absurd bounded (by decide)

end PrototypeBundle.HeapPages
