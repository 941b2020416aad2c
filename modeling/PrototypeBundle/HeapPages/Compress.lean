import PrototypeBundle.HeapPages.Packing
import Mathlib.Data.List.Perm.Subperm

set_option autoImplicit false

namespace PrototypeBundle.HeapPages

variable {β : Type} {capacity : Nat} {marked : Nat → Bool}

section Loops

variable {h : Paging β} {c : Compaction β} {packs : List (List (Block β))}
  {current seen after blocks : List (Block β)} {waiting : List (List (Block β))} {index : Nat} {page : Page}

structure Ahead (h : Paging β) (c : Compaction β) (index start : Nat) (page : Page) (blocks : List (Block β))
    (waiting : List (List (Block β))) : Prop where
  found : h.pages[index]? = some page
  laid : Laid c.store page.buffer start blocks page.offset
  waiting : List.Forall₂ (Filled c.store) (h.pages.drop (index + 1)) waiting

theorem Ahead.visit {b : Block β} {start : Nat} (ahead : Ahead h c index start page (b :: blocks) waiting)
    (packing : Packing capacity marked h c packs current seen (b :: (blocks ++ after)))
    (behind : c.Behind index start) (few : h.pages.length ≤ 2 ^ 32) (inside : page.offset ≤ capacity) :
    ∃ c' packs' current', c.visit capacity marked index page.buffer start = some (start + b.size, c') ∧
      Ahead h c' index (start + b.size) page blocks waiting ∧
      Packing capacity marked h c' packs' current' (seen ++ [b]) (blocks ++ after) ∧
      c'.Behind index (start + b.size) ∧ c'.visited = c.visited ++ [(page.buffer, start)] := by
  obtain ⟨here, laid⟩ := ahead.laid
  have index_lt : index < h.pages.length := (List.getElem?_eq_some_iff.mp ahead.found).1
  have fits : start + b.size ≤ capacity := Nat.le_trans laid.le inside
  obtain ⟨c₁, packs', current₁, roomy, packing₁, behind₁, room, store₁, visited₁⟩ :=
    packing.makeRoom rfl behind index_lt few fits
  obtain ⟨current', packing₂, behind₂, others, visited₂⟩ := packing₁.settle room behind₁
  -- the pages from `index` on are where they were, in other buffers than the work page
  have recycled : c₁.recyclePage ≤ index := by
    rcases behind₁ with below | ⟨equal, -⟩
    · exact Nat.le_of_lt below
    · exact Nat.le_of_eq equal
  have apart {k : Nat} {p : Page} (late : index ≤ k) (found : h.pages[k]? = some p) :
      p.buffer ≠ c₁.workPage.buffer := by
    rw [← packing₁.untouched k (Nat.le_trans recycled late)] at found
    exact packing₁.apart (List.mem_of_getElem? found)
  have same : (c₁.settle marked b).store page.buffer = c.store page.buffer := by
    rw [others _ (apart (Nat.le_refl _) ahead.found), store₁]
  let c' : Compaction β := { c₁.settle marked b with visited := c.visited ++ [(page.buffer, start)] }
  have run : c.visit capacity marked index page.buffer start = some (start + b.size, c') := by
    simp only [Compaction.visit, here, roomy, Option.bind_eq_bind, Option.bind_some, congrFun same start]
    rw [visited₂, visited₁]
    rfl
  refine ⟨c', packs', current', run, ⟨ahead.found, ?_, ?_⟩, ?_, behind₂, rfl⟩
  · exact laid.congr fun at' old _ _ found => (congrFun same at').trans found
  · refine forall₂_of_mem ahead.waiting fun p member old _ filled => ?_
    obtain ⟨k, found⟩ := List.mem_iff_getElem?.mp member
    rw [List.getElem?_drop] at found
    have other : (c₁.settle marked b).store p.buffer = c.store p.buffer := by
      rw [others _ (apart (by omega) found), store₁]
    exact Laid.congr filled fun at' old _ _ found => (congrFun other at').trans found
  · exact ⟨packing₂.length, packing₂.count, packing₂.untouched, packing₂.nodup, packing₂.shuffled, packing₂.malloc,
      packing₂.filled, packing₂.work, packing₂.same, packing₂.pointed, packing₂.disposed, packing₂.swaps⟩

theorem Ahead.visitFrom {start : Nat} (ahead : Ahead h c index start page blocks waiting)
    (packing : Packing capacity marked h c packs current seen (blocks ++ after)) (behind : c.Behind index start)
    (few : h.pages.length ≤ 2 ^ 32) (inside : page.offset ≤ capacity) (steps : Nat) (long : page.offset ≤ start + steps) :
    ∃ c' packs' current', c.visitFrom capacity marked index page.buffer page.offset steps start = some c' ∧
      Ahead h c' index page.offset page [] waiting ∧
      Packing capacity marked h c' packs' current' (seen ++ blocks) after ∧
      c'.Behind index page.offset ∧ c'.visited = c.visited ++ addresses page.buffer start blocks := by
  induction blocks generalizing c packs current seen start steps with
  | nil =>
      obtain rfl : start = page.offset := ahead.laid
      have run : c.visitFrom capacity marked index page.buffer page.offset steps page.offset = some c := by
        cases steps <;> simp [Compaction.visitFrom]
      exact ⟨c, packs, current, run, ahead, by simpa using packing, behind, by simp [addresses]⟩
  | cons b rest ih =>
      have positive := b.size_pos
      have later := ahead.laid.2.le
      obtain ⟨steps, rfl⟩ : ∃ n, steps = n + 1 := Nat.exists_eq_add_one.mpr (by omega)
      obtain ⟨c₁, packs₁, current₁, visited, ahead₁, packing₁, behind₁, log⟩ := ahead.visit packing behind few inside
      obtain ⟨c', packs', current', run, ahead', packing', behind', log'⟩ :=
        ih ahead₁ packing₁ behind₁ steps (by omega)
      refine ⟨c', packs', current', ?_, ahead', by simpa using packing', behind', ?_⟩
      · rw [Compaction.visitFrom, if_neg (by omega), visited, Option.bind_some]
        exact run
      · rw [log', log, List.append_assoc]
        rfl

def allAddresses : List Page → List (List (Block β)) → List (Nat × Nat)
  | page :: pages, blocks :: layouts => addresses page.buffer 0 blocks ++ allAddresses pages layouts
  | _, _ => []

theorem compressFrom_packing {layouts : List (List (Block β))} (index rest : Nat) (count : index + rest = h.pages.length)
    (filled : List.Forall₂ (Filled c.store) (h.pages.drop index) layouts)
    (packing : Packing capacity marked h c packs current seen layouts.flatten) (behind : c.Behind index 0)
    (strict : 0 < index → c.recyclePage < index) (few : h.pages.length ≤ 2 ^ 32)
    (inside : ∀ page ∈ h.pages, page.offset ≤ capacity) :
    ∃ c' packs' current', c.compressFrom capacity marked rest index = some c' ∧
      Packing capacity marked h c' packs' current' (seen ++ layouts.flatten) [] ∧
      (0 < h.pages.length → c'.recyclePage < h.pages.length) ∧
      c'.visited = c.visited ++ allAddresses (h.pages.drop index) layouts := by
  induction rest generalizing c packs current seen index layouts with
  | zero =>
      have ended : h.pages.drop index = [] := List.drop_eq_nil_of_le (by omega)
      rw [ended] at filled ⊢
      cases filled
      have last : index = h.pages.length := by omega
      subst last
      exact ⟨c, packs, current, rfl, by simpa using packing, strict, by simp [allAddresses]⟩
  | succ rest ih =>
      have index_lt : index < h.pages.length := by omega
      rw [List.drop_eq_getElem_cons index_lt] at filled ⊢
      obtain ⟨blocks, layouts, page, later, rfl⟩ := List.forall₂_cons_left_iff.mp filled
      have recycled : c.recyclePage ≤ index := by
        rcases behind with below | ⟨equal, -⟩
        · exact Nat.le_of_lt below
        · exact Nat.le_of_eq equal
      have original : h.pages[index]? = some h.pages[index] := List.getElem?_eq_getElem index_lt
      have found : c.pages[index]? = some h.pages[index] := (packing.untouched index recycled).trans original
      have fits := inside _ (List.getElem_mem index_lt)
      obtain ⟨c₁, packs₁, current₁, visited, ahead₁, packing₁, behind₁, log⟩ :
          ∃ c' packs' current',
            (if h.pages[index].empty then some c
              else c.visitFrom capacity marked index h.pages[index].buffer h.pages[index].offset
                h.pages[index].offset 0) = some c' ∧
            Ahead h c' index h.pages[index].offset h.pages[index] [] layouts ∧
            Packing capacity marked h c' packs' current' (seen ++ blocks) layouts.flatten ∧
            c'.Behind index h.pages[index].offset ∧
            c'.visited = c.visited ++ addresses h.pages[index].buffer 0 blocks := by
        by_cases empty : h.pages[index].empty
        · -- an empty page is skipped; it has no blocks
          have none' : blocks = [] := by
            have laid : Laid c.store h.pages[index].buffer 0 blocks h.pages[index].offset := page
            rw [show h.pages[index].offset = 0 from empty] at laid
            exact laid.unique rfl
          subst none'
          refine ⟨c, packs, current, if_pos empty, ⟨original, rfl, later⟩, by simpa using packing, ?_, by simp [addresses]⟩
          rw [show h.pages[index].offset = 0 from empty]
          exact behind
        · rw [if_neg empty]
          exact Ahead.visitFrom ⟨original, page, later⟩ packing behind few fits _ (Nat.le_add_left _ _)
      have next : c₁.recyclePage < index + 1 := by
        rcases behind₁ with below | ⟨equal, -⟩
        · omega
        · omega
      obtain ⟨c', packs', current', run, packing', final, log'⟩ :=
        ih (index + 1) (by omega) ahead₁.waiting packing₁ (Or.inl next) fun _ => next
      refine ⟨c', packs', current', ?_, by simpa using packing', final, ?_⟩
      · rw [Compaction.compressFrom, found, Option.bind_some, visited, Option.bind_some]
        exact run
      · rw [log', log, List.append_assoc]
        rfl

end Loops

theorem compaction_spec (marked : Nat → Bool) {h : Paging β} {layouts : List (List (Block β))} (nonempty : h.pages ≠ [])
    (few : h.pages.length ≤ 2 ^ 32) (filled : List.Forall₂ (Filled h.store) h.pages layouts)
    (inside : ∀ page ∈ h.pages, page.offset ≤ capacity)
    (nodup : (h.workPage.buffer :: h.pages.map Page.buffer).Nodup) :
    ∃ c, h.compaction capacity marked = some c ∧
      c.visited = allAddresses h.pages layouts ∧ (∀ s ∈ c.swaps, s.1 < s.2) ∧ c.recyclePage < h.pages.length ∧
      c.recyclePage + 1 = (pack capacity marked [] layouts.flatten).length ∧
      List.Forall₂ (Filled c.store) (c.pages.take (c.recyclePage + 1)) (pack capacity marked [] layouts.flatten) ∧
      ((layouts.flatten.map Block.node).Nodup →
        List.Forall₂ (fun page => Pointed c.ptr page.buffer 0) (c.pages.take (c.recyclePage + 1))
          (pack capacity marked [] layouts.flatten)) ∧
      c.disposed = h.disposed ++ layouts.flatten.filter (fun b => !marked b.node) ∧
      c.pages.length = h.pages.length ∧ c.buffers = h.buffers ∧ c.workPage ∈ h.pages ∧
      (h.workPage.buffer :: h.pages.map Page.buffer).Perm (c.workPage.buffer :: c.pages.map Page.buffer) := by
  let c₀ : Compaction β := { h with workPage := h.workPage.reset, recyclePage := 0, visited := [], swaps := [] }
  have start : Packing capacity marked h c₀ [] [] [] layouts.flatten :=
    ⟨rfl, rfl, fun _ _ => rfl, nodup, .refl _, rfl, .nil, rfl, rfl, fun _ => ⟨.nil, True.intro⟩, by simp [c₀], by simp [c₀]⟩
  have size : 0 < h.pages.length := List.length_pos_iff.mpr nonempty
  obtain ⟨c, packs, current, run, packing, final, log⟩ :=
    compressFrom_packing 0 h.pages.length (Nat.zero_add _) filled start
      (Or.inr ⟨rfl, Nat.zero_le _⟩) (fun impossible => absurd impossible (Nat.lt_irrefl 0)) few inside
  have recycled := final size
  obtain ⟨page, found, swapped, shuffled, closed⟩ := packing.swapOut recycled
  let c' : Compaction β := { c with pages := c.pages.set c.recyclePage c.workPage, workPage := page }
  have compacted : h.compaction capacity marked = some c' := by
    simp only [Paging.compaction, Option.bind_eq_bind]
    exact (congrArg (Option.bind · Compaction.swapOut) run).trans swapped
  have result : packs ++ [current] = pack capacity marked [] layouts.flatten := by
    have same := packing.same
    rwa [pack, List.append_nil, List.nil_append] at same
  have kept : c'.pages.take (c'.recyclePage + 1) = c.pages.take c.recyclePage ++ [c.workPage] := closed
  refine ⟨c', compacted, by simpa [c', c₀] using log, packing.swaps, recycled, ?_, ?_, ?_, by simpa using packing.disposed,
    by simpa [c'] using packing.length, packing.malloc, ?_, packing.shuffled.trans shuffled⟩
  · rw [← result, List.length_append, ← packing.count]
    rfl
  · rw [kept, ← result]
    exact List.rel_append packing.filled (.cons packing.work .nil)
  · intro distinct
    obtain ⟨done, work⟩ := packing.pointed (by simpa using distinct)
    rw [kept, ← result]
    exact List.rel_append done (.cons work .nil)
  · have original := packing.untouched c.recyclePage (Nat.le_refl _)
    rw [found] at original
    exact List.mem_of_getElem? original.symm

section Addresses

theorem addresses_bound {buffer start : Nat} {blocks : List (Block β)} {a : Nat × Nat}
    (member : a ∈ addresses buffer start blocks) : a.1 = buffer ∧ start ≤ a.2 := by
  induction blocks generalizing start with
  | nil => simp [addresses] at member
  | cons b rest ih =>
      rcases List.mem_cons.mp member with rfl | later
      · exact ⟨rfl, Nat.le_refl _⟩
      · have below := ih later
        exact ⟨below.1, by omega⟩

theorem addresses_nodup (buffer start : Nat) (blocks : List (Block β)) : (addresses buffer start blocks).Nodup := by
  induction blocks generalizing start with
  | nil => exact List.nodup_nil
  | cons b rest ih =>
      refine List.nodup_cons.mpr ⟨fun member => ?_, ih _⟩
      have below := (addresses_bound member).2
      have positive := b.size_pos
      simp only at below
      omega

theorem allAddresses_buffer {pages : List Page} {layouts : List (List (Block β))} {a : Nat × Nat}
    (member : a ∈ allAddresses pages layouts) : a.1 ∈ pages.map Page.buffer := by
  induction pages generalizing layouts with
  | nil => simp [allAddresses] at member
  | cons page pages ih =>
      cases layouts with
      | nil => simp [allAddresses] at member
      | cons blocks layouts =>
          rcases List.mem_append.mp member with here | later
          · simp [(addresses_bound here).1]
          · exact List.mem_cons_of_mem _ (ih later)

theorem allAddresses_nodup {pages : List Page} (distinct : (pages.map Page.buffer).Nodup)
    (layouts : List (List (Block β))) : (allAddresses pages layouts).Nodup := by
  induction pages generalizing layouts with
  | nil => simp [allAddresses]
  | cons page pages ih =>
      cases layouts with
      | nil => simp [allAddresses]
      | cons blocks layouts =>
          obtain ⟨fresh, distinct⟩ := List.nodup_cons.mp distinct
          refine List.nodup_append.mpr ⟨addresses_nodup _ _ _, ih distinct layouts, ?_⟩
          rintro a here b later rfl
          exact fresh ((addresses_bound here).1 ▸ allAddresses_buffer later)

end Addresses

theorem compress_exact (marked : Nat → Bool) {h : Paging β} {layouts : List (List (Block β))} (nonempty : h.pages ≠ [])
    (few : h.pages.length < 2 ^ 32) (filled : List.Forall₂ (Filled h.store) h.pages layouts)
    (inside : ∀ page ∈ h.pages, page.offset ≤ capacity)
    (buffers : (h.workPage.buffer :: h.pages.map Page.buffer).Nodup)
    (nodes : (layouts.flatten.map Block.node).Nodup) :
    ∃ c h' packed, h.compaction capacity marked = some c ∧ h.compress capacity marked = some h' ∧
      c.visited = allAddresses h.pages layouts ∧ c.visited.Nodup ∧
      (∀ s ∈ c.swaps, s.1 < s.2) ∧ c.recyclePage < h.pages.length ∧
      List.Forall₂ (Filled h'.store) h'.pages packed ∧
      packed.flatten = layouts.flatten.filter (fun b => marked b.node) ∧
      List.Forall₂ (fun page => Pointed h'.ptr page.buffer 0) h'.pages packed ∧
      h'.disposed = h.disposed ++ layouts.flatten.filter (fun b => !marked b.node) := by
  obtain ⟨c, compacted, visited, swaps, recycled, -, result, pointed, disposed, -⟩ :=
    compaction_spec marked nonempty (Nat.le_of_lt few) filled inside buffers
  have counted : (c.recyclePage + 1) % 2 ^ 32 = c.recyclePage + 1 := Nat.mod_eq_of_lt (by omega)
  refine ⟨c, { c.toPaging with pages := c.pages.take (c.recyclePage + 1) }, pack capacity marked [] layouts.flatten,
    compacted, by rw [Paging.compress, compacted, Option.map_some, counted], visited, ?_, swaps, recycled, result, ?_,
    pointed nodes, disposed⟩
  · rw [visited]
    exact allAddresses_nodup (List.nodup_cons.mp buffers).2 layouts
  · rw [pack_flatten, List.nil_append]

def smallBlock (node : Nat) : Block Unit :=
  { length := 8, node, destructor := 0, payload := (), aligned := by decide, small := by decide }

-- Pages of one block each, for which they are just large enough.
def crowded (count : Nat) : Paging Unit where
  store := fun buffer offset => if offset = 0 then some (smallBlock buffer) else none
  workPage := { buffer := count, offset := 0 }
  pages := (List.range count).map fun buffer => { buffer, offset := 40 }
  buffers := count + 1
  ptr := fun _ => none
  disposed := []

def crowdedLayouts (count : Nat) : List (List (Block Unit)) := (List.range count).map fun node => [smallBlock node]

theorem crowded_filled (count : Nat) :
    List.Forall₂ (Filled (crowded count).store) (crowded count).pages (crowdedLayouts count) := by
  refine List.forall₂_map_left_iff.mpr (List.forall₂_map_right_iff.mpr (List.forall₂_same.mpr ?_))
  intro buffer _
  exact ⟨by simp [crowded], rfl⟩

theorem crowded_buffers (count : Nat) :
    ((crowded count).workPage.buffer :: (crowded count).pages.map Page.buffer).Nodup := by
  have buffers : (crowded count).pages.map Page.buffer = List.range count := by
    simp [crowded, Function.comp_def]
  rw [buffers]
  exact List.nodup_cons.mpr ⟨by simp [crowded], List.nodup_range⟩

theorem crowded_blocks (count : Nat) : (crowdedLayouts count).flatten = (List.range count).map smallBlock := by
  rw [crowdedLayouts]
  induction List.range count with
  | nil => rfl
  | cons node rest ih => rw [List.map_cons, List.flatten_cons, ih, List.map_cons, List.singleton_append]

theorem crowded_inside (count : Nat) : ∀ page ∈ (crowded count).pages, page.offset ≤ 48 := by
  intro page member
  obtain ⟨buffer, -, rfl⟩ := List.mem_map.mp member
  exact Nat.le_of_ble_eq_true rfl

theorem crowded_pack (nodes : List Nat) {current : List (Block Unit)} (full : total current = 40) :
    (pack 48 (fun _ => true) current (nodes.map smallBlock)).length = nodes.length + 1 := by
  induction nodes generalizing current with
  | nil => rfl
  | cons node rest ih =>
      have closed : ¬ 48 > total current + (smallBlock node).length := by
        rw [full, show (smallBlock node).length = 8 from rfl]
        decide
      rw [List.map_cons, pack, if_neg closed, List.length_cons, if_pos rfl, ih rfl]
      rfl

-- Of three pages the middle block is not marked: the work page is swapped out once, and two pages are left.
theorem compress_exact_crowded :
    ∃ c h' packed, (crowded 3).compaction 48 (· != 1) = some c ∧ (crowded 3).compress 48 (· != 1) = some h' ∧
      c.visited = [(0, 0), (1, 0), (2, 0)] ∧ c.swaps = [(0, 1)] ∧ h'.pages.map Page.buffer = [3, 0] ∧
      List.Forall₂ (Filled h'.store) h'.pages packed ∧ packed.flatten = [smallBlock 0, smallBlock 2] ∧
      h'.disposed = [smallBlock 1] := by
  obtain ⟨c, h', packed, compacted, ran, visited, -, -, -, filled, kept, -, disposed⟩ :=
    compress_exact (· != 1) (by decide) (by decide) (crowded_filled 3) (crowded_inside 3) (crowded_buffers 3) (by decide)
  have swaps : ((crowded 3).compaction 48 (· != 1)).map Compaction.swaps = some [(0, 1)] := by decide
  have pages : ((crowded 3).compress 48 (· != 1)).map (fun h => h.pages.map Page.buffer) = some [3, 0] := by decide
  rw [compacted] at swaps
  rw [ran] at pages
  exact ⟨c, h', packed, compacted, ran, visited, Option.some.inj swaps, Option.some.inj pages, filled, kept, disposed⟩

/-- With 2^32 pages `recycle_page + 1` wraps to zero, and the resize drops every page. -/
theorem crowded_dropped :
    (crowded (2 ^ 32)).pages ≠ [] ∧ (crowdedLayouts (2 ^ 32)).flatten ≠ [] ∧
      List.Forall₂ (Filled (crowded (2 ^ 32)).store) (crowded (2 ^ 32)).pages (crowdedLayouts (2 ^ 32)) ∧
      (∀ page ∈ (crowded (2 ^ 32)).pages, page.offset ≤ 48) ∧
      ((crowded (2 ^ 32)).workPage.buffer :: (crowded (2 ^ 32)).pages.map Page.buffer).Nodup ∧
      ((crowdedLayouts (2 ^ 32)).flatten.map Block.node).Nodup ∧
      ∃ h', (crowded (2 ^ 32)).compress 48 (fun _ => true) = some h' ∧ h'.pages = [] := by
  have size : (crowded (2 ^ 32)).pages.length = 2 ^ 32 := by simp [crowded]
  have nonempty : (crowded (2 ^ 32)).pages ≠ [] := by
    intro none'
    rw [none'] at size
    simp at size
  have blocks := crowded_blocks (2 ^ 32)
  obtain ⟨c, compacted, -, -, -, counted, -⟩ := compaction_spec (fun _ => true) nonempty
    (Nat.le_of_eq size) (crowded_filled (2 ^ 32)) (crowded_inside (2 ^ 32)) (crowded_buffers (2 ^ 32))
  have pages : (pack 48 (fun _ => true) [] (crowdedLayouts (2 ^ 32)).flatten).length = 2 ^ 32 := by
    rw [blocks, List.range_eq_range', show 2 ^ 32 = (2 ^ 32 - 1) + 1 by decide, List.range'_succ, List.map_cons, pack,
      if_pos (by decide), if_pos rfl, crowded_pack _ rfl]
    simp
  refine ⟨nonempty, ?_, crowded_filled _, crowded_inside _, crowded_buffers _, ?_, ?_⟩
  · rw [blocks]
    simp
  · rw [blocks, List.map_map]
    rw [show Block.node ∘ smallBlock = id from rfl, List.map_id]
    exact List.nodup_range
  · refine ⟨_, by rw [Paging.compress, compacted, Option.map_some], ?_⟩
    rw [counted, pages]
    rfl

end PrototypeBundle.HeapPages
