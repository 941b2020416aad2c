import PrototypeBundle.HeapPages.Capacity

set_option autoImplicit false

namespace PrototypeBundle.HeapPages

open Memory

variable {β : Type} {capacity : Nat} {h : Paging β} {blocks : List (Block β)}

-- The block whose payload `obj.ptr` of the node points to.
def Paging.read (h : Paging β) (node : Nat) : Option (Block β) :=
  (h.ptr node).bind fun (buffer, begin') => h.store buffer (begin' - headerSize)

def Paging.put (h : Paging β) (node : Nat) (payload : β) : Option (Paging β) := do
  let (buffer, begin') ← h.ptr node
  let block ← h.store buffer (begin' - headerSize)
  return { h with
    store := Function.update h.store buffer
      (Function.update (h.store buffer) (begin' - headerSize) (some { block with payload })) }

/-- The pages hold `blocks`, in the order of the pages, and the nodes of these point there. -/
structure Paging.Holds (capacity : Nat) (h : Paging β) (blocks : List (Block β)) : Prop where
  wellFormed : h.WellFormed
  inside : h.Inside capacity
  layout : ∃ layouts, layouts.flatten = blocks ∧ List.Forall₂ (Filled h.store) h.pages layouts ∧
    List.Forall₂ (fun page => Pointed h.ptr page.buffer 0) h.pages layouts
  nodes : (blocks.map Block.node).Nodup

theorem paging_holds : (paging : Paging β).Holds capacity [] where
  wellFormed := (@paging_wellFormed β capacity).1
  inside := paging_wellFormed.2
  layout := ⟨[[]], rfl, .cons rfl .nil, .cons True.intro .nil⟩
  nodes := List.nodup_nil

section Read

variable {store : Store β} {ptr : Nat → Option (Nat × Nat)} {buffer : Nat}

theorem Pointed.found {start last : Nat} {page : List (Block β)} (pointed : Pointed ptr buffer start page)
    (laid : Laid store buffer start page last) {b : Block β} (member : b ∈ page) :
    ∃ offset, ptr b.node = some (buffer, offset + headerSize) ∧ store buffer offset = some b := by
  induction page generalizing start with
  | nil => cases member
  | cons first rest ih =>
      rcases List.mem_cons.mp member with rfl | later
      · exact ⟨start, pointed.1, laid.1⟩
      · exact ih pointed.2 laid.2 later

theorem Paging.Holds.found (holds : h.Holds capacity blocks) {b : Block β} (member : b ∈ blocks) :
    ∃ buffer offset, h.ptr b.node = some (buffer, offset + headerSize) ∧ h.store buffer offset = some b := by
  obtain ⟨layouts, rfl, filled, pointed⟩ := holds.layout
  obtain ⟨page, inside, member⟩ := List.mem_flatten.mp member
  obtain ⟨k, position, rfl⟩ := List.mem_iff_getElem.mp inside
  have bound : k < h.pages.length := filled.length_eq ▸ position
  obtain ⟨offset, known, found⟩ :=
    Pointed.found (pointed.get bound position) (filled.get bound position) member
  exact ⟨_, offset, known, found⟩

theorem Paging.Holds.read (holds : h.Holds capacity blocks) {b : Block β} (member : b ∈ blocks) :
    h.read b.node = some b := by
  obtain ⟨buffer, offset, known, found⟩ := holds.found member
  simp [Paging.read, known, found]

end Read

section Put

variable {store store' : Store β} {ptr : Nat → Option (Nat × Nat)} {buffer : Nat} {change : Block β → Block β}

theorem Laid.map {start last : Nat} {page : List (Block β)} (laid : Laid store buffer start page last)
    (pointed : Pointed ptr buffer start page) (size : ∀ b, (change b).size = b.size)
    (changed : ∀ offset, ∀ b ∈ page, ptr b.node = some (buffer, offset + headerSize) → store buffer offset = some b →
      store' buffer offset = some (change b)) :
    Laid store' buffer start (page.map change) last := by
  induction page generalizing start with
  | nil => exact laid
  | cons b rest ih =>
      refine ⟨changed start b List.mem_cons_self pointed.1 laid.1, ?_⟩
      rw [size]
      exact ih laid.2 pointed.2 fun offset b' member => changed offset b' (List.mem_cons_of_mem _ member)

theorem Pointed.map {start : Nat} {page : List (Block β)} (pointed : Pointed ptr buffer start page)
    (size : ∀ b, (change b).size = b.size) (node : ∀ b, (change b).node = b.node) :
    Pointed ptr buffer start (page.map change) := by
  induction page generalizing start with
  | nil => exact True.intro
  | cons b rest ih =>
      refine ⟨(node b).symm ▸ pointed.1, ?_⟩
      rw [size]
      exact ih pointed.2

def Block.overwrite (node : Nat) (payload : β) (b : Block β) : Block β := if b.node = node then { b with payload } else b

theorem Block.overwrite_node (node : Nat) (payload : β) (b : Block β) : (b.overwrite node payload).node = b.node := by
  unfold Block.overwrite
  split <;> rfl

theorem Block.overwrite_size (node : Nat) (payload : β) (b : Block β) : (b.overwrite node payload).size = b.size := by
  unfold Block.overwrite
  split <;> rfl

theorem Paging.Holds.put (holds : h.Holds capacity blocks) {b : Block β} (member : b ∈ blocks) (payload : β) :
    ∃ next, h.put b.node payload = some next ∧ next.Holds capacity (blocks.map (Block.overwrite b.node payload)) ∧
      next.disposed = h.disposed ∧ next.pages = h.pages := by
  obtain ⟨buffer, offset, known, found⟩ := holds.found member
  obtain ⟨layouts, rfl, filled, pointed⟩ := holds.layout
  let store' := Function.update h.store buffer (Function.update (h.store buffer) offset (some { b with payload }))
  have changed (other at' : Nat) (b' : Block β) (known' : h.ptr b'.node = some (other, at' + headerSize))
      (found' : h.store other at' = some b') : store' other at' = some (b'.overwrite b.node payload) := by
    by_cases same : b'.node = b.node
    · rw [same, known, Option.some.injEq, Prod.mk.injEq] at known'
      obtain rfl := known'.1
      obtain rfl : offset = at' := Nat.add_right_cancel known'.2
      obtain rfl := Option.some.inj (found.symm.trans found')
      simp [store', Block.overwrite]
    · -- another block lies in another place
      have apart : ¬ (other = buffer ∧ at' = offset) := by
        rintro ⟨rfl, rfl⟩
        exact same (congrArg Block.node (Option.some.inj (found'.symm.trans found)))
      rw [Block.overwrite, if_neg same, ← found']
      by_cases sameBuffer : other = buffer
      · subst sameBuffer
        simp [store', show at' ≠ offset from fun equal => apart ⟨rfl, equal⟩]
      · simp [store', sameBuffer]
  have nodes : (layouts.flatten.map (Block.overwrite b.node payload)).map Block.node = layouts.flatten.map Block.node := by
    rw [List.map_map]
    exact List.map_congr_left fun b' _ => Block.overwrite_node ..
  have filled' : List.Forall₂ (Filled store') h.pages (layouts.map (List.map (Block.overwrite b.node payload))) := by
    rw [List.forall₂_map_right_iff]
    refine List.Forall₂.mp (fun page _ filled pointed => ?_) filled pointed
    exact Laid.map filled pointed (fun _ => Block.overwrite_size ..) fun at' b' _ => changed page.buffer at' b'
  refine ⟨{ h with store := store' }, ?_, ⟨⟨⟨_, filled'⟩, holds.wellFormed.nonempty, holds.wellFormed.nodup,
    holds.wellFormed.allocated⟩, holds.inside, ⟨_, List.map_flatten.symm, filled', ?_⟩, nodes ▸ holds.nodes⟩, rfl, rfl⟩
  · simp [Paging.put, known, found, store']
  · rw [List.forall₂_map_right_iff]
    exact forall₂_of_mem pointed fun page _ blocks _ pointed' =>
      pointed'.map (fun _ => Block.overwrite_size ..) fun _ => Block.overwrite_node ..

end Put

section Grow

theorem Paging.Holds.grow (holds : h.Holds capacity blocks) :
    ({ h with pages := h.pages ++ [{ buffer := h.buffers, offset := 0 }], buffers := h.buffers + 1 } : Paging β).Holds
      capacity blocks where
  wellFormed := holds.wellFormed.grow
  inside := by
    intro page member
    rcases List.mem_cons.mp member with rfl | member
    · exact holds.inside _ List.mem_cons_self
    · rcases List.mem_append.mp member with old | new
      · exact holds.inside page (List.mem_cons_of_mem _ old)
      · obtain rfl := List.mem_singleton.mp new
        exact Nat.zero_le _
  layout := by
    obtain ⟨layouts, rfl, filled, pointed⟩ := holds.layout
    exact ⟨layouts ++ [[]], by simp, List.rel_append filled (.cons rfl .nil),
      List.rel_append pointed (.cons True.intro .nil)⟩
  nodes := holds.nodes

theorem Paging.Holds.append (holds : h.Holds capacity blocks) {front : List Page} {back : Page}
    (last : h.pages = front ++ [back]) {b : Block β} (fresh : b.node ∉ blocks.map Block.node)
    (fits : back.offset + b.size ≤ capacity) :
    ({ h with
        store := h.store.write back.buffer back.offset b
        pages := front ++ [{ back with offset := back.offset + b.size }]
        ptr := Function.update h.ptr b.node (some (back.buffer, back.offset + headerSize)) } : Paging β).Holds
      capacity (blocks ++ [b]) := by
  have wellFormed := holds.wellFormed.append last b (Function.update h.ptr b.node (some (back.buffer, back.offset + headerSize)))
  refine ⟨wellFormed, ?_, ?_, ?_⟩
  · have older (page : Page) (member : page ∈ h.workPage :: front) : page.offset ≤ capacity :=
      holds.inside page (by rw [last]; simp only [List.mem_cons, List.mem_append] at member ⊢; tauto)
    intro page member
    simp only [List.mem_cons, List.mem_append, List.not_mem_nil, or_false] at member
    rcases member with rfl | old | rfl
    · exact older _ List.mem_cons_self
    · exact older page (List.mem_cons_of_mem _ old)
    · exact fits
  · obtain ⟨layouts, rfl, filled, pointed⟩ := holds.layout
    have buffers := holds.wellFormed.nodup
    rw [last] at filled pointed buffers
    obtain ⟨early, tail, rfl, done, rest⟩ := forall₂_append_left filled
    obtain ⟨page, none', here, empty, rfl⟩ := List.forall₂_cons_left_iff.mp rest
    cases empty
    obtain ⟨early', tail, same, done', rest'⟩ := forall₂_append_left pointed
    obtain ⟨rfl, rfl⟩ := List.append_inj same (done.length_eq.symm.trans done'.length_eq)
    obtain ⟨here', -⟩ := List.forall₂_cons.mp rest'
    have apart (other : Page) (member : other ∈ front) : other.buffer ≠ back.buffer := by
      intro equal
      rw [List.map_append, List.nodup_cons, List.nodup_append] at buffers
      exact buffers.2.2.2 other.buffer (List.mem_map_of_mem member) back.buffer (by simp) equal
    have others (b' : Block β) (member : b' ∈ (early ++ [page]).flatten) :
        Function.update h.ptr b.node (some (back.buffer, back.offset + headerSize)) b'.node = h.ptr b'.node :=
      Function.update_of_ne (fun equal => fresh (List.mem_map.mpr ⟨b', member, equal⟩)) _ _
    refine ⟨early ++ [page ++ [b]], by simp, List.rel_append ?_ (.cons (Laid.write here) .nil),
      List.rel_append ?_ (.cons ?_ .nil)⟩
    · exact forall₂_of_mem done fun other member _ _ filled => Laid.write_other filled (apart other member)
    · refine forall₂_of_mem done' fun other _ page' member pointed => pointed.congr fun b' inside => others b' ?_
      exact List.mem_flatten_of_mem (List.mem_append_left _ member) inside
    · refine Pointed.concat (here'.congr fun b' inside => others b' ?_) here (Function.update_self ..)
      exact List.mem_flatten_of_mem (by simp) inside
  · rw [List.map_append, List.nodup_append]
    refine ⟨holds.nodes, by simp, fun x left y right => ?_⟩
    obtain rfl : y = b.node := by simpa using right
    rintro rfl
    exact fresh left

theorem Paging.Holds.allocate (holds : h.Holds capacity blocks) {length : Nat} (node destructor : Nat) (payload : β)
    (small : length < 2 ^ 32) (fits : headerSize + (length + 7) / 8 * 8 ≤ capacity)
    (placed : ∀ back, h.pages.getLast? = some back → ¬ Overhangs capacity back.offset length)
    (fresh : node ∉ blocks.map Block.node) :
    ∃ next b, h.allocate capacity length node destructor payload = some next ∧ next.Holds capacity (blocks ++ [b]) ∧
      b.node = node ∧ b.destructor = destructor ∧ b.payload = payload ∧
      next.disposed = h.disposed := by
  obtain ⟨front, back, last⟩ : ∃ front back, h.pages = front ++ [back] :=
    ⟨_, _, (List.dropLast_append_getLast holds.wellFormed.nonempty).symm⟩
  have found : h.pages.getLast? = some back := by simp [last]
  let b : Block β :=
    { length := alignLength length 8, node, destructor, payload, aligned := alignLength_dvd length, small := alignLength_lt length }
  have size : b.size = headerSize + alignLength length 8 := rfl
  by_cases room : back.hasCapacity capacity length
  · have roomy : capacity > back.offset + length := room
    have bounded : back.offset + b.size ≤ capacity := by
      have notOver := placed back found
      rw [Overhangs, ← size] at notOver
      omega
    refine ⟨_, b, ?_, holds.append last fresh bounded, rfl, rfl, rfl, rfl⟩
    simp [Paging.allocate, Page.allocate, last, room, size, Nat.add_comm headerSize, b]
  · have shorter : alignLength length 8 ≤ (length + 7) / 8 * 8 := by
      unfold alignLength
      omega
    have bounded : 0 + b.size ≤ capacity := by omega
    refine ⟨_, b, ?_, holds.grow.append rfl fresh bounded, rfl, rfl, rfl, rfl⟩
    simp [Paging.allocate, Page.allocate, found, room, size, Nat.add_comm headerSize, b]

end Grow

theorem Paging.Holds.clear (holds : h.Holds capacity blocks) :
    ({ h with disposed := [] } : Paging β).Holds capacity blocks where
  wellFormed := ⟨holds.wellFormed.filled, holds.wellFormed.nonempty, holds.wellFormed.nodup, holds.wellFormed.allocated⟩
  inside := holds.inside
  layout := holds.layout
  nodes := holds.nodes

theorem Paging.Holds.compress (holds : h.Holds capacity blocks) (marked : Nat → Bool) (counted : h.pages.length < 2 ^ 32)
    (placed : ¬ Overruns capacity marked 0 blocks) :
    ∃ next, h.compress capacity marked = some next ∧ next.Holds capacity (blocks.filter fun b => marked b.node) ∧
      next.disposed = h.disposed ++ blocks.filter fun b => !marked b.node := by
  obtain ⟨layouts, rfl, filled, pointed⟩ := holds.layout
  have pagesInside (page : Page) (member : page ∈ h.pages) : page.offset ≤ capacity :=
    holds.inside page (List.mem_cons_of_mem _ member)
  obtain ⟨next, compressed, wellFormed, inside⟩ := Paging.compress_spec holds.wellFormed holds.inside marked counted
  obtain ⟨c, next', packed, -, compressed', -, -, -, -, filled', kept, pointed', disposed⟩ :=
    compress_exact marked holds.wellFormed.nonempty counted filled pagesInside holds.wellFormed.nodup holds.nodes
  obtain rfl := Option.some.inj (compressed.symm.trans compressed')
  refine ⟨next, compressed, ⟨wellFormed, inside.mpr fun layouts' filled'' => ?_, ⟨packed, kept, filled', pointed'⟩, ?_⟩, disposed⟩
  · rwa [filled_rightUnique _ filled'' filled]
  · exact holds.nodes.sublist (List.filter_sublist.map _)

end PrototypeBundle.HeapPages
