import PrototypeBundle.Memory.NodeChain
import Mathlib.Algebra.Group.Nat.Defs

set_option autoImplicit false

/-!
# `memory::page` and `memory::paging`

A page is a buffer that is filled with blocks from its start. The memory maps the
address of a header to the block behind it.
-/

namespace PrototypeBundle.HeapPages

open Memory

variable {β : Type}

-- On `page_length`, that is on 32 bits.
def alignLength (length alignment : Nat) : Nat := (length + alignment - 1) % 2 ^ 32 / alignment * alignment

def headerSize : Nat := 32

theorem alignLength_dvd (length : Nat) : 8 ∣ alignLength length 8 := Nat.dvd_mul_left 8 _

theorem alignLength_lt (length : Nat) : alignLength length 8 < 2 ^ 32 := by
  unfold alignLength
  omega

theorem alignLength_aligned {length : Nat} (aligned : 8 ∣ length) (small : length < 2 ^ 32) :
    alignLength length 8 = length := by
  unfold alignLength
  omega

-- A header and what it heads; only `page::allocate` writes `length`, and it aligns it.
structure Block (β : Type) where
  length : Nat
  node : Nat
  destructor : Nat
  payload : β
  aligned : 8 ∣ length
  small : length < 2 ^ 32
  deriving DecidableEq

def Block.size (b : Block β) : Nat := headerSize + b.length

theorem Block.size_pos (b : Block β) : 0 < b.size := by
  unfold Block.size headerSize
  omega

structure Page where
  buffer : Nat
  offset : Nat
  deriving DecidableEq, Repr

def Page.reset (p : Page) : Page := { p with offset := 0 }

def Page.hasCapacity (capacity : Nat) (p : Page) (length : Nat) : Prop := capacity > p.offset + length

instance (capacity : Nat) (p : Page) (length : Nat) : Decidable (p.hasCapacity capacity length) :=
  inferInstanceAs (Decidable (_ > _))

def Page.empty (p : Page) : Prop := p.offset = 0

instance (p : Page) : Decidable p.empty := inferInstanceAs (Decidable (_ = _))

-- Headers by buffer and offset.
abbrev Store (β : Type) := Nat → Nat → Option (Block β)

def Overlap (from₁ size₁ from₂ size₂ : Nat) : Prop := from₁ < from₂ + size₂ ∧ from₂ < from₁ + size₁

instance (from₁ size₁ from₂ size₂ : Nat) : Decidable (Overlap from₁ size₁ from₂ size₂) :=
  inferInstanceAs (Decidable (_ ∧ _))

/-- Writing a block destroys the blocks whose bytes it takes. -/
def Store.write (store : Store β) (buffer offset : Nat) (b : Block β) : Store β :=
  fun other at' =>
    if other = buffer then
      if at' = offset then some b
      else (store other at').filter fun old => !decide (Overlap at' old.size offset b.size)
    else store other at'

structure Paging (β : Type) where
  store : Store β
  workPage : Page
  pages : List Page
  -- The buffers that `malloc` has given out so far are those below.
  buffers : Nat
  -- `obj.ptr` of the nodes: buffer and offset of the payload.
  ptr : Nat → Option (Nat × Nat)
  disposed : List (Block β)

-- `page::allocate`, with what its caller puts into the header and behind it.
def Page.allocate (p : Page) (store : Store β) (length node destructor : Nat) (payload : β) : Nat × Page × Store β :=
  let length' := alignLength length 8
  let b : Block β :=
    { length := length', node, destructor, payload, aligned := alignLength_dvd length, small := alignLength_lt length }
  (p.offset, { p with offset := p.offset + (length' + headerSize) }, store.write p.buffer p.offset b)

def Page.moveAllocated (p : Page) (store : Store β) (header : Block β) : Nat × Page × Store β :=
  p.allocate store header.length header.node header.destructor header.payload

def paging : Paging β where
  store := fun _ _ => none
  workPage := { buffer := 0, offset := 0 }
  pages := [{ buffer := 1, offset := 0 }]
  buffers := 2
  ptr := fun _ => none
  disposed := []

-- `allocate` and what `collector::allocate` does with the header.
def Paging.allocate (capacity : Nat) (h : Paging β) (length node destructor : Nat) (payload : β) : Option (Paging β) := do
  let back ← h.pages.getLast?
  let h := if back.hasCapacity capacity length then h
    else { h with pages := h.pages ++ [{ buffer := h.buffers, offset := 0 }], buffers := h.buffers + 1 }
  let back ← h.pages.getLast?
  let (alloc, back, store) := back.allocate h.store length node destructor payload
  return { h with
    store, pages := h.pages.dropLast ++ [back]
    ptr := Function.update h.ptr node (some (back.buffer, alloc + headerSize)) }

/-- `compress` while it runs: the index it counts in `recycle_page`, the addresses it has
visited, and the pages that were swapped out with the index of the page visited then. -/
structure Compaction (β : Type) extends Paging β where
  recyclePage : Nat
  visited : List (Nat × Nat)
  swaps : List (Nat × Nat)

-- `std::swap (pages [recycle_page], work_page)`
def Compaction.swapOut (c : Compaction β) : Option (Compaction β) :=
  c.pages[c.recyclePage]?.map fun page =>
    { c with pages := c.pages.set c.recyclePage c.workPage, workPage := page }

-- Swaps the work page out when it handles no more blocks.
def Compaction.makeRoom (capacity index length : Nat) (c : Compaction β) : Option (Compaction β) :=
  if c.workPage.hasCapacity capacity length then some c
  else c.swapOut.map fun swapped =>
    { swapped with
      workPage := swapped.workPage.reset
      recyclePage := (c.recyclePage + 1) % 2 ^ 32
      swaps := c.swaps ++ [(c.recyclePage, index)] }

def Compaction.settle (marked : Nat → Bool) (block : Block β) (c : Compaction β) : Compaction β :=
  if marked block.node then
    let (alloc, workPage, store) := c.workPage.moveAllocated c.store block
    { c with store, workPage, ptr := Function.update c.ptr block.node (some (workPage.buffer, alloc + headerSize)) }
  else { c with disposed := c.disposed ++ [block] }

-- The body of the inner loop for the block at `offset`; the answer starts with `next`.
def Compaction.visit (capacity : Nat) (marked : Nat → Bool) (index buffer offset : Nat) (c : Compaction β) :
    Option (Nat × Compaction β) := do
  let block ← c.store buffer offset
  let c ← c.makeRoom capacity index block.length
  let c := c.settle marked block
  let block ← c.store buffer offset
  return (offset + block.size, { c with visited := c.visited ++ [(buffer, offset)] })

-- The inner loop; a block takes at least one byte, so that `steps` bytes are enough.
def Compaction.visitFrom (capacity : Nat) (marked : Nat → Bool) (index buffer blockEnd : Nat) :
    Nat → Nat → Compaction β → Option (Compaction β)
  | 0, offset, c => if offset = blockEnd then some c else none
  | steps + 1, offset, c =>
      if offset = blockEnd then some c
      else (c.visit capacity marked index buffer offset).bind fun next =>
        visitFrom capacity marked index buffer blockEnd steps next.1 next.2

def Compaction.compressFrom (capacity : Nat) (marked : Nat → Bool) : Nat → Nat → Compaction β → Option (Compaction β)
  | 0, _, c => some c
  | rest + 1, index, c =>
      c.pages[index]?.bind fun page =>
        (if page.empty then some c
          else c.visitFrom capacity marked index page.buffer page.offset page.offset 0).bind fun c =>
            compressFrom capacity marked rest (index + 1) c

-- `compress` up to the resize, which keeps `recycle_page + 1` pages.
def Paging.compaction (capacity : Nat) (marked : Nat → Bool) (h : Paging β) : Option (Compaction β) := do
  let c : Compaction β := { h with workPage := h.workPage.reset, recyclePage := 0, visited := [], swaps := [] }
  let c ← c.compressFrom capacity marked h.pages.length 0
  c.swapOut

def Paging.compress (capacity : Nat) (marked : Nat → Bool) (h : Paging β) : Option (Paging β) :=
  (h.compaction capacity marked).map fun c => { c.toPaging with pages := c.pages.take ((c.recyclePage + 1) % 2 ^ 32) }

end PrototypeBundle.HeapPages
