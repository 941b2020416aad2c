import PrototypeBundle.Memory.NodeChain
import Mathlib.Data.List.Range

set_option autoImplicit false

/-!
# `static_ring_buffer`

A buffer is an object of the program; `none` as the result of an operation means
that a constructor or a destructor ran where it must not.
-/

namespace PrototypeBundle.Ring

open Memory

variable {α : Type}

/-- An element and the number of its construction. -/
structure Element (α : Type) where
  serial : Nat
  value : α
  deriving DecidableEq, Repr

structure StaticRingBuffer (α : Type) where
  data : Nat → Option (Element α)
  first : Nat
  count : Nat

/-- The buffers by address, the number of elements constructed so far, and the serial
numbers of those that have been destroyed. -/
structure World (α : Type) where
  buffers : Nat → StaticRingBuffer α
  constructed : Nat
  destroyed : List Nat

-- `details::aligned_ptr`
inductive AlignedPtr where
  | null
  | slot (object index : Nat)
  deriving DecidableEq, Repr

def AlignedPtr.add : AlignedPtr → Nat → AlignedPtr
  | null, _ => null
  | slot object index, n => slot object (index + n)

-- The move constructor swaps: the pointer it leaves behind is null.
def AlignedPtr.move (p : AlignedPtr) : AlignedPtr × AlignedPtr := (p, null)

def World.setData (w : World α) (object index : Nat) (element : Option (Element α)) : World α :=
  { w with
    buffers := modifyAt w.buffers object fun b => { b with data := Function.update b.data index element } }

section Elements

variable (capacity : Nat)

-- Placement new; the storage of a buffer has `capacity` slots.
def World.construct (w : World α) (p : AlignedPtr) (value : α) : Option (World α) :=
  match p with
  | .null => none
  | .slot object index =>
      if index < capacity ∧ (w.buffers object).data index = none then
        some { w.setData object index (some ⟨w.constructed, value⟩) with constructed := w.constructed + 1 }
      else none

def World.load (w : World α) (p : AlignedPtr) : Option α :=
  match p with
  | .null => none
  | .slot object index => if index < capacity then ((w.buffers object).data index).map Element.value else none

-- `p->~value_type()`
def World.destroy (w : World α) (p : AlignedPtr) : Option (World α) :=
  match p with
  | .null => none
  | .slot object index =>
      if index < capacity then
        ((w.buffers object).data index).map fun element =>
          { w.setData object index none with destroyed := w.destroyed ++ [element.serial] }
      else none

end Elements

section Buffer

variable (capacity : Nat)

def StaticRingBuffer.isFull (b : StaticRingBuffer α) : Prop := b.count = capacity

def StaticRingBuffer.empty (b : StaticRingBuffer α) : Prop := b.count = 0

def StaticRingBuffer.isFolded (b : StaticRingBuffer α) : Prop := b.first + b.count ≥ capacity

instance (b : StaticRingBuffer α) : Decidable (b.isFull capacity) := inferInstanceAs (Decidable (_ = _))
instance (b : StaticRingBuffer α) : Decidable b.empty := inferInstanceAs (Decidable (_ = _))
instance (b : StaticRingBuffer α) : Decidable (b.isFolded capacity) := inferInstanceAs (Decidable (_ ≥ _))

-- An array has fewer than 2^63 bytes, so that the sum does not wrap.
def StaticRingBuffer.transposeIndex (b : StaticRingBuffer α) (index : Nat) : Nat :=
  let offset := b.first + index
  if offset ≥ capacity then offset - capacity else offset

def World.at (w : World α) (object index : Nat) : AlignedPtr :=
  .slot object ((w.buffers object).transposeIndex capacity index)

-- `apply_range`; the argument is forwarded to each call of `func` in turn.
def World.applyRange {δ : Type} (w : World α) (object : Nat)
    (func : World α → AlignedPtr → AlignedPtr → δ → Option (World α)) (forward : δ → δ × δ) (args : δ) :
    Option (World α) :=
  if (w.buffers object).isFolded capacity then do
    let (passed, args) := forward args
    let w ← func w (w.at capacity object 0) (.slot object capacity) passed
    let (passed, _) := forward args
    func w (.slot object 0) (w.at capacity object (w.buffers object).count) passed
  else
    func w (w.at capacity object 0) (w.at capacity object (w.buffers object).count) (forward args).1

def AlignedPtr.distance : AlignedPtr → AlignedPtr → Nat
  | slot _ i, slot _ j => j - i
  | _, _ => 0

def World.destroyFrom (b : AlignedPtr) : Nat → World α → Option (World α)
  | 0, w => some w
  | n + 1, w => (w.destroy capacity b).bind (World.destroyFrom (b.add 1) n)

-- `destroy_range`, for elements that are not pointers.
def World.destroyRange (w : World α) (b e : AlignedPtr) (_ : Unit) : Option (World α) :=
  w.destroyFrom capacity b (b.distance e)

-- `std::uninitialized_copy` of `n` elements.
def World.uninitCopyFrom (b d : AlignedPtr) : Nat → World α → Option (World α)
  | 0, w => some w
  | n + 1, w =>
      (w.load capacity b).bind fun value =>
        (w.construct capacity d value).bind (World.uninitCopyFrom (b.add 1) (d.add 1) n)

def World.uninitCopyRange (w : World α) (b e d : AlignedPtr) : Option (World α) :=
  w.uninitCopyFrom capacity b d (b.distance e)

def World.setPosition (w : World α) (object first count : Nat) : World α :=
  { w with buffers := modifyAt w.buffers object fun b => { b with first, count } }

def World.destruct (w : World α) (object : Nat) : Option (World α) :=
  w.applyRange capacity object (World.destroyRange capacity) (fun args => (args, args)) ()

def World.assign (w : World α) (object origin : Nat) : Option (World α) := do
  let w ← w.applyRange capacity object (World.destroyRange capacity) (fun args => (args, args)) ()
  let w ← w.applyRange capacity origin (World.uninitCopyRange capacity) AlignedPtr.move (w.at capacity object 0)
  return w.setPosition object 0 (w.buffers origin).count

-- A buffer that is being constructed: raw storage and the member initialisers.
def World.fresh (w : World α) (object : Nat) : World α :=
  { w with buffers := Function.update w.buffers object { data := fun _ => none, first := 0, count := 0 } }

def World.copyConstruct (w : World α) (object origin : Nat) : Option (World α) :=
  (w.fresh object).assign capacity object origin

end Buffer

end PrototypeBundle.Ring
