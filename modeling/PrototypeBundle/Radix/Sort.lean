import Mathlib.Logic.Function.Basic
import Mathlib.Algebra.Group.Nat.Defs

set_option autoImplicit false

/-!
# The radix sorts of `proto`

A write outside of `swap` and an overflow of `int` have no defined result.
-/

namespace PrototypeBundle.Radix

abbrev RenderCommand := BitVec 64

def radixCount : Nat := 8

-- The byte at offset `radix` of an item in little-endian memory.
def byteAt (radix : Nat) (item : RenderCommand) : Nat := item.toNat / 256 ^ radix % 256

abbrev Histograph := Nat → Nat

def cleared : Histograph := fun _ => 0

def addUint32 (a b : Nat) : Option Nat := some ((a + b) % 2 ^ 32)

def addInt (a b : Nat) : Option Nat := if a + b < 2 ^ 31 then some (a + b) else none

section Passes

variable (add : Nat → Nat → Option Nat)

def hit (radix : Nat) (histograph : Histograph) (item : RenderCommand) : Option Histograph := do
  let count ← add (histograph (byteAt radix item)) 1
  return Function.update histograph (byteAt radix item) count

def hitCount (radix : Nat) : List RenderCommand → Histograph → Option Histograph
  | [], histograph => some histograph
  | item :: rest, histograph => do
      let histograph ← hit add radix histograph item
      hitCount radix rest histograph

-- The loop over the `count` entries from `b` on.
def offsets : Nat → Nat → Nat → Histograph → Option Histograph
  | 0, _, _, histograph => some histograph
  | count + 1, b, offset, histograph => do
      let next ← add offset (histograph b)
      offsets count (b + 1) next (Function.update histograph b offset)

def swapValues (radix : Nat) :
    List RenderCommand → Histograph → List RenderCommand → Option (Histograph × List RenderCommand)
  | [], histograph, swap => some (histograph, swap)
  | item :: rest, histograph, swap => do
      let index := histograph (byteAt radix item)
      let histograph ← hit add radix histograph item
      if index < swap.length then swapValues radix rest histograph (swap.set index item) else none

-- The body of the loop over `radix`: the new `items`, `swap` and `histograph`.
def pass (radix : Nat) (items swap : List RenderCommand) :
    Option (List RenderCommand × List RenderCommand × Histograph) := do
  let histograph ← hitCount add radix items cleared
  let histograph ← offsets add 256 0 0 histograph
  let (histograph, swap) ← swapValues add radix items histograph swap
  return (swap, items, histograph)

-- The loop over the `count` radices from `radix` on.
def sortRadix : Nat → Nat → List RenderCommand → List RenderCommand → Histograph →
    Option (List RenderCommand × List RenderCommand × Histograph)
  | 0, _, items, swap, histograph => some (items, swap, histograph)
  | count + 1, radix, items, swap, _ => do
      let (items, swap, histograph) ← pass add radix items swap
      sortRadix count (radix + 1) items swap histograph

end Passes

structure ReferenceRadix where
  swap : List RenderCommand
  histograph : Histograph

def ReferenceRadix.sort (r : ReferenceRadix) (items : List RenderCommand) :
    Option (List RenderCommand × ReferenceRadix) := do
  let (items, swap, histograph) ← sortRadix addUint32 radixCount 0 items r.swap r.histograph
  return (items, { swap, histograph })

-- `sort` with one vector after the other
def ReferenceRadix.sorts : ReferenceRadix → List (List RenderCommand) →
    Option (List (List RenderCommand) × ReferenceRadix)
  | r, [] => some ([], r)
  | r, items :: rest => do
      let (items, r) ← r.sort items
      let (sorted, r) ← ReferenceRadix.sorts r rest
      return (items :: sorted, r)

-- The inner loop of `sort_insert` from `j` down.
def insertDown : Nat → List RenderCommand → List RenderCommand
  | 0, items => items
  | j + 1, items =>
      match items[j]?, items[j + 1]? with
      | some left, some right =>
          if right.toNat < left.toNat then insertDown j ((items.set j right).set (j + 1) left) else items
      | _, _ => items

-- The outer loop of `sort_insert` with `count` rounds from `i` on.
def insertAll : Nat → Nat → List RenderCommand → List RenderCommand
  | 0, _, items => items
  | count + 1, i, items => insertAll count (i + 1) (insertDown i items)

def sortInsert (items : List RenderCommand) : List RenderCommand :=
  if items.length < 2 then items else insertAll (items.length - 1) 1 items

structure ShortcutRadix where
  swap : List RenderCommand
  histograph : Histograph

def ShortcutRadix.sort (r : ShortcutRadix) (items : List RenderCommand) :
    Option (List RenderCommand × ShortcutRadix) :=
  if items.length < 64 then some (sortInsert items, r)
  else do
    let (items, swap, histograph) ← sortRadix addInt radixCount 0 items r.swap r.histograph
    return (items, { swap, histograph })

structure PrecalcShortcutRadix where
  swap : List RenderCommand
  histograph : Nat → Histograph

-- The hits of one item for the `count` radices from `radix` on.
def hitAll : Nat → Nat → (Nat → Histograph) → RenderCommand → Option (Nat → Histograph)
  | 0, _, histograph, _ => some histograph
  | count + 1, radix, histograph, item => do
      let counted ← hit addInt radix (histograph radix) item
      hitAll count (radix + 1) (Function.update histograph radix counted) item

def precalc : List RenderCommand → (Nat → Histograph) → Option (Nat → Histograph)
  | [], histograph => some histograph
  | item :: rest, histograph => do
      let histograph ← hitAll radixCount 0 histograph item
      precalc rest histograph

-- The conversion of the histograms of the `count` radices from `radix` on.
def offsetsAll : Nat → Nat → (Nat → Histograph) → Option (Nat → Histograph)
  | 0, _, histograph => some histograph
  | count + 1, radix, histograph => do
      let indexes ← offsets addInt 256 0 0 (histograph radix)
      offsetsAll count (radix + 1) (Function.update histograph radix indexes)

-- The reordering passes of the `count` radices from `radix` on.
def reorder : Nat → Nat → List RenderCommand → List RenderCommand → (Nat → Histograph) →
    Option (List RenderCommand × List RenderCommand × (Nat → Histograph))
  | 0, _, items, swap, histograph => some (items, swap, histograph)
  | count + 1, radix, items, swap, histograph => do
      let (cursors, swap) ← swapValues addInt radix items (histograph radix) swap
      reorder count (radix + 1) swap items (Function.update histograph radix cursors)

def PrecalcShortcutRadix.sortRadix (r : PrecalcShortcutRadix) (items : List RenderCommand) :
    Option (List RenderCommand × PrecalcShortcutRadix) := do
  let histograph ← precalc items fun _ => cleared
  let histograph ← offsetsAll radixCount 0 histograph
  let (items, swap, histograph) ← reorder radixCount 0 items r.swap histograph
  return (items, { swap, histograph })

def PrecalcShortcutRadix.sort (r : PrecalcShortcutRadix) (items : List RenderCommand) :
    Option (List RenderCommand × PrecalcShortcutRadix) :=
  if items.length < 64 then some (sortInsert items, r) else r.sortRadix items

end PrototypeBundle.Radix
