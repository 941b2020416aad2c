import PrototypeBundle.Memory.NodePool
import PrototypeBundle.Shared.Run
import Mathlib.Algebra.Group.Nat.Defs

set_option autoImplicit false

/-!
# `memory::buddy::page`

Pointers into the buffer are byte offsets from its start. Headers are read and
written only at multiples of 32 and take 16 bytes, so the buffer is modelled by
the header that its bytes decode to at each offset.
-/

namespace PrototypeBundle.Buddy

open Memory

/-- Why a call did not return: it threw, or the program has no defined behaviour. -/
inductive Fault where
  | outOfMemory
  | undefined
  deriving DecidableEq, Repr

structure Header where
  userData : Option Nat
  free : Bool
  level : Nat
  deriving DecidableEq, Repr

def headerSize : Nat := 16

-- `header::size`, an unsigned 32-bit shift.
def Header.size (h : Header) : Nat := (32 <<< h.level) % 2 ^ 32

-- On `std::size_t`: `bit` runs through 1, 2, 4, … below 64.
def nextPow2 (v : Nat) : Nat :=
  ([1, 2, 4, 8, 16, 32].foldl (fun v bit => v ||| v >>> bit) v + 1) % 2 ^ 64

structure Page where
  bufferSize : Nat
  topLevel : Nat
  -- the value of a node is its `ptr`
  availableNodes : NodePool (Option Nat)
  buffer : Nat → Header
  freeLevels : Nat → Option Nat

/-- The difference of the two logarithms truncated to `std::size_t`. `std::log2` is exact on
powers of two, the only arguments here; a result of -1 or below, or the infinite
one of `log2 (0)`, has no `std::size_t` to convert to. -/
def levelOf (length : Nat) : Option Nat :=
  if length ≤ 16 then none else some (Nat.log2 length - 5)

def headerWrite (buffer : Nat → Header) (offset : Nat) (free : Bool) (level : Nat) : Nat → Header :=
  modifyAt buffer offset fun _ => { userData := none, free, level }

-- `header_node::link`
def Page.link (p : Page) (node h : Nat) : Page :=
  { p with
    availableNodes := { p.availableNodes with nodes := setVal p.availableNodes.nodes node (some h) }
    buffer := modifyAt p.buffer h fun header => { header with userData := some node } }

def Page.prependFree (p : Page) (level node : Nat) : Page :=
  let (nodes, head) := prepend p.availableNodes.nodes (p.freeLevels level) node
  { p with
    availableNodes := { p.availableNodes with nodes }
    freeLevels := Function.update p.freeLevels level head }

-- The constructor; `contents` is what the fresh buffer happens to hold.
def page (capacity : Nat) (contents : Nat → Header) : Option Page := do
  let topLevel ← levelOf capacity
  let buffer := headerWrite contents 0 true topLevel
  let (node, availableNodes) ← (nodePool (capacity / 32 / 2) : NodePool (Option Nat)).reserve
  let p : Page :=
    { bufferSize := capacity, topLevel, availableNodes, buffer, freeLevels := fun _ => none }
  return (p.prependFree topLevel node).link node 0

def Page.registerAsUsed (p : Page) (h level : Nat) : Option Page := do
  let old := p.buffer h
  let freeNode ← old.userData
  if p.topLevel < old.level then none
  else
    let (nodes, head) := remove p.availableNodes.nodes (p.freeLevels old.level) freeNode
    some { p with
      availableNodes := NodePool.release { p.availableNodes with nodes } freeNode
      freeLevels := Function.update p.freeLevels old.level head
      buffer := headerWrite p.buffer h false level }

def Page.registerAsFree (p : Page) (h level : Nat) : Option Page := do
  let (freeNode, availableNodes) ← p.availableNodes.reserve
  if p.topLevel < level then none
  else
    let p := Page.prependFree { p with availableNodes } level freeNode
    let p := { p with buffer := modifyAt p.buffer h fun header => { header with free := true, level } }
    some (p.link freeNode h)

-- `32U << level` is an unsigned 32-bit shift.
def findBuddy (h level : Nat) : Option Nat :=
  if level < 32 then some (h ^^^ (32 <<< level) % 2 ^ 32) else none

def Page.findFit (p : Page) : Nat → Nat → Except Fault Nat
  | 0, _ => .error .outOfMemory
  | fuel + 1, level =>
      match p.freeLevels level with
      | some _ => .ok level
      | none => if p.topLevel < level + 1 then .error .outOfMemory else p.findFit fuel (level + 1)

-- The split loop; the second argument is `level - expectedLevel`.
def Page.split (p : Page) (h expectedLevel : Nat) : Nat → Option Page
  | 0 => some p
  | rest + 1 => do
      let b ← findBuddy h (expectedLevel + rest)
      let p ← p.registerAsFree b (expectedLevel + rest)
      p.split h expectedLevel rest

def Page.take (p : Page) (level expectedLevel : Nat) : Option (Nat × Page) := do
  let node ← p.freeLevels level
  let h ← (p.availableNodes.nodes node).val
  let p ← p.registerAsUsed h expectedLevel
  let p ← p.split h expectedLevel (level - expectedLevel)
  return (h, p)

def Page.allocate (p : Page) (len : Nat) : Except Fault (Nat × Page) :=
  match levelOf (nextPow2 ((len + headerSize) % 2 ^ 64)) with
  | none => .error .undefined
  | some expectedLevel =>
      -- the first test of the loop reads past the level table
      if p.topLevel < expectedLevel then .error .undefined
      else
        match p.findFit (p.topLevel + 1) expectedLevel with
        | .error fault => .error fault
        | .ok level =>
            match p.take level expectedLevel with
            | some result => .ok result
            | none => .error .undefined

-- The merge loop; the second argument is `topLevel - level`, at 0 the top level
-- does not coalesce.
def Page.coalesce (p : Page) (h level : Nat) : Nat → Option (Page × Nat × Nat)
  | 0 => some (p, h, level)
  | rest + 1 => do
      let buddy ← findBuddy h level
      if (p.buffer buddy).free ∧ (p.buffer buddy).level = level then
        let p ← p.registerAsUsed buddy level
        p.coalesce (if buddy < h then buddy else h) (level + 1) rest
      else some (p, h, level)

def Page.free (p : Page) (h : Nat) : Option Page := do
  let level := (p.buffer h).level
  let (p, h, level) ← p.coalesce h level (p.topLevel - level)
  p.registerAsFree h level

def Page.setUserData (p : Page) (h : Nat) (userData : Option Nat) : Page :=
  { p with buffer := modifyAt p.buffer h fun header => { header with userData } }

/-- A page together with the blocks its clients hold: offset and requested length. -/
structure PageRun where
  page : Page
  live : List (Nat × Nat)

def PageRun.owns (s : PageRun) (h : Nat) : Prop := h ∈ s.live.map Prod.fst

instance (s : PageRun) (h : Nat) : Decidable (s.owns h) :=
  inferInstanceAs (Decidable (h ∈ s.live.map Prod.fst))

inductive PageOp where
  | allocate (len : Nat)
  | free (h : Nat)
  -- the owner of block `h` stores anything in its payload
  | write (h : Nat) (contents : Nat → Header)

/-- What a store into the payload of block `h` may do to the headers that the buffer decodes to. -/
def Page.clientWrite (p : Page) (h : Nat) (contents : Nat → Header) : Page :=
  { p with buffer := fun o => if h < o ∧ o < h + 32 * 2 ^ (p.buffer h).level then contents o else p.buffer o }

def PageRun.step (s : PageRun) : PageOp → Option PageRun
  | .allocate len =>
      if len + headerSize < 2 ^ 64 then
        match s.page.allocate len with
        | .ok (h, page) => some { page, live := (h, len) :: s.live }
        | .error _ => none
      else none
  | .free h =>
      if s.owns h then
        (s.page.free h).map fun page => { page, live := s.live.filter (fun block => block.1 ≠ h) }
      else none
  | .write h contents =>
      if s.owns h then some { s with page := s.page.clientWrite h contents } else none

end PrototypeBundle.Buddy
