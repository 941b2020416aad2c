import PrototypeBundle.Tracing.Tracker

set_option autoImplicit false

/-!
# `gc::gc_ptr` and `gc::make_gc`

A payload is the list of its `gc_ptr` members; its destructor destroys them.
-/

namespace PrototypeBundle.Tracing

open Memory

structure GcPtr where
  ref : Nat
  -- `_ptr`, a payload
  ptr : Option Nat
  deriving DecidableEq, Repr

structure World where
  tracker : Tracker
  pointers : Nat → Option GcPtr
  payloads : Nat → Option (List Nat)
  -- the payloads whose `dctor` has run
  destroyed : List Nat

-- `~gc_ptr`
def World.destroyPtr (w : World) (p : Nat) : Option World := do
  let g ← w.pointers p
  let tracker ← w.tracker.dereference g.ref
  return { w with tracker, pointers := Function.update w.pointers p none }

def World.dctor (w : World) (payload : Nat) : Option World := do
  let members ← w.payloads payload
  let w ← members.foldlM World.destroyPtr w
  return { w with
    payloads := Function.update w.payloads payload none
    destroyed := payload :: w.destroyed }

def World.release (w : World) (fuel o : Nat) : Option World := do
  let tracker ← w.tracker.listCollectRefs false o fuel
  let payload ← (tracker.objs o).payload
  let w ← World.dctor { w with tracker } payload
  let tracker ← w.tracker.setObj o fun obj => { obj with live := false }
  return { w with tracker }

-- The traversal of `list_collect` over the detached objects.
def World.collectObjects (length : Nat) : Nat → Option Nat → World → Option World
  | _, none, w => some w
  | 0, some _, _ => none
  | fuel + 1, some o, w =>
      if (w.tracker.objs o).live then do
        let next := (w.tracker.objs o).next
        let w ←
          if (w.tracker.objs o).state = .unreachable then w.release length o
          else if (w.tracker.objs o).state = .active then do
            let tracker ← w.tracker.setObj o fun obj => { obj with next := w.tracker.objects }
            some { w with tracker := { tracker with objects := some o } }
          else none
        w.collectObjects length fuel next
      else none

-- `collect ()` on the registered thread; no list is longer than `fresh`.
def World.collect (w : World) : Option World := do
  let fuel := w.tracker.fresh
  let tracker ← w.tracker.trace (2 * fuel)
  let detached := tracker.objects
  World.collectObjects fuel fuel detached { w with tracker := { tracker with objects := none } }

inductive Op where
  | default (p : Nat)
  | copyNew (p v : Nat)
  | copyAssign (p v : Nat)
  | reset (p : Nat)
  | destroy (p : Nat)
  -- `make_gc` with the result `p`; the constructed payload has the given members
  | makeGc (p : Nat) (members : List Nat)
  | collect

def World.construct (w : World) (p : Nat) : Option World := do
  let (ref, tracker) ← w.tracker.newReference none
  return { w with tracker, pointers := Function.update w.pointers p (some { ref, ptr := none }) }

def World.copy (w : World) (p v : Nat) : Option World := do
  let g ← w.pointers p
  let source ← w.pointers v
  if (w.tracker.refs source.ref).live then do
    let tracker ← w.tracker.reference g.ref (w.tracker.refs source.ref).target
    return { w with tracker, pointers := Function.update w.pointers p (some { g with ptr := source.ptr }) }
  else none

def World.step (w : World) : Op → Option World
  | .default p => w.construct p
  | .copyNew p v => do
      let w ← w.construct p
      w.copy p v
  | .copyAssign p v => if p = v then some w else w.copy p v
  | .reset p => do
      let g ← w.pointers p
      let tracker ← w.tracker.setRef g.ref fun record => { record with target := none }
      return { w with tracker, pointers := Function.update w.pointers p (some { g with ptr := none }) }
  | .destroy p => w.destroyPtr p
  | .makeGc p members => do
      let payload := w.tracker.fresh
      let w :=
        { w with
          tracker := { w.tracker with fresh := payload + 1 }
          payloads := Function.update w.payloads payload (some members) }
      let (o, tracker) ← w.tracker.registerObject payload
      let (ref, tracker) ← tracker.newReference (some o)
      return { w with
        tracker
        pointers := Function.update w.pointers p (some { ref, ptr := (tracker.objs o).payload }) }
  | .collect => w.collect

def World.Member (w : World) (p : Nat) : Prop := ∃ payload members, w.payloads payload = some members ∧ p ∈ members

/-- What a program can do: use pointers that exist, at new places construct others, and leave the
destruction of a member to its payload. -/
def Enabled (w : World) : Op → Prop
  | .default p => w.pointers p = none
  | .copyNew p v => w.pointers p = none ∧ (w.pointers v).isSome
  | .copyAssign p v => (w.pointers p).isSome ∧ (w.pointers v).isSome
  | .reset p => (w.pointers p).isSome
  | .destroy p => (w.pointers p).isSome ∧ ¬ w.Member p
  | .makeGc p members => w.pointers p = none ∧ members.Nodup ∧
      ∀ m ∈ members, (w.pointers m).isSome ∧ ¬ w.Member m
  | .collect => True

def start : World where
  tracker :=
    { refs := fun _ => { next := none, target := none, state := .active, live := false }
      objs := fun o =>
        { next := none, nextMarked := none, payload := none, state := .active, refHead := none
          live := o = objectStackRoot }
      objects := none
      objectStackHead := none
      fresh := 1 }
  pointers := fun _ => none
  payloads := fun _ => none
  destroyed := []

end PrototypeBundle.Tracing
