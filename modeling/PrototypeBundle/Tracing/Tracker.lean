import PrototypeBundle.Memory.NodeChain
import PrototypeBundle.Shared.Run

set_option autoImplicit false

/-!
# `gc::tracker` of the tracing collector

A record is used only while it is `live`: between `new` and `delete`. Any other use, and
the exception of `list_collect`, makes a call undefined.
-/

namespace PrototypeBundle.Tracing

open Memory

inductive TrackingState where
  | active
  | marked
  | unreachable
  deriving DecidableEq, Repr

structure Reference where
  next : Option Nat
  -- the field `to`
  target : Option Nat
  state : TrackingState
  live : Bool
  deriving DecidableEq, Repr

structure Object where
  next : Option Nat
  nextMarked : Option Nat
  payload : Option Nat
  state : TrackingState
  refHead : Option Nat
  live : Bool
  deriving DecidableEq, Repr

-- `fresh` bounds all records that were ever allocated; no address is used twice.
structure Tracker where
  refs : Nat → Reference
  objs : Nat → Object
  objects : Option Nat
  objectStackHead : Option Nat
  fresh : Nat

-- `_object_stack_root`, which is no allocated object
def objectStackRoot : Nat := 0

def Tracker.setRef (t : Tracker) (r : Nat) (change : Reference → Reference) : Option Tracker :=
  if (t.refs r).live then some { t with refs := modifyAt t.refs r change } else none

def Tracker.setObj (t : Tracker) (o : Nat) (change : Object → Object) : Option Tracker :=
  if (t.objs o).live then some { t with objs := modifyAt t.objs o change } else none

def Tracker.stackHead (t : Tracker) : Nat × Tracker :=
  match t.objectStackHead with
  | some o => (o, t)
  | none => (objectStackRoot, { t with objectStackHead := some objectStackRoot })

def Tracker.swapObjectStackHead (t : Tracker) (o : Nat) : Nat × Tracker :=
  let (old, t) := t.stackHead
  (old, { t with objectStackHead := some o })

-- `to->state = active`, unless `to` is null
def Tracker.activate (t : Tracker) : Option Nat → Option Tracker
  | some o => t.setObj o fun obj => { obj with state := .active }
  | none => some t

-- `reference (object *)`: a new record on the list of the object stack head
def Tracker.newReference (t : Tracker) (target : Option Nat) : Option (Nat × Tracker) := do
  let t ← t.activate target
  let (source, t) := t.stackHead
  let r := t.fresh
  let record := { next := (t.objs source).refHead, target, state := .active, live := true }
  let t := { t with refs := Function.update t.refs r record, fresh := r + 1 }
  let t ← t.setObj source fun obj => { obj with refHead := some r }
  return (r, t)

-- `reference (gc::reference *, object *)`
def Tracker.reference (t : Tracker) (r : Nat) (target : Option Nat) : Option Tracker := do
  let t ← t.activate target
  t.setRef r fun record => { record with target }

def Tracker.dereference (t : Tracker) (r : Nat) : Option Tracker :=
  t.setRef r fun record => { record with state := .unreachable }

def Tracker.registerObject (t : Tracker) (payload : Nat) : Option (Nat × Tracker) := do
  let o := t.fresh
  let obj :=
    { next := none, nextMarked := none, payload := some payload, state := .active, refHead := none, live := true }
  let t := { t with objs := Function.update t.objs o obj, fresh := o + 1 }
  let (previous, t) := t.swapObjectStackHead o
  -- the payload has been constructed before the object became the head
  let t ← t.setObj o fun obj => { obj with next := t.objects }
  let t := { t with objects := some o }
  let (_, t) := t.swapObjectStackHead previous
  return (o, t)

-- The traversal of `list_collect` over detached references of `owner`; released records are deleted.
def Tracker.collectRefs (checkState : Bool) (owner : Nat) : Nat → Option Nat → Tracker → Option Tracker
  | _, none, t => some t
  | 0, some _, _ => none
  | fuel + 1, some r, t =>
      if (t.refs r).live then do
        let next := (t.refs r).next
        let t ←
          if checkState = false ∨ (t.refs r).state = .unreachable then
            t.setRef r fun record => { record with live := false }
          else if (t.refs r).state = .active then do
            let t ← t.setRef r fun record => { record with next := (t.objs owner).refHead }
            t.setObj owner fun obj => { obj with refHead := some r }
          else none
        t.collectRefs checkState owner fuel next
      else none

-- `list_collect` on the references of `owner`
def Tracker.listCollectRefs (t : Tracker) (checkState : Bool) (owner : Nat) (fuel : Nat) : Option Tracker := do
  let detached := (t.objs owner).refHead
  let t ← t.setObj owner fun obj => { obj with refHead := none }
  t.collectRefs checkState owner fuel detached

-- `for (auto * obj = _objects; …) obj->state = unreachable`
def Tracker.markUnreachable : Nat → Option Nat → Tracker → Option Tracker
  | _, none, t => some t
  | 0, some _, _ => none
  | fuel + 1, some o, t => do
      let t ← t.setObj o fun obj => { obj with state := .unreachable }
      t.markUnreachable fuel (t.objs o).next

-- The loop over the references of one object; `nextMarkList` collects the new objects. What is pushed
-- is noted in `pushed`, the latest first.
def Tracker.markRefs : Nat → Option Nat → Tracker → Option Nat → List Nat → Option (Tracker × Option Nat × List Nat)
  | _, none, t, nextMarkList, pushed => some (t, nextMarkList, pushed)
  | 0, some _, _, _, _ => none
  | fuel + 1, some r, t, nextMarkList, pushed =>
      if (t.refs r).live then
        match (t.refs r).target with
        | none => t.markRefs fuel (t.refs r).next nextMarkList pushed
        | some o =>
            if (t.refs r).state = .unreachable then t.markRefs fuel (t.refs r).next nextMarkList pushed
            else if (t.objs o).live then
              if (t.objs o).state = .unreachable then do
                let next := (t.refs r).next
                let t ← t.setObj o fun obj => { obj with state := .marked, nextMarked := nextMarkList }
                t.markRefs fuel next (some o) (o :: pushed)
              else t.markRefs fuel (t.refs r).next nextMarkList pushed
            else none
      else none

def Tracker.markObject (t : Tracker) (fuel o : Nat) (nextMarkList : Option Nat) (pushed : List Nat) :
    Option (Tracker × Option Nat × List Nat) := do
  let t ← t.listCollectRefs true o fuel
  let (t, nextMarkList, pushed) ← t.markRefs fuel (t.objs o).refHead nextMarkList pushed
  let t ← t.setObj o fun obj => { obj with state := .active }
  return (t, nextMarkList, pushed)

-- Both nested loops: a used up mark list is replaced by the next one.
def Tracker.mark (length : Nat) : Nat → Tracker → Option Nat → Option Nat → List Nat → Option (Tracker × List Nat)
  | _, t, none, none, pushed => some (t, pushed)
  | 0, _, _, _, _ => none
  | fuel + 1, t, none, some o, pushed => t.mark length fuel (some o) none pushed
  | fuel + 1, t, some o, nextMarkList, pushed => do
      let (t, nextMarkList, pushed) ← t.markObject length o nextMarkList pushed
      let markList := (t.objs o).nextMarked
      let t ← t.setObj o fun obj => { obj with nextMarked := none }
      t.mark length fuel markList nextMarkList pushed

-- The first half of `collect ()`, where the first mark list holds the root alone.
def Tracker.tracePushing (t : Tracker) (fuel : Nat) : Option (Tracker × List Nat) := do
  let t ← t.markUnreachable fuel t.objects
  let t ← t.setObj objectStackRoot fun obj => { obj with state := .marked }
  t.mark fuel fuel (some objectStackRoot) none [objectStackRoot]

def Tracker.trace (t : Tracker) (fuel : Nat) : Option Tracker := (t.tracePushing fuel).map Prod.fst

end PrototypeBundle.Tracing
