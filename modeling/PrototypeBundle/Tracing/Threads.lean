import PrototypeBundle.Tracing.World
import PrototypeBundle.Shared.Chain

set_option autoImplicit false

/-!
# Threads that use the tracker during a collection

A step is one access to an atomic field together with those accesses around it
that no other thread can notice. An exchange may fail spuriously.
-/

namespace PrototypeBundle.Tracing.Concurrent

open Memory

-- The pointer for which `reference (object *)` is called, and the constructor that calls it.
inductive Use where
  | default (p : Nat)
  | copy (p v : Nat)
  | make (p o : Nat)
  deriving DecidableEq

def Use.pointer : Use → Nat
  | default p => p
  | copy p _ => p
  | make p _ => p

def Use.target : Use → Option Nat
  | make _ o => some o
  | _ => none

-- The next access of a thread.
inductive Pc where
  | idle
  -- `reference (object *)`
  | newReference (use : Use)
  | pushReference (source r : Nat) (use : Use)
  -- `copy (v)` of the pointer `p`
  | copy (p v : Nat)
  | activate (p v o : Nat)
  | store (p v : Nat) (target : Option Nat)
  -- `make_gc` with the result `p`
  | pushObject (p o previous : Nat)
  | activateMade (p o : Nat)
  deriving DecidableEq

structure Thread where
  pc : Pc
  -- the pointers that the caller needs until the call returns
  held : List Nat
  objectStackHead : Option Nat

-- The next access of `list_collect`.
inductive Stage where
  | load
  | detach (expected : Option Nat)
  | visit (cursor : Option Nat)
  | recheck (node : Nat) (rest : Option Nat)
  | pushLoad (node : Nat) (rest : Option Nat)
  | push (node : Nat) (rest : Option Nat)
  deriving DecidableEq

-- The next access of `collect ()`; `marks` is `next_mark_list`.
inductive Collector where
  | idle
  | load
  | unmark (cursor : Option Nat)
  | collectRefs (o : Nat) (marks : Option Nat) (stage : Stage)
  | loadRefs (o : Nat) (marks : Option Nat)
  | scan (o : Nat) (marks cursor : Option Nat)
  | readReference (o : Nat) (marks : Option Nat) (r x : Nat)
  | readObject (o : Nat) (marks : Option Nat) (r x : Nat)
  | mark (o : Nat) (marks : Option Nat) (r x : Nat)
  | sweep (stage : Stage)
  -- the release of `o`; `rest` is what `list_collect` goes on with
  | releaseRefs (o : Nat) (rest : Option Nat) (stage : Stage)
  | dctor (o : Nat) (rest : Option Nat)
  | destroyMembers (o : Nat) (rest : Option Nat)
  | thrown
  deriving DecidableEq

structure System where
  refs : Nat → Reference
  objs : Nat → Object
  objects : Option Nat
  fresh : Nat
  pointers : Nat → Option GcPtr
  payloads : Nat → Option (List Nat)
  -- the payloads on which `dctor` has been called
  destroyed : List Nat
  threads : Nat → Thread
  collector : Collector

def System.start : System where
  refs := fun _ => { next := none, target := none, state := .active, live := false }
  objs := fun o =>
    { next := none, nextMarked := none, payload := none, state := .active, refHead := none
      live := o = objectStackRoot }
  objects := none
  fresh := 1
  pointers := fun _ => none
  payloads := fun _ => none
  destroyed := []
  threads := fun _ => { pc := .idle, held := [], objectStackHead := none }
  collector := .idle

def System.setRef (s : System) (r : Nat) (change : Reference → Reference) : System :=
  { s with refs := modifyAt s.refs r change }

def System.setObj (s : System) (o : Nat) (change : Object → Object) : System :=
  { s with objs := modifyAt s.objs o change }

def System.setPointer (s : System) (p : Nat) (value : Option GcPtr) : System :=
  { s with pointers := Function.update s.pointers p value }

def System.setThread (s : System) (t : Nat) (change : Thread → Thread) : System :=
  { s with threads := modifyAt s.threads t change }

def System.goto (s : System) (t : Nat) (pc : Pc) : System := s.setThread t fun thread => { thread with pc }

theorem System.setThread_same (s : System) (t : Nat) (change : Thread → Thread) :
    (s.setThread t change).threads t = change (s.threads t) := modifyAt_same _ _ _

theorem System.setThread_other (s : System) (t : Nat) (change : Thread → Thread) {other : Nat}
    (different : other ≠ t) : (s.setThread t change).threads other = s.threads other :=
  modifyAt_other _ _ _ different

def System.enter (s : System) (t : Nat) (pc : Pc) (held : List Nat) : System :=
  s.setThread t fun thread => { thread with pc, held }

theorem System.enter_same (s : System) (t : Nat) (pc : Pc) (held : List Nat) :
    (s.enter t pc held).threads t = { (s.threads t) with pc, held } := System.setThread_same _ _ _

theorem System.enter_other (s : System) (t : Nat) (pc : Pc) (held : List Nat) (other : Nat) (different : other ≠ t) :
    (s.enter t pc held).threads other = s.threads other := System.setThread_other _ _ _ different

def System.finish (s : System) (t : Nat) : System := s.enter t .idle []

theorem System.finish_same (s : System) (t : Nat) :
    (s.finish t).threads t = { (s.threads t) with pc := .idle, held := [] } := s.enter_same t .idle []

theorem System.finish_other (s : System) (t other : Nat) (different : other ≠ t) :
    (s.finish t).threads other = s.threads other := s.enter_other t .idle [] other different

def Thread.stackHead (thread : Thread) : Nat := thread.objectStackHead.getD objectStackRoot

def System.newReference (s : System) (t : Nat) (use : Use) : System :=
  let source := (s.threads t).stackHead
  let record := { next := (s.objs source).refHead, target := use.target, state := .active, live := true }
  { s with refs := Function.update s.refs s.fresh record, fresh := s.fresh + 1 }.setThread t fun thread =>
    { thread with pc := .pushReference source s.fresh use, objectStackHead := some source }

theorem System.newReference_same (s : System) (t : Nat) (use : Use) : (s.newReference t use).threads t =
    { (s.threads t) with
      pc := .pushReference (s.threads t).stackHead s.fresh use
      objectStackHead := some (s.threads t).stackHead } := System.setThread_same _ _ _

theorem System.newReference_other (s : System) (t : Nat) (use : Use) (other : Nat) (different : other ≠ t) :
    (s.newReference t use).threads other = s.threads other := System.setThread_other _ _ _ different

theorem System.newReference_refs (s : System) (t : Nat) (use : Use) (r : Nat) (below : r < s.fresh) :
    (s.newReference t use).refs r = s.refs r := Function.update_of_ne (Nat.ne_of_lt below) _ _

-- What follows once the reference `r` has been created.
def System.referenced (s : System) (t r : Nat) : Use → System
  | .default p => (s.setPointer p (some { ref := r, ptr := none })).finish t
  | .copy p v => (s.setPointer p (some { ref := r, ptr := none })).goto t (.copy p v)
  | .make p o => (s.setPointer p (some { ref := r, ptr := (s.objs o).payload })).finish t

def System.pushReference (s : System) (t source r : Nat) (use : Use) (fails : Bool) : System :=
  let head := (s.objs source).refHead
  if head = (s.refs r).next ∧ fails = false then
    (s.setObj source fun obj => { obj with refHead := some r }).referenced t r use
  else s.setRef r fun record => { record with next := head }

def System.copy (s : System) (t p v : Nat) : Option System := do
  let g ← s.pointers p
  let other ← s.pointers v
  let s := s.setPointer p (some { g with ptr := other.ptr })
  match (s.refs other.ref).target with
  | some o => some (s.goto t (.activate p v o))
  | none => some (s.goto t (.store p v none))

def System.activate (s : System) (o : Nat) : System := s.setObj o fun obj => { obj with state := .active }

def System.store (s : System) (t p : Nat) (target : Option Nat) : Option System := do
  let g ← s.pointers p
  return (s.setRef g.ref fun record => { record with target }).finish t

-- `~gc_ptr`, which also the destructors of payloads call
def System.dereference (s : System) (p : Nat) : Option System := do
  let g ← s.pointers p
  return (s.setRef g.ref fun record => { record with state := .unreachable }).setPointer p none

-- `register_object` up to the exchange; the payload with these members has been constructed.
def System.registerObject (s : System) (t p : Nat) (members : List Nat) : System :=
  let payload := s.fresh
  let o := payload + 1
  let obj :=
    { next := s.objects, nextMarked := none, payload := some payload, state := .active, refHead := none, live := true }
  { s with
    objs := Function.update s.objs o obj
    payloads := Function.update s.payloads payload (some members)
    fresh := o + 1 }.setThread t fun thread =>
      { thread with pc := .pushObject p o thread.stackHead, objectStackHead := some o }

theorem System.registerObject_same (s : System) (t p : Nat) (members : List Nat) :
    (s.registerObject t p members).threads t =
      { (s.threads t) with
        pc := .pushObject p (s.fresh + 1) (s.threads t).stackHead
        objectStackHead := some (s.fresh + 1) } := System.setThread_same _ _ _

theorem System.registerObject_other (s : System) (t p : Nat) (members : List Nat) (other : Nat)
    (different : other ≠ t) : (s.registerObject t p members).threads other = s.threads other :=
  System.setThread_other _ _ _ different

def System.pushObject (s : System) (t p o previous : Nat) (fails : Bool) : System :=
  if s.objects = (s.objs o).next ∧ fails = false then
    { s with objects := some o }.setThread t fun thread =>
      { thread with pc := .activateMade p o, objectStackHead := some previous }
  else s.setObj o fun obj => { obj with next := s.objects }

def System.resume (s : System) (t : Nat) (fails : Bool) : Option System :=
  match (s.threads t).pc with
  | .idle => none
  | .newReference use => some (s.newReference t use)
  | .pushReference source r use => some (s.pushReference t source r use fails)
  | .copy p v => s.copy t p v
  | .activate p v o => some ((s.activate o).goto t (.store p v (some o)))
  | .store p _ target => s.store t p target
  | .pushObject p o previous => some (s.pushObject t p o previous fails)
  | .activateMade p o => some ((s.activate o).goto t (.newReference (.make p o)))

inductive Call where
  | default (p : Nat)
  | copyNew (p v : Nat) (held : List Nat)
  | copyAssign (p v : Nat) (held : List Nat)
  | destroy (p : Nat)
  -- the constructor of the payload has made the members
  | makeGc (p : Nat) (members : List Nat)

def System.call (s : System) (t : Nat) : Call → Option System
  | .default p => some (s.enter t (.newReference (.default p)) [])
  | .copyNew p v held => some (s.enter t (.newReference (.copy p v)) held)
  | .copyAssign p v held => if p = v then some s else some (s.enter t (.copy p v) held)
  | .destroy p => s.dereference p
  | .makeGc p members => some (s.registerObject t p members)

-- What an access of `list_collect` does to the list.
inductive Effect where
  | pass (stage : Stage)
  | head (value : Option Nat) (stage : Stage)
  | link (node : Nat) (value : Option Nat) (stage : Stage)
  | release (node : Nat) (rest : Option Nat)
  | done
  | throw

-- `list_collect` on the list that `head` and `next` make up.
def listCollect (checkState : Bool) (head : Option Nat) (next : Nat → Option Nat) (state : Nat → TrackingState)
    (fails : Bool) : Stage → Effect
  | .load => .pass (.detach head)
  | .detach expected =>
      if head = expected ∧ fails = false then .head none (.visit expected) else .pass (.detach head)
  | .visit none => .done
  | .visit (some node) =>
      if checkState = false ∨ state node = .unreachable then .release node (next node)
      else .pass (.recheck node (next node))
  | .recheck node rest => if state node = .active then .pass (.pushLoad node rest) else .throw
  | .pushLoad node rest => .link node head (.push node rest)
  | .push node rest =>
      if head = next node ∧ fails = false then .head (some node) (.visit rest) else .link node head (.push node rest)

def System.setCollector (s : System) (collector : Collector) : System := { s with collector }

-- `list_collect` on the references of `o`; `at'` is where the collector is during it.
def System.collectRefs (s : System) (checkState : Bool) (o : Nat) (fails : Bool) (stage : Stage)
    (during : Stage → Collector) (after : Collector) : System :=
  match listCollect checkState (s.objs o).refHead (fun r => (s.refs r).next) (fun r => (s.refs r).state) fails stage with
  | .pass stage => s.setCollector (during stage)
  | .head value stage => (s.setObj o fun obj => { obj with refHead := value }).setCollector (during stage)
  | .link r value stage => (s.setRef r fun record => { record with next := value }).setCollector (during stage)
  | .release r rest => (s.setRef r fun record => { record with live := false }).setCollector (during (.visit rest))
  | .done => s.setCollector after
  | .throw => s.setCollector .thrown

def System.sweep (s : System) (fails : Bool) (stage : Stage) : System :=
  match listCollect true s.objects (fun o => (s.objs o).next) (fun o => (s.objs o).state) fails stage with
  | .pass stage => s.setCollector (.sweep stage)
  | .head value stage => { s with objects := value, collector := .sweep stage }
  | .link o value stage => (s.setObj o fun obj => { obj with next := value }).setCollector (.sweep stage)
  | .release o rest => s.setCollector (.releaseRefs o rest .load)
  | .done => s.setCollector .idle
  | .throw => s.setCollector .thrown

-- Where the mark loop goes on after an object, whose entry it pops from the mark list.
def nextMark : Option Nat → Option Nat → Collector
  | some o, marks => .collectRefs o marks .load
  | none, some o => .collectRefs o none .load
  | none, none => .sweep .load

def System.scan (s : System) (o : Nat) (marks : Option Nat) : Option Nat → System
  | some r =>
      match (s.refs r).target with
      | some x => s.setCollector (.readReference o marks r x)
      | none => s.setCollector (.scan o marks (s.refs r).next)
  | none =>
      (s.setObj o fun obj => { obj with state := .active, nextMarked := none }).setCollector
        (nextMark (s.objs o).nextMarked marks)

def System.dctor (s : System) (o : Nat) (rest : Option Nat) : System :=
  { s with destroyed := (s.objs o).payload.toList ++ s.destroyed, collector := .destroyMembers o rest }

-- One member of the payload after another, then `delete obj`.
def System.destroyMembers (s : System) (o : Nat) (rest : Option Nat) : Option System := do
  let payload ← (s.objs o).payload
  match s.payloads payload with
  | some (m :: members) =>
      System.dereference { s with payloads := Function.update s.payloads payload (some members) } m
  | _ =>
      let s := { s with payloads := Function.update s.payloads payload none }
      return (s.setObj o fun obj => { obj with live := false }).setCollector (.sweep (.visit rest))

def System.collectStep (s : System) (fails : Bool) : Option System :=
  match s.collector with
  | .idle => none
  | .load => some (s.setCollector (.unmark s.objects))
  | .unmark (some o) =>
      some ((s.setObj o fun obj => { obj with state := .unreachable }).setCollector (.unmark (s.objs o).next))
  | .unmark none =>
      some ((s.setObj objectStackRoot fun obj => { obj with state := .marked }).setCollector
        (.collectRefs objectStackRoot none .load))
  | .collectRefs o marks stage =>
      some (s.collectRefs true o fails stage (.collectRefs o marks) (.loadRefs o marks))
  | .loadRefs o marks => some (s.setCollector (.scan o marks (s.objs o).refHead))
  | .scan o marks cursor => some (s.scan o marks cursor)
  | .readReference o marks r x =>
      if (s.refs r).state = .unreachable then some (s.setCollector (.scan o marks (s.refs r).next))
      else some (s.setCollector (.readObject o marks r x))
  | .readObject o marks r x =>
      if (s.objs x).state = .unreachable then some (s.setCollector (.mark o marks r x))
      else some (s.setCollector (.scan o marks (s.refs r).next))
  | .mark o marks r x =>
      some ((s.setObj x fun obj => { obj with state := .marked, nextMarked := marks }).setCollector
        (.scan o (some x) (s.refs r).next))
  | .sweep stage => some (s.sweep fails stage)
  | .releaseRefs o rest stage =>
      some (s.collectRefs false o fails stage (.releaseRefs o rest) (.dctor o rest))
  | .dctor o rest => some (s.dctor o rest)
  | .destroyMembers o rest => s.destroyMembers o rest
  | .thrown => none

inductive Action where
  | call (t : Nat) (call : Call)
  -- the next access of the call that `t` has under way
  | resume (t : Nat) (fails : Bool)
  | collect
  | collectStep (fails : Bool)

def System.step (s : System) : Action → Option System
  | .call t call => if (s.threads t).pc = .idle then s.call t call else none
  | .resume t fails => s.resume t fails
  | .collect => if s.collector = .idle then some (s.setCollector .load) else none
  | .collectStep fails => s.collectStep fails

end PrototypeBundle.Tracing.Concurrent
