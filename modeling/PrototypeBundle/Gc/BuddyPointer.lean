import PrototypeBundle.Gc.Pointer

set_option autoImplicit false

/-!
# `gc_buddy` pointers over `memory::collector_buddy`

An operation names its pointers, so that both operands can be the same one.
-/

namespace PrototypeBundle.Gc

open Memory

-- The members are those of `gc`.
abbrev GcBuddy := GcPtr

def GcRun.modify (s : GcRun) (p : Nat) (change : GcBuddy → GcBuddy) : GcRun :=
  { s with pointers := Function.update s.pointers p ((s.pointers p).map change) }

def GcRun.obj (s : GcRun) (p : Nat) : Option Nat := (s.pointers p).bind GcPtr.obj

def GcRun.ref (s : GcRun) (p : Nat) : Option Nat := (s.pointers p).bind GcPtr.ref

-- `if (_ref) { del_ref (_root, _ref); _ref = nullptr; }`
def GcRun.unlink (s : GcRun) (p : Nat) : GcRun :=
  match s.pointers p with
  | some g => s.put p (some { g with ref := none }) (g.unregister s.service)
  | none => s

def GcRun.link (s : GcRun) (p : Nat) : Option GcRun :=
  match s.pointers p with
  | some g => (s.service.regRef g.root g.obj).map fun (ref, service) =>
      s.put p (some { g with ref := some ref }) service
  | none => none

def GcRun.linkObj (s : GcRun) (p : Nat) : Option GcRun :=
  match s.obj p with
  | some _ => s.link p
  | none => some s

-- When `v` is the pointer itself, its `_ref` is null by the time it is read.
def GcRun.copy (s : GcRun) (p v : Nat) : Option GcRun :=
  let s := s.unlink p
  match s.ref v with
  | some _ => (s.modify p fun g => { g with obj := s.obj v }).link p
  | none => some (s.modify p fun g => { g with obj := none, ref := none })

def GcRun.swapObj (s : GcRun) (p v : Nat) : GcRun :=
  (s.modify p fun g => { g with obj := s.obj v }).modify v fun g => { g with obj := s.obj p }

def GcRun.swap (s : GcRun) (p v : Nat) : Option GcRun := do
  let s := ((s.unlink p).unlink v).swapObj p v
  let s ← s.linkObj p
  s.linkObj v

inductive BuddyOp where
  -- `gc_buddy_new` up to the constructor of the payload; the page can be full, and the constructor can throw
  | allocate (address : Nat)
  | outOfMemory
  | construct (p : Nat)
  | throws
  | default (p : Nat)
  | copyNew (p v : Nat)
  | moveNew (p v : Nat)
  | copyAssign (p v : Nat)
  | moveAssign (p v : Nat)
  -- `p` is what `v.as<>()` returns
  | as (p v : Nat)
  | destroy (p : Nat)

/-- `collector_buddy` does to its table and to the active root what `collector` does. -/
def GcRun.buddyStep (s : GcRun) : BuddyOp → Option GcRun
  | .allocate address => s.step (.allocate address)
  | .outOfMemory => do
      let (_, table) ← s.service.table.addObjNode
      return { s with service := { s.service with table } }
  | .construct p => s.step (.construct p)
  | .throws =>
      -- the active root stays the object under construction
      match s.frames with
      | _ :: frames => some { s with frames }
      | [] => none
  | .default p => s.step (.default p)
  | .copyNew p v =>
      match s.pointers p, s.pointers v with
      | none, some _ => (s.step (.default p)).bind fun s => s.copy p v
      | _, _ => none
  | .moveNew p v =>
      match s.pointers p, s.pointers v with
      | none, some _ => (s.step (.default p)).bind fun s => s.swap p v
      | _, _ => none
  | .copyAssign p v =>
      match s.pointers p, s.pointers v with
      | some _, some _ => s.copy p v
      | _, _ => none
  | .moveAssign p v =>
      match s.pointers p, s.pointers v with
      | some _, some _ => s.swap p v
      | _, _ => none
  | .as p v =>
      match s.pointers p, s.pointers v with
      -- the constructor from a node registers a null one too
      | none, some source => (s.step (.default p)).bind fun s =>
          (s.modify p fun g => { g with obj := source.obj }).link p
      | _, _ => none
  | .destroy p => s.step (.destroy p)

end PrototypeBundle.Gc
