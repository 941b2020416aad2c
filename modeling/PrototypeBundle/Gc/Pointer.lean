import PrototypeBundle.Memory.Table
import PrototypeBundle.Shared.Run

set_option autoImplicit false

namespace PrototypeBundle.Gc

open Memory

-- The table of `_gc_service` and the `_active_root` of the thread.
structure Service where
  table : Table
  activeRoot : Option Nat

def Service.getRoot (s : Service) : Nat × Service :=
  match s.activeRoot with
  | some root => (root, s)
  | none => (s.table.root, { s with activeRoot := some s.table.root })

def Service.regRef (s : Service) (fromObject : Nat) (toObject : Option Nat) : Option (Nat × Service) :=
  (s.table.addRefNode fromObject toObject).map fun (ref, table) => (ref, { s with table })

def Service.delRef (s : Service) (fromObject ref : Nat) : Service :=
  { s with table := s.table.remRefNode fromObject ref }

structure GcPtr where
  root : Nat
  ref : Option Nat
  obj : Option Nat
  deriving DecidableEq, Repr

def gc (s : Service) : GcPtr × Service :=
  let (root, s) := s.getRoot
  ({ root, ref := none, obj := none }, s)

def gcOf (s : Service) (node : Nat) : Option (GcPtr × Service) := do
  let (root, s) := s.getRoot
  let (ref, s) ← s.regRef root (some node)
  return ({ root, ref := some ref, obj := some node }, s)

-- `if (_ref) _gc_service.del_ref (_root, _ref)`
def GcPtr.unregister (p : GcPtr) (s : Service) : Service :=
  match p.ref with
  | some ref => s.delRef p.root ref
  | none => s

def GcPtr.copy (p v : GcPtr) (s : Service) : Option (GcPtr × Service) :=
  let s := p.unregister s
  match v.ref with
  | some _ => (s.regRef p.root v.obj).map fun (ref, s) => ({ p with obj := v.obj, ref := some ref }, s)
  | none => some ({ p with obj := none, ref := none }, s)

def GcPtr.swap (p v : GcPtr) : GcPtr × GcPtr :=
  ({ p with obj := v.obj, ref := v.ref }, { v with obj := p.obj, ref := p.ref })

/-- The pointers that exist, and the calls of `collector::allocate` that are
running: the active root each saved, and its node. -/
structure GcRun where
  service : Service
  pointers : Nat → Option GcPtr
  frames : List (Option Nat × Nat)

inductive GcOp where
  -- `gc_new`, up to the constructor of the payload, which is placed at `address`
  | allocate (address : Nat)
  -- the constructor returns, and `gc_new` with the new pointer `p`
  | construct (p : Nat)
  | default (p : Nat)
  | copyNew (p v : Nat)
  | moveNew (p v : Nat)
  | copyAssign (p v : Nat)
  | moveAssign (p v : Nat)
  | destroy (p : Nat)

def GcRun.put (s : GcRun) (p : Nat) (new : Option GcPtr) (service : Service) : GcRun :=
  { s with service, pointers := Function.update s.pointers p new }

def GcRun.step (s : GcRun) : GcOp → Option GcRun
  | .allocate address => do
      let (node, table) ← s.service.table.addObjNode
      return { s with
        service := { table := table.setPtr node (some address), activeRoot := some node }
        frames := (s.service.activeRoot, node) :: s.frames }
  | .construct p =>
      match s.frames, s.pointers p with
      | (previous, node) :: frames, none => do
          let (g, service) ← gcOf { s.service with activeRoot := previous } node
          return GcRun.put { s with frames } p (some g) service
      | _, _ => none
  | .default p =>
      match s.pointers p with
      | none => some (s.put p (some (gc s.service).1) (gc s.service).2)
      | some _ => none
  | .copyNew p v =>
      match s.pointers p, s.pointers v with
      | none, some source => do
          let (g, service) ← (gc s.service).1.copy source (gc s.service).2
          return s.put p (some g) service
      | _, _ => none
  | .moveNew p v =>
      match s.pointers p, s.pointers v with
      | none, some source =>
          let (g, source) := (gc s.service).1.swap source
          some ((s.put v (some source) (gc s.service).2).put p (some g) (gc s.service).2)
      | _, _ => none
  | .copyAssign p v =>
      match s.pointers p, s.pointers v with
      | some g, some source => do
          let (g, service) ← g.copy source s.service
          return s.put p (some g) service
      | _, _ => none
  | .moveAssign p v =>
      match s.pointers p, s.pointers v with
      | some g, some source =>
          -- a pointer swapped with itself keeps its fields
          let (g, source) := if p = v then (g, g) else g.swap source
          some ((s.put v (some source) s.service).put p (some g) s.service)
      | _, _ => none
  | .destroy p =>
      match s.pointers p with
      | some g => some (s.put p none (g.unregister s.service))
      | none => none

def GcOp.names : GcOp → List Nat
  | .allocate _ => []
  | .construct p | .default p | .destroy p => [p]
  | .copyNew p v | .moveNew p v | .copyAssign p v | .moveAssign p v => [p, v]

def gcStart : Option GcRun :=
  table.map fun table => { service := { table, activeRoot := none }, pointers := fun _ => none, frames := [] }

/-- A move takes a reference only between pointers of one root. -/
def SameRoot (s : GcRun) : GcOp → Prop
  | .moveNew _ v => ∀ source, s.pointers v = some source → source.ref.isSome → source.root = (gc s.service).1.root
  | .moveAssign p v => ∀ g source, s.pointers p = some g → s.pointers v = some source →
      g.ref.isSome ∨ source.ref.isSome → g.root = source.root
  | _ => True

theorem GcRun.step_pointers {s next : GcRun} {op : GcOp} (taken : s.step op = some next) {q : Nat} (other : q ∉ op.names) :
    next.pointers q = s.pointers q := by
  have put (s : GcRun) (p : Nat) (new : Option GcPtr) (service : Service) (different : q ≠ p) :
      (s.put p new service).pointers q = s.pointers q := Function.update_of_ne different _ _
  cases op with
  | allocate address =>
      obtain ⟨made, -, same⟩ := Option.bind_eq_some_iff.mp taken
      obtain rfl := Option.some.inj same
      rfl
  | default p | destroy p =>
      simp only [GcOp.names, List.mem_singleton] at other
      simp only [GcRun.step] at taken
      split at taken <;> cases taken
      exact put _ _ _ _ other
  | construct p =>
      simp only [GcOp.names, List.mem_singleton] at other
      simp only [GcRun.step] at taken
      split at taken
      · obtain ⟨made, -, same⟩ := Option.bind_eq_some_iff.mp taken
        obtain rfl := Option.some.inj same
        exact put _ _ _ _ other
      · cases taken
  | copyNew p v | copyAssign p v =>
      simp only [GcOp.names, List.mem_cons, List.not_mem_nil, or_false, not_or] at other
      simp only [GcRun.step] at taken
      split at taken
      · obtain ⟨made, -, same⟩ := Option.bind_eq_some_iff.mp taken
        obtain rfl := Option.some.inj same
        exact put _ _ _ _ other.1
      · cases taken
  | moveNew p v | moveAssign p v =>
      simp only [GcOp.names, List.mem_cons, List.not_mem_nil, or_false, not_or] at other
      simp only [GcRun.step] at taken
      split at taken
      · obtain rfl := Option.some.inj taken
        exact (put _ _ _ _ other.1).trans (put _ _ _ _ other.2)
      · cases taken

end PrototypeBundle.Gc
