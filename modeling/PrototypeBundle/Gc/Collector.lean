import PrototypeBundle.Buddy.Page
import PrototypeBundle.Gc.Pointer
import PrototypeBundle.Memory.Sweep

set_option autoImplicit false

/-!
# `memory::collector_buddy`

What a payload destructor does is the list of references that it deletes.
-/

namespace PrototypeBundle.Gc

open Memory Buddy

structure CollectorBuddy extends Service where
  page : Page

-- `allocate` up to the constructor of the payload, of `size` bytes.
def CollectorBuddy.enter (c : CollectorBuddy) (size destructor : Nat) : Option CollectorBuddy := do
  let (node, table) ← c.table.addObjNode
  match c.page.allocate size with
  | .error _ => none
  | .ok (alloc, page) =>
      some
        { table := table.setPtr node (some (alloc + headerSize))
          activeRoot := some node
          page := page.setUserData alloc (some destructor) }

-- The body of the loop over the objects to destroy: the destructor called with its argument, and what is left.
def CollectorBuddy.destroy (c : CollectorBuddy) (deletes : List Nat) (object : Nat) :
    Option ((Nat × Nat) × CollectorBuddy) := do
  let ptr ← (c.table.nodes object).val.ptr
  let header := ptr - headerSize
  -- calling a null destructor is not defined
  let destructor ← (c.page.buffer header).userData
  let table ← (deletes.foldl (fun t ref => t.remRefNode object ref) c.table).remObjNode object
  let page ← c.page.free header
  return ((destructor, header + headerSize), { c with table, page })

def CollectorBuddy.destroyAll (deletes : Nat → List Nat) :
    List Nat → CollectorBuddy → Option (List (Nat × Nat) × CollectorBuddy)
  | [], c => some ([], c)
  | object :: rest, c => do
      let (call, c) ← c.destroy (deletes object) object
      let (calls, c) ← destroyAll deletes rest c
      return (call :: calls, c)

def CollectorBuddy.collect (c : CollectorBuddy) (deletes : Nat → List Nat) :
    Option (List (Nat × Nat) × CollectorBuddy) := do
  let (blackNodes, table) ← c.table.condemn
  CollectorBuddy.destroyAll deletes blackNodes { c with table }

/-- A collector and the active roots that running calls of `allocate` saved. -/
structure CollectorRun where
  collector : CollectorBuddy
  previous : List (Option Nat)

inductive CollectorOp where
  | allocate (size destructor : Nat)
  -- a constructor returns, and `allocate` after it
  | constructed
  | regRef (fromObject toObject : Nat)
  | delRef (fromObject ref : Nat)
  -- a store into the payload whose header is `header`
  | write (header : Nat) (contents : Nat → Header)
  | collect (deletes : Nat → List Nat)

def CollectorRun.step (s : CollectorRun) : CollectorOp → Option CollectorRun
  | .allocate size destructor =>
      (s.collector.enter size destructor).map fun collector =>
        { collector, previous := s.collector.activeRoot :: s.previous }
  | .constructed =>
      match s.previous with
      | [] => none
      | root :: previous => some { collector := { s.collector with activeRoot := root }, previous }
  | .regRef fromObject toObject =>
      (s.collector.regRef fromObject (some toObject)).map fun (_, service) =>
        { s with collector := { s.collector with toService := service } }
  | .delRef fromObject ref =>
      some { s with collector := { s.collector with toService := s.collector.delRef fromObject ref } }
  | .write header contents =>
      some { s with collector := { s.collector with page := s.collector.page.clientWrite header contents } }
  | .collect deletes =>
      (s.collector.collect deletes).map fun (_, collector) => { s with collector }

def collectorBuddy (capacity : Nat) (contents : Nat → Header) : Option CollectorRun := do
  let page ← page capacity contents
  let table ← table
  return { collector := { table, activeRoot := none, page }, previous := [] }

end PrototypeBundle.Gc
