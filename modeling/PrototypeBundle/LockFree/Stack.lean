import PrototypeBundle.Memory.NodeChain
import PrototypeBundle.Shared.Run
import Mathlib.Data.BitVec

set_option autoImplicit false

/-!
# `lf::stack`

Every step of a client is one access to the shared memory. Addresses are numbers, the null
pointer is `none`.
-/

namespace PrototypeBundle.LockFree

open Memory

structure Node (V : Type) where
  storage : Option V
  next : Option Nat
  alive : Bool
  deriving DecidableEq, Repr

inductive Call (V : Type) where
  -- also `emplace`
  | push (value : V)
  | pop
  | clear
  deriving DecidableEq, Repr

inductive Result (V : Type) where
  | pushed
  | popped (value : Option V)
  | cleared
  deriving DecidableEq, Repr

-- The next access of `atomics::push`.
inductive Stage where
  | load
  | store (value : Option Nat)
  | read
  | compareAndSwap (expected : Option Nat)
  deriving DecidableEq, Repr

-- The next access of a client with the values it has loaded.
inductive Client (V : Type) where
  | idle
  -- `push`
  | allocate (value : V)
  | construct (node : Nat) (value : V)
  | link (node : Nat) (stage : Stage)
  | countUp
  -- `pop`
  | enterPop
  | countDown
  | loadHead
  | readNext (oldHead : Nat)
  | swapHead (oldHead : Nat) (next : Option Nat)
  | moveData (unhooked : Nat)
  | destroyData (unhooked : Nat) (value : Option V)
  -- `clear`
  | enterClear
  | detach
  | findTail (first tail : Nat)
  -- `collector::push`
  | retire (first last : Nat) (stage : Stage) (result : Result V)
  -- `collector::try_collect`
  | loadCollection (result : Result V)
  | loadCritical (collectable : Option Nat) (result : Result V)
  | swapCollection (collectable : Option Nat) (result : Result V)
  | readCollectable (collectable : Nat) (result : Result V)
  | delete (collectable : Nat) (next : Option Nat) (result : Result V)
  -- `~client_guard`
  | leave (result : Result V)

structure State (V : Type) where
  head : Option Nat
  size : BitVec 64
  collectionHead : Option Nat
  criticalClients : BitVec 32
  nodes : Nat → Node V
  clients : Nat → Client V

variable {V : Type}

def State.put (s : State V) (t : Nat) (client : Client V) : State V :=
  { s with clients := Function.update s.clients t client }

-- An access of `atomics::push`. The stage is none once the list has been hooked to `head`; a failed
-- exchange leaves what it found in `last->next`.
def pushAccess (head : Option Nat) (last : Nat) (fails : Bool) (nodes : Nat → Node V) :
    Stage → (Nat → Node V) × Option Stage
  | .load => (nodes, some (.store head))
  | .store value => (modifyAt nodes last fun n => { n with next := value }, some .read)
  | .read => (nodes, some (.compareAndSwap (nodes last).next))
  | .compareAndSwap expected =>
      if head = expected ∧ fails = false then (nodes, none) else (nodes, some (.store head))

-- `atomics::pop` after `old_head` has been loaded or updated.
def withHead : Option Nat → Client V
  | none => .loadCollection (.popped none)
  | some oldHead => .readNext oldHead

def collectFrom (result : Result V) : Option Nat → Client V
  | none => .leave result
  | some collectable => .readCollectable collectable result

inductive Action (V : Type) where
  | call (call : Call V)
  -- the allocator returns `node`
  | allocate (node : Nat)
  -- any other access; an exchange may fail spuriously
  | access (fails : Bool)
  deriving DecidableEq, Repr

def begin : Call V → Client V
  | .push value => .allocate value
  | .pop => .enterPop
  | .clear => .enterClear

def State.access (s : State V) (t : Nat) (fails : Bool) : Client V → Option (State V)
  | .idle => none
  | .allocate _ => none
  | .construct node value =>
      some ({ s with nodes := modifyAt s.nodes node fun n => { n with storage := some value } }.put t (.link node .load))
  | .link node stage =>
      match pushAccess s.head node fails s.nodes stage with
      | (nodes, some stage) => some ({ s with nodes }.put t (.link node stage))
      | (nodes, none) => some ({ s with nodes, head := some node }.put t .countUp)
  | .countUp => some ({ s with size := s.size + 1 }.put t .idle)
  | .enterPop => some ({ s with criticalClients := s.criticalClients + 1 }.put t .countDown)
  | .countDown => some ({ s with size := s.size - 1 }.put t .loadHead)
  | .loadHead => some (s.put t (withHead s.head))
  | .readNext oldHead => some (s.put t (.swapHead oldHead (s.nodes oldHead).next))
  | .swapHead oldHead next =>
      if s.head = some oldHead ∧ fails = false then some ({ s with head := next }.put t (.moveData oldHead))
      else some (s.put t (withHead s.head))
  | .moveData unhooked => some (s.put t (.destroyData unhooked (s.nodes unhooked).storage))
  | .destroyData unhooked value =>
      some ({ s with nodes := modifyAt s.nodes unhooked fun n => { n with storage := none } }.put t
        (.retire unhooked unhooked .load (.popped value)))
  | .enterClear => some ({ s with criticalClients := s.criticalClients + 1 }.put t .detach)
  | .detach =>
      match s.head with
      | none => some (s.put t (.loadCollection .cleared))
      | some first => some ({ s with head := none }.put t (.findTail first first))
  | .findTail first tail =>
      match (s.nodes tail).next with
      | none => some (s.put t (.retire first tail .load .cleared))
      | some next => some (s.put t (.findTail first next))
  | .retire first last stage result =>
      match pushAccess s.collectionHead last fails s.nodes stage with
      | (nodes, some stage) => some ({ s with nodes }.put t (.retire first last stage result))
      | (nodes, none) => some ({ s with nodes, collectionHead := some first }.put t (.loadCollection result))
  | .loadCollection result => some (s.put t (.loadCritical s.collectionHead result))
  | .loadCritical collectable result =>
      if s.criticalClients = 1 then some (s.put t (.swapCollection collectable result))
      else some (s.put t (.leave result))
  | .swapCollection collectable result =>
      if s.collectionHead = collectable ∧ fails = false then
        some ({ s with collectionHead := none }.put t (collectFrom result collectable))
      else some (s.put t (.leave result))
  | .readCollectable collectable result =>
      some (s.put t (.delete collectable (s.nodes collectable).next result))
  | .delete collectable next result =>
      some ({ s with nodes := modifyAt s.nodes collectable fun n => { n with alive := false } }.put t
        (collectFrom result next))
  | .leave _ => some ({ s with criticalClients := s.criticalClients - 1 }.put t .idle)

-- A step of client `t`; none when it cannot take it.
def State.step (s : State V) : Nat × Action V → Option (State V)
  | (t, .call call) =>
      match s.clients t with
      | .idle => some (s.put t (begin call))
      | _ => none
  | (t, .allocate node) =>
      match s.clients t with
      | .allocate value =>
          if (s.nodes node).alive then none
          else some ({ s with
            nodes := modifyAt s.nodes node fun n => { n with storage := none, alive := true } }.put t
              (.construct node value))
      | _ => none
  | (t, .access fails) => s.access t fails (s.clients t)

def start : State V where
  head := none
  size := 0
  collectionHead := none
  criticalClients := 0
  nodes := fun _ => { storage := none, next := none, alive := false }
  clients := fun _ => .idle

end PrototypeBundle.LockFree
