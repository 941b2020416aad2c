import PrototypeBundle.Shared.Chain
import Mathlib.Tactic.SplitIfs

set_option autoImplicit false

/-!
# `memory::node_chain`

The nodes of all chains live in one store, indexed by node. A chain is its head
pointer; `none` is the null pointer.
-/

namespace PrototypeBundle.Memory

open Intrusive

structure ChainNode (β : Type) where
  prev : Option Nat
  next : Option Nat
  val : β
  deriving DecidableEq, Repr

instance {β : Type} [Inhabited β] : Inhabited (ChainNode β) := ⟨⟨none, none, default⟩⟩

abbrev Nodes (β : Type) := Nat → ChainNode β

variable {β : Type}

def modifyAt {γ : Type} (store : Nat → γ) (place : Nat) (change : γ → γ) : Nat → γ :=
  fun other => if other = place then change (store other) else store other

theorem modifyAt_same {γ : Type} (store : Nat → γ) (place : Nat) (change : γ → γ) :
    modifyAt store place change place = change (store place) := if_pos rfl

theorem modifyAt_other {γ : Type} (store : Nat → γ) (place : Nat) (change : γ → γ) {other : Nat}
    (different : other ≠ place) : modifyAt store place change other = store other := if_neg different

def setPrev (nodes : Nodes β) (node : Nat) (value : Option Nat) : Nodes β :=
  modifyAt nodes node fun n => { n with prev := value }

def setNext (nodes : Nodes β) (node : Nat) (value : Option Nat) : Nodes β :=
  modifyAt nodes node fun n => { n with next := value }

def setVal (nodes : Nodes β) (node : Nat) (value : β) : Nodes β :=
  modifyAt nodes node fun n => { n with val := value }

section Fields

variable (nodes : Nodes β) (node other : Nat)

@[simp] theorem setPrev_prev (value : Option Nat) :
    (setPrev nodes node value other).prev = if other = node then value else (nodes other).prev := by
  by_cases same : other = node <;> simp [setPrev, modifyAt, same]

@[simp] theorem setPrev_next (value : Option Nat) :
    (setPrev nodes node value other).next = (nodes other).next := by
  by_cases same : other = node <;> simp [setPrev, modifyAt, same]

@[simp] theorem setPrev_val (value : Option Nat) :
    (setPrev nodes node value other).val = (nodes other).val := by
  by_cases same : other = node <;> simp [setPrev, modifyAt, same]

@[simp] theorem setNext_prev (value : Option Nat) :
    (setNext nodes node value other).prev = (nodes other).prev := by
  by_cases same : other = node <;> simp [setNext, modifyAt, same]

@[simp] theorem setNext_next (value : Option Nat) :
    (setNext nodes node value other).next = if other = node then value else (nodes other).next := by
  by_cases same : other = node <;> simp [setNext, modifyAt, same]

@[simp] theorem setNext_val (value : Option Nat) :
    (setNext nodes node value other).val = (nodes other).val := by
  by_cases same : other = node <;> simp [setNext, modifyAt, same]

@[simp] theorem setVal_prev (value : β) :
    (setVal nodes node value other).prev = (nodes other).prev := by
  by_cases same : other = node <;> simp [setVal, modifyAt, same]

@[simp] theorem setVal_next (value : β) :
    (setVal nodes node value other).next = (nodes other).next := by
  by_cases same : other = node <;> simp [setVal, modifyAt, same]

@[simp] theorem setVal_val (value : β) :
    (setVal nodes node value other).val = if other = node then value else (nodes other).val := by
  by_cases same : other = node <;> simp [setVal, modifyAt, same]

theorem setPrev_other (value : Option Nat) (different : other ≠ node) :
    setPrev nodes node value other = nodes other := by
  simp [setPrev, modifyAt, different]

theorem setNext_other (value : Option Nat) (different : other ≠ node) :
    setNext nodes node value other = nodes other := by
  simp [setNext, modifyAt, different]

theorem setVal_other (value : β) (different : other ≠ node) :
    setVal nodes node value other = nodes other := by
  simp [setVal, modifyAt, different]

end Fields

def prepend (nodes : Nodes β) (head : Option Nat) (node : Nat) : Nodes β × Option Nat :=
  let nodes := match head with
    | some first => setPrev nodes first (some node)
    | none => nodes
  let nodes := setNext nodes node head
  let nodes := setPrev nodes node none
  (nodes, some node)

def remove (nodes : Nodes β) (head : Option Nat) (node : Nat) : Nodes β × Option Nat :=
  let nodes := match (nodes node).next with
    | some after => setPrev nodes after (nodes node).prev
    | none => nodes
  let nodes := match (nodes node).prev with
    | some before => setNext nodes before (nodes node).next
    | none => nodes
  if head = some node then (setPrev nodes node none, (nodes node).next) else (nodes, head)

-- The popped node and the new head; popping an empty chain follows null.
def pop (nodes : Nodes β) (head : Option Nat) : Option (Nat × Option Nat) :=
  head.map fun node => (node, (nodes node).next)

/-- `xs` are the nodes of the chain at `head`, linked both ways. -/
def IsList (nodes : Nodes β) (head : Option Nat) (xs : List Nat) : Prop :=
  Linked (fun n => (nodes n).prev) (fun n => (nodes n).next) none head xs

instance (nodes : Nodes β) (head : Option Nat) (xs : List Nat) : Decidable (IsList nodes head xs) :=
  inferInstanceAs (Decidable (Linked _ _ none head xs))

/-- `xs` are the nodes of the chain at `head`; their `prev` may be stale. -/
def IsChain (nodes : Nodes β) (head : Option Nat) (xs : List Nat) : Prop :=
  Chain (fun n => (nodes n).next) head xs

instance (nodes : Nodes β) (head : Option Nat) (xs : List Nat) : Decidable (IsChain nodes head xs) :=
  inferInstanceAs (Decidable (Chain _ head xs))

theorem IsList.isChain {nodes : Nodes β} {head : Option Nat} {xs : List Nat}
    (list : IsList nodes head xs) : IsChain nodes head xs := Linked.chain list

theorem IsList.nodup {nodes : Nodes β} {head : Option Nat} {xs : List Nat}
    (list : IsList nodes head xs) : xs.Nodup := Linked.nodup list

theorem IsChain.nodup {nodes : Nodes β} {head : Option Nat} {xs : List Nat}
    (chain : IsChain nodes head xs) : xs.Nodup := Chain.nodup chain

theorem IsList.congr {nodes nodes' : Nodes β} {head : Option Nat} {xs : List Nat}
    (list : IsList nodes head xs)
    (same : ∀ x ∈ xs, (nodes' x).prev = (nodes x).prev ∧ (nodes' x).next = (nodes x).next) :
    IsList nodes' head xs :=
  Linked.congr (fun x member => (same x member).1) (fun x member => (same x member).2) list

theorem IsChain.congr {nodes nodes' : Nodes β} {head : Option Nat} {xs : List Nat}
    (chain : IsChain nodes head xs) (same : ∀ x ∈ xs, (nodes' x).next = (nodes x).next) :
    IsChain nodes' head xs :=
  Chain.congr same chain

section Prepend

variable (nodes : Nodes β) (head : Option Nat) (node : Nat)

theorem prepend_prev (other : Nat) :
    ((prepend nodes head node).1 other).prev =
      if other = node then none else if head = some other then some node else (nodes other).prev := by
  cases head with
  | none => by_cases same : other = node <;> simp [prepend, same]
  | some first => by_cases same : other = node <;> simp [prepend, same, eq_comm]

theorem prepend_next (other : Nat) :
    ((prepend nodes head node).1 other).next =
      if other = node then head else (nodes other).next := by
  cases head <;> simp [prepend]

@[simp] theorem prepend_val (other : Nat) :
    ((prepend nodes head node).1 other).val = (nodes other).val := by
  cases head <;> simp [prepend]

@[simp] theorem prepend_head : (prepend nodes head node).2 = some node := rfl

theorem prepend_other (other : Nat) (different : other ≠ node) (notFirst : head ≠ some other) :
    (prepend nodes head node).1 other = nodes other := by
  cases head with
  | none => simp [prepend, setPrev_other _ _ _ _ different, setNext_other _ _ _ _ different]
  | some first =>
      have apart : other ≠ first := fun equal => notFirst (by rw [equal])
      simp [prepend, setPrev_other _ _ _ _ different, setNext_other _ _ _ _ different,
        setPrev_other _ _ _ _ apart]

variable {nodes head node}

theorem IsList.prepend {xs : List Nat} (list : IsList nodes head xs) (fresh : node ∉ xs) :
    IsList (Memory.prepend nodes head node).1 (some node) (node :: xs) := by
  have apart (y : Nat) (member : y ∈ xs) : y ≠ node := fun equal => fresh (equal ▸ member)
  refine Linked.prepend list (by simp [prepend_prev]) (by simp [prepend_next]) ?_ ?_
  · intro y member
    simp [prepend_prev, apart y member]
  · intro y member
    simp [prepend_next, apart y member]

theorem IsChain.prepend {xs : List Nat} (chain : IsChain nodes head xs) (fresh : node ∉ xs) :
    IsChain (Memory.prepend nodes head node).1 (some node) (node :: xs) := by
  refine Chain.push chain (by simp [prepend_next]) ?_
  intro y member
  have apart : y ≠ node := fun equal => fresh (equal ▸ member)
  simp [prepend_next, apart]

theorem prepend_frame {xs : List Nat} (chain : IsChain nodes head xs) {other : Nat}
    (different : other ≠ node) (outside : other ∉ xs) :
    (Memory.prepend nodes head node).1 other = nodes other :=
  prepend_other nodes head node other different fun first => outside (Chain.head_mem chain first)

end Prepend

section Remove

variable {nodes : Nodes β} {head : Option Nat} {node : Nat} {xs : List Nat}

theorem IsList.next_ne (list : IsList nodes head xs) (member : node ∈ xs) :
    (nodes node).next ≠ some node := by
  intro loop
  obtain ⟨before, after, split⟩ := List.append_of_mem member
  have tail : IsChain nodes (some node) (node :: after) := by
    have chain : IsChain nodes head (before ++ node :: after) := split ▸ list.isChain
    exact Chain.suffix chain
  have rest : IsChain nodes (nodes node).next after := tail.2
  rw [loop] at rest
  exact (List.nodup_cons.mp tail.nodup).1 (Chain.head_mem rest rfl)

theorem remove_links (list : IsList nodes head xs) (member : node ∈ xs) (other : Nat)
    (different : other ≠ node) :
    ((remove nodes head node).1 other).prev =
        (if (nodes node).next = some other then (nodes node).prev else (nodes other).prev) ∧
      ((remove nodes head node).1 other).next =
        (if (nodes node).prev = some other then (nodes node).next else (nodes other).next) := by
  have selfNext := list.next_ne member
  unfold remove
  cases forward : (nodes node).next with
  | none =>
      cases backward : (nodes node).prev with
      | none => split_ifs <;> simp_all
      | some before => split_ifs <;> simp_all [eq_comm]
  | some after =>
      have apart : node ≠ after := fun equal => selfNext (by rw [forward, ← equal])
      cases backward : (nodes node).prev with
      | none => split_ifs <;> simp_all [eq_comm]
      | some before => split_ifs <;> simp_all [eq_comm]

theorem remove_head (list : IsList nodes head xs) (member : node ∈ xs) :
    (remove nodes head node).2 = if head = some node then (nodes node).next else head := by
  have selfPrev : (nodes node).prev ≠ some node := by
    rcases Linked.prev_cases list member with ⟨_, front⟩ | ⟨y, _, backward, forward⟩
    · simp [front]
    · intro loop
      have same : y = node := Option.some.inj (backward.symm.trans loop)
      exact list.next_ne member (same ▸ forward)
  have selfNext := list.next_ne member
  unfold remove
  cases forward : (nodes node).next with
  | none =>
      cases backward : (nodes node).prev with
      | none => split_ifs <;> simp_all
      | some before => split_ifs <;> simp_all [eq_comm]
  | some after =>
      have apart : node ≠ after := fun equal => selfNext (by rw [forward, ← equal])
      cases backward : (nodes node).prev with
      | none => split_ifs <;> simp_all
      | some before => split_ifs <;> simp_all [eq_comm]

@[simp] theorem remove_val (nodes : Nodes β) (head : Option Nat) (node other : Nat) :
    ((remove nodes head node).1 other).val = (nodes other).val := by
  unfold remove
  cases (nodes node).next <;> split_ifs <;> dsimp only <;> split <;> simp

theorem IsList.remove (list : IsList nodes head xs) (member : node ∈ xs) :
    IsList (Memory.remove nodes head node).1 (Memory.remove nodes head node).2
      (xs.erase node) := by
  rw [remove_head list member]
  refine Linked.remove list member (by simp) ?_ ?_
  · intro y _ different
    exact (remove_links list member y different).1
  · intro y _ different
    exact (remove_links list member y different).2

theorem remove_frame (list : IsList nodes head xs) (member : node ∈ xs) {other : Nat}
    (outside : other ∉ xs) : (Memory.remove nodes head node).1 other = nodes other := by
  have different : other ≠ node := fun equal => outside (equal ▸ member)
  obtain ⟨prev, next⟩ := remove_links list member other different
  have noNext : (nodes node).next ≠ some other := fun link =>
    outside (Chain.next_mem list.isChain member link)
  have noPrev : (nodes node).prev ≠ some other := by
    intro link
    rcases Linked.prev_cases list member with ⟨_, front⟩ | ⟨y, inside, backward, _⟩
    · simp [front] at link
    · rw [link] at backward
      exact outside (Option.some.inj backward ▸ inside)
  rw [if_neg noNext] at prev
  rw [if_neg noPrev] at next
  have val := remove_val nodes head node other
  cases equal : (Memory.remove nodes head node).1 other
  cases equal' : nodes other
  simp_all

end Remove

end PrototypeBundle.Memory
