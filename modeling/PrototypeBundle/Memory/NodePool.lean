import PrototypeBundle.Memory.NodeChain
import Mathlib.Data.List.Range

set_option autoImplicit false

/-!
# `memory::node_pool`

Nodes come in pages of `pageCapacity`; page `p` owns the nodes from
`p * pageCapacity` on, so that `size` is the number of nodes of all pages.
-/

namespace PrototypeBundle.Memory

open Intrusive

structure NodePool (β : Type) where
  nodes : Nodes β
  freeChain : Option Nat
  size : Nat
  pageCapacity : Nat

variable {β : Type} [Inhabited β]

-- The links of a page that starts at node `page`.
def formatTopPage (nodes : Nodes β) (page pageCapacity : Nat) : Nodes β :=
  let nodes := setPrev nodes page none
  let nodes := (List.range' 1 (pageCapacity - 1)).foldl (fun nodes i =>
    setPrev (setNext nodes (page + (i - 1)) (some (page + i))) (page + i) (some (page + (i - 1)))) nodes
  setNext nodes (page + (pageCapacity - 1)) none

def addPage (pool : NodePool β) : NodePool β :=
  { pool with
    nodes := formatTopPage pool.nodes pool.size pool.pageCapacity
    freeChain := some pool.size
    size := pool.size + pool.pageCapacity }

def nodePool (pageCapacity : Nat) : NodePool β :=
  addPage { nodes := fun _ => default, freeChain := none, size := 0, pageCapacity }

def NodePool.reserve (pool : NodePool β) : Option (Nat × NodePool β) :=
  let pool := if pool.freeChain = none then addPage pool else pool
  (pop pool.nodes pool.freeChain).map fun (node, head) =>
    (node, { pool with nodes := Function.update pool.nodes node default, freeChain := head })

def NodePool.release (pool : NodePool β) (node : Nat) : NodePool β :=
  let (nodes, head) := prepend pool.nodes pool.freeChain node
  { pool with nodes, freeChain := head }

/-- The free chain of the pool is `free`, a part of the nodes of its pages. -/
structure NodePool.Ok (pool : NodePool β) (free : List Nat) : Prop where
  chain : IsChain pool.nodes pool.freeChain free
  bound : ∀ n ∈ free, n < pool.size
  capacity : 0 < pool.pageCapacity

omit [Inhabited β] in
theorem format_links (nodes : Nodes β) (page count other : Nat) :
    ((List.range' 1 count).foldl (fun nodes i =>
      setPrev (setNext nodes (page + (i - 1)) (some (page + i))) (page + i) (some (page + (i - 1))))
        nodes other).next =
      if page ≤ other ∧ other < page + count then some (other + 1) else (nodes other).next := by
  induction count with
  | zero =>
      simp
  | succ count ih =>
      have last : 1 + 1 * count - 1 = count := by omega
      rw [List.range'_concat, List.foldl_append]
      simp only [List.foldl_cons, List.foldl_nil, setPrev_next, setNext_next, ih, last]
      by_cases same : other = page + count
      · have inside : page ≤ other ∧ other < page + (count + 1) := by omega
        simp only [same, if_true]
        simp
        omega
      · have bounds : page ≤ other ∧ other < page + (count + 1) ↔ page ≤ other ∧ other < page + count := by
          omega
        simp only [if_neg same, bounds]

omit [Inhabited β] in
theorem format_frame (nodes : Nodes β) (page count other : Nat)
    (outside : ¬ (page ≤ other ∧ other < page + (count + 1))) :
    (List.range' 1 count).foldl (fun nodes i =>
      setPrev (setNext nodes (page + (i - 1)) (some (page + i))) (page + i) (some (page + (i - 1))))
        nodes other = nodes other := by
  induction count with
  | zero => rfl
  | succ count ih =>
      have last : 1 + 1 * count - 1 = count := by omega
      rw [List.range'_concat, List.foldl_append]
      simp only [List.foldl_cons, List.foldl_nil, last]
      rw [setPrev_other _ _ _ _ (by omega), setNext_other _ _ _ _ (by omega)]
      exact ih (by omega)

omit [Inhabited β] in
theorem formatTopPage_next (nodes : Nodes β) (page capacity other : Nat) (inside : page ≤ other)
    (below : other < page + capacity) :
    (formatTopPage nodes page capacity other).next =
      if other + 1 = page + capacity then none else some (other + 1) := by
  simp only [formatTopPage, setNext_next, format_links, setPrev_next]
  by_cases last : other + 1 = page + capacity
  · rw [if_pos (by omega), if_pos last]
  · rw [if_neg (by omega), if_pos (by omega), if_neg last]

omit [Inhabited β] in
theorem formatTopPage_frame (nodes : Nodes β) (page capacity other : Nat) (positive : 0 < capacity)
    (outside : ¬ (page ≤ other ∧ other < page + capacity)) :
    formatTopPage nodes page capacity other = nodes other := by
  unfold formatTopPage
  rw [setNext_other _ _ _ _ (by omega), format_frame _ _ _ _ (by omega),
    setPrev_other _ _ _ _ (by omega)]

omit [Inhabited β] in
theorem formatTopPage_chain (nodes : Nodes β) (page capacity : Nat) :
    ∀ count start, 0 < count → page ≤ start → start + count = page + capacity →
      IsChain (formatTopPage nodes page capacity) (some start) (List.range' start count) := by
  intro count
  induction count with
  | zero => intro _ positive; omega
  | succ count ih =>
      intro start _ lower last
      rw [List.range'_succ]
      refine ⟨rfl, ?_⟩
      simp only
      rw [formatTopPage_next nodes page capacity start lower (by omega)]
      by_cases done : count = 0
      · subst done
        rw [if_pos (by omega)]
        rfl
      · rw [if_neg (by omega)]
        exact ih (start + 1) (by omega) (by omega) (by omega)

omit [Inhabited β] in
theorem addPage_ok (pool : NodePool β) (positive : 0 < pool.pageCapacity) :
    (addPage pool).Ok (List.range' pool.size pool.pageCapacity) where
  chain := formatTopPage_chain _ _ _ _ _ positive (Nat.le_refl _) rfl
  bound := by
    intro n member
    have := List.mem_range'_1.mp member
    simp only [addPage]
    omega
  capacity := positive

theorem nodePool_ok {pageCapacity : Nat} (positive : 0 < pageCapacity) :
    (nodePool pageCapacity : NodePool β).Ok (List.range' 0 pageCapacity) :=
  addPage_ok { nodes := fun _ => default, freeChain := none, size := 0, pageCapacity } positive

structure Reserved (pool : NodePool β) (free : List Nat) (node : Nat) (pool' : NodePool β)
    (free' : List Nat) : Prop where
  ok : pool'.Ok free'
  node_lt : node < pool'.size
  size_le : pool.size ≤ pool'.size
  not_free : node ∉ free'
  blank : pool'.nodes node = default
  node_new : node ∈ free ∨ pool.size ≤ node
  free_new : ∀ n ∈ free', n ∈ free ∨ pool.size ≤ n
  frame : ∀ n, n < pool.size → n ∉ free → pool'.nodes n = pool.nodes n
  all : ∀ n, n < pool'.size → n = node ∨ n ∈ free' ∨ n < pool.size ∧ n ∉ free

theorem pop_reserved {pool : NodePool β} {node : Nat} {free : List Nat} (ok : pool.Ok (node :: free)) :
    Reserved pool (node :: free) node
      { pool with
        nodes := Function.update pool.nodes node default
        freeChain := (pool.nodes node).next } free := by
  have fresh := (List.nodup_cons.mp ok.chain.nodup).1
  have apart (n : Nat) (member : n ∈ free) : n ≠ node := fun equal => fresh (equal ▸ member)
  refine ⟨⟨?_, ?_, ok.capacity⟩, ok.bound node (by simp), Nat.le_refl _, fresh, by simp, by simp, ?_, ?_, ?_⟩
  · have tail : IsChain pool.nodes (pool.nodes node).next free := ok.chain.2
    exact tail.congr fun n member => by simp [apart n member]
  · exact fun n member => ok.bound n (List.mem_cons_of_mem _ member)
  · exact fun n member => Or.inl (List.mem_cons_of_mem _ member)
  · intro n _ used
    have different : n ≠ node := fun equal => used (by simp [equal])
    simp [different]
  · intro n bound
    by_cases member : n ∈ node :: free
    · rcases List.mem_cons.mp member with same | rest
      · exact Or.inl same
      · exact Or.inr (Or.inl rest)
    · exact Or.inr (Or.inr ⟨bound, member⟩)

theorem NodePool.reserve_spec {pool : NodePool β} {free : List Nat} (ok : pool.Ok free) :
    ∃ node pool' free', pool.reserve = some (node, pool') ∧ Reserved pool free node pool' free' := by
  cases free with
  | cons node free =>
      have head : pool.freeChain = some node := ok.chain.1
      exact ⟨node, _, free, by simp [reserve, head, pop], pop_reserved ok⟩
  | nil =>
      -- an exhausted pool grows by a page before it pops
      have empty : pool.freeChain = none := ok.chain
      have grown := addPage_ok _ ok.capacity
      obtain ⟨rest, list⟩ : ∃ rest, List.range' pool.size pool.pageCapacity = pool.size :: rest := by
        obtain ⟨count, equal⟩ := Nat.exists_eq_succ_of_ne_zero (Nat.ne_of_gt ok.capacity)
        exact ⟨List.range' (pool.size + 1) count, by rw [equal, List.range'_succ]⟩
      rw [list] at grown
      have popped := pop_reserved grown
      have later (n : Nat) (member : n ∈ pool.size :: rest) : pool.size ≤ n := by
        rw [← list] at member
        exact (List.mem_range'_1.mp member).1
      let grownPool := addPage pool
      refine ⟨pool.size,
        { grownPool with
          nodes := Function.update grownPool.nodes pool.size default
          freeChain := (grownPool.nodes pool.size).next }, rest,
        by simp [grownPool, reserve, empty, pop, addPage], ?_⟩
      refine ⟨popped.ok, popped.node_lt, ?_, popped.not_free, popped.blank, Or.inr (Nat.le_refl _), ?_, ?_, ?_⟩
      · exact Nat.le_add_right _ _
      · exact fun n member => Or.inr (later n (List.mem_cons_of_mem _ member))
      · intro n bound _
        have outside : n ∉ pool.size :: rest := fun member => by
          have := later n member
          omega
        rw [popped.frame n (by simp only [addPage]; omega) outside]
        exact formatTopPage_frame _ _ _ _ ok.capacity (by omega)
      · intro n bound
        by_cases old : n < pool.size
        · exact Or.inr (Or.inr ⟨old, by simp⟩)
        · have member : n ∈ pool.size :: rest := by
            rw [← list]
            exact List.mem_range'_1.mpr ⟨by omega, bound⟩
          rcases List.mem_cons.mp member with same | inside
          · exact Or.inl same
          · exact Or.inr (Or.inl inside)

omit [Inhabited β] in
theorem NodePool.release_ok {pool : NodePool β} {free : List Nat} (ok : pool.Ok free) {node : Nat}
    (bound : node < pool.size) (used : node ∉ free) : (pool.release node).Ok (node :: free) where
  chain := ok.chain.prepend used
  bound := by
    intro n member
    rcases List.mem_cons.mp member with same | rest
    · exact same ▸ bound
    · exact ok.bound n rest
  capacity := ok.capacity

omit [Inhabited β] in
theorem NodePool.release_frame {pool : NodePool β} {free : List Nat} (ok : pool.Ok free) {node other : Nat}
    (different : other ≠ node) (outside : other ∉ free) :
    (pool.release node).nodes other = pool.nodes other :=
  prepend_frame ok.chain different outside

omit [Inhabited β] in
@[simp] theorem NodePool.release_size (pool : NodePool β) (node : Nat) :
    (pool.release node).size = pool.size := rfl

end PrototypeBundle.Memory
