import PrototypeBundle.Memory.Table
import PrototypeBundle.Shared.Waves
import Mathlib.Data.Finset.Lattice.Fold
import Mathlib.Order.Lattice.Nat

set_option autoImplicit false

namespace PrototypeBundle.Memory

-- The scan of a `ref_chain`, from `ref` on.
def scan (nodes : Nodes TableCell) : Nat → Option Nat → List Nat → Option (List Nat)
  | _, none, grayNodes => some grayNodes
  | 0, some _, _ => none
  | length + 1, some ref, grayNodes => do
      -- following a null `ref.to` is not defined
      let target ← (nodes ref).val.word
      scan nodes length (nodes ref).next
        (if (nodes target).val.marked then grayNodes else grayNodes ++ [target])

def blacken (length : Nat) (state : Nodes TableCell × List Nat) (node : Nat) :
    Option (Nodes TableCell × List Nat) := do
  let nodes := setMarked state.1 node true
  let grayNodes ← scan nodes length (nodes node).val.word state.2
  return (nodes, grayNodes)

def markFrom (length : Nat) : Nat → Nodes TableCell → List Nat → Option (Nodes TableCell)
  | 0, nodes, blackNodes => if blackNodes = [] then some nodes else none
  | fuel + 1, nodes, blackNodes =>
      if blackNodes = [] then some nodes
      else do
        let (nodes, grayNodes) ← blackNodes.foldlM (blacken length) (nodes, [])
        markFrom length fuel nodes grayNodes

-- `fuel` bounds the number of waves and the length of a chain.
def Table.mark (fuel : Nat) (t : Table) : Option Table :=
  (markFrom fuel fuel t.nodes [t.root]).map t.withNodes

def targets (nodes : Nodes TableCell) (refs : List Nat) : List Nat :=
  refs.filterMap fun r => (nodes r).val.word

def Table.Refers (t : Table) (refs : Nat → List Nat) (o p : Nat) : Prop :=
  p ∈ targets t.nodes (refs o)

/-- The root and the other `objects` form a graph in which all but the root start unmarked. -/
structure Graph (t : Table) (objects : Finset Nat) (refs : Nat → List Nat) : Prop where
  root : t.root ∈ objects
  chain : ∀ o ∈ objects, IsChain t.nodes (t.nodes o).val.word (refs o)
  target : ∀ o ∈ objects, ∀ r ∈ refs o, ∃ p ∈ objects, (t.nodes r).val.word = some p
  unmarked : ∀ o ∈ objects, (t.nodes o).val.marked = true → o = t.root

def withMarks (nodes : Nodes TableCell) (marked : Nat → Bool) : Nodes TableCell :=
  fun n => { nodes n with val := { (nodes n).val with marked := marked n } }

theorem setMarked_withMarks (nodes : Nodes TableCell) (marked : Nat → Bool) (node : Nat) (value : Bool) :
    setMarked (withMarks nodes marked) node value = withMarks nodes (Function.update marked node value) := by
  funext n
  by_cases same : n = node <;> simp [setMarked, modifyAt, withMarks, same]

theorem scan_eq (nodes : Nodes TableCell) (marked : Nat → Bool) (length : Nat) (refs : List Nat)
    (ref : Option Nat) (grayNodes : List Nat) (chain : IsChain nodes ref refs)
    (aimed : ∀ r ∈ refs, ∃ p, (nodes r).val.word = some p) (long : refs.length ≤ length) :
    scan (withMarks nodes marked) length ref grayNodes =
      some (grayNodes ++ (targets nodes refs).filter fun p => !marked p) := by
  induction refs generalizing ref length grayNodes with
  | nil =>
      have last : ref = none := chain
      subst last
      cases length <;> simp [scan, targets]
  | cons r refs ih =>
      obtain ⟨head, rest⟩ : ref = some r ∧ IsChain nodes (nodes r).next refs := chain
      subst head
      obtain ⟨p, word⟩ := aimed r (by simp)
      obtain ⟨length, rfl⟩ : ∃ n, length = n + 1 := Nat.exists_eq_add_one.mpr (by simp at long; omega)
      have known : (withMarks nodes marked r).val.word = some p := word
      have later := ih length (nodes r).next (if marked p then grayNodes else grayNodes ++ [p]) rest
        (fun k member => aimed k (List.mem_cons_of_mem _ member)) (by simpa using long)
      rw [scan, known]
      refine Eq.trans later ?_
      by_cases isMarked : marked p = true <;> simp [targets, word, isMarked]

section Waves

variable {t : Table} {objects : Finset Nat} {refs : Nat → List Nat} (graph : Graph t objects refs)

include graph

theorem Graph.edge (o : Nat) (known : o ∈ objects) (p : Nat) (edge : p ∈ targets t.nodes (refs o)) :
    p ∈ objects := by
  obtain ⟨r, member, word⟩ := List.mem_filterMap.mp edge
  obtain ⟨q, inside, aimed⟩ := graph.target o known r member
  exact Option.some.inj (aimed.symm.trans word) ▸ inside

theorem blacken_eq (length : Nat) (marked : Nat → Bool) (grayNodes : List Nat) (node : Nat)
    (known : node ∈ objects) (long : (refs node).length ≤ length) :
    blacken length (withMarks t.nodes marked, grayNodes) node =
      let next := Waves.visit (fun o => targets t.nodes (refs o)) (marked, grayNodes) node
      some (withMarks t.nodes next.1, next.2) := by
  have aimed (r : Nat) (member : r ∈ refs node) : ∃ p, (t.nodes r).val.word = some p := by
    obtain ⟨p, _, word⟩ := graph.target node known r member
    exact ⟨p, word⟩
  have scanned := scan_eq t.nodes (Function.update marked node true) length (refs node) _ grayNodes
    (graph.chain node known) aimed long
  simp only [blacken, setMarked_withMarks, Waves.visit]
  simp only [withMarks] at scanned ⊢
  simp [scanned]

theorem foldlM_blacken_eq (length : Nat) (long : ∀ o ∈ objects, (refs o).length ≤ length)
    (blackNodes : List Nat) (known : ∀ o ∈ blackNodes, o ∈ objects) (marked : Nat → Bool)
    (grayNodes : List Nat) :
    blackNodes.foldlM (blacken length) (withMarks t.nodes marked, grayNodes) =
      let next := blackNodes.foldl (Waves.visit fun o => targets t.nodes (refs o)) (marked, grayNodes)
      some (withMarks t.nodes next.1, next.2) := by
  induction blackNodes generalizing marked grayNodes with
  | nil => rfl
  | cons node rest ih =>
      have inside := known node (by simp)
      rw [List.foldlM_cons, blacken_eq graph length marked grayNodes node inside (long node inside)]
      exact ih (fun o member => known o (List.mem_cons_of_mem _ member)) _ _

theorem markFrom_eq (length : Nat) (long : ∀ o ∈ objects, (refs o).length ≤ length) (fuel : Nat)
    (marked marked' : Nat → Bool) (blackNodes : List Nat) (known : ∀ o ∈ blackNodes, o ∈ objects)
    (run : Waves.waves (fun o => targets t.nodes (refs o)) fuel marked blackNodes = some marked') :
    markFrom length fuel (withMarks t.nodes marked) blackNodes = some (withMarks t.nodes marked') := by
  induction fuel generalizing marked blackNodes with
  | zero =>
      by_cases empty : blackNodes = [] <;> simp_all [Waves.waves, markFrom]
  | succ fuel ih =>
      by_cases empty : blackNodes = []
      · simp_all [Waves.waves, markFrom]
      · rw [Waves.waves, if_neg empty] at run
        rw [markFrom, if_neg empty, foldlM_blacken_eq graph length long blackNodes known]
        refine ih _ _ ?_ run
        intro o member
        obtain ⟨_, b, inside, edge⟩ := Waves.wave_gray _ _ _ _ member
        exact graph.edge b (known b inside) o edge

end Waves

theorem foldlM_blacken_marks {length : Nat} (blackNodes : List Nat) {nodes : Nodes TableCell}
    {marked : Nat → Bool} {grayNodes : List Nat} {state : Nodes TableCell × List Nat}
    (done : blackNodes.foldlM (blacken length) (withMarks nodes marked, grayNodes) = some state) :
    ∃ marked', state.1 = withMarks nodes marked' := by
  induction blackNodes generalizing marked grayNodes with
  | nil =>
      obtain rfl := Option.some.inj done
      exact ⟨marked, rfl⟩
  | cons node rest ih =>
      rw [List.foldlM_cons, Option.bind_eq_bind, Option.bind_eq_some_iff] at done
      obtain ⟨next, blackened, done⟩ := done
      simp only [blacken, setMarked_withMarks, Option.bind_eq_bind, Option.bind_eq_some_iff] at blackened
      obtain ⟨grayNodes', -, same⟩ := blackened
      obtain rfl := Option.some.inj same
      exact ih done

theorem markFrom_marks {length fuel : Nat} {nodes nodes' : Nodes TableCell} {marked : Nat → Bool}
    {blackNodes : List Nat} (done : markFrom length fuel (withMarks nodes marked) blackNodes = some nodes') :
    ∃ marked', nodes' = withMarks nodes marked' := by
  induction fuel generalizing marked blackNodes with
  | zero =>
      rw [markFrom] at done
      split at done
      · exact ⟨marked, (Option.some.inj done).symm⟩
      · cases done
  | succ fuel ih =>
      rw [markFrom] at done
      split at done
      · exact ⟨marked, (Option.some.inj done).symm⟩
      · rw [Option.bind_eq_bind, Option.bind_eq_some_iff] at done
        obtain ⟨⟨next, grayNodes⟩, folded, done⟩ := done
        obtain ⟨marked', same⟩ := foldlM_blacken_marks blackNodes folded
        simp only at same done
        rw [same] at done
        exact ih done

theorem Graph.waves {t : Table} {objects : Finset Nat} {refs : Nat → List Nat} (graph : Graph t objects refs) {fuel : Nat}
    (enough : objects.card + 2 + objects.sup (fun o => (refs o).length) ≤ fuel) :
    ∃ rest marked', fuel = rest + 1 ∧ objects.card < rest ∧ (∀ o ∈ objects, (refs o).length ≤ rest + 1) ∧
      Waves.waves (fun o => targets t.nodes (refs o)) (rest + 1) (fun n => (t.nodes n).val.marked) [t.root] =
        some marked' ∧
      (∀ o ∈ objects, marked' o = true ↔ Relation.ReflTransGen (t.Refers refs) t.root o) ∧
      ∀ n, n ∉ objects → marked' n = (t.nodes n).val.marked := by
  obtain ⟨rest, rfl⟩ : ∃ rest, fuel = rest + 1 := Nat.exists_eq_add_one.mpr (by omega)
  have edges (o : Nat) (known : o ∈ objects) (p : Nat) := graph.edge o known p
  obtain ⟨marked', run, exact, frame⟩ := Waves.waves_reachable edges graph.root graph.unmarked rest (by omega)
  refine ⟨rest, marked', rfl, by omega, fun o known => ?_, run, exact, frame⟩
  have part := Finset.le_sup (f := fun o => (refs o).length) known
  omega

theorem mark_spec (t : Table) (objects : Finset Nat) (refs : Nat → List Nat) (graph : Graph t objects refs) (fuel : Nat)
    (enough : objects.card + 2 + objects.sup (fun o => (refs o).length) ≤ fuel) :
    ∃ marked : Nat → Bool, t.mark fuel = some (t.withNodes (withMarks t.nodes marked)) ∧
      (∀ o ∈ objects, marked o = true ↔ Relation.ReflTransGen (t.Refers refs) t.root o) ∧
      ∀ n, n ∉ objects → marked n = (t.nodes n).val.marked := by
  obtain ⟨rest, marked', rfl, -, long, run, exact, frame⟩ := graph.waves enough
  have marking := markFrom_eq graph _ long (rest + 1) _ marked' [t.root] (by simpa using graph.root) run
  have start : withMarks t.nodes (fun n => (t.nodes n).val.marked) = t.nodes := rfl
  rw [start] at marking
  exact ⟨marked', by rw [Table.mark, marking, Option.map_some], exact, frame⟩

/-- Marking ends, whatever the graph, and marks exactly what the root reaches. -/
theorem mark_reachable (t : Table) (objects : Finset Nat) (refs : Nat → List Nat)
    (graph : Graph t objects refs) :
    ∃ bound, ∀ fuel, bound ≤ fuel → ∃ t', t.mark fuel = some t' ∧
      (∀ o ∈ objects, (t'.nodes o).val.marked = true ↔ Relation.ReflTransGen (t.Refers refs) t.root o) ∧
      ∀ n, n ∉ objects → t'.nodes n = t.nodes n := by
  refine ⟨objects.card + 2 + objects.sup fun o => (refs o).length, ?_⟩
  intro fuel enough
  obtain ⟨marked', marking, exact, frame⟩ := mark_spec t objects refs graph fuel enough
  refine ⟨t.withNodes (withMarks t.nodes marked'), marking, exact, ?_⟩
  intro n outside
  change withMarks t.nodes marked' n = t.nodes n
  simp only [withMarks, frame n outside]

-- Root 0 with a marked self reference and two references to object 1, which refers to itself.
def cyclicTable : Table where
  availableNodes :=
    { nodes := fun n =>
        let cell := fun next word =>
          { prev := none, next, val := { word, ptr := none, marked := false, pinned := false } }
        [cell none (some 2), cell none (some 5), cell (some 3) (some 0), cell (some 4) (some 1),
          cell none (some 1), cell none (some 1)].getD n default
      freeChain := none
      size := 6
      pageCapacity := 6 }
  objects := some 1
  root := 0

def cyclicRefs (o : Nat) : List Nat := if o = 0 then [2, 3, 4] else [5]

theorem cyclicTable_graph : Graph cyclicTable {0, 1} cyclicRefs where
  root := by decide
  chain := by simp [cyclicTable, Table.nodes, cyclicRefs, IsChain, Intrusive.Chain]
  target := by simp [cyclicTable, Table.nodes, cyclicRefs]
  unmarked := by simp [cyclicTable, Table.nodes]

theorem mark_reachable_cycle :
    ∃ bound, ∀ fuel, bound ≤ fuel → ∃ t', cyclicTable.mark fuel = some t' ∧
      (∀ o ∈ ({0, 1} : Finset Nat), (t'.nodes o).val.marked = true ↔
        Relation.ReflTransGen (cyclicTable.Refers cyclicRefs) 0 o) ∧
      ∀ n, n ∉ ({0, 1} : Finset Nat) → t'.nodes n = cyclicTable.nodes n :=
  mark_reachable cyclicTable {0, 1} cyclicRefs cyclicTable_graph

end PrototypeBundle.Memory
