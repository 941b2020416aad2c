import PrototypeBundle.Memory.Mark
import PrototypeBundle.Shared.BreadthFirst

set_option autoImplicit false

-- An object is marked when it is scanned, not when it is pushed on `gray_nodes`.

namespace PrototypeBundle.Memory

/-- `markFrom` with the objects whose chains it scans and the entries it pushes on `gray_nodes`, in order. -/
def scanFrom (length : Nat) :
    Nat → Nodes TableCell → List Nat → Option (Nodes TableCell × List Nat × List Nat)
  | 0, nodes, blackNodes => if blackNodes = [] then some (nodes, [], []) else none
  | fuel + 1, nodes, blackNodes =>
      if blackNodes = [] then some (nodes, [], [])
      else do
        let (nodes, grayNodes) ← blackNodes.foldlM (blacken length) (nodes, [])
        let (nodes, scanned, pushed) ← scanFrom length fuel nodes grayNodes
        return (nodes, blackNodes ++ scanned, grayNodes ++ pushed)

def Table.scans (fuel : Nat) (t : Table) : Option (Table × List Nat × List Nat) :=
  (scanFrom fuel fuel t.nodes [t.root]).map fun (nodes, log) => (t.withNodes nodes, log)

theorem scanFrom_markFrom (length fuel : Nat) (nodes : Nodes TableCell) (blackNodes : List Nat) :
    (scanFrom length fuel nodes blackNodes).map Prod.fst = markFrom length fuel nodes blackNodes := by
  induction fuel generalizing nodes blackNodes with
  | zero => by_cases empty : blackNodes = [] <;> simp [scanFrom, markFrom, empty]
  | succ fuel ih =>
      by_cases empty : blackNodes = []
      · simp [scanFrom, markFrom, empty]
      · rw [scanFrom, markFrom, if_neg empty, if_neg empty]
        cases blackNodes.foldlM (blacken length) (nodes, []) with
        | none => rfl
        | some state =>
            obtain ⟨nodes', grayNodes⟩ := state
            simp only [Option.bind_eq_bind, Option.bind_some, ← ih]
            cases scanFrom length fuel nodes' grayNodes <;> rfl

theorem Table.scans_mark (fuel : Nat) (t : Table) : (t.scans fuel).map Prod.fst = t.mark fuel := by
  rw [Table.scans, Table.mark, ← scanFrom_markFrom]
  cases scanFrom fuel fuel t.nodes [t.root] <;> rfl

section Log

variable {t : Table} {objects : Finset Nat} {refs : Nat → List Nat} (graph : Graph t objects refs)

include graph

theorem scanFrom_log (length : Nat) (long : ∀ o ∈ objects, (refs o).length ≤ length) (fuel : Nat)
    (marked marked' : Nat → Bool) (blackNodes : List Nat) (known : ∀ o ∈ blackNodes, o ∈ objects)
    (run : Waves.waves (fun o => targets t.nodes (refs o)) fuel marked blackNodes = some marked') :
    scanFrom length fuel (withMarks t.nodes marked) blackNodes =
      some (withMarks t.nodes marked', Waves.log (fun o => targets t.nodes (refs o)) fuel marked blackNodes) := by
  induction fuel generalizing marked blackNodes with
  | zero =>
      by_cases empty : blackNodes = [] <;> simp_all [Waves.waves, scanFrom, Waves.log]
  | succ fuel ih =>
      by_cases empty : blackNodes = []
      · simp_all [Waves.waves, scanFrom, Waves.log]
      · rw [Waves.waves, if_neg empty] at run
        rw [scanFrom, if_neg empty, foldlM_blacken_eq graph length long blackNodes known, Waves.log, if_neg empty]
        have next (o : Nat) (member : o ∈ (Waves.wave (fun o => targets t.nodes (refs o)) marked blackNodes).2) :
            o ∈ objects := by
          obtain ⟨-, b, inside, edge⟩ := Waves.wave_gray _ _ _ _ member
          exact graph.edge b (known b inside) o edge
        have rest := ih _ _ next run
        simp only [Option.bind_eq_bind, Option.bind_some]
        rw [Waves.wave] at rest
        rw [rest]
        rfl

end Log

/-- No `ref_chain` is scanned twice, and no more entries are pushed than there are references, exactly if no object
has two references to it from objects that come before it in breadth-first order from the root. -/
theorem scans_once_iff (t : Table) (objects : Finset Nat) (refs : Nat → List Nat) (graph : Graph t objects refs) :
    ∃ bound, ∀ fuel, bound ≤ fuel → ∃ t' scanned pushed, t.scans fuel = some (t', scanned, pushed) ∧
      t.mark fuel = some t' ∧
      ((scanned.Nodup ∧ pushed.length ≤ ∑ o ∈ objects, (refs o).length) ↔
        Waves.SingleEntry (fun o => targets t.nodes (refs o))
          (Waves.breadthFirst (fun o => targets t.nodes (refs o)) objects.card t.root)) := by
  refine ⟨objects.card + 2 + objects.sup fun o => (refs o).length, fun fuel enough => ?_⟩
  obtain ⟨rest, marked', rfl, few, long, run, -⟩ := graph.waves enough
  have edges (o : Nat) (known : o ∈ objects) (p : Nat) := graph.edge o known p
  let marked (n : Nat) : Bool := (t.nodes n).val.marked
  have unmarked : ∀ o ∈ objects, marked o = true → o = t.root := graph.unmarked
  have scanning := scanFrom_log graph (rest + 1) long (rest + 1) marked marked' [t.root]
    (by simpa using graph.root) run
  have start : withMarks t.nodes marked = t.nodes := rfl
  rw [start] at scanning
  have scanned : t.scans (rest + 1) = some (t.withNodes (withMarks t.nodes marked'),
      Waves.log (fun o => targets t.nodes (refs o)) (rest + 1) marked [t.root]) := by
    rw [Table.scans, scanning, Option.map_some]
  obtain ⟨once, bounded⟩ := Waves.log_nodup_iff edges graph.root unmarked few
  refine ⟨_, _, _, scanned, by rw [← Table.scans_mark, scanned, Option.map_some], ?_⟩
  rw [← once]
  refine ⟨fun both => both.1, fun nodup => ⟨nodup, (bounded nodup).trans ?_⟩⟩
  exact Finset.sum_le_sum fun o _ => List.length_filterMap_le _ _

theorem scans_once_cycle : ∃ bound, ∀ fuel, bound ≤ fuel → ∃ t' scanned pushed,
    cyclicTable.scans fuel = some (t', scanned, pushed) ∧ cyclicTable.mark fuel = some t' ∧
      ((scanned.Nodup ∧ pushed.length ≤ ∑ o ∈ ({0, 1} : Finset Nat), (cyclicRefs o).length) ↔
        Waves.SingleEntry (fun o => targets cyclicTable.nodes (cyclicRefs o))
          (Waves.breadthFirst (fun o => targets cyclicTable.nodes (cyclicRefs o)) 2 0)) :=
  scans_once_iff cyclicTable {0, 1} cyclicRefs cyclicTable_graph

-- Object 3 has a reference from each of 1 and 2, and 6 one from each of 4 and 5.
def twoDiamonds : Table where
  availableNodes :=
    { nodes := fun n =>
        let cell := fun next word =>
          { prev := none, next, val := { word, ptr := none, marked := false, pinned := false } }
        [cell none (some 7), cell none (some 9), cell none (some 10), cell none (some 11), cell none (some 13),
          cell none (some 14), cell none none, cell (some 8) (some 1), cell none (some 2), cell none (some 3),
          cell none (some 3), cell (some 12) (some 4), cell none (some 5), cell none (some 6),
          cell none (some 6)].getD n default
      freeChain := none
      size := 15
      pageCapacity := 15 }
  objects := some 1
  root := 0

def diamondRefs (o : Nat) : List Nat := [[7, 8], [9], [10], [11, 12], [13], [14]].getD o []

theorem scans_repeated : Graph twoDiamonds {0, 1, 2, 3, 4, 5, 6} diamondRefs ∧
    ∃ t' scanned pushed, twoDiamonds.scans 15 = some (t', scanned, pushed) ∧ ¬ scanned.Nodup ∧
      ∑ o ∈ ({0, 1, 2, 3, 4, 5, 6} : Finset Nat), (diamondRefs o).length < pushed.length := by
  refine ⟨⟨by decide, ?_, ?_, ?_⟩, ?_⟩
  · simp [twoDiamonds, Table.nodes, diamondRefs, IsChain, Intrusive.Chain]
  · simp [twoDiamonds, Table.nodes, diamondRefs]
  · simp [twoDiamonds, Table.nodes]
  · have log : (twoDiamonds.scans 15).map Prod.snd =
        some ([0, 1, 2, 3, 3, 4, 5, 4, 5, 6, 6, 6, 6], [1, 2, 3, 3, 4, 5, 4, 5, 6, 6, 6, 6]) := by decide +kernel
    obtain ⟨⟨t', scanned, pushed⟩, done, same⟩ := Option.map_eq_some_iff.mp log
    obtain ⟨rfl, rfl⟩ := Prod.mk.inj same
    exact ⟨t', _, _, done, by decide, by decide⟩

end PrototypeBundle.Memory
