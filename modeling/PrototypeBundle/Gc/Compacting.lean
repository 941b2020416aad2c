import PrototypeBundle.Gc.Collection
import PrototypeBundle.HeapPages.Contents

set_option autoImplicit false

/-!
# `memory::collector`

The collector that moves what it keeps. A payload destructor deletes references of its object.
-/

namespace PrototypeBundle.Gc

open Memory HeapPages

variable {β : Type}

-- `obj.ptr` of the nodes is part of `paging`.
structure Collector (β : Type) extends Service where
  paging : Paging β

-- `allocate` up to the constructor of the payload
def Collector.enter (capacity : Nat) (c : Collector β) (length destructor : Nat) (payload : β) : Option (Nat × Collector β) := do
  let (node, table) ← c.table.addObjNode
  let paging ← c.paging.allocate capacity length node destructor payload
  return (node, { table, activeRoot := some node, paging })

def dispose (deletes : Nat → List Nat) (t : Table) (block : Block β) : Table :=
  (deletes block.node).foldl (fun t ref => t.remRefNode block.node ref) t

-- The answer lists the blocks whose destructors have run.
def Collector.collect (capacity : Nat) (c : Collector β) (deletes : Nat → List Nat) :
    Option (List (Block β) × Collector β) := do
  let table ← c.table.mark c.table.bound
  let paging ← Paging.compress capacity (fun node => (table.nodes node).val.marked) { c.paging with disposed := [] }
  -- `compress` calls the destructors as it goes, and of the table it reads no more than marks, which they leave alone
  let table := paging.disposed.foldl (dispose deletes) table
  let (nodes, blackNodes) ← resetFrom table.bound table.nodes table.objects []
  let table ← blackNodes.foldlM Table.remObjNode (table.withNodes nodes)
  return (paging.disposed, { c with table, paging })

/-- A collector, and the active roots that running calls of `allocate` saved. -/
structure CompactingRun (β : Type) where
  collector : Collector β
  previous : List (Option Nat)

inductive CompactingOp (β : Type) where
  | allocate (length destructor : Nat) (payload : β)
  -- a constructor returns, and `allocate` after it
  | constructed
  | regRef (fromObject toObject : Nat)
  | delRef (fromObject ref : Nat)
  -- a store into the payload of an object
  | write (object : Nat) (payload : β)
  | collect (deletes : Nat → List Nat)

def CompactingRun.step (capacity : Nat) (s : CompactingRun β) : CompactingOp β → Option (CompactingRun β)
  | .allocate length destructor payload =>
      (s.collector.enter capacity length destructor payload).map fun (_, collector) =>
        { collector, previous := s.collector.activeRoot :: s.previous }
  | .constructed =>
      match s.previous with
      | [] => none
      | root :: previous => some { collector := { s.collector with activeRoot := root }, previous }
  | .regRef fromObject toObject =>
      (s.collector.regRef fromObject (some toObject)).map fun (_, service) =>
        { s with collector := { s.collector with toService := service } }
  | .delRef fromObject ref =>
      some { s with collector := { s.collector with toService := s.collector.delRef fromObject ref } }
  | .write object payload =>
      (s.collector.paging.put object payload).map fun paging => { s with collector := { s.collector with paging } }
  | .collect deletes =>
      (s.collector.collect capacity deletes).map fun (_, collector) => { s with collector }

def collector : Option (CompactingRun β) :=
  table.map fun table => { collector := { table, activeRoot := none, paging }, previous := [] }

section Tables

variable {t : Table} {objects : List Nat} {refs : Nat → List Nat} {free : List Nat}

theorem deleteRefs_marked (t : Table) (object : Nat) (deletes : List Nat) (n : Nat) :
    ((deletes.foldl (fun t ref => t.remRefNode object ref) t).nodes n).val.marked = (t.nodes n).val.marked := by
  induction deletes generalizing t with
  | nil => rfl
  | cons ref rest ih => exact (ih _).trans (remRefNode_val t object ref n).2.1

theorem dispose_spec (ok : t.Ok objects refs free) {deletes : Nat → List Nat} {blocks : List (Block β)}
    (nodup : (blocks.map Block.node).Nodup) (known : ∀ b ∈ blocks, b.node ∈ objects)
    (own : ∀ b ∈ blocks, (deletes b.node).Nodup ∧ ∀ r ∈ deletes b.node, r ∈ refs b.node) :
    let t' := blocks.foldl (dispose deletes) t
    ∃ refs' free', t'.Ok objects refs' free' ∧ t'.root = t.root ∧ (∀ o, o ∉ blocks.map Block.node → refs' o = refs o) ∧
      (∀ n, n ∉ blocks.map Block.node → (t'.nodes n).val = (t.nodes n).val) ∧
      ∀ n, (t'.nodes n).val.marked = (t.nodes n).val.marked := by
  induction blocks generalizing t refs free with
  | nil => exact ⟨refs, free, ok, rfl, fun _ _ => rfl, fun _ _ => rfl, fun _ => rfl⟩
  | cons b rest ih =>
      obtain ⟨fresh, nodup⟩ := List.nodup_cons.mp nodup
      have object := known b List.mem_cons_self
      obtain ⟨once, mine⟩ := own b List.mem_cons_self
      obtain ⟨refs₁, free₁, deleted, root₁, others₁, vals₁⟩ := deleteRefs_spec ok (List.mem_cons_of_mem _ object) once mine
      obtain ⟨refs', free', ok', root', others, vals, marks⟩ := ih deleted nodup
        (fun b' member => known b' (List.mem_cons_of_mem _ member)) fun b' member => by
          have different : b'.node ≠ b.node := fun same => fresh (List.mem_map.mpr ⟨b', member, same⟩)
          rw [others₁ b'.node different]
          exact own b' (List.mem_cons_of_mem _ member)
      refine ⟨refs', free', ok', root'.trans root₁, fun o outside => ?_, fun n outside => ?_, fun n => ?_⟩
      · rw [List.map_cons, List.mem_cons, not_or] at outside
        exact (others o outside.2).trans (others₁ o outside.1)
      · rw [List.map_cons, List.mem_cons, not_or] at outside
        exact (vals n outside.2).trans (vals₁ n outside.1)
      · exact (marks n).trans (deleteRefs_marked t b.node (deletes b.node) n)

theorem remObjNodes_spec (ok : t.Ok objects refs free) {garbage : List Nat} (nodup : garbage.Nodup)
    (condemned : ∀ o ∈ garbage, o ∈ objects) :
    ∃ t' free', garbage.foldlM Table.remObjNode t = some t' ∧ t'.root = t.root ∧
      t'.Ok (objects.filter (· ∉ garbage)) refs free' ∧
      ∀ o ∈ t.root :: objects, o ∉ garbage → (t'.nodes o).val = (t.nodes o).val ∧
        ∀ r ∈ refs o, (t'.nodes r).val = (t.nodes r).val := by
  induction garbage generalizing t objects free with
  | nil => exact ⟨t, free, rfl, rfl, by simpa using ok, fun _ _ _ => ⟨rfl, fun _ _ => rfl⟩⟩
  | cons object rest ih =>
      obtain ⟨fresh, nodup⟩ := List.nodup_cons.mp nodup
      have member := condemned object List.mem_cons_self
      obtain ⟨t₁, removed, root₁, ok₁, vals₁⟩ := remObjNode_spec ok member
      have later (o : Nat) (inside : o ∈ rest) : o ∈ objects ∧ o ≠ object :=
        ⟨condemned o (List.mem_cons_of_mem _ inside), fun same => fresh (same ▸ inside)⟩
      obtain ⟨t', free', run, root', ok', frame⟩ := ih ok₁ nodup fun o inside =>
        (List.mem_erase_of_ne (later o inside).2).mpr (later o inside).1
      have remaining : (objects.erase object).filter (· ∉ rest) = objects.filter (· ∉ object :: rest) := by
        rw [ok.list.nodup.erase_eq_filter, List.filter_filter]
        refine List.filter_congr fun o _ => ?_
        by_cases same : o = object <;> simp [same]
      refine ⟨t', free', ?_, root'.trans root₁, remaining ▸ ok', ?_⟩
      · rw [List.foldlM_cons, removed, Option.bind_eq_bind, Option.bind_some]
        exact run
      · intro o known outside
        have different : o ≠ object := fun same => outside (by simp [same])
        have known₁ : o ∈ t₁.root :: objects.erase object := by
          rw [root₁]
          rcases List.mem_cons.mp known with rfl | inside
          · simp
          · exact List.mem_cons_of_mem _ ((List.mem_erase_of_ne different).mpr inside)
        have owner : object ∈ t.root :: objects := List.mem_cons_of_mem _ member
        have apart (r : Nat) (inside : r ∈ refs o) : r ≠ object ∧ r ∉ refs object ∧ r ∉ free := by
          obtain ⟨-, notFree, notOwner⟩ := ok.ref o known r inside
          exact ⟨fun same => notOwner (same ▸ owner), fun shared => different (ok.apart o known object owner r inside shared), notFree⟩
        obtain ⟨val, refVals⟩ := frame o known₁ fun inside => outside (List.mem_cons_of_mem _ inside)
        refine ⟨val.trans (vals₁ o different (fun inside => (ok.ref object owner o inside).2.2 known) (ok.owner o known).2), ?_⟩
        intro r inside
        exact (refVals r inside).trans (vals₁ r (apart r inside).1 (apart r inside).2.1 (apart r inside).2.2)

end Tables

end PrototypeBundle.Gc
