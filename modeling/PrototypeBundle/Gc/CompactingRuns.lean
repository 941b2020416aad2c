import PrototypeBundle.Gc.Compacting
import PrototypeBundle.Gc.References
import PrototypeBundle.Shared.ObjectHeap

set_option autoImplicit false

namespace PrototypeBundle.Gc

open Memory HeapPages ObjectHeap

variable {β : Type}

/-- The value of an object is its destructor with its payload. -/
def CompactingRun.emit (capacity : Nat) (s : CompactingRun β) : CompactingOp β → List (Event Nat Nat (Nat × β))
  | .allocate length destructor payload =>
      (s.collector.enter capacity length destructor payload).toList.map fun (node, _) => .allocate node (destructor, payload)
  | .constructed => []
  | .regRef fromObject toObject =>
      (s.collector.regRef fromObject (some toObject)).toList.map fun (ref, _) => .link ref fromObject toObject
  | .delRef _ ref => [.unlink ref]
  | .write object payload =>
      (s.collector.paging.read object).toList.map fun block => .store object (block.destructor, payload)
  | .collect deletes =>
      (s.collector.collect capacity deletes).toList.map fun (calls, _) =>
        .collect (calls.map fun block => (block.node, block.destructor, block.payload))

/-- References are made between objects and deleted from their owners, and no block overruns its page. -/
def CompactingProper (capacity : Nat) (s : CompactingRun β) : CompactingOp β → Prop
  | .allocate length destructor payload =>
      (HeapOp.allocate length 0 destructor payload).Valid capacity s.collector.paging ∧
        (HeapOp.allocate length 0 destructor payload).Placed capacity s.collector.paging
  | .constructed => s.previous ≠ []
  | .regRef fromObject toObject => IsOwner s.collector.table fromObject ∧ IsOwner s.collector.table toObject
  | .delRef fromObject ref => IsOwner s.collector.table fromObject ∧ HoldsRef s.collector.table fromObject ref
  | .write object _ => IsObject s.collector.table object
  | .collect deletes =>
      OwnDeletes s.collector.table deletes ∧ s.collector.paging.pages.length < 2 ^ 32 ∧
        ∀ t, s.collector.table.mark s.collector.table.bound = some t →
          HeapOp.Placed capacity s.collector.paging (.compress fun node => (t.nodes node).val.marked)

/-- The heap that the collector stands for -/
structure Collector.Represents (c : Collector β) (h : Heap Nat Nat (Nat × β)) : Prop where
  objects : ∀ n, (h.object n).isSome ↔ IsObject c.table n
  payloads : ∀ n v, h.object n = some v → ∃ block, c.paging.read n = some block ∧ (block.destructor, block.payload) = v
  references : ∀ r a b, h.edge r = some (a, b) ↔
    IsOwner c.table a ∧ HoldsRef c.table a r ∧ (c.table.nodes r).val.word = some b

structure CompactingInv (capacity : Nat) (c : Collector β) (objects : List Nat) (refs : Nat → List Nat)
    (blocks : List (Block β)) : Prop where
  table : ∃ free, c.table.Ok objects refs free
  aimed : ∀ o ∈ c.table.root :: objects, ∀ r ∈ refs o,
    ∃ p ∈ c.table.root :: objects, (c.table.nodes r).val.word = some p
  unmarked : ∀ o ∈ objects, (c.table.nodes o).val.marked = false
  holds : c.paging.Holds capacity blocks
  stored : (blocks.map Block.node).Perm objects

section Collect

variable {capacity : Nat} {c : Collector β} {objects : List Nat} {refs : Nat → List Nat} {blocks : List (Block β)}

theorem CompactingInv.object (inv : CompactingInv capacity c objects refs blocks) {b : Block β} (member : b ∈ blocks) :
    b.node ∈ objects := inv.stored.subset (List.mem_map_of_mem member)

theorem CompactingInv.block (inv : CompactingInv capacity c objects refs blocks) {o : Nat} (inside : o ∈ objects) :
    ∃ b ∈ blocks, b.node = o := List.mem_map.mp (inv.stored.symm.subset inside)

theorem CompactingInv.marks (inv : CompactingInv capacity c objects refs blocks) :
    ∃ marked : Nat → Bool, c.table.mark c.table.bound = some (c.table.withNodes (withMarks c.table.nodes marked)) ∧
      ∀ o ∈ c.table.root :: objects, marked o = true ↔ Relation.ReflTransGen (c.table.Refers refs) c.table.root o := by
  obtain ⟨free, ok⟩ := inv.table
  have graph : Graph c.table (c.table.root :: objects).toFinset refs := by
    refine ⟨by simp, fun o known => (ok.chain o (List.mem_toFinset.mp known)).isChain, ?_, ?_⟩
    · intro o known r member
      obtain ⟨p, inside, word⟩ := inv.aimed o (List.mem_toFinset.mp known) r member
      exact ⟨p, List.mem_toFinset.mpr inside, word⟩
    · intro o known isMarked
      rcases List.mem_cons.mp (List.mem_toFinset.mp known) with same | inside
      · exact same
      · simp [inv.unmarked o inside] at isMarked
  have enough : (c.table.root :: objects).toFinset.card + 2 +
      (c.table.root :: objects).toFinset.sup (fun o => (refs o).length) ≤ c.table.bound := by
    have card := (List.toFinset_card_le (c.table.root :: objects)).trans ok.objects_length
    have chains : (c.table.root :: objects).toFinset.sup (fun o => (refs o).length) ≤ c.table.availableNodes.size :=
      Finset.sup_le fun o known => ok.refs_length (List.mem_toFinset.mp known)
    unfold Table.bound
    omega
  obtain ⟨marked, marking, reached, -⟩ := mark_spec c.table _ refs graph c.table.bound enough
  exact ⟨marked, marking, fun o known => reached o (List.mem_toFinset.mpr known)⟩

theorem collect_compacts (inv : CompactingInv capacity c objects refs blocks) {deletes : Nat → List Nat}
    (own : ∀ o ∈ objects, (deletes o).Nodup ∧ ∀ r ∈ deletes o, r ∈ refs o) (counted : c.paging.pages.length < 2 ^ 32)
    {marked : Nat → Bool}
    (marking : c.table.mark c.table.bound = some (c.table.withNodes (withMarks c.table.nodes marked)))
    (reached : ∀ o ∈ c.table.root :: objects,
      marked o = true ↔ Relation.ReflTransGen (c.table.Refers refs) c.table.root o)
    (placed : ¬ Overruns capacity marked 0 blocks) :
    ∃ after, c.collect capacity deletes = some (blocks.filter fun b => !marked b.node, after) ∧
      after.table.root = c.table.root ∧ after.activeRoot = c.activeRoot ∧
      CompactingInv capacity after (objects.filter marked) refs (blocks.filter fun b => marked b.node) ∧
      ∀ o ∈ c.table.root :: objects.filter marked, ∀ r ∈ refs o,
        (after.table.nodes r).val.word = (c.table.nodes r).val.word := by
  obtain ⟨free, ok⟩ := inv.table
  let dead := blocks.filter fun b => !marked b.node
  let garbage := objects.filter fun o => !marked o
  have ok₁ : (c.table.withNodes (withMarks c.table.nodes marked)).Ok objects refs free :=
    ok.withNodes fun n => ⟨rfl, rfl, rfl⟩
  obtain ⟨paging, compressed, holds, disposed⟩ := inv.holds.clear.compress marked counted placed
  have called : paging.disposed = dead := disposed
  have deadObject (b : Block β) (member : b ∈ dead) : b.node ∈ garbage := by
    obtain ⟨inside, unmarked⟩ := List.mem_filter.mp member
    exact List.mem_filter.mpr ⟨inv.object inside, unmarked⟩
  have deadNodes (n : Nat) (member : n ∈ dead.map Block.node) : n ∈ garbage := by
    obtain ⟨b, isDead, rfl⟩ := List.mem_map.mp member
    exact deadObject b isDead
  have once : (dead.map Block.node).Nodup := inv.holds.nodes.sublist (List.filter_sublist.map _)
  obtain ⟨refs₂, free₂, ok₂, root₂, others₂, vals₂, marks₂⟩ := dispose_spec ok₁ once
    (fun b member => (List.mem_filter.mp (deadObject b member)).1)
    (fun b member => own b.node (List.mem_filter.mp (deadObject b member)).1)
  let t₂ := dead.foldl (dispose deletes) (c.table.withNodes (withMarks c.table.nodes marked))
  have own₂ : withMarks t₂.nodes marked = t₂.nodes := by
    funext n
    have same : (t₂.nodes n).val.marked = marked n := marks₂ n
    simp only [withMarks, ← same]
  have reset := resetFrom_eq t₂.nodes ok₂.list.isChain t₂.bound ok₂.objects_length_bound marked []
  rw [own₂, List.nil_append] at reset
  let nodes₃ := withMarks t₂.nodes fun n => if n ∈ objects then false else marked n
  have ok₃ : (t₂.withNodes nodes₃).Ok objects refs₂ free₂ := ok₂.withNodes fun n => ⟨rfl, rfl, rfl⟩
  obtain ⟨t', free', removed, root', ok', frame⟩ := remObjNodes_spec ok₃ (ok.list.nodup.filter _ : garbage.Nodup)
    fun o member => (List.mem_filter.mp member).1
  have root : t'.root = c.table.root := root'.trans root₂
  have remaining : objects.filter (· ∉ garbage) = objects.filter marked := by
    refine List.filter_congr fun o inside => ?_
    simp [garbage, inside]
  rw [remaining] at ok'
  -- the root and what is kept
  have survivor (o : Nat) (survives : o ∈ c.table.root :: objects.filter marked) :
      o ∈ c.table.root :: objects ∧ marked o = true ∧ o ∉ garbage := by
    rcases List.mem_cons.mp survives with rfl | inside
    · exact ⟨List.mem_cons_self, (reached _ List.mem_cons_self).mpr .refl, fun dead => ok.rootNew (List.mem_filter.mp dead).1⟩
    · obtain ⟨inside, isMarked⟩ := List.mem_filter.mp inside
      exact ⟨List.mem_cons_of_mem _ inside, isMarked, fun dead => by simp [garbage, isMarked] at dead⟩
  have sameRefs (o : Nat) (survives : o ∈ c.table.root :: objects.filter marked) : refs₂ o = refs o :=
    others₂ o fun member => (survivor o survives).2.2 (deadNodes o member)
  have words (o : Nat) (survives : o ∈ c.table.root :: objects.filter marked) (r : Nat) (inside : r ∈ refs o) :
      (t'.nodes r).val.word = (c.table.nodes r).val.word := by
    obtain ⟨known, -, kept⟩ := survivor o survives
    obtain ⟨-, refVals⟩ := frame o (root₂ ▸ known) kept
    have notDead : r ∉ dead.map Block.node := fun member =>
      (ok.ref o known r inside).2.2 (List.mem_cons_of_mem _ (List.mem_filter.mp (deadNodes r member)).1)
    have same : (t₂.nodes r).val = (withMarks c.table.nodes marked r).val := vals₂ r notDead
    rw [refVals r (sameRefs o survives ▸ inside)]
    change (t₂.nodes r).val.word = (c.table.nodes r).val.word
    rw [same]
    rfl
  refine ⟨{ c with table := t', paging }, ?_, root, rfl, ⟨⟨free', ?_⟩, ?_, ?_, holds, ?_⟩, words⟩
  · have compressed' : Paging.compress capacity
        (fun node => ((c.table.withNodes (withMarks c.table.nodes marked)).nodes node).val.marked)
        { c.paging with disposed := [] } = some paging := compressed
    have reset' : resetFrom (dead.foldl (dispose deletes) (c.table.withNodes (withMarks c.table.nodes marked))).bound t₂.nodes
        t₂.objects [] = some (nodes₃, garbage) := reset
    simp only [Collector.collect, marking, Option.bind_eq_bind, Option.bind_some, compressed', called]
    rw [reset', Option.bind_some, removed]
    rfl
  · exact Table.Ok.congrRefs ok' refs fun o survives => (sameRefs o (root ▸ survives)).symm
  · intro o survives r inside
    change o ∈ t'.root :: objects.filter marked at survives
    change ∃ p ∈ t'.root :: objects.filter marked, (t'.nodes r).val.word = some p
    rw [root] at survives ⊢
    obtain ⟨known, isMarked, -⟩ := survivor o survives
    obtain ⟨p, target, word⟩ := inv.aimed o known r inside
    refine ⟨p, ?_, (words o survives r inside).trans word⟩
    rcases List.mem_cons.mp target with rfl | object
    · exact List.mem_cons_self
    · refine List.mem_cons_of_mem _ (List.mem_filter.mpr ⟨object, ?_⟩)
      exact (reached p target).mpr (((reached o known).mp isMarked).tail (List.mem_filterMap.mpr ⟨r, inside, word⟩))
  · intro o inside
    obtain ⟨object, isMarked⟩ := List.mem_filter.mp inside
    obtain ⟨val, -⟩ := frame o (List.mem_cons_of_mem _ object) (survivor o (List.mem_cons_of_mem _ inside)).2.2
    refine (congrArg TableCell.marked val).trans ?_
    exact if_pos object
  · have kept := inv.stored.filter marked
    rwa [List.filter_map] at kept

end Collect

structure Mirrors (c : Collector β) (objects : List Nat) (refs : Nat → List Nat) (blocks : List (Block β))
    (h : Heap Nat Nat (Nat × β)) : Prop where
  object : ∀ b ∈ blocks, h.object b.node = some (b.destructor, b.payload)
  blank : ∀ n, n ∉ objects → h.object n = none
  edge : ∀ r a b, h.edge r = some (a, b) ↔ a ∈ c.table.root :: objects ∧ r ∈ refs a ∧ (c.table.nodes r).val.word = some b

section Mirrors

variable {capacity : Nat} {c : Collector β} {objects : List Nat} {refs : Nat → List Nat} {blocks : List (Block β)}
  {h : Heap Nat Nat (Nat × β)}

theorem Mirrors.owner (mirrors : Mirrors c objects refs blocks h) (inv : CompactingInv capacity c objects refs blocks)
    {o : Nat} (known : o ∈ c.table.root :: objects) : h.Owner c.table.root o := by
  refine (List.mem_cons.mp known).imp_right fun inside => ?_
  obtain ⟨b, member, rfl⟩ := inv.block inside
  rw [mirrors.object b member]
  rfl

theorem Mirrors.represents (mirrors : Mirrors c objects refs blocks h) (inv : CompactingInv capacity c objects refs blocks) :
    c.Represents h := by
  obtain ⟨free, ok⟩ := inv.table
  have inside (n : Nat) (value : Nat × β) (known : h.object n = some value) : n ∈ objects := by
    by_contra outside
    rw [mirrors.blank n outside] at known
    cases known
  refine ⟨fun n => ?_, fun n value known => ?_, fun r a b => ?_⟩
  · rw [isObject_iff ok]
    constructor
    · intro isSome
      obtain ⟨value, known⟩ := Option.isSome_iff_exists.mp isSome
      exact inside n value known
    · intro object
      obtain ⟨b, member, rfl⟩ := inv.block object
      rw [mirrors.object b member]
      rfl
  · obtain ⟨b, member, rfl⟩ := inv.block (inside n value known)
    exact ⟨b, inv.holds.read member, Option.some.inj ((mirrors.object b member).symm.trans known)⟩
  · exact Edges.intrinsic mirrors.edge ok r a b

theorem Mirrors.reached_iff (mirrors : Mirrors c objects refs blocks h) (inv : CompactingInv capacity c objects refs blocks)
    (o : Nat) : h.Reached c.table.root o ↔ Relation.ReflTransGen (c.table.Refers refs) c.table.root o :=
  Edges.reached_iff mirrors.edge inv.aimed o

theorem enter_mirrors (inv : CompactingInv capacity c objects refs blocks) (mirrors : Mirrors c objects refs blocks h)
    {length destructor : Nat} {payload : β}
    (valid : (HeapOp.allocate length 0 destructor payload).Valid capacity c.paging)
    (placed : (HeapOp.allocate length 0 destructor payload).Placed capacity c.paging) :
    ∃ node next h' refs' blocks', c.enter capacity length destructor payload = some (node, next) ∧
      next.activeRoot = some node ∧ next.table.root = c.table.root ∧ h.step c.table.root (.allocate node (destructor, payload)) = some h' ∧
      CompactingInv capacity next (node :: objects) refs' blocks' ∧ Mirrors next (node :: objects) refs' blocks' h' := by
  obtain ⟨free, ok⟩ := inv.table
  obtain ⟨node, t, free', added, root, fresh, ok', kept⟩ := Table.addObjNode_spec ok
  obtain ⟨blank, vals⟩ := Table.addObjNode_val ok added
  rw [List.mem_cons, not_or] at fresh
  have unused : node ∉ blocks.map Block.node := fun member => fresh.2 (inv.stored.subset member)
  obtain ⟨paging, b, allocated, holds, rfl, rfl, rfl, -⟩ :=
    inv.holds.allocate node destructor payload (Nat.lt_of_add_right_lt valid.1) valid.2 placed unused
  have owns (a : Nat) (r : Nat) : a ∈ c.table.root :: b.node :: objects ∧ r ∈ Function.update refs b.node [] a ↔
      a ∈ c.table.root :: objects ∧ r ∈ refs a := by
    by_cases same : a = b.node
    · subst same
      simp [fresh]
    · simp [same]
  refine ⟨b.node, { table := t, activeRoot := some b.node, paging },
    { h with object := Function.update h.object b.node (some (b.destructor, b.payload)) }, Function.update refs b.node [],
    blocks ++ [b], ?_, rfl, root, ?_, ⟨⟨free', ok'⟩, ?_, ?_, holds, ?_⟩, ⟨?_, ?_, ?_⟩⟩
  · simp only [Collector.enter, added, allocated, Option.bind_eq_bind, Option.bind_some]
    rfl
  · refine if_neg ?_
    rw [Heap.Owner, mirrors.blank b.node fresh.2]
    simp [fresh.1]
  · intro o known r inside
    change o ∈ t.root :: b.node :: objects at known
    rw [root] at known
    obtain ⟨known, inside⟩ := (owns o r).mp ⟨known, inside⟩
    obtain ⟨p, target, word⟩ := inv.aimed o known r inside
    refine ⟨p, ?_, ?_⟩
    · change p ∈ t.root :: b.node :: objects
      rw [root]
      simp only [List.mem_cons] at target ⊢
      tauto
    · exact (congrArg (fun n => n.val.word) (kept o known r inside)).trans word
  · intro o inside
    rcases List.mem_cons.mp inside with rfl | inside
    · exact congrArg TableCell.marked blank
    · exact (congrArg TableCell.marked (vals o (List.mem_cons_of_mem _ inside))).trans (inv.unmarked o inside)
  · rw [List.map_append]
    exact List.perm_append_comm.trans (inv.stored.cons b.node)
  · intro b' member
    rcases List.mem_append.mp member with old | new
    · have different : b'.node ≠ b.node := fun same => unused (List.mem_map.mpr ⟨b', old, same⟩)
      exact (Function.update_of_ne different _ _).trans (mirrors.object b' old)
    · obtain rfl := List.mem_singleton.mp new
      exact Function.update_self ..
  · intro n outside
    rw [List.mem_cons, not_or] at outside
    exact (Function.update_of_ne outside.1 _ _).trans (mirrors.blank n outside.2)
  · exact Edges.addObj mirrors.edge ok added ok'

theorem CompactingInv.withTable (inv : CompactingInv capacity c objects refs blocks) {t : Table} {refs' : Nat → List Nat}
    (table : ∃ free, t.Ok objects refs' free) (root : t.root = c.table.root)
    (marks : ∀ o ∈ objects, (t.nodes o).val.marked = (c.table.nodes o).val.marked)
    (aimed : ∀ o ∈ c.table.root :: objects, ∀ r ∈ refs' o, ∃ p ∈ c.table.root :: objects, (t.nodes r).val.word = some p) :
    CompactingInv capacity { c with table := t } objects refs' blocks where
  table := table
  aimed := by
    change ∀ o ∈ t.root :: objects, ∀ r ∈ refs' o, ∃ p ∈ t.root :: objects, (t.nodes r).val.word = some p
    rw [root]
    exact aimed
  unmarked := fun o inside => (marks o inside).trans (inv.unmarked o inside)
  holds := inv.holds
  stored := inv.stored

theorem regRef_mirrors (inv : CompactingInv capacity c objects refs blocks) (mirrors : Mirrors c objects refs blocks h)
    {fromObject toObject : Nat} (owner : fromObject ∈ c.table.root :: objects)
    (target : toObject ∈ c.table.root :: objects) :
    ∃ ref t h' refs', c.table.addRefNode fromObject (some toObject) = some (ref, t) ∧ t.root = c.table.root ∧
      h.step c.table.root (.link ref fromObject toObject) = some h' ∧
      CompactingInv capacity { c with table := t } objects refs' blocks ∧
      Mirrors { c with table := t } objects refs' blocks h' := by
  obtain ⟨free, ok⟩ := inv.table
  obtain ⟨ref, t, free', added, root, word, fresh, ok', words⟩ := Table.addRefNode_spec ok owner (some toObject)
  have vals := Table.addRefNode_val ok added
  let refs' := Function.update refs fromObject (ref :: refs fromObject)
  have older (a r : Nat) (different : r ≠ ref) : r ∈ refs' a ↔ r ∈ refs a := by
    by_cases same : a = fromObject
    · subst same
      simp [refs', different]
    · simp [refs', same]
  obtain ⟨unused, edges⟩ := Edges.addRef mirrors.edge ok owner added ok'
  refine ⟨ref, t, { h with edge := Function.update h.edge ref (some (fromObject, toObject)) }, refs', added, root, ?_,
    inv.withTable ⟨free', ok'⟩ root (fun o inside => (vals o (List.mem_cons_of_mem _ inside)).2) ?_, ⟨mirrors.object, mirrors.blank, edges⟩⟩
  · exact if_pos ⟨unused, mirrors.owner inv owner, mirrors.owner inv target⟩
  · intro o known r inside
    by_cases new : r = ref
    · exact ⟨toObject, target, new ▸ word⟩
    · have old := (older o r new).mp inside
      obtain ⟨p, known', aimed⟩ := inv.aimed o known r old
      exact ⟨p, known', (words o known r old).trans aimed⟩

theorem delRef_mirrors (inv : CompactingInv capacity c objects refs blocks) (mirrors : Mirrors c objects refs blocks h)
    {fromObject ref : Nat} (owner : fromObject ∈ c.table.root :: objects) (member : ref ∈ refs fromObject) :
    ∃ h' refs', (c.table.remRefNode fromObject ref).root = c.table.root ∧
      h.step c.table.root (.unlink ref) = some h' ∧
      CompactingInv capacity { c with table := c.table.remRefNode fromObject ref } objects refs' blocks ∧
      Mirrors { c with table := c.table.remRefNode fromObject ref } objects refs' blocks h' := by
  obtain ⟨free, ok⟩ := inv.table
  obtain ⟨root, ok', words⟩ := Table.remRefNode_spec ok owner member
  let refs' := Function.update refs fromObject ((refs fromObject).erase ref)
  have older (a r : Nat) (inside : r ∈ refs' a) : r ∈ refs a := by
    by_cases same : a = fromObject
    · subst same
      exact List.mem_of_mem_erase (by simpa [refs'] using inside)
    · simpa [refs', same] using inside
  refine ⟨{ h with edge := Function.update h.edge ref none }, refs', root, ?_,
    inv.withTable ⟨_, ok'⟩ root (fun o _ => (remRefNode_val c.table fromObject ref o).2.1) ?_,
    ⟨mirrors.object, mirrors.blank, Edges.remRef mirrors.edge ok owner member ok'⟩⟩
  · refine if_pos ?_
    obtain ⟨p, -, aimed⟩ := inv.aimed fromObject owner ref member
    rw [(mirrors.edge ref fromObject p).mpr ⟨owner, member, aimed⟩]
    rfl
  · intro o known r inside
    have old := older o r inside
    obtain ⟨p, known', aimed⟩ := inv.aimed o known r old
    exact ⟨p, known', (words o known r old).trans aimed⟩

theorem put_mirrors (inv : CompactingInv capacity c objects refs blocks) (mirrors : Mirrors c objects refs blocks h)
    {object : Nat} (inside : object ∈ objects) (payload : β) :
    ∃ b paging h' blocks', c.paging.read object = some b ∧ c.paging.put object payload = some paging ∧
      h.step c.table.root (.store object (b.destructor, payload)) = some h' ∧
      CompactingInv capacity { c with paging } objects refs blocks' ∧ Mirrors { c with paging } objects refs blocks' h' := by
  obtain ⟨b, member, rfl⟩ := inv.block inside
  obtain ⟨paging, stored, holds, -⟩ := inv.holds.put member payload
  refine ⟨b, paging, { h with object := Function.update h.object b.node (some (b.destructor, payload)) }, _,
    inv.holds.read member, stored, ?_, ⟨inv.table, inv.aimed, inv.unmarked, holds, ?_⟩, ⟨?_, ?_, mirrors.edge⟩⟩
  · refine if_pos ?_
    rw [mirrors.object b member]
    rfl
  · rw [List.map_map]
    have same : Block.node ∘ Block.overwrite b.node payload = Block.node := funext fun _ => Block.overwrite_node ..
    rw [same]
    exact inv.stored
  · intro b' changed
    obtain ⟨old, known, rfl⟩ := List.mem_map.mp changed
    by_cases same : old.node = b.node
    · obtain rfl : old = b := List.inj_on_of_nodup_map inv.holds.nodes known member same
      simp [Block.overwrite]
    · rw [Block.overwrite, if_neg same]
      exact (Function.update_of_ne same _ _).trans (mirrors.object old known)
  · intro n outside
    have different : n ≠ b.node := fun same => outside (same ▸ inside)
    exact (Function.update_of_ne different _ _).trans (mirrors.blank n outside)

theorem collect_mirrors (inv : CompactingInv capacity c objects refs blocks) (mirrors : Mirrors c objects refs blocks h)
    {deletes : Nat → List Nat} (own : OwnDeletes c.table deletes) (counted : c.paging.pages.length < 2 ^ 32)
    (placed : ∀ t, c.table.mark c.table.bound = some t →
      HeapOp.Placed capacity c.paging (.compress fun node => (t.nodes node).val.marked)) :
    ∃ calls after objects' blocks', c.collect capacity deletes = some (calls, after) ∧
      after.table.root = c.table.root ∧ after.activeRoot = c.activeRoot ∧
      h.Dead c.table.root (calls.map fun b => (b.node, b.destructor, b.payload)) ∧
      CompactingInv capacity after objects' refs blocks' ∧ Mirrors after objects' refs blocks' (h.keep c.table.root) := by
  classical
  obtain ⟨free, ok⟩ := inv.table
  obtain ⟨marked, marking, reached⟩ := inv.marks
  obtain ⟨layouts, rfl, filled, -⟩ := inv.holds.layout
  obtain ⟨after, collected, root, active, inv', words⟩ :=
    collect_compacts inv (own.own ok) counted marking reached (placed _ marking layouts filled)
  have isReached (o : Nat) (inside : o ∈ objects) : h.Reached c.table.root o ↔ marked o = true := by
    rw [mirrors.reached_iff inv, reached o (List.mem_cons_of_mem _ inside)]
  have condemned : h.Dead c.table.root
      ((layouts.flatten.filter fun b => !marked b.node).map fun b => (b.node, b.destructor, b.payload)) := by
    refine ⟨?_, fun n value => ?_⟩
    · rw [List.map_map]
      exact inv.holds.nodes.sublist (List.filter_sublist.map _)
    -- the values that are handed to the destructors are those of the heap
    simp only [List.mem_map, List.mem_filter, Prod.mk.injEq, Bool.not_eq_true']
    constructor
    · rintro ⟨b, ⟨member, unmarked⟩, rfl, rfl⟩
      rw [isReached b.node (inv.object member), unmarked]
      exact ⟨mirrors.object b member, Bool.false_ne_true⟩
    · rintro ⟨known, unreached⟩
      have inside : n ∈ objects := by
        by_contra outside
        rw [mirrors.blank n outside] at known
        cases known
      obtain ⟨b, member, rfl⟩ := inv.block inside
      rw [isReached b.node inside, Bool.not_eq_true] at unreached
      exact ⟨b, ⟨member, unreached⟩, rfl, Option.some.inj ((mirrors.object b member).symm.trans known)⟩
  refine ⟨_, after, _, _, collected, root, active, condemned, inv', ⟨?_, ?_, ?_⟩⟩
  · intro b member
    obtain ⟨old, isMarked⟩ := List.mem_filter.mp member
    exact (if_pos ((isReached b.node (inv.object old)).mpr isMarked)).trans (mirrors.object b old)
  · intro n outside
    by_cases isKept : h.Reached c.table.root n
    · refine (if_pos isKept).trans (mirrors.blank n fun inside => outside ?_)
      exact List.mem_filter.mpr ⟨inside, (isReached n inside).mp isKept⟩
    · exact if_neg isKept
  · refine Edges.keep mirrors.edge root (fun n => decide (h.Reached c.table.root n)) (fun a => ?_) words
    rw [List.mem_cons, List.mem_cons, List.mem_filter, decide_eq_true_eq]
    constructor
    · rintro (rfl | ⟨inside, isMarked⟩)
      · exact ⟨Or.inl rfl, .refl⟩
      · exact ⟨Or.inr inside, (isReached a inside).mpr isMarked⟩
    · rintro ⟨rfl | inside, path⟩
      · exact Or.inl rfl
      · exact Or.inr ⟨inside, (isReached a inside).mp path⟩

end Mirrors

def Mirrored (capacity root : Nat) (c : Collector β) (h : Heap Nat Nat (Nat × β)) : Prop :=
  c.table.root = root ∧ ∃ objects refs blocks, CompactingInv capacity c objects refs blocks ∧ Mirrors c objects refs blocks h

section Mirrored

variable {capacity root : Nat} {c : Collector β} {h : Heap Nat Nat (Nat × β)}

theorem Mirrored.represents (mirrored : Mirrored capacity root c h) : c.Represents h := by
  obtain ⟨-, objects, refs, blocks, inv, mirrors⟩ := mirrored
  exact mirrors.represents inv

theorem Mirrored.owner_iff (mirrored : Mirrored capacity root c h) (n : Nat) : h.Owner root n ↔ IsOwner c.table n := by
  have represents := mirrored.represents
  obtain ⟨rfl, -⟩ := mirrored
  exact or_congr_right (represents.objects n)

theorem Mirrored.aimed (mirrored : Mirrored capacity root c h) {fromObject ref : Nat} (owner : IsOwner c.table fromObject)
    (holds : HoldsRef c.table fromObject ref) : ∃ toObject, h.edge ref = some (fromObject, toObject) := by
  have represents := mirrored.represents
  obtain ⟨-, objects, refs, blocks, inv, -⟩ := mirrored
  obtain ⟨free, ok⟩ := inv.table
  have known := (isOwner_iff ok).mp owner
  obtain ⟨toObject, -, word⟩ := inv.aimed fromObject known ref ((holdsRef_iff ok known).mp holds)
  exact ⟨toObject, (represents.references ref fromObject toObject).mpr ⟨owner, holds, word⟩⟩

theorem Mirrored.enter (mirrored : Mirrored capacity root c h) {length destructor : Nat} {payload : β}
    (valid : (HeapOp.allocate length 0 destructor payload).Valid capacity c.paging)
    (placed : (HeapOp.allocate length 0 destructor payload).Placed capacity c.paging) :
    ∃ node next h', c.enter capacity length destructor payload = some (node, next) ∧ next.activeRoot = some node ∧
      h.step root (.allocate node (destructor, payload)) = some h' ∧ Mirrored capacity root next h' := by
  obtain ⟨rfl, objects, refs, blocks, inv, mirrors⟩ := mirrored
  obtain ⟨node, next, h', refs', blocks', entered, active, root, taken, inv', mirrors'⟩ := enter_mirrors inv mirrors valid placed
  exact ⟨node, next, h', entered, active, taken, root, _, _, _, inv', mirrors'⟩

theorem Mirrored.regRef (mirrored : Mirrored capacity root c h) {fromObject toObject : Nat} (owner : h.Owner root fromObject)
    (target : h.Owner root toObject) :
    ∃ ref service h', c.regRef fromObject (some toObject) = some (ref, service) ∧ service.activeRoot = c.activeRoot ∧
      h.step root (.link ref fromObject toObject) = some h' ∧ Mirrored capacity root { c with toService := service } h' := by
  have owners := And.intro ((mirrored.owner_iff fromObject).mp owner) ((mirrored.owner_iff toObject).mp target)
  obtain ⟨rfl, objects, refs, blocks, inv, mirrors⟩ := mirrored
  obtain ⟨free, ok⟩ := inv.table
  obtain ⟨ref, t, h', refs', added, root, taken, inv', mirrors'⟩ :=
    regRef_mirrors inv mirrors ((isOwner_iff ok).mp owners.1) ((isOwner_iff ok).mp owners.2)
  refine ⟨ref, { c.toService with table := t }, h', ?_, rfl, taken, root, _, _, _, inv', mirrors'⟩
  rw [Service.regRef, added, Option.map_some]

theorem Mirrored.delRef (mirrored : Mirrored capacity root c h) {fromObject ref : Nat} {toObject : Nat}
    (known : h.edge ref = some (fromObject, toObject)) :
    ∃ h', h.step root (.unlink ref) = some h' ∧
      Mirrored capacity root { c with toService := c.delRef fromObject ref } h' := by
  obtain ⟨rfl, objects, refs, blocks, inv, mirrors⟩ := mirrored
  obtain ⟨owner, inside, -⟩ := (mirrors.edge ref fromObject toObject).mp known
  obtain ⟨h', refs', root, taken, inv', mirrors'⟩ := delRef_mirrors inv mirrors owner inside
  exact ⟨h', taken, root, _, _, _, inv', mirrors'⟩

theorem Mirrored.put (mirrored : Mirrored capacity root c h) {object : Nat} (known : (h.object object).isSome) (payload : β) :
    ∃ b paging h', c.paging.read object = some b ∧ c.paging.put object payload = some paging ∧
      h.step root (.store object (b.destructor, payload)) = some h' ∧ Mirrored capacity root { c with paging } h' := by
  have inside := (mirrored.represents.objects object).mp known
  obtain ⟨rfl, objects, refs, blocks, inv, mirrors⟩ := mirrored
  obtain ⟨free, ok⟩ := inv.table
  obtain ⟨b, paging, h', blocks', read, stored, taken, inv', mirrors'⟩ :=
    put_mirrors inv mirrors ((isObject_iff ok).mp inside) payload
  exact ⟨b, paging, h', read, stored, taken, rfl, _, _, _, inv', mirrors'⟩

theorem Mirrored.collect (mirrored : Mirrored capacity root c h) {deletes : Nat → List Nat} (own : OwnDeletes c.table deletes)
    (counted : c.paging.pages.length < 2 ^ 32)
    (placed : ∀ t, c.table.mark c.table.bound = some t →
      HeapOp.Placed capacity c.paging (.compress fun node => (t.nodes node).val.marked)) :
    ∃ calls after, c.collect capacity deletes = some (calls, after) ∧ after.activeRoot = c.activeRoot ∧
      h.Dead root (calls.map fun b => (b.node, b.destructor, b.payload)) ∧ Mirrored capacity root after (h.keep root) := by
  obtain ⟨rfl, objects, refs, blocks, inv, mirrors⟩ := mirrored
  obtain ⟨calls, after, objects', blocks', collected, root, active, dead, inv', mirrors'⟩ :=
    collect_mirrors inv mirrors own counted placed
  exact ⟨calls, after, collected, active, dead, root, _, _, _, inv', mirrors'⟩

theorem Mirrored.setActive (mirrored : Mirrored capacity root c h) (active : Option Nat) :
    Mirrored capacity root { c with activeRoot := active } h := by
  obtain ⟨rfl, objects, refs, blocks, inv, mirrors⟩ := mirrored
  exact ⟨rfl, objects, refs, blocks, ⟨inv.table, inv.aimed, inv.unmarked, inv.holds, inv.stored⟩,
    ⟨mirrors.object, mirrors.blank, mirrors.edge⟩⟩

end Mirrored

theorem mirrored_step {capacity root : Nat} {s : CompactingRun β} {op : CompactingOp β} {h : Heap Nat Nat (Nat × β)}
    (mirrored : Mirrored capacity root s.collector h) (proper : CompactingProper capacity s op) :
    ∃ next h', s.step capacity op = some next ∧ Runs.exec (Heap.step root) h (s.emit capacity op) = some h' ∧
      Mirrored capacity root next.collector h' := by
  cases op with
  | allocate length destructor payload =>
      obtain ⟨node, c, h', entered, -, taken, mirrored'⟩ := mirrored.enter proper.1 proper.2
      refine ⟨_, h', by rw [CompactingRun.step, entered, Option.map_some], ?_, mirrored'⟩
      simp [CompactingRun.emit, entered, Runs.exec, taken]
  | constructed =>
      obtain ⟨active, previous, saved⟩ := List.exists_cons_of_ne_nil proper
      refine ⟨{ collector := { s.collector with activeRoot := active }, previous }, h, ?_, rfl, mirrored.setActive active⟩
      rw [CompactingRun.step, saved]
  | regRef fromObject toObject =>
      obtain ⟨ref, service, h', added, -, taken, mirrored'⟩ :=
        mirrored.regRef ((mirrored.owner_iff _).mpr proper.1) ((mirrored.owner_iff _).mpr proper.2)
      refine ⟨_, h', by rw [CompactingRun.step, added, Option.map_some], ?_, mirrored'⟩
      simp [CompactingRun.emit, added, Runs.exec, taken]
  | delRef fromObject ref =>
      obtain ⟨toObject, known⟩ := mirrored.aimed proper.1 proper.2
      obtain ⟨h', taken, mirrored'⟩ := mirrored.delRef known
      refine ⟨_, h', rfl, ?_, mirrored'⟩
      simp [CompactingRun.emit, Runs.exec, taken]
  | write object payload =>
      obtain ⟨b, paging, h', read, stored, taken, mirrored'⟩ :=
        mirrored.put ((mirrored.represents.objects object).mpr proper) payload
      refine ⟨{ s with collector := { s.collector with paging } }, h', ?_, ?_, mirrored'⟩
      · rw [CompactingRun.step, stored, Option.map_some]
      · simp [CompactingRun.emit, read, Runs.exec, taken]
  | collect deletes =>
      obtain ⟨own, counted, placed⟩ := proper
      obtain ⟨calls, after, collected, -, dead, mirrored'⟩ := mirrored.collect own counted placed
      refine ⟨_, _, by rw [CompactingRun.step, collected, Option.map_some], ?_, mirrored'⟩
      simp [CompactingRun.emit, collected, Runs.exec, Heap.step, dead]

theorem collector_mirrored (capacity : Nat) :
    ∃ start : CompactingRun β, collector = some start ∧
      Mirrored capacity start.collector.table.root start.collector Heap.empty := by
  obtain ⟨t, free, made, ok⟩ := table_ok
  refine ⟨{ collector := { table := t, activeRoot := none, paging }, previous := [] }, by rw [collector, made, Option.map_some], rfl,
    [], fun _ => [], [], ⟨⟨free, ok⟩, by simp, by simp, paging_holds, .nil⟩, ⟨by simp, fun _ _ => rfl, ?_⟩⟩
  simp [Heap.empty]

/-- A program runs as on a heap of objects: its collections destroy exactly the objects out of reach, each
once and with the payload it had, and what is moved keeps its payload and its references. -/
theorem collector_refines (capacity : Nat) (start : CompactingRun β) (begun : collector = some start)
    (ops : List (CompactingOp β))
    (proper : Runs.Along (CompactingRun.step capacity) (CompactingProper capacity) start ops) :
    ∃ s h, Runs.exec (CompactingRun.step capacity) start ops = some s ∧
      Runs.exec (Heap.step start.collector.table.root) Heap.empty
        (Runs.trace (CompactingRun.step capacity) (CompactingRun.emit capacity) start ops) = some h ∧
      s.collector.Represents h ∧ h.Closed start.collector.table.root := by
  obtain ⟨start', begun', initial⟩ := @collector_mirrored β capacity
  obtain rfl := Option.some.inj (begun'.symm.trans begun)
  obtain ⟨s, run, -⟩ := proper.progress (fun s => ∃ h, Mirrored capacity start'.collector.table.root s.collector h)
    (fun s op known ok => by
      obtain ⟨h, mirrored⟩ := known
      obtain ⟨next, h', taken, -, mirrored'⟩ := mirrored_step mirrored ok
      exact ⟨next, taken, h', mirrored'⟩) ⟨_, initial⟩
  obtain ⟨h, abstractRun, mirrored⟩ :=
    proper.simulation (fun s h => Mirrored capacity start'.collector.table.root s.collector h)
      (fun s op next h mirrored ok taken => by
        obtain ⟨next', h', taken', abstract, mirrored'⟩ := mirrored_step mirrored ok
        obtain rfl := Option.some.inj (taken'.symm.trans taken)
        exact ⟨h', abstract, mirrored'⟩) initial run
  exact ⟨s, h, run, abstractRun, mirrored.represents, Heap.run_closed abstractRun⟩

-- What decides `CompactingProper` in a run that has made `objects` before it refers to them.
def CompactingProper.Known (capacity : Nat) (objects : List Nat) (s : CompactingRun β) : CompactingOp β → Prop
  | .allocate length destructor payload =>
      (HeapOp.allocate length 0 destructor payload).Valid capacity s.collector.paging ∧
        (HeapOp.allocate length 0 destructor payload).Placed capacity s.collector.paging
  | .constructed => s.previous ≠ []
  | .regRef fromObject toObject => IsList s.collector.table.nodes s.collector.table.objects objects ∧
      fromObject ∈ s.collector.table.root :: objects ∧ toObject ∈ s.collector.table.root :: objects
  | .write object _ => IsList s.collector.table.nodes s.collector.table.objects objects ∧ object ∈ objects
  | .delRef _ _ | .collect _ => False

instance (capacity : Nat) (objects : List Nat) (s : CompactingRun β) :
    (op : CompactingOp β) → Decidable (CompactingProper.Known capacity objects s op)
  | .allocate _ _ _ => inferInstanceAs (Decidable (_ ∧ _))
  | .constructed => inferInstanceAs (Decidable (_ ≠ _))
  | .regRef _ _ => inferInstanceAs (Decidable (_ ∧ _))
  | .write _ _ => inferInstanceAs (Decidable (_ ∧ _))
  | .delRef _ _ | .collect _ => inferInstanceAs (Decidable False)

theorem CompactingProper.Known.proper {capacity : Nat} {objects : List Nat} {s : CompactingRun β} {op : CompactingOp β}
    (known : Known capacity objects s op) : CompactingProper capacity s op := by
  cases op with
  | regRef fromObject toObject => exact ⟨(isOwner_of_list known.1).mpr known.2.1, (isOwner_of_list known.1).mpr known.2.2⟩
  | write object payload => exact (isObject_of_list known.1).mpr known.2
  | allocate | constructed => exact known
  | delRef | collect => exact known.elim

theorem placed_of_filled {capacity : Nat} {h : Paging β} {layouts : List (List (Block β))} {marked : Nat → Bool}
    (filled : List.Forall₂ (Filled h.store) h.pages layouts) (fits : ¬ Overruns capacity marked 0 layouts.flatten) :
    HeapOp.Placed capacity h (.compress marked) :=
  fun _ filled' => filled_rightUnique _ filled filled' ▸ fits

def numberBlock (node payload : Nat) : Block Nat :=
  { length := alignLength 8 8, node, destructor := node, payload, aligned := alignLength_dvd 8, small := alignLength_lt 8 }

-- The root refers to object 2 and this one to object 3; object 1 refers to object 3 with reference 6.
def linkedHeap : List (CompactingOp Nat) :=
  [.allocate 8 1 10, .constructed, .allocate 8 2 20, .constructed, .allocate 8 3 30, .constructed,
    .regRef 0 2, .regRef 2 3, .regRef 1 3, .write 2 21]

-- The destructor of object 1 deletes its reference; objects 2 and 3 are moved to other pages, with their payloads.
theorem collector_refines_linked : ∃ start s h, collector = some start ∧
    Runs.exec (CompactingRun.step 48) start (linkedHeap ++ [.collect fun o => if o = 1 then [6] else []]) = some s ∧
    Runs.exec (Heap.step start.collector.table.root) Heap.empty (Runs.trace (CompactingRun.step 48)
      (CompactingRun.emit 48) start (linkedHeap ++ [.collect fun o => if o = 1 then [6] else []])) = some h ∧
    s.collector.Represents h ∧ h.Closed start.collector.table.root ∧
    s.collector.paging.ptr 2 = some (0, 32) ∧ s.collector.paging.ptr 3 = some (1, 32) ∧
    h.object 1 = none ∧ h.object 2 = some (2, 21) ∧ h.object 3 = some (3, 30) := by
  let deletes : Nat → List Nat := fun o => if o = 1 then [6] else []
  let layouts := [[numberBlock 1 10], [numberBlock 2 21], [numberBlock 3 30]]
  obtain ⟨start, middle, begun, run, holds⟩ : ∃ start s, (collector : Option (CompactingRun Nat)) = some start ∧
      Runs.exec (CompactingRun.step 48) start linkedHeap = some s ∧
      decide (IsList s.collector.table.nodes s.collector.table.objects [3, 2, 1] ∧
        IsList s.collector.table.nodes (s.collector.table.nodes 1).val.word [6] ∧
        s.collector.paging.pages.length < 2 ^ 32 ∧ List.Forall₂ (Filled s.collector.paging.store) s.collector.paging.pages layouts ∧
        (s.step 48 (.collect deletes)).any (fun after =>
          decide (IsList after.collector.table.nodes after.collector.table.objects [3, 2] ∧
            after.collector.paging.ptr 2 = some (0, 32) ∧ after.collector.paging.ptr 3 = some (1, 32) ∧
            after.collector.paging.read 2 = some (numberBlock 2 21) ∧
            after.collector.paging.read 3 = some (numberBlock 3 30))) = true) = true :=
    Runs.exec_of_any (by decide +kernel)
  obtain ⟨objects, refs, counted, filled, collected⟩ := of_decide_eq_true holds
  have checked : (collector : Option (CompactingRun Nat)).all (fun start =>
      Runs.check (CompactingRun.step 48) (CompactingProper.Known 48 [3, 2, 1]) start linkedHeap) = true := by decide +kernel
  rw [begun] at checked
  have own : OwnDeletes middle.collector.table deletes := by
    intro o isObject
    have inside : o = 3 ∨ o = 2 ∨ o = 1 := by simpa using (isObject_of_list objects).mp isObject
    rcases inside with rfl | rfl | rfl
    · exact ⟨by decide, by simp [deletes]⟩
    · exact ⟨by decide, by simp [deletes]⟩
    · exact ⟨by decide, fun ref member => ⟨[6], refs, by simpa [deletes] using member⟩⟩
  have proper : Runs.Along (CompactingRun.step 48) (CompactingProper 48) start (linkedHeap ++ [.collect deletes]) := by
    refine ((Runs.Along.of_check checked).mono fun s op known => known.proper).append fun s ran => ?_
    obtain rfl := Option.some.inj (run.symm.trans ran)
    refine ⟨⟨own, counted, fun t _ => placed_of_filled filled ?_⟩, fun _ _ => True.intro⟩
    simp [layouts, numberBlock, Overruns, Overhangs, alignLength, headerSize, Block.size]
  obtain ⟨s, h, ran, abstract, represents, closed⟩ := collector_refines 48 start begun _ proper
  obtain ⟨middle', first, last⟩ := Runs.exec_snoc.mp ran
  obtain rfl := Option.some.inj (run.symm.trans first)
  rw [last] at collected
  obtain ⟨left, place₂, place₃, read₂, read₃⟩ := of_decide_eq_true collected
  have value (n : Nat) (block : Block Nat) (inside : n ∈ [3, 2]) (read : s.collector.paging.read n = some block) :
      h.object n = some (block.destructor, block.payload) := by
    obtain ⟨v, found⟩ := Option.isSome_iff_exists.mp ((represents.objects n).mpr ((isObject_of_list left).mpr inside))
    obtain ⟨block', read', rfl⟩ := represents.payloads n v found
    obtain rfl := Option.some.inj (read'.symm.trans read)
    exact found
  have gone : h.object 1 = none := by
    refine Option.not_isSome_iff_eq_none.mp fun isSome => ?_
    have inside := (isObject_of_list left).mp ((represents.objects 1).mp isSome)
    simp at inside
  exact ⟨start, s, h, begun, ran, abstract, represents, closed, place₂, place₃, gone,
    value 2 _ (by decide) read₂, value 3 _ (by decide) read₃⟩

end PrototypeBundle.Gc
