import PrototypeBundle.Memory.NodePool

set_option autoImplicit false

namespace PrototypeBundle.Memory

-- The union of `table_object` and `table_ref`: `ref_chain.head` and `ref.to` are the same word.
structure TableCell where
  word : Option Nat
  ptr : Option Nat
  marked : Bool
  pinned : Bool
  deriving DecidableEq, Repr, Inhabited

def setWord (nodes : Nodes TableCell) (node : Nat) (word : Option Nat) : Nodes TableCell :=
  modifyAt nodes node fun n => { n with val := { n.val with word } }

def setMarked (nodes : Nodes TableCell) (node : Nat) (marked : Bool) : Nodes TableCell :=
  modifyAt nodes node fun n => { n with val := { n.val with marked } }

structure Table where
  availableNodes : NodePool TableCell
  objects : Option Nat
  root : Nat

def table : Option Table := do
  let (root, availableNodes) ← (nodePool 4096 : NodePool TableCell).reserve
  return { availableNodes, objects := none, root }

abbrev Table.nodes (t : Table) : Nodes TableCell := t.availableNodes.nodes

def Table.withNodes (t : Table) (nodes : Nodes TableCell) : Table :=
  { t with availableNodes := { t.availableNodes with nodes } }

def Table.addObjNode (t : Table) : Option (Nat × Table) := do
  let (node, availableNodes) ← t.availableNodes.reserve
  let (nodes, objects) := prepend availableNodes.nodes t.objects node
  return (node, { t with availableNodes := { availableNodes with nodes }, objects })

def Table.setPtr (t : Table) (node : Nat) (ptr : Option Nat) : Table :=
  t.withNodes (modifyAt t.nodes node fun n => { n with val := { n.val with ptr } })

def Table.addRefNode (t : Table) (fromObject : Nat) (toObject : Option Nat) : Option (Nat × Table) := do
  let (node, availableNodes) ← t.availableNodes.reserve
  let (nodes, head) := prepend availableNodes.nodes (availableNodes.nodes fromObject).val.word node
  let nodes := setWord nodes fromObject head
  let nodes := setWord nodes node toObject
  return (node, { t with availableNodes := { availableNodes with nodes } })

def Table.remRefNode (t : Table) (fromObject ref : Nat) : Table :=
  let (nodes, head) := remove t.nodes (t.nodes fromObject).val.word ref
  let nodes := setWord nodes fromObject head
  { t with availableNodes := NodePool.release { t.availableNodes with nodes } ref }

section Fields

variable (nodes : Nodes TableCell) (node other : Nat) (word : Option Nat) (marked : Bool)

@[simp] theorem setWord_prev : (setWord nodes node word other).prev = (nodes other).prev := by
  by_cases same : other = node <;> simp [setWord, modifyAt, same]

@[simp] theorem setWord_next : (setWord nodes node word other).next = (nodes other).next := by
  by_cases same : other = node <;> simp [setWord, modifyAt, same]

@[simp] theorem setWord_word : (setWord nodes node word other).val.word =
    if other = node then word else (nodes other).val.word := by
  by_cases same : other = node <;> simp [setWord, modifyAt, same]

@[simp] theorem setWord_ptr : (setWord nodes node word other).val.ptr = (nodes other).val.ptr := by
  by_cases same : other = node <;> simp [setWord, modifyAt, same]

@[simp] theorem setWord_marked : (setWord nodes node word other).val.marked = (nodes other).val.marked := by
  by_cases same : other = node <;> simp [setWord, modifyAt, same]

theorem setWord_other (different : other ≠ node) : setWord nodes node word other = nodes other := by
  simp [setWord, modifyAt, different]

@[simp] theorem setMarked_prev : (setMarked nodes node marked other).prev = (nodes other).prev := by
  by_cases same : other = node <;> simp [setMarked, modifyAt, same]

@[simp] theorem setMarked_next : (setMarked nodes node marked other).next = (nodes other).next := by
  by_cases same : other = node <;> simp [setMarked, modifyAt, same]

@[simp] theorem setMarked_word :
    (setMarked nodes node marked other).val.word = (nodes other).val.word := by
  by_cases same : other = node <;> simp [setMarked, modifyAt, same]

@[simp] theorem setMarked_ptr :
    (setMarked nodes node marked other).val.ptr = (nodes other).val.ptr := by
  by_cases same : other = node <;> simp [setMarked, modifyAt, same]

@[simp] theorem setMarked_marked : (setMarked nodes node marked other).val.marked =
    if other = node then marked else (nodes other).val.marked := by
  by_cases same : other = node <;> simp [setMarked, modifyAt, same]

end Fields

/-- Each node of the pool is free, the root, an object or on the reference chain of
exactly one of them. -/
structure Table.Ok (t : Table) (objects : List Nat) (refs : Nat → List Nat) (free : List Nat) : Prop where
  pool : t.availableNodes.Ok free
  list : IsList t.nodes t.objects objects
  chain : ∀ o ∈ t.root :: objects, IsList t.nodes (t.nodes o).val.word (refs o)
  rootNew : t.root ∉ objects
  owner : ∀ o ∈ t.root :: objects, o < t.availableNodes.size ∧ o ∉ free
  ref : ∀ o ∈ t.root :: objects, ∀ r ∈ refs o,
    r < t.availableNodes.size ∧ r ∉ free ∧ r ∉ t.root :: objects
  apart : ∀ o ∈ t.root :: objects, ∀ p ∈ t.root :: objects, ∀ r ∈ refs o, r ∈ refs p → o = p

section Specs

variable {t : Table} {objects : List Nat} {refs : Nat → List Nat} {free : List Nat}

theorem table_ok : ∃ t free, table = some t ∧ t.Ok [] (fun _ => []) free := by
  have pool : (nodePool 4096 : NodePool TableCell).Ok (List.range' 0 4096) := nodePool_ok (by omega)
  obtain ⟨root, availableNodes, free, reserve, got⟩ := NodePool.reserve_spec pool
  refine ⟨{ availableNodes, objects := none, root }, free, by simp [table, reserve], ?_⟩
  refine ⟨got.ok, rfl, ?_, by simp, ?_, by simp, by simp⟩
  · intro o member
    have same : o = root := by simpa using member
    subst same
    simp only [Table.nodes, got.blank]
    rfl
  · intro o member
    have same : o = root := by simpa using member
    subst same
    exact ⟨got.node_lt, got.not_free⟩

theorem Table.Ok.withNodes (ok : t.Ok objects refs free) {nodes : Nodes TableCell}
    (same : ∀ n, (nodes n).prev = (t.nodes n).prev ∧ (nodes n).next = (t.nodes n).next ∧
      (nodes n).val.word = (t.nodes n).val.word) : (t.withNodes nodes).Ok objects refs free where
  pool := ⟨ok.pool.chain.congr fun n _ => (same n).2.1, ok.pool.bound, ok.pool.capacity⟩
  list := ok.list.congr fun n _ => ⟨(same n).1, (same n).2.1⟩
  chain := by
    intro o owner
    change IsList nodes (nodes o).val.word (refs o)
    rw [(same o).2.2]
    exact (ok.chain o owner).congr fun n _ => ⟨(same n).1, (same n).2.1⟩
  rootNew := ok.rootNew
  owner := ok.owner
  ref := ok.ref
  apart := ok.apart

theorem Table.setPtr_ok (ok : t.Ok objects refs free) (node : Nat) (ptr : Option Nat) :
    (t.setPtr node ptr).Ok objects refs free ∧
      ∀ n, ((t.setPtr node ptr).nodes n).val.word = (t.nodes n).val.word := by
  have same (n : Nat) :
      let changed := modifyAt t.nodes node fun n => { n with val := { n.val with ptr } }
      (changed n).prev = (t.nodes n).prev ∧ (changed n).next = (t.nodes n).next ∧
        (changed n).val.word = (t.nodes n).val.word := by
    by_cases equal : n = node <;> simp [modifyAt, equal]
  exact ⟨ok.withNodes same, fun n => (same n).2.2⟩

theorem Table.setPtr_same (t : Table) (node : Nat) (ptr : Option Nat) :
    ((t.setPtr node ptr).nodes node).val = { (t.nodes node).val with ptr } := by
  simp [setPtr, withNodes, Table.nodes, modifyAt]

theorem Table.setPtr_other (t : Table) (node : Nat) (ptr : Option Nat) {other : Nat} (different : other ≠ node) :
    (t.setPtr node ptr).nodes other = t.nodes other := by
  simp [setPtr, withNodes, Table.nodes, modifyAt, different]

theorem Table.Ok.fresh (ok : t.Ok objects refs free) {node : Nat} {pool : NodePool TableCell}
    {free' : List Nat} (got : Reserved t.availableNodes free node pool free') :
    (∀ o ∈ t.root :: objects, o ≠ node ∧ o ∉ free' ∧ pool.nodes o = t.nodes o) ∧
      ∀ o ∈ t.root :: objects, ∀ r ∈ refs o, r ≠ node ∧ r ∉ free' ∧ pool.nodes r = t.nodes r := by
  have used (n : Nat) (bound : n < t.availableNodes.size) (notFree : n ∉ free) :
      n ≠ node ∧ n ∉ free' ∧ pool.nodes n = t.nodes n := by
    refine ⟨?_, ?_, got.frame n bound notFree⟩
    · rintro rfl
      rcases got.node_new with member | above
      · exact notFree member
      · omega
    · intro member
      rcases got.free_new n member with old | above
      · exact notFree old
      · omega
  exact ⟨fun o member => used o (ok.owner o member).1 (ok.owner o member).2,
    fun o owner r member => used r (ok.ref o owner r member).1 (ok.ref o owner r member).2.1⟩

theorem Table.addObjNode_spec (ok : t.Ok objects refs free) :
    ∃ node t' free', t.addObjNode = some (node, t') ∧ t'.root = t.root ∧ node ∉ t.root :: objects ∧
      t'.Ok (node :: objects) (Function.update refs node []) free' ∧
      ∀ o ∈ t.root :: objects, ∀ r ∈ refs o, t'.nodes r = t.nodes r := by
  obtain ⟨node, pool, free', reserve, got⟩ := NodePool.reserve_spec ok.pool
  obtain ⟨owners, references⟩ := ok.fresh got
  have size := got.size_le
  let t' : Table :=
    { t with
      availableNodes := { pool with nodes := (prepend pool.nodes t.objects node).1 }
      objects := some node }
  have list : IsList pool.nodes t.objects objects :=
    ok.list.congr fun x member => by simp [(owners x (List.mem_cons_of_mem _ member)).2.2]
  have fresh : node ∉ objects := fun member => (owners node (List.mem_cons_of_mem _ member)).1 rfl
  have other (n : Nat) (different : n ≠ node) (outside : n ∉ objects) : t'.nodes n = pool.nodes n :=
    prepend_frame list.isChain different outside
  have val (n : Nat) : (t'.nodes n).val = (pool.nodes n).val := prepend_val _ _ _ _
  have kept (o : Nat) (owner : o ∈ t.root :: objects) (r : Nat) (member : r ∈ refs o) :
      t'.nodes r = t.nodes r := by
    have inUse := references o owner r member
    have outside : r ∉ objects := fun inside => (ok.ref o owner r member).2.2 (List.mem_cons_of_mem _ inside)
    rw [other r inUse.1 outside, inUse.2.2]
  refine ⟨node, t', free', by simp [Table.addObjNode, reserve, t'], rfl, ?_, ?_, kept⟩
  · exact fun member => (owners node member).1 rfl
  -- the owners are the old ones and the new node, which has no references
  have cases (o : Nat) (member : o ∈ t'.root :: node :: objects) :
      o = node ∨ o ≠ node ∧ o ∈ t.root :: objects := by
    by_cases same : o = node
    · exact Or.inl same
    · exact Or.inr ⟨same, by simpa [t', same] using member⟩
  refine ⟨⟨?_, got.ok.bound, got.ok.capacity⟩, list.prepend fresh, ?_, ?_, ?_, ?_, ?_⟩
  · refine got.ok.chain.congr fun n member => ?_
    have different : n ≠ node := fun same => got.not_free (same ▸ member)
    have outside : n ∉ objects := fun inside => (owners n (List.mem_cons_of_mem _ inside)).2.1 member
    exact congrArg ChainNode.next (other n different outside)
  · intro o member
    rcases cases o member with rfl | ⟨different, owner⟩
    · rw [Function.update_self, val, got.blank]
      rfl
    · rw [Function.update_of_ne different, val, (owners o owner).2.2]
      exact (ok.chain o owner).congr fun r inside => by simp [kept o owner r inside]
  · simp only [List.mem_cons, not_or]
    exact ⟨(owners t.root (by simp)).1, ok.rootNew⟩
  · intro o member
    rcases cases o member with rfl | ⟨_, owner⟩
    · exact ⟨got.node_lt, got.not_free⟩
    · exact ⟨Nat.lt_of_lt_of_le (ok.owner o owner).1 size, (owners o owner).2.1⟩
  · intro o member r inside
    rcases cases o member with rfl | ⟨different, owner⟩
    · simp at inside
    · rw [Function.update_of_ne different] at inside
      have inUse := references o owner r inside
      have old := ok.ref o owner r inside
      refine ⟨Nat.lt_of_lt_of_le old.1 size, inUse.2.1, ?_⟩
      simpa [t', inUse.1] using old.2.2
  · intro o memberO p memberP r insideO insideP
    rcases cases o memberO with rfl | ⟨differentO, ownerO⟩
    · simp at insideO
    · rcases cases p memberP with rfl | ⟨differentP, ownerP⟩
      · simp at insideP
      · rw [Function.update_of_ne differentO] at insideO
        rw [Function.update_of_ne differentP] at insideP
        exact ok.apart o ownerO p ownerP r insideO insideP

theorem Table.addRefNode_spec (ok : t.Ok objects refs free) {fromObject : Nat}
    (owner : fromObject ∈ t.root :: objects) (toObject : Option Nat) :
    ∃ node t' free', t.addRefNode fromObject toObject = some (node, t') ∧ t'.root = t.root ∧
      (t'.nodes node).val.word = toObject ∧ (∀ o ∈ t.root :: objects, node ∉ refs o) ∧
      t'.Ok objects (Function.update refs fromObject (node :: refs fromObject)) free' ∧
      ∀ o ∈ t.root :: objects, ∀ r ∈ refs o, (t'.nodes r).val.word = (t.nodes r).val.word := by
  obtain ⟨node, pool, free', reserve, got⟩ := NodePool.reserve_spec ok.pool
  obtain ⟨owners, references⟩ := ok.fresh got
  have size := got.size_le
  have head : (pool.nodes fromObject).val.word = (t.nodes fromObject).val.word := by
    rw [(owners fromObject owner).2.2]
  let prepended := (prepend pool.nodes (t.nodes fromObject).val.word node).1
  let t' : Table :=
    { t with
      availableNodes :=
        { pool with nodes := setWord (setWord prepended fromObject (some node)) node toObject } }
  have ownerNew : fromObject ≠ node := (owners fromObject owner).1
  have fresh (o : Nat) (member : o ∈ t.root :: objects) : node ∉ refs o := fun inside =>
    (references o member node inside).1 rfl
  have list (o : Nat) (member : o ∈ t.root :: objects) : IsList pool.nodes (t.nodes o).val.word (refs o) :=
    (ok.chain o member).congr fun r inside => by simp [(references o member r inside).2.2]
  have links (n : Nat) (different : n ≠ node) (outside : n ∉ refs fromObject) :
      (t'.nodes n).prev = (pool.nodes n).prev ∧ (t'.nodes n).next = (pool.nodes n).next := by
    have frame := prepend_frame (list fromObject owner).isChain different outside
    simp [t', Table.nodes, prepended, frame]
  have word (n : Nat) : (t'.nodes n).val.word =
      if n = node then toObject else if n = fromObject then some node else (pool.nodes n).val.word := by
    simp [t', Table.nodes, prepended]
  have apart (o : Nat) (member : o ∈ t.root :: objects) (r : Nat) (inside : r ∈ refs o) :
      r ≠ node ∧ r ≠ fromObject := by
    refine ⟨(references o member r inside).1, ?_⟩
    rintro rfl
    exact (ok.ref o member r inside).2.2 owner
  have kept (o : Nat) (member : o ∈ t.root :: objects) (r : Nat) (inside : r ∈ refs o) :
      (t'.nodes r).val.word = (t.nodes r).val.word := by
    have different := apart o member r inside
    rw [word, if_neg different.1, if_neg different.2, (references o member r inside).2.2]
  have notRef (o : Nat) (member : o ∈ t.root :: objects) (p : Nat) (member' : p ∈ t.root :: objects) :
      o ∉ refs p := fun inside => (ok.ref p member' o inside).2.2 member
  refine ⟨node, t', free', ?_, rfl, by rw [word, if_pos rfl], fresh, ?_, kept⟩
  · simp [Table.addRefNode, reserve, t', prepended, head]
  refine ⟨⟨?_, got.ok.bound, got.ok.capacity⟩, ?_, ?_, ok.rootNew, ?_, ?_, ?_⟩
  · refine got.ok.chain.congr fun n member => ?_
    have different : n ≠ node := fun same => got.not_free (same ▸ member)
    have outside : n ∉ refs fromObject := fun inside => (references fromObject owner n inside).2.1 member
    exact (links n different outside).2
  · refine ok.list.congr fun n member => ?_
    have inUse := owners n (List.mem_cons_of_mem _ member)
    have same := links n inUse.1 (notRef n (List.mem_cons_of_mem _ member) fromObject owner)
    rw [inUse.2.2] at same
    exact same
  · intro o member
    by_cases same : o = fromObject
    · subst same
      rw [Function.update_self, word, if_neg ownerNew, if_pos rfl]
      refine ((list o owner).prepend (fresh o owner)).congr fun r _ => ?_
      simp [t', Table.nodes, prepended]
    · rw [Function.update_of_ne same, word, if_neg (owners o member).1, if_neg same, (owners o member).2.2]
      refine (list o member).congr fun r inside => ?_
      exact links r (references o member r inside).1
        fun shared => same (ok.apart o member fromObject owner r inside shared)
  · intro o member
    exact ⟨Nat.lt_of_lt_of_le (ok.owner o member).1 size, (owners o member).2.1⟩
  · intro o member r inside
    have old (inside : r ∈ refs o) : r < pool.size ∧ r ∉ free' ∧ r ∉ t.root :: objects := by
      have known := ok.ref o member r inside
      exact ⟨Nat.lt_of_lt_of_le known.1 size, (references o member r inside).2.1, known.2.2⟩
    by_cases same : o = fromObject
    · subst same
      rw [Function.update_self] at inside
      rcases List.mem_cons.mp inside with rfl | inside
      · exact ⟨got.node_lt, got.not_free, fun member => (owners r member).1 rfl⟩
      · exact old inside
    · rw [Function.update_of_ne same] at inside
      exact old inside
  · intro o memberO p memberP r insideO insideP
    -- a reference of `o` is an old one, or it is the new node and `o` is `fromObject`
    have cases (o : Nat) (inside : r ∈ Function.update refs fromObject (node :: refs fromObject) o) :
        r ∈ refs o ∨ r = node ∧ o = fromObject := by
      by_cases same : o = fromObject
      · subst same
        rw [Function.update_self] at inside
        rcases List.mem_cons.mp inside with new | old
        · exact Or.inr ⟨new, rfl⟩
        · exact Or.inl old
      · rw [Function.update_of_ne same] at inside
        exact Or.inl inside
    rcases cases o insideO with oldO | ⟨newO, rfl⟩
    · rcases cases p insideP with oldP | ⟨newP, rfl⟩
      · exact ok.apart o memberO p memberP r oldO oldP
      · exact absurd newP (references o memberO r oldO).1
    · rcases cases p insideP with oldP | ⟨_, same⟩
      · exact absurd newO (references p memberP r oldP).1
      · exact same.symm

theorem Table.remRefNode_spec (ok : t.Ok objects refs free) {fromObject ref : Nat}
    (owner : fromObject ∈ t.root :: objects) (member : ref ∈ refs fromObject) :
    (t.remRefNode fromObject ref).root = t.root ∧
      (t.remRefNode fromObject ref).Ok objects
        (Function.update refs fromObject ((refs fromObject).erase ref)) (ref :: free) ∧
      ∀ o ∈ t.root :: objects, ∀ r ∈ refs o,
        ((t.remRefNode fromObject ref).nodes r).val.word = (t.nodes r).val.word := by
  have list := ok.chain fromObject owner
  let removed := remove t.nodes (t.nodes fromObject).val.word ref
  let pool : NodePool TableCell :=
    { t.availableNodes with nodes := setWord removed.1 fromObject removed.2 }
  have shape : t.remRefNode fromObject ref = { t with availableNodes := pool.release ref } := rfl
  have inUse := ok.ref fromObject owner ref member
  have apart : ref ≠ fromObject := fun same => inUse.2.2 (same ▸ owner)
  have notRef (o : Nat) (known : o ∈ t.root :: objects) (p : Nat) (known' : p ∈ t.root :: objects) :
      o ∉ refs p := fun inside => (ok.ref p known' o inside).2.2 known
  -- outside the chain only the word of `fromObject` changes
  have frame (n : Nat) (outside : n ∉ refs fromObject) : removed.1 n = t.nodes n :=
    remove_frame list member outside
  have links (n : Nat) (outside : n ∉ refs fromObject) :
      (pool.nodes n).prev = (t.nodes n).prev ∧ (pool.nodes n).next = (t.nodes n).next := by
    simp [pool, frame n outside]
  have poolOk : pool.Ok free := by
    refine ⟨?_, ok.pool.bound, ok.pool.capacity⟩
    refine ok.pool.chain.congr fun n inside => ?_
    exact (links n fun shared => (ok.ref fromObject owner n shared).2.1 inside).2
  have released (n : Nat) (different : n ≠ ref) (notFree : n ∉ free) :
      (pool.release ref).nodes n = pool.nodes n := NodePool.release_frame poolOk different notFree
  have word (n : Nat) : ((pool.release ref).nodes n).val.word =
      if n = fromObject then removed.2 else (t.nodes n).val.word := by
    simp [NodePool.release, pool, removed]
  have kept (o : Nat) (known : o ∈ t.root :: objects) (r : Nat) (inside : r ∈ refs o) :
      ((pool.release ref).nodes r).val.word = (t.nodes r).val.word := by
    have different : r ≠ fromObject := by
      rintro rfl
      exact (ok.ref o known r inside).2.2 owner
    rw [word, if_neg different]
  rw [shape]
  refine ⟨rfl, ⟨NodePool.release_ok poolOk inUse.1 inUse.2.1, ?_, ?_, ok.rootNew, ?_, ?_, ?_⟩, kept⟩
  · refine ok.list.congr fun n inside => ?_
    have known := List.mem_cons_of_mem t.root inside
    have different : n ≠ ref := fun same => inUse.2.2 (same ▸ known)
    have equal := released n different (ok.owner n known).2
    have same := links n (notRef n known fromObject owner)
    simp only [Table.nodes, equal]
    exact same
  · intro o known
    by_cases same : o = fromObject
    · subst same
      simp only [Table.nodes, Function.update_self, word, if_pos]
      refine (list.remove member).congr fun r inside => ?_
      have old : r ∈ refs o := List.mem_of_mem_erase inside
      have different : r ≠ ref := fun equal => by
        subst equal
        exact (List.Nodup.not_mem_erase list.nodup) inside
      rw [released r different (ok.ref o owner r old).2.1]
      simp [pool, removed]
    · simp only [Table.nodes, Function.update_of_ne same, word, if_neg same]
      refine (ok.chain o known).congr fun r inside => ?_
      have outside : r ∉ refs fromObject := fun shared => same (ok.apart o known fromObject owner r inside shared)
      have different : r ≠ ref := fun equal => outside (equal ▸ member)
      rw [released r different (ok.ref o known r inside).2.1]
      exact links r outside
  · intro o known
    have old := ok.owner o known
    refine ⟨old.1, ?_⟩
    simp only [List.mem_cons, not_or]
    exact ⟨fun same => inUse.2.2 (same ▸ known), old.2⟩
  · intro o known r inside
    have old : r ∈ refs o ∧ r ≠ ref := by
      by_cases same : o = fromObject
      · subst same
        rw [Function.update_self] at inside
        refine ⟨List.mem_of_mem_erase inside, fun equal => ?_⟩
        subst equal
        exact (List.Nodup.not_mem_erase list.nodup) inside
      · rw [Function.update_of_ne same] at inside
        refine ⟨inside, fun equal => ?_⟩
        subst equal
        exact same (ok.apart o known fromObject owner r inside member)
    have facts := ok.ref o known r old.1
    refine ⟨facts.1, ?_, facts.2.2⟩
    simp only [List.mem_cons, not_or]
    exact ⟨old.2, facts.2.1⟩
  · intro o knownO p knownP r insideO insideP
    have old (o : Nat) (inside : r ∈ Function.update refs fromObject ((refs fromObject).erase ref) o) :
        r ∈ refs o := by
      by_cases same : o = fromObject
      · subst same
        rw [Function.update_self] at inside
        exact List.mem_of_mem_erase inside
      · rwa [Function.update_of_ne same] at inside
    exact ok.apart o knownO p knownP r (old o insideO) (old p insideP)

theorem Table.addObjNode_inv (ok : t.availableNodes.Ok free) {node : Nat} {t' : Table}
    (added : t.addObjNode = some (node, t')) :
    ∃ pool free', Reserved t.availableNodes free node pool free' ∧ t' = { t with
      availableNodes := { pool with nodes := (prepend pool.nodes t.objects node).1 }
      objects := some node } := by
  obtain ⟨node', pool, free', reserve, got⟩ := NodePool.reserve_spec ok
  have shape : t.addObjNode = some (node', { t with
      availableNodes := { pool with nodes := (prepend pool.nodes t.objects node').1 }
      objects := some node' }) := by simp [Table.addObjNode, reserve]
  obtain ⟨rfl, rfl⟩ := Prod.mk.inj (Option.some.inj (shape.symm.trans added))
  exact ⟨pool, free', got, rfl⟩

theorem Table.addRefNode_inv (ok : t.availableNodes.Ok free) {fromObject node : Nat} {toObject : Option Nat} {t' : Table}
    (added : t.addRefNode fromObject toObject = some (node, t')) :
    ∃ pool free', Reserved t.availableNodes free node pool free' ∧ t' = { t with
      availableNodes := { pool with
        nodes := setWord (setWord (prepend pool.nodes (pool.nodes fromObject).val.word node).1 fromObject (some node))
          node toObject } } := by
  obtain ⟨node', pool, free', reserve, got⟩ := NodePool.reserve_spec ok
  have shape : t.addRefNode fromObject toObject = some (node', { t with
      availableNodes := { pool with
        nodes := setWord (setWord (prepend pool.nodes (pool.nodes fromObject).val.word node').1 fromObject (some node'))
          node' toObject } }) := by simp [Table.addRefNode, reserve]
  obtain ⟨rfl, rfl⟩ := Prod.mk.inj (Option.some.inj (shape.symm.trans added))
  exact ⟨pool, free', got, rfl⟩

theorem Table.addObjNode_val (ok : t.Ok objects refs free) {node : Nat} {t' : Table}
    (added : t.addObjNode = some (node, t')) :
    (t'.nodes node).val = default ∧ ∀ o ∈ t.root :: objects, (t'.nodes o).val = (t.nodes o).val := by
  obtain ⟨pool, free', got, rfl⟩ := Table.addObjNode_inv ok.pool added
  have val (n : Nat) : ((prepend pool.nodes t.objects node).1 n).val = (pool.nodes n).val := prepend_val _ _ _ _
  refine ⟨(val node).trans (by rw [got.blank]; rfl), fun o owner => (val o).trans ?_⟩
  rw [got.frame o (ok.owner o owner).1 (ok.owner o owner).2]

theorem Table.addRefNode_val (ok : t.Ok objects refs free) {fromObject node : Nat} {toObject : Option Nat} {t' : Table}
    (added : t.addRefNode fromObject toObject = some (node, t')) :
    ∀ o ∈ t.root :: objects, (t'.nodes o).val.ptr = (t.nodes o).val.ptr ∧
      (t'.nodes o).val.marked = (t.nodes o).val.marked := by
  intro o owner
  obtain ⟨pool, free', got, rfl⟩ := Table.addRefNode_inv ok.pool added
  let prepended := (prepend pool.nodes (pool.nodes fromObject).val.word node).1
  change (setWord (setWord prepended fromObject (some node)) node toObject o).val.ptr = _ ∧
    (setWord (setWord prepended fromObject (some node)) node toObject o).val.marked = _
  have val : (prepended o).val = (t.nodes o).val := by
    have same := got.frame o (ok.owner o owner).1 (ok.owner o owner).2
    exact (prepend_val _ _ _ _).trans (congrArg ChainNode.val same)
  simp [val]

end Specs

end PrototypeBundle.Memory
