import PrototypeBundle.Memory.Sweep
import PrototypeBundle.Shared.Run

set_option autoImplicit false

namespace PrototypeBundle.Memory

open Intrusive Runs

inductive TableOp where
  | addObjNode
  | addRefNode (fromObject : Nat) (toObject : Option Nat)
  | remRefNode (fromObject ref : Nat)
  | remObjNode (object : Nat)
  deriving DecidableEq, Repr

/-- The node an operation returns, if any, and the table it leaves. -/
def TableOp.run (t : Table) : TableOp → Option (Option Nat × Table)
  | addObjNode => t.addObjNode.map fun made => (some made.1, made.2)
  | addRefNode fromObject toObject => (t.addRefNode fromObject toObject).map fun made => (some made.1, made.2)
  | remRefNode fromObject ref => some (none, t.remRefNode fromObject ref)
  | remObjNode object => (t.remObjNode object).map fun t => (none, t)

def tableStep (t : Table) (op : TableOp) : Option Table := (op.run t).map Prod.snd

def Table.Live (t : Table) (object : Nat) : Prop :=
  ∃ objects, IsChain t.nodes t.objects objects ∧ object ∈ objects

def Table.Owns (t : Table) (object ref : Nat) : Prop :=
  ∃ refs, IsChain t.nodes (t.nodes object).val.word refs ∧ ref ∈ refs

def TableOp.Allowed (t : Table) : TableOp → Prop
  | addObjNode => True
  | addRefNode fromObject _ => fromObject = t.root ∨ t.Live fromObject
  | remRefNode fromObject ref => (fromObject = t.root ∨ t.Live fromObject) ∧ t.Owns fromObject ref
  | remObjNode object => t.Live object

inductive Place where
  | free
  | root
  | object
  | ref (owner : Nat)
  deriving DecidableEq, Repr

structure Chains where
  objects : List Nat
  refs : Nat → List Nat
  free : List Nat

def Chains.At (c : Chains) (root node : Nat) : Place → Prop
  | .free => node ∈ c.free
  | .root => node = root
  | .object => node ∈ c.objects
  | .ref owner => owner ∈ root :: c.objects ∧ node ∈ c.refs owner

/-- The object list and the reference chains are linked both ways, the free chain forwards,
and each node of the pool is at exactly one place. -/
structure Table.Sound (t : Table) (c : Chains) : Prop where
  objects : IsList t.nodes t.objects c.objects
  refs : ∀ o ∈ t.root :: c.objects, IsList t.nodes (t.nodes o).val.word (c.refs o)
  free : IsChain t.nodes t.availableNodes.freeChain c.free
  one : ∀ n, n < t.availableNodes.size → ∃! place, c.At t.root n place
  none : ∀ n place, c.At t.root n place → n < t.availableNodes.size

structure Table.Placed (t : Table) (c : Chains) : Prop where
  ok : t.Ok c.objects c.refs c.free
  covered : ∀ n, n < t.availableNodes.size → ∃ place, c.At t.root n place

section Specs

variable {t : Table} {c : Chains}

theorem Table.Placed.sound (placed : t.Placed c) : t.Sound c where
  objects := placed.ok.list
  refs := placed.ok.chain
  free := placed.ok.pool.chain
  one := by
    intro n below
    obtain ⟨place, here⟩ := placed.covered n below
    refine ⟨place, here, fun other there => ?_⟩
    have ok := placed.ok
    have owner (o : Nat) (known : o ∈ t.root :: c.objects) (p : Nat) (known' : p ∈ t.root :: c.objects) :
        o ∉ c.refs p := fun inside => (ok.ref p known' o inside).2.2 known
    cases place with
    | free =>
        cases other with
        | free => rfl
        | root => exact absurd here (there ▸ (ok.owner t.root (by simp)).2)
        | object => exact absurd here (ok.owner n (List.mem_cons_of_mem _ there)).2
        | ref o => exact absurd here (ok.ref o there.1 n there.2).2.1
    | root =>
        cases other with
        | free => exact absurd there (here ▸ (ok.owner t.root (by simp)).2)
        | root => rfl
        | object => exact absurd (here ▸ there) ok.rootNew
        | ref o => exact absurd there.2 (here ▸ owner t.root (by simp) o there.1)
    | object =>
        cases other with
        | free => exact absurd there (ok.owner n (List.mem_cons_of_mem _ here)).2
        | root => exact absurd (there ▸ here) ok.rootNew
        | object => rfl
        | ref o => exact absurd there.2 (owner n (List.mem_cons_of_mem _ here) o there.1)
    | ref o =>
        cases other with
        | free => exact absurd there (ok.ref o here.1 n here.2).2.1
        | root => exact absurd here.2 (there ▸ owner t.root (by simp) o here.1)
        | object => exact absurd here.2 (owner n (List.mem_cons_of_mem _ there) o here.1)
        | ref p => rw [ok.apart o here.1 p there.1 n here.2 there.2]
  none := by
    intro n place here
    cases place with
    | free => exact placed.ok.pool.bound n here
    | root => exact here ▸ (placed.ok.owner t.root (by simp)).1
    | object => exact (placed.ok.owner n (List.mem_cons_of_mem _ here)).1
    | ref o => exact (placed.ok.ref o here.1 n here.2).1

theorem Table.addObjNode_reserved (ok : t.availableNodes.Ok c.free) {node : Nat} {t' : Table} {free' : List Nat}
    (added : t.addObjNode = some (node, t')) (ok' : t'.availableNodes.Ok free') :
    ∃ pool, Reserved t.availableNodes c.free node pool free' ∧ t'.availableNodes.size = pool.size := by
  obtain ⟨pool, rest, got, rfl⟩ := Table.addObjNode_inv ok added
  have chain : IsChain (prepend pool.nodes t.objects node).1 pool.freeChain rest := by
    refine got.ok.chain.congr fun n member => ?_
    rw [prepend_next, if_neg]
    exact fun same => got.not_free (same ▸ member)
  have same : rest = free' := chain.unique ok'.chain
  exact ⟨pool, same ▸ got, rfl⟩

theorem Table.addRefNode_reserved (ok : t.availableNodes.Ok c.free) {fromObject node : Nat} {toObject : Option Nat}
    {t' : Table} {free' : List Nat} (added : t.addRefNode fromObject toObject = some (node, t'))
    (ok' : t'.availableNodes.Ok free') :
    ∃ pool, Reserved t.availableNodes c.free node pool free' ∧ t'.availableNodes.size = pool.size := by
  obtain ⟨pool, rest, got, rfl⟩ := Table.addRefNode_inv ok added
  let prepended := (prepend pool.nodes (pool.nodes fromObject).val.word node).1
  have chain : IsChain (setWord (setWord prepended fromObject (some node)) node toObject) pool.freeChain rest := by
    refine got.ok.chain.congr fun n member => ?_
    rw [setWord_next, setWord_next, prepend_next, if_neg]
    exact fun same => got.not_free (same ▸ member)
  have same : rest = free' := chain.unique ok'.chain
  exact ⟨pool, same ▸ got, rfl⟩

theorem clearRefs_size {object length : Nat} {t t' : Table} (cleared : t.clearRefs object length = some t') :
    t'.availableNodes.size = t.availableNodes.size := by
  induction length generalizing t with
  | zero =>
      simp only [Table.clearRefs] at cleared
      split at cleared
      · rw [Option.some.inj cleared]
      · simp at cleared
  | succ length ih =>
      rw [Table.clearRefs] at cleared
      split at cleared
      · rw [Option.some.inj cleared]
      · exact (ih cleared).trans rfl

theorem remObjNode_size {object : Nat} {t t' : Table} (removed : t.remObjNode object = some t') :
    t'.availableNodes.size = t.availableNodes.size := by
  simp only [Table.remObjNode, Option.bind_eq_bind, Option.bind_eq_some_iff] at removed
  obtain ⟨t₁, cleared, rest⟩ := removed
  rw [← clearRefs_size cleared, ← Option.some.inj rest]
  rfl

theorem Table.Placed.live (placed : t.Placed c) {o : Nat} (live : t.Live o) : o ∈ c.objects := by
  obtain ⟨objects, chain, member⟩ := live
  rwa [chain.unique placed.ok.list.isChain] at member

theorem Table.Placed.owner (placed : t.Placed c) {o : Nat} (owner : o = t.root ∨ t.Live o) :
    o ∈ t.root :: c.objects := by
  rcases owner with rfl | live
  · exact List.mem_cons_self
  · exact List.mem_cons_of_mem _ (placed.live live)

theorem Table.Placed.owns (placed : t.Placed c) {o r : Nat} (owner : o ∈ t.root :: c.objects) (owns : t.Owns o r) :
    r ∈ c.refs o := by
  obtain ⟨refs, chain, member⟩ := owns
  rwa [chain.unique (placed.ok.chain o owner).isChain] at member

theorem Table.Placed.taken (placed : t.Placed c) {node : Nat} {pool : NodePool TableCell} {free' : List Nat}
    (got : Reserved t.availableNodes c.free node pool free') :
    (∀ place, c.At t.root node place → place = .free) ∧
      ∀ n, n < pool.size → n = node ∨ n ∈ free' ∨ ∃ place, place ≠ .free ∧ c.At t.root n place := by
  constructor
  · intro place here
    have below : node ∈ c.free ∨ t.availableNodes.size ≤ node := got.node_new
    have inside := placed.sound.none node place here
    obtain ⟨only, -, unique⟩ := placed.sound.one node inside
    rcases below with free | above
    · exact (unique place here).trans (unique .free free).symm
    · omega
  · intro n below
    rcases got.all n below with same | free | ⟨old, used⟩
    · exact Or.inl same
    · exact Or.inr (Or.inl free)
    · obtain ⟨place, here⟩ := placed.covered n old
      refine Or.inr (Or.inr ⟨place, ?_, here⟩)
      rintro rfl
      exact used here

end Specs

/-- What an operation does to the chains; a node it returns was on none of them. -/
def TableOp.Effect (root : Nat) (c c' : Chains) : TableOp → Option Nat → Prop
  | addObjNode, some node =>
      (∀ place, c.At root node place → place = .free) ∧ c'.objects = node :: c.objects ∧
        c'.refs = Function.update c.refs node []
  | addRefNode fromObject _, some node =>
      (∀ place, c.At root node place → place = .free) ∧ c'.objects = c.objects ∧
        c'.refs = Function.update c.refs fromObject (node :: c.refs fromObject)
  | remRefNode fromObject ref, none =>
      c'.objects = c.objects ∧ c'.refs = Function.update c.refs fromObject ((c.refs fromObject).erase ref) ∧
        c'.free = ref :: c.free
  | remObjNode object, none =>
      c'.objects = c.objects.erase object ∧ c'.refs = c.refs ∧ c'.free = object :: ((c.refs object).reverse ++ c.free)
  | _, _ => False

theorem Table.Placed.run {t : Table} {c : Chains} (placed : t.Placed c) (op : TableOp) (allowed : op.Allowed t) :
    ∃ result t' c', op.run t = some (result, t') ∧ t'.root = t.root ∧ t'.Placed c' ∧ op.Effect t.root c c' result := by
  have ok := placed.ok
  cases op with
  | addObjNode =>
      obtain ⟨node, t', free', added, root, fresh, ok', -⟩ := Table.addObjNode_spec ok
      obtain ⟨pool, got, size⟩ := Table.addObjNode_reserved ok.pool added ok'.pool
      obtain ⟨wasFree, covered⟩ := placed.taken got
      let c' : Chains := ⟨node :: c.objects, Function.update c.refs node [], free'⟩
      refine ⟨some node, t', c', by simp [TableOp.run, added], root, ⟨ok', ?_⟩, wasFree, rfl, rfl⟩
      intro n below
      rw [size] at below
      rcases covered n below with rfl | free | ⟨place, notFree, here⟩
      · exact ⟨.object, List.mem_cons_self⟩
      · exact ⟨.free, free⟩
      · refine ⟨place, ?_⟩
        cases place with
        | free => exact absurd rfl notFree
        | root => exact here.trans root.symm
        | object => exact List.mem_cons_of_mem _ here
        | ref o =>
            have different : o ≠ node := fun same => fresh (same ▸ here.1)
            refine ⟨?_, ?_⟩
            · rw [root]
              rcases List.mem_cons.mp here.1 with rfl | inside
              · exact List.mem_cons_self
              · exact List.mem_cons_of_mem _ (List.mem_cons_of_mem _ inside)
            · simpa [c', different] using here.2
  | addRefNode fromObject toObject =>
      have owner := placed.owner allowed
      obtain ⟨node, t', free', added, root, -, -, ok', -⟩ := Table.addRefNode_spec ok owner toObject
      obtain ⟨pool, got, size⟩ := Table.addRefNode_reserved ok.pool added ok'.pool
      obtain ⟨wasFree, covered⟩ := placed.taken got
      let c' : Chains := ⟨c.objects, Function.update c.refs fromObject (node :: c.refs fromObject), free'⟩
      refine ⟨some node, t', c', by simp [TableOp.run, added], root, ⟨ok', ?_⟩, wasFree, rfl, rfl⟩
      intro n below
      rw [size] at below
      rcases covered n below with rfl | free | ⟨place, notFree, here⟩
      · exact ⟨.ref fromObject, root ▸ owner, by simp [c']⟩
      · exact ⟨.free, free⟩
      · refine ⟨place, ?_⟩
        cases place with
        | free => exact absurd rfl notFree
        | root => exact here.trans root.symm
        | object => exact here
        | ref o =>
            refine ⟨root ▸ here.1, ?_⟩
            by_cases same : o = fromObject
            · simpa [c', same] using Or.inr (same ▸ here.2)
            · simpa [c', same] using here.2
  | remRefNode fromObject ref =>
      have owner := placed.owner allowed.1
      have member := placed.owns owner allowed.2
      obtain ⟨root, ok', -⟩ := Table.remRefNode_spec ok owner member
      let c' : Chains := ⟨c.objects, Function.update c.refs fromObject ((c.refs fromObject).erase ref), ref :: c.free⟩
      refine ⟨none, _, c', rfl, root, ⟨ok', ?_⟩, rfl, rfl, rfl⟩
      intro n below
      by_cases removed : n = ref
      · exact ⟨.free, by simp [c', Chains.At, removed]⟩
      · obtain ⟨place, here⟩ := placed.covered n below
        refine ⟨place, ?_⟩
        cases place with
        | free => exact List.mem_cons_of_mem _ here
        | root => exact here.trans root.symm
        | object => exact here
        | ref o =>
            refine ⟨root ▸ here.1, ?_⟩
            by_cases same : o = fromObject
            · subst same
              simpa [c'] using (List.mem_erase_of_ne removed).mpr here.2
            · simpa [c', same] using here.2
  | remObjNode object =>
      have member := placed.live allowed
      obtain ⟨t', removed, root, ok', -⟩ := remObjNode_spec ok member
      let c' : Chains := ⟨c.objects.erase object, c.refs, object :: ((c.refs object).reverse ++ c.free)⟩
      refine ⟨none, t', c', by simp [TableOp.run, removed], root, ⟨ok', ?_⟩, rfl, rfl, rfl⟩
      intro n below
      rw [remObjNode_size removed] at below
      obtain ⟨place, here⟩ := placed.covered n below
      cases place with
      | free => exact ⟨.free, by simp only [Chains.At] at here; simp [c', Chains.At, here]⟩
      | root => exact ⟨.root, here.trans root.symm⟩
      | object =>
          by_cases same : n = object
          · exact ⟨.free, by simp [c', Chains.At, same]⟩
          · exact ⟨.object, (List.mem_erase_of_ne same).mpr here⟩
      | ref o =>
          obtain ⟨owner, inside⟩ := here
          by_cases same : o = object
          · exact ⟨.free, by subst same; simp [c', Chains.At, inside]⟩
          · refine ⟨.ref o, ?_, inside⟩
            rw [root]
            rcases List.mem_cons.mp owner with rfl | known
            · exact List.mem_cons_self
            · exact List.mem_cons_of_mem _ ((List.mem_erase_of_ne same).mpr known)

theorem table_placed : ∃ t c, table = some t ∧ t.Placed c := by
  obtain ⟨t, free, made, ok⟩ := table_ok
  obtain ⟨root, pool, rest, reserve, got⟩ :=
    NodePool.reserve_spec (nodePool_ok (by omega : 0 < 4096) : (nodePool 4096 : NodePool TableCell).Ok _)
  have shape : table = some { availableNodes := pool, objects := none, root } := by simp [table, reserve]
  obtain rfl := Option.some.inj (shape.symm.trans made)
  have same : rest = free := Chain.unique got.ok.chain ok.pool.chain
  refine ⟨_, ⟨[], fun _ => [], free⟩, made, ok, fun n below => ?_⟩
  rcases got.all n below with rfl | inside | ⟨old, notFree⟩
  · exact ⟨.root, rfl⟩
  · exact ⟨.free, same ▸ inside⟩
  · exact absurd (List.mem_range'_1.mpr ⟨Nat.zero_le _, by simpa [nodePool, addPage] using old⟩) notFree

theorem table_runs_sound {t₀ : Table} (made : table = some t₀) {ops : List TableOp}
    (allowed : Along tableStep (fun t op => op.Allowed t) t₀ ops) :
    ∃ t c, exec tableStep t₀ ops = some t ∧ t.Sound c ∧
      ∀ op : TableOp, op.Allowed t →
        ∃ result t' c', op.run t = some (result, t') ∧ t'.Sound c' ∧ op.Effect t.root c c' result := by
  obtain ⟨t₁, c₁, made', placed⟩ := table_placed
  obtain rfl := Option.some.inj (made.symm.trans made')
  obtain ⟨t, run, c, holds⟩ := allowed.progress (fun t => ∃ c, t.Placed c) (fun t op invariant ok => by
    obtain ⟨c, placed⟩ := invariant
    obtain ⟨result, t', c', ran, -, placed', -⟩ := placed.run _ ok
    exact ⟨t', by simp [tableStep, ran], c', placed'⟩) ⟨c₁, placed⟩
  refine ⟨t, c, run, holds.sound, fun op ok => ?_⟩
  obtain ⟨result, t', c', ran, -, placed', effect⟩ := holds.run _ ok
  exact ⟨result, t', c', ran, placed'.sound, effect⟩

def Table.Lists (t : Table) (head : Option Nat) (n : Nat) : Prop :=
  IsChain t.nodes head (follow (fun n => (t.nodes n).next) 4 head) ∧ n ∈ follow (fun n => (t.nodes n).next) 4 head

instance (t : Table) (head : Option Nat) (n : Nat) : Decidable (t.Lists head n) := inferInstanceAs (Decidable (_ ∧ _))

-- What decides `Allowed` in small tables.
def TableOp.Known (t : Table) : TableOp → Prop
  | addObjNode => True
  | addRefNode fromObject _ => fromObject = t.root ∨ t.Lists t.objects fromObject
  | remRefNode fromObject ref =>
      (fromObject = t.root ∨ t.Lists t.objects fromObject) ∧ t.Lists (t.nodes fromObject).val.word ref
  | remObjNode object => t.Lists t.objects object

instance (t : Table) : (op : TableOp) → Decidable (op.Known t)
  | .addObjNode => inferInstanceAs (Decidable True)
  | .addRefNode _ _ => inferInstanceAs (Decidable (_ ∨ _))
  | .remRefNode _ _ => inferInstanceAs (Decidable (_ ∧ _))
  | .remObjNode object => inferInstanceAs (Decidable (t.Lists t.objects object))

theorem TableOp.Known.allowed {t : Table} {op : TableOp} (known : op.Known t) : op.Allowed t := by
  cases op with
  | addObjNode => exact known
  | addRefNode fromObject toObject => exact known.imp_right fun lists => ⟨_, lists⟩
  | remRefNode fromObject ref => exact ⟨known.1.imp_right fun lists => ⟨_, lists⟩, _, known.2⟩
  | remObjNode object => exact ⟨_, known⟩

-- Objects 1 and 2; reference 4 of object 1 is removed, and then object 1 with its last one.
def reused : List TableOp :=
  [.addObjNode, .addObjNode, .addRefNode 0 (some 1), .addRefNode 1 (some 2), .addRefNode 1 (some 1),
    .addRefNode 0 (some 2), .remRefNode 1 4, .remRefNode 0 3, .remObjNode 1, .addObjNode]

-- The node of the object that was removed is an object again, and the nodes of its references are free.
theorem table_runs_sound_reused :
    ∃ t₀ t c, table = some t₀ ∧ exec tableStep t₀ reused = some t ∧ t.Sound c ∧ c.objects = [1, 2] ∧ c.refs 0 = [6] ∧
      [5, 3, 4] <+: c.free := by
  obtain ⟨t₀, final, made, ran, holds⟩ : ∃ t₀ t, table = some t₀ ∧ exec tableStep t₀ reused = some t ∧
      decide (t.root = 0 ∧ IsChain t.nodes t.objects [1, 2] ∧ IsChain t.nodes (t.nodes 0).val.word [6] ∧
        follow (fun n => (t.nodes n).next) 3 t.availableNodes.freeChain = [5, 3, 4]) = true :=
    exec_of_any (by decide +kernel)
  obtain ⟨root, objects, refs, free⟩ := of_decide_eq_true holds
  have checked : table.all (fun t₀ => check tableStep (fun t op => op.Known t) t₀ reused) = true := by decide +kernel
  rw [made] at checked
  obtain ⟨t, c, run, sound, -⟩ := table_runs_sound made ((Along.of_check checked).mono fun _ _ => TableOp.Known.allowed)
  obtain rfl := Option.some.inj (run.symm.trans ran)
  refine ⟨t₀, t, c, made, run, sound, sound.objects.isChain.unique objects, ?_, ?_⟩
  · exact (root ▸ sound.refs t.root List.mem_cons_self).isChain.unique refs
  · exact free ▸ Chain.follow_prefix sound.free 3

end PrototypeBundle.Memory
