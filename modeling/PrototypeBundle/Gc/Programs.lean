import PrototypeBundle.Gc.BuddyRuns
import PrototypeBundle.Gc.CompactingRuns
import PrototypeBundle.Shared.Variables

set_option autoImplicit false

/-!
# Programs with `gc` pointers

Pointers, table and pages at once. Each operation of `GcRun` but `allocate` is as it is there, for
it leaves the pages alone.
-/

namespace PrototypeBundle.Gc

open Memory HeapPages ObjectHeap Variables

variable {β : Type}

structure GcProgram (β : Type) where
  collector : Collector β
  pointers : Nat → Option GcPtr
  frames : List (Option Nat × Nat)

inductive ProgramOp (β : Type) where
  -- `gc_new`, up to the constructor of the payload
  | allocate (length destructor : Nat) (payload : β)
  | construct (p : Nat)
  | default (p : Nat)
  | copyNew (p v : Nat)
  | moveNew (p v : Nat)
  | copyAssign (p v : Nat)
  | moveAssign (p v : Nat)
  | destroy (p : Nat)
  -- a pointer made by `v.as ()`
  | cast (p v : Nat)
  -- a store through `p->`
  | write (p : Nat) (payload : β)
  -- the destructor of a payload destroys the pointers that are members of its object
  | collect (members : Nat → List Nat)

def GcProgram.run (s : GcProgram β) : GcRun := ⟨s.collector.toService, s.pointers, s.frames⟩

def GcProgram.withRun (s : GcProgram β) (run : GcRun) : GcProgram β where
  collector := { s.collector with toService := run.service }
  pointers := run.pointers
  frames := run.frames

def GcProgram.runStep (s : GcProgram β) (op : GcOp) : Option (GcProgram β) := (s.run.step op).map s.withRun

/-- What `p->` refers to: the payload, after its destructor. -/
def GcProgram.get (s : GcProgram β) (p : Nat) : Option (Nat × β) := do
  let g ← s.pointers p
  let obj ← g.obj
  let block ← s.collector.paging.read obj
  return (block.destructor, block.payload)

def GcProgram.deletes (s : GcProgram β) (members : Nat → List Nat) (object : Nat) : List Nat :=
  (members object).filterMap fun p => (s.pointers p).bind GcPtr.ref

def GcProgram.step (capacity : Nat) (s : GcProgram β) : ProgramOp β → Option (GcProgram β)
  | .allocate length destructor payload =>
      (s.collector.enter capacity length destructor payload).map fun (node, collector) =>
        { s with collector, frames := (s.collector.activeRoot, node) :: s.frames }
  | .construct p => s.runStep (.construct p)
  | .default p => s.runStep (.default p)
  | .copyNew p v => s.runStep (.copyNew p v)
  | .moveNew p v => s.runStep (.moveNew p v)
  | .copyAssign p v => s.runStep (.copyAssign p v)
  | .moveAssign p v => s.runStep (.moveAssign p v)
  | .destroy p => s.runStep (.destroy p)
  | .cast p v =>
      match s.pointers p, s.pointers v with
      | none, some source => do
          let (root, service) := s.collector.getRoot
          let (ref, service) ← service.regRef root source.obj
          return s.withRun (s.run.put p (some { root, ref := some ref, obj := source.obj }) service)
      | _, _ => none
  | .write p payload => do
      let g ← s.pointers p
      let obj ← g.obj
      let paging ← s.collector.paging.put obj payload
      return { s with collector := { s.collector with paging } }
  | .collect members =>
      (s.collector.collect capacity (s.deletes members)).map fun (calls, collector) =>
        let destroyed := calls.flatMap fun block => members block.node
        { s with collector, pointers := fun p => if p ∈ destroyed then none else s.pointers p }

def gcProgram : Option (GcProgram β) :=
  collector.map fun start => { collector := start.collector, pointers := fun _ => none, frames := [] }

def GcProgram.emit (capacity : Nat) (s : GcProgram β) : ProgramOp β → List (Action Nat Nat (Nat × β))
  | .allocate length destructor payload =>
      (s.collector.enter capacity length destructor payload).toList.map fun (node, _) => .allocate node (destructor, payload)
  | .construct p => [.construct p]
  | .default p => [.default p]
  | .copyNew p v => [.copyNew p v]
  | .moveNew p v => [.moveNew p v]
  | .copyAssign p v => [.copyAssign p v]
  | .moveAssign p v => [.moveAssign p v]
  | .destroy p => [.destroy p]
  | .cast p v => [.copyNew p v]
  | .write p payload => (s.get p).toList.map fun (destructor, _) => .store p (destructor, payload)
  | .collect members =>
      (s.collector.collect capacity (s.deletes members)).toList.map fun (calls, _) =>
        .collect (calls.map fun block => (block.node, block.destructor, block.payload))

/-- The members of an object are the pointers with its root. -/
def GcProgram.Members (s : GcProgram β) (members : Nat → List Nat) : Prop :=
  ∀ o, IsObject s.collector.table o → (members o).Nodup ∧ ∀ p, p ∈ members o ↔ ∃ g, s.pointers p = some g ∧ g.root = o

/-- Moves stay with one root, `as` is not used on null, nothing is collected while a constructor runs, and no
block overruns its page. -/
def ProgramProper (capacity : Nat) (s : GcProgram β) : ProgramOp β → Prop
  | .allocate length destructor payload =>
      (HeapOp.allocate length 0 destructor payload).Valid capacity s.collector.paging ∧
        (HeapOp.allocate length 0 destructor payload).Placed capacity s.collector.paging
  | .construct p => s.frames ≠ [] ∧ s.pointers p = none
  | .default p => s.pointers p = none
  | .copyNew p v => s.pointers p = none ∧ (s.pointers v).isSome
  | .moveNew p v => s.pointers p = none ∧ (s.pointers v).isSome ∧ SameRoot s.run (.moveNew p v)
  | .copyAssign p v => (s.pointers p).isSome ∧ (s.pointers v).isSome
  | .moveAssign p v => (s.pointers p).isSome ∧ (s.pointers v).isSome ∧ SameRoot s.run (.moveAssign p v)
  | .destroy p => (s.pointers p).isSome
  | .cast p v => s.pointers p = none ∧ ∃ source, s.pointers v = some source ∧ source.obj.isSome
  | .write p _ => ∃ g, s.pointers p = some g ∧ g.obj.isSome
  | .collect members =>
      s.frames = [] ∧ s.Members members ∧ s.collector.paging.pages.length < 2 ^ 32 ∧
        ∀ t, s.collector.table.mark s.collector.table.bound = some t →
          HeapOp.Placed capacity s.collector.paging (.compress fun node => (t.nodes node).val.marked)

structure Linked (edge : Nat → Option (Nat × Nat)) (pointers : Nat → Option GcPtr) : Prop where
  agree : Agree pointers
  edge : ∀ r a b, edge r = some (a, b) ↔ ∃ p, pointers p = some ⟨a, some r, some b⟩
  once : ∀ p v g source r, pointers p = some g → pointers v = some source → g.ref = some r → source.ref = some r → p = v

section Linked

variable {edge : Nat → Option (Nat × Nat)} {pointers : Nat → Option GcPtr} {p v : Nat} {g source : GcPtr}

theorem Linked.drop (linked : Linked edge pointers) {edge' : Nat → Option (Nat × Nat)} {new : Option GcPtr}
    (gone : ∀ r, edge' r = if (pointers p).bind GcPtr.ref = some r then none else edge r)
    (blank : ∀ g, new = some g → g.ref = none ∧ g.obj = none) : Linked edge' (Function.update pointers p new) where
  agree := linked.agree.update p fun g made => by rw [(blank g made).1, (blank g made).2]
  edge := by
    intro r a b
    rw [gone]
    constructor
    · intro known
      obtain ⟨other, known⟩ := Option.ite_none_left_eq_some.mp known
      obtain ⟨q, found⟩ := (linked.edge r a b).mp known
      have different : q ≠ p := by
        rintro rfl
        exact other (by rw [found]; rfl)
      exact ⟨q, by rw [Function.update_of_ne different, found]⟩
    · rintro ⟨q, found⟩
      by_cases same : q = p
      · rw [same, Function.update_self] at found
        cases (blank _ found).1
      · rw [Function.update_of_ne same] at found
        rw [if_neg, linked.edge]
        · exact ⟨q, found⟩
        · intro held
          obtain ⟨g, known, holds⟩ := Option.bind_eq_some_iff.mp held
          exact same (linked.once q p _ g r found known rfl holds)
  once := by
    intro q q' g g' r found found' holds holds'
    have old {q : Nat} {g : GcPtr} (found : Function.update pointers p new q = some g) (holds : g.ref = some r) :
        pointers q = some g := by
      by_cases same : q = p
      · rw [same, Function.update_self] at found
        rw [(blank g found).1] at holds
        cases holds
      · rwa [Function.update_of_ne same] at found
    exact linked.once q q' g g' r (old found holds) (old found' holds') holds holds'

theorem Linked.attach (linked : Linked edge pointers) (unlinked : (pointers p).bind GcPtr.ref = none) {r a b : Nat}
    (fresh : edge r = none) :
    Linked (Function.update edge r (some (a, b))) (Function.update pointers p (some ⟨a, some r, some b⟩)) where
  agree := linked.agree.update p (by rintro g ⟨⟩; rfl)
  edge := by
    intro r' a' b'
    by_cases same : r' = r
    · subst same
      rw [Function.update_self]
      constructor
      · rintro ⟨⟩
        exact ⟨p, Function.update_self ..⟩
      · rintro ⟨q, found⟩
        by_cases at' : q = p
        · rw [at', Function.update_self] at found
          cases found
          rfl
        · rw [Function.update_of_ne at'] at found
          have known := (linked.edge r' a' b').mpr ⟨q, found⟩
          rw [fresh] at known
          cases known
    · rw [Function.update_of_ne same, linked.edge]
      refine exists_congr fun q => ?_
      by_cases at' : q = p
      · rw [at', Function.update_self]
        constructor
        · intro found
          rw [found] at unlinked
          cases unlinked
        · rintro ⟨⟩
          exact absurd rfl same
      · rw [Function.update_of_ne at']
  once := by
    have cases {q : Nat} {g : GcPtr} (found : Function.update pointers p (some ⟨a, some r, some b⟩) q = some g) :
        q = p ∧ g = ⟨a, some r, some b⟩ ∨ pointers q = some g := by
      by_cases same : q = p
      · rw [same, Function.update_self] at found
        exact Or.inl ⟨same, (Option.some.inj found).symm⟩
      · rw [Function.update_of_ne same] at found
        exact Or.inr found
    -- no other pointer has the new reference
    have apart {q : Nat} {g : GcPtr} (found : pointers q = some g) : g.ref ≠ some r := by
      intro holds
      obtain ⟨n, obj⟩ := Option.isSome_iff_exists.mp ((linked.agree q g found).symm.trans (by rw [holds]; rfl))
      have known := (linked.edge r g.root n).mpr ⟨q, by rw [found, ← holds, ← obj]⟩
      rw [fresh] at known
      cases known
    intro q q' g g' r' found found' holds holds'
    rcases cases found with ⟨rfl, rfl⟩ | old <;> rcases cases found' with ⟨rfl, rfl⟩ | old'
    · rfl
    · cases holds
      exact absurd holds' (apart old')
    · cases holds'
      exact absurd holds (apart old)
    · exact linked.once q q' g g' r' old old' holds holds'

theorem Linked.filter (linked : Linked edge pointers) (kept : Nat → Bool) :
    Linked (fun r => (edge r).filter fun e => kept e.1) (fun p => (pointers p).filter fun g => kept g.root) where
  agree p g found := linked.agree p g (Option.filter_eq_some_iff.mp found).1
  edge := by
    intro r a b
    simp only [Option.filter_eq_some_iff, linked.edge, exists_and_right]
  once p v g source r found found' :=
    linked.once p v g source r (Option.filter_eq_some_iff.mp found).1 (Option.filter_eq_some_iff.mp found').1

theorem Linked.rename (linked : Linked edge pointers) (names : Equiv.Perm Nat) : Linked edge (pointers ∘ names) where
  agree p := linked.agree (names p)
  edge r a b := (linked.edge r a b).trans names.surjective.exists
  once _ _ g source r found found' holds holds' :=
    names.injective (linked.once _ _ g source r found found' holds holds')

theorem Linked.swap (linked : Linked edge pointers) (different : p ≠ v) (foundP : pointers p = some g)
    (foundV : pointers v = some source) (same : g.ref.isSome ∨ source.ref.isSome → g.root = source.root) :
    Linked edge (Function.update (Function.update pointers v (some (g.swap source).2)) p (some (g.swap source).1)) := by
  by_cases holds : g.ref.isSome ∨ source.ref.isSome
  · have root := same holds
    have renamed : Function.update (Function.update pointers v (some (g.swap source).2)) p (some (g.swap source).1) =
        pointers ∘ Equiv.swap p v := by
      have first : (g.swap source).1 = source := by simp [GcPtr.swap, root]
      have second : (g.swap source).2 = g := by simp [GcPtr.swap, ← root]
      funext q
      by_cases atP : q = p
      · subst atP
        simp [first, foundV]
      · by_cases atV : q = v
        · subst atV
          simp [second, atP, foundP]
        · simp [atP, atV, Equiv.swap_apply_of_ne_of_ne atP atV]
    rw [renamed]
    exact linked.rename _
  · simp only [not_or, Bool.not_eq_true, Option.isSome_eq_false_iff, Option.isNone_iff_eq_none] at holds
    have blank {q : Nat} {h : GcPtr} (found : pointers q = some h) (unlinked : h.ref = none) : h.obj = none := by
      simpa [unlinked] using linked.agree q h found
    have nullP := blank foundP holds.1
    have nullV := blank foundV holds.2
    have first : Linked edge (Function.update pointers v (some (g.swap source).2)) := by
      refine linked.drop (fun r => by rw [foundV, Option.bind_some, holds.2, if_neg (Option.some_ne_none r).symm]) ?_
      rintro h ⟨⟩
      exact ⟨holds.1, nullP⟩
    refine first.drop (fun r => ?_) ?_
    · rw [Function.update_of_ne different, foundP, Option.bind_some, holds.1, if_neg (Option.some_ne_none r).symm]
    · rintro h ⟨⟩
      exact ⟨holds.2, nullV⟩

end Linked

def Held (capacity root : Nat) (c : Collector β) (pointers : Nat → Option GcPtr) (object : Nat → Option (Nat × β)) : Prop :=
  ∃ edge, Mirrored capacity root c ⟨object, edge⟩ ∧ Linked edge pointers

section Held

variable {capacity root : Nat} {c : Collector β} {pointers : Nat → Option GcPtr} {object : Nat → Option (Nat × β)}
  {p v : Nat} {g source : GcPtr}

theorem Held.table_root (held : Held capacity root c pointers object) : c.table.root = root := by
  obtain ⟨_, mirrored, -⟩ := held
  exact mirrored.1

theorem Held.agree (held : Held capacity root c pointers object) : Agree pointers := by
  obtain ⟨_, -, linked⟩ := held
  exact linked.agree

theorem Held.setActive (held : Held capacity root c pointers object) (active : Option Nat) :
    Held capacity root { c with activeRoot := active } pointers object := by
  obtain ⟨edge, mirrored, linked⟩ := held
  exact ⟨edge, mirrored.setActive active, linked⟩

theorem Held.getRoot (held : Held capacity root c pointers object) :
    Held capacity root { c with toService := c.getRoot.2 } pointers object := by
  unfold Service.getRoot
  split
  · exact held
  · exact held.setActive _

theorem Held.unregister (held : Held capacity root c pointers object) (found : pointers p = some g) {new : Option GcPtr}
    (blank : ∀ g, new = some g → g.ref = none ∧ g.obj = none) :
    Held capacity root { c with toService := g.unregister c.toService } (Function.update pointers p new) object := by
  obtain ⟨edge, mirrored, linked⟩ := held
  cases holds : g.ref with
  | none =>
      rw [GcPtr.unregister, holds]
      refine ⟨edge, mirrored, linked.drop (fun r => ?_) blank⟩
      rw [found, Option.bind_some, holds, if_neg (Option.some_ne_none r).symm]
  | some ref =>
      rw [GcPtr.unregister, holds]
      obtain ⟨n, obj⟩ := Option.isSome_iff_exists.mp ((linked.agree p g found).symm.trans (by rw [holds]; rfl))
      have known := (linked.edge ref g.root n).mpr ⟨p, by rw [found, ← holds, ← obj]⟩
      obtain ⟨h', taken, mirrored'⟩ := mirrored.delRef known
      obtain ⟨-, taken⟩ := Option.ite_none_right_eq_some.mp taken
      obtain rfl := Option.some.inj taken
      refine ⟨_, mirrored', linked.drop (fun r => ?_) blank⟩
      rw [found, Option.bind_some, holds, Function.update_apply]
      simp only [Option.some.injEq, eq_comm]

theorem Held.regRef (held : Held capacity root c pointers object) (unlinked : (pointers p).bind GcPtr.ref = none)
    {fromObject toObject : Nat} (owner : fromObject = root ∨ (object fromObject).isSome)
    (target : (object toObject).isSome) :
    ∃ ref service, c.regRef fromObject (some toObject) = some (ref, service) ∧ service.activeRoot = c.activeRoot ∧
      Held capacity root { c with toService := service }
        (Function.update pointers p (some ⟨fromObject, some ref, some toObject⟩)) object := by
  obtain ⟨edge, mirrored, linked⟩ := held
  obtain ⟨ref, service, h', added, active, taken, mirrored'⟩ := mirrored.regRef owner (Or.inr target)
  obtain ⟨⟨fresh, -⟩, taken⟩ := Option.ite_none_right_eq_some.mp taken
  obtain rfl := Option.some.inj taken
  exact ⟨ref, service, added, active, _, mirrored', linked.attach unlinked fresh⟩

theorem Held.copy (held : Held capacity root c pointers object) (found : pointers p = some g)
    (owner : g.root = root ∨ (object g.root).isSome) (agrees : source.ref.isSome = source.obj.isSome)
    (target : ∀ n, source.obj = some n → (object n).isSome) :
    ∃ ref service, g.copy source c.toService = some (⟨g.root, ref, source.obj⟩, service) ∧
      service.activeRoot = c.activeRoot ∧
      Held capacity root { c with toService := service } (Function.update pointers p (some ⟨g.root, ref, source.obj⟩))
        object := by
  have active : (g.unregister c.toService).activeRoot = c.activeRoot := by
    unfold GcPtr.unregister
    split <;> rfl
  have dropped : Held capacity root { c with toService := g.unregister c.toService }
      (Function.update pointers p (some ⟨g.root, none, none⟩)) object :=
    held.unregister found (by rintro g ⟨⟩; exact ⟨rfl, rfl⟩)
  cases holds : source.ref with
  | none =>
      have null : source.obj = none := by simpa [holds] using agrees
      refine ⟨none, g.unregister c.toService, ?_, active, ?_⟩
      · simp [GcPtr.copy, holds, null]
      · rw [null]
        exact dropped
  | some r =>
      obtain ⟨n, obj⟩ := Option.isSome_iff_exists.mp (agrees.symm.trans (by rw [holds]; rfl))
      obtain ⟨ref, service, added, active', held'⟩ :=
        dropped.regRef (by rw [Function.update_self]; rfl) owner (target n obj)
      refine ⟨some ref, service, ?_, active'.trans active, ?_⟩
      · simp only [GcPtr.copy, holds, obj]
        rw [added]
        rfl
      · rw [Function.update_idem] at held'
        rw [obj]
        exact held'

theorem Held.blank (held : Held capacity root c pointers object) (absent : pointers p = none) (owner : Nat) :
    Held capacity root c (Function.update pointers p (some ⟨owner, none, none⟩)) object := by
  obtain ⟨edge, mirrored, linked⟩ := held
  refine ⟨edge, mirrored, linked.drop (fun r => ?_) (by rintro g ⟨⟩; exact ⟨rfl, rfl⟩)⟩
  rw [absent, Option.bind_none, if_neg (Option.some_ne_none r).symm]

theorem Held.swap (held : Held capacity root c pointers object) (different : p ≠ v) (foundP : pointers p = some g)
    (foundV : pointers v = some source) (same : g.ref.isSome ∨ source.ref.isSome → g.root = source.root) :
    Held capacity root c
      (Function.update (Function.update pointers v (some (g.swap source).2)) p (some (g.swap source).1)) object := by
  obtain ⟨edge, mirrored, linked⟩ := held
  exact ⟨edge, mirrored, linked.swap different foundP foundV same⟩

end Held

def GcPtr.view (g : GcPtr) : Nat × Option Nat := (g.root, g.obj)

def Nested (root : Nat) : Option Nat → List (Option Nat × Nat) → Prop
  | active, [] => active = none ∨ active = some root
  | active, (previous, node) :: frames => active = some node ∧ Nested root previous frames

structure Related (capacity root : Nat) (s : GcProgram β) (a : Environment Nat Nat (Nat × β)) : Prop where
  held : Held capacity root s.collector s.pointers a.object
  pointer : a.pointer = Option.map GcPtr.view ∘ s.pointers
  building : a.building = s.frames.map Prod.snd
  nested : Nested root s.collector.activeRoot s.frames
  sound : a.Sound root

def Follows (capacity root : Nat) (s : Option (GcProgram β)) (a : Option (Environment Nat Nat (Nat × β))) : Prop :=
  ∃ next env, s = some next ∧ a = some env ∧ Related capacity root next env

section Related

variable {capacity root : Nat} {s : GcProgram β} {a : Environment Nat Nat (Nat × β)} {p v : Nat} {g source : GcPtr}

theorem Nested.getRoot {service : Service} {frames : List (Option Nat × Nat)} (known : service.table.root = root)
    (nested : Nested root service.activeRoot frames) :
    service.getRoot.1 = (frames.map Prod.snd).headD root ∧ Nested root service.getRoot.2.activeRoot frames := by
  cases frames with
  | nil =>
      unfold Service.getRoot
      rcases nested with idle | idle <;> simp [idle, known, Nested]
  | cons frame frames =>
      obtain ⟨active, nested⟩ := nested
      have same : service.getRoot = (frame.2, service) := by simp [Service.getRoot, active]
      rw [same]
      exact ⟨rfl, active, nested⟩

theorem Related.absent (related : Related capacity root s a) (absent : s.pointers p = none) : a.pointer p = none := by
  rw [related.pointer, Function.comp_apply, absent, Option.map_none]

theorem Related.found (related : Related capacity root s a) (found : s.pointers p = some g) :
    a.pointer p = some (g.root, g.obj) := by
  rw [related.pointer, Function.comp_apply, found, Option.map_some, GcPtr.view]

theorem Related.creator (related : Related capacity root s a) :
    s.collector.getRoot.1 = a.creator root ∧ Nested root s.collector.getRoot.2.activeRoot s.frames := by
  rw [Environment.creator, related.building]
  exact related.nested.getRoot related.held.table_root

theorem Related.owner (related : Related capacity root s a) (found : s.pointers p = some g) :
    g.root = root ∨ (a.object g.root).isSome :=
  related.sound.owner p g.root g.obj (related.found found)

theorem Related.target (related : Related capacity root s a) (found : s.pointers p = some g) (n : Nat)
    (obj : g.obj = some n) : (a.object n).isSome :=
  related.sound.target p g.root n (by rw [related.found found, obj])

theorem Related.advance (related : Related capacity root s a) {next : GcProgram β} {env : Environment Nat Nat (Nat × β)}
    {action : Action Nat Nat (Nat × β)} (taken : a.step root action = some env)
    (held : Held capacity root next.collector next.pointers env.object)
    (pointer : env.pointer = Option.map GcPtr.view ∘ next.pointers) (building : env.building = next.frames.map Prod.snd)
    (nested : Nested root next.collector.activeRoot next.frames) :
    Follows capacity root (some next) (a.step root action) :=
  ⟨next, env, rfl, taken, held, pointer, building, nested, Environment.step_sound a action env related.sound taken⟩

theorem Related.put_pointer (related : Related capacity root s a) (p : Nat) (new : Option GcPtr) :
    Function.update a.pointer p (new.map GcPtr.view) = Option.map GcPtr.view ∘ Function.update s.pointers p new := by
  rw [Function.comp_update, ← related.pointer]

theorem Related.put (related : Related capacity root s a) {c : Collector β} {new : Option GcPtr}
    (held : Held capacity root c (Function.update s.pointers p new) a.object) (nested : Nested root c.activeRoot s.frames)
    {action : Action Nat Nat (Nat × β)} (taken : a.step root action = some (a.put p (new.map GcPtr.view))) :
    Follows capacity root (some ⟨c, Function.update s.pointers p new, s.frames⟩) (a.step root action) :=
  related.advance taken held (related.put_pointer p new) related.building nested

theorem default_follows (related : Related capacity root s a) (absent : s.pointers p = none) :
    Follows capacity root (s.runStep (.default p)) (a.step root (.default p)) := by
  obtain ⟨creator, nested⟩ := related.creator
  have taken : a.step root (.default p) = some (a.put p (some (a.creator root, none))) := by
    simp only [Environment.step, related.absent absent]
  have stepped : s.runStep (.default p) = some
      ⟨{ s.collector with toService := s.collector.getRoot.2 },
        Function.update s.pointers p (some ⟨a.creator root, none, none⟩), s.frames⟩ := by
    rw [← creator]
    simp only [GcProgram.runStep, GcRun.step, GcProgram.run, absent]
    rfl
  rw [stepped]
  exact related.put (related.held.getRoot.blank absent _) nested taken

theorem copyNew_follows (related : Related capacity root s a) (absent : s.pointers p = none)
    (found : s.pointers v = some source) :
    Follows capacity root (s.runStep (.copyNew p v)) (a.step root (.copyNew p v)) := by
  obtain ⟨creator, nested⟩ := related.creator
  have taken : a.step root (.copyNew p v) = some (a.put p (some (a.creator root, source.obj))) := by
    simp only [Environment.step, related.absent absent, related.found found]
  obtain ⟨ref, service, copied, active, held⟩ := (related.held.getRoot.blank absent (a.creator root)).copy
    (Function.update_self ..) related.sound.creator (related.held.agree v source found) (related.target found)
  rw [Function.update_idem] at held
  have stepped : s.runStep (.copyNew p v) = some
      ⟨{ s.collector with toService := service },
        Function.update s.pointers p (some ⟨a.creator root, ref, source.obj⟩), s.frames⟩ := by
    rw [← creator] at copied ⊢
    simp only [GcProgram.runStep, GcRun.step, GcProgram.run, absent, found]
    have made : gc s.collector.toService = (⟨s.collector.getRoot.1, none, none⟩, s.collector.getRoot.2) := rfl
    rw [made]
    simp only [copied]
    rfl
  rw [stepped]
  exact related.put held (active ▸ nested) taken

theorem copyAssign_follows (related : Related capacity root s a) (known : s.pointers p = some g)
    (found : s.pointers v = some source) :
    Follows capacity root (s.runStep (.copyAssign p v)) (a.step root (.copyAssign p v)) := by
  have taken : a.step root (.copyAssign p v) = some (a.put p (some (g.root, source.obj))) := by
    simp only [Environment.step, related.found known, related.found found]
  obtain ⟨ref, service, copied, active, held⟩ := related.held.copy known (related.owner known)
    (related.held.agree v source found) (related.target found)
  have stepped : s.runStep (.copyAssign p v) = some
      ⟨{ s.collector with toService := service },
        Function.update s.pointers p (some ⟨g.root, ref, source.obj⟩), s.frames⟩ := by
    simp only [GcProgram.runStep, GcRun.step, GcProgram.run, known, found, copied]
    rfl
  rw [stepped]
  exact related.put held (active ▸ related.nested) taken

theorem destroy_follows (related : Related capacity root s a) (known : s.pointers p = some g) :
    Follows capacity root (s.runStep (.destroy p)) (a.step root (.destroy p)) := by
  have taken : a.step root (.destroy p) = some (a.put p none) := by
    simp only [Environment.step, related.found known]
  have active : (g.unregister s.collector.toService).activeRoot = s.collector.activeRoot := by
    unfold GcPtr.unregister
    split <;> rfl
  have stepped : s.runStep (.destroy p) = some
      ⟨{ s.collector with toService := g.unregister s.collector.toService }, Function.update s.pointers p none,
        s.frames⟩ := by
    simp only [GcProgram.runStep, GcRun.step, GcProgram.run, known]
    rfl
  rw [stepped]
  exact related.put (related.held.unregister known fun _ made => by cases made) (active ▸ related.nested) taken

theorem cast_follows (related : Related capacity root s a) (absent : s.pointers p = none)
    (found : s.pointers v = some source) (aimed : source.obj.isSome) :
    Follows capacity root (s.step capacity (.cast p v)) (a.step root (.copyNew p v)) := by
  obtain ⟨n, obj⟩ := Option.isSome_iff_exists.mp aimed
  obtain ⟨creator, nested⟩ := related.creator
  have taken : a.step root (.copyNew p v) = some (a.put p (some (a.creator root, some n))) := by
    simp only [Environment.step, related.absent absent, related.found found, obj]
  obtain ⟨ref, service, added, active, held⟩ := related.held.getRoot.regRef (by rw [absent]; rfl)
    related.sound.creator (related.target found n obj)
  have stepped : s.step capacity (.cast p v) = some
      ⟨{ s.collector with toService := service },
        Function.update s.pointers p (some ⟨a.creator root, some ref, some n⟩), s.frames⟩ := by
    rw [← creator] at added ⊢
    simp only [GcProgram.step, absent, found, obj]
    rw [added]
    rfl
  rw [stepped]
  exact related.put held (active ▸ nested) taken

theorem construct_follows (related : Related capacity root s a) (running : s.frames ≠ []) (absent : s.pointers p = none) :
    Follows capacity root (s.runStep (.construct p)) (a.step root (.construct p)) := by
  obtain ⟨⟨previous, node⟩, frames, split⟩ := List.exists_cons_of_ne_nil running
  have building := related.building
  rw [split, List.map_cons] at building
  obtain ⟨-, outer⟩ := split ▸ related.nested
  let service : Service := { s.collector.toService with activeRoot := previous }
  obtain ⟨creator, nested⟩ := @Nested.getRoot root service _ related.held.table_root outer
  have taken : a.step root (.construct p) =
      some ({ a with building := frames.map Prod.snd }.put p (some ((frames.map Prod.snd).headD root, some node))) := by
    simp only [Environment.step, building, related.absent absent]
  have owner : (frames.map Prod.snd).headD root = root ∨ (a.object ((frames.map Prod.snd).headD root)).isSome := by
    cases frames with
    | nil => exact Or.inl rfl
    | cons frame frames => exact Or.inr (related.sound.built frame.2 (by simp [building]))
  obtain ⟨ref, service', added, active, held⟩ := (related.held.setActive previous).getRoot.regRef (by rw [absent]; rfl)
    owner (related.sound.built node (by simp [building]))
  have stepped : s.runStep (.construct p) = some
      ⟨{ s.collector with toService := service' },
        Function.update s.pointers p (some ⟨(frames.map Prod.snd).headD root, some ref, some node⟩), frames⟩ := by
    rw [← creator] at added ⊢
    simp only [GcProgram.runStep, GcRun.step, GcProgram.run, split, absent, gcOf]
    simp only [service] at added ⊢
    rw [added]
    rfl
  rw [stepped]
  exact related.advance taken held (related.put_pointer p (some ⟨_, some ref, some node⟩)) rfl (active ▸ nested)

theorem moveNew_follows (related : Related capacity root s a) (absent : s.pointers p = none)
    (found : s.pointers v = some source) (same : SameRoot s.run (.moveNew p v)) :
    Follows capacity root (s.runStep (.moveNew p v)) (a.step root (.moveNew p v)) := by
  obtain ⟨creator, nested⟩ := related.creator
  have different : p ≠ v := by
    rintro rfl
    rw [absent] at found
    cases found
  have taken : a.step root (.moveNew p v) =
      some ((a.put v (some (source.root, none))).put p (some (a.creator root, source.obj))) := by
    simp only [Environment.step, related.absent absent, related.found found]
  have held := (related.held.getRoot.blank absent (a.creator root)).swap different (Function.update_self ..)
    (by rw [Function.update_of_ne different.symm, found]) fun linked => by
      have moved : source.ref.isSome := by simpa using linked
      exact ((same source found moved).trans creator).symm
  rw [Function.update_comm different, Function.update_idem] at held
  have stepped : s.runStep (.moveNew p v) = some
      ⟨{ s.collector with toService := s.collector.getRoot.2 },
        Function.update (Function.update s.pointers v (some ⟨source.root, none, none⟩)) p
          (some ⟨a.creator root, source.ref, source.obj⟩), s.frames⟩ := by
    rw [← creator]
    simp only [GcProgram.runStep, GcRun.step, GcProgram.run, absent, found]
    rfl
  rw [stepped]
  refine related.advance taken held ?_ related.building nested
  change Function.update (Function.update a.pointer v _) p _ = _
  rw [Function.comp_update, Function.comp_update, ← related.pointer]
  rfl

theorem moveAssign_follows (related : Related capacity root s a) (known : s.pointers p = some g)
    (found : s.pointers v = some source) (same : SameRoot s.run (.moveAssign p v)) :
    Follows capacity root (s.runStep (.moveAssign p v)) (a.step root (.moveAssign p v)) := by
  have taken : a.step root (.moveAssign p v) =
      some ((a.put v (some (source.root, g.obj))).put p (some (g.root, source.obj))) := by
    simp only [Environment.step, related.found known, related.found found]
  have stepped : s.runStep (.moveAssign p v) = some
      ⟨s.collector, Function.update (Function.update s.pointers v (some ⟨source.root, g.ref, g.obj⟩)) p
        (some ⟨g.root, source.ref, source.obj⟩), s.frames⟩ := by
    simp only [GcProgram.runStep, GcRun.step, GcProgram.run, known, found]
    by_cases self : p = v
    · subst self
      obtain rfl := Option.some.inj (known.symm.trans found)
      simp only [if_true]
      rfl
    · simp only [if_neg self]
      rfl
  rw [stepped]
  refine related.advance taken ?_ ?_ related.building related.nested
  · by_cases self : p = v
    · subst self
      obtain rfl := Option.some.inj (known.symm.trans found)
      change Held capacity root s.collector (Function.update (Function.update s.pointers p (some g)) p (some g)) a.object
      rw [Function.update_idem, Function.update_eq_self_iff.mpr known.symm]
      exact related.held
    · exact related.held.swap self known found (same g source known found)
  · change Function.update (Function.update a.pointer v _) p _ = _
    rw [Function.comp_update, Function.comp_update, ← related.pointer]
    rfl

theorem allocate_follows (related : Related capacity root s a) {length destructor : Nat} {payload : β}
    (valid : (HeapOp.allocate length 0 destructor payload).Valid capacity s.collector.paging)
    (placed : (HeapOp.allocate length 0 destructor payload).Placed capacity s.collector.paging) :
    ∃ node c, s.collector.enter capacity length destructor payload = some (node, c) ∧
      Follows capacity root (s.step capacity (.allocate length destructor payload))
        (a.step root (.allocate node (destructor, payload))) := by
  obtain ⟨edge, mirrored, linked⟩ := related.held
  obtain ⟨node, c, h', entered, active, added, mirrored'⟩ := mirrored.enter valid placed
  obtain ⟨fresh, added⟩ := Option.ite_none_left_eq_some.mp added
  obtain rfl := Option.some.inj added
  have taken : a.step root (.allocate node (destructor, payload)) =
      some { a.write node (destructor, payload) with building := node :: a.building } := if_neg fresh
  have stepped : s.step capacity (.allocate length destructor payload) =
      some { s with collector := c, frames := (s.collector.activeRoot, node) :: s.frames } := by
    rw [GcProgram.step, entered, Option.map_some]
  refine ⟨node, c, entered, ?_⟩
  rw [stepped]
  refine related.advance taken ⟨edge, mirrored', linked⟩ related.pointer ?_ ⟨active, related.nested⟩
  rw [List.map_cons, ← related.building]

theorem Related.get (related : Related capacity root s a) (p : Nat) : s.get p = a.get p := by
  cases found : s.pointers p with
  | none => simp [GcProgram.get, Environment.get, found, related.absent found]
  | some g =>
      cases obj : g.obj with
      | none => simp [GcProgram.get, Environment.get, found, related.found found, obj]
      | some n =>
          obtain ⟨value, known⟩ := Option.isSome_iff_exists.mp (related.target found n obj)
          obtain ⟨edge, mirrored, -⟩ := related.held
          obtain ⟨block, read, same⟩ := mirrored.represents.payloads n value known
          simp [GcProgram.get, Environment.get, found, related.found found, obj, read, known, same]

theorem write_follows (related : Related capacity root s a) (found : s.pointers p = some g) (aimed : g.obj.isSome)
    (payload : β) :
    ∃ destructor old, s.get p = some (destructor, old) ∧
      Follows capacity root (s.step capacity (.write p payload)) (a.step root (.store p (destructor, payload))) := by
  obtain ⟨n, obj⟩ := Option.isSome_iff_exists.mp aimed
  obtain ⟨edge, mirrored, linked⟩ := related.held
  have isObject := related.target found n obj
  obtain ⟨b, paging, h', read, stored, added, mirrored'⟩ := mirrored.put isObject payload
  obtain ⟨-, added⟩ := Option.ite_none_right_eq_some.mp added
  obtain rfl := Option.some.inj added
  have taken : a.step root (.store p (b.destructor, payload)) = some (a.write n (b.destructor, payload)) := by
    simp only [Environment.step, related.found found, obj]
  have stepped : s.step capacity (.write p payload) =
      some { s with collector := { s.collector with paging } } := by
    simp [GcProgram.step, found, obj, stored]
  refine ⟨b.destructor, b.payload, by simp [GcProgram.get, found, obj, read], ?_⟩
  rw [stepped]
  exact related.advance taken ⟨edge, mirrored', linked⟩ related.pointer related.building related.nested

theorem Related.leads (related : Related capacity root s a) {edge : Nat → Option (Nat × Nat)}
    (linked : Linked edge s.pointers) : a.heap.Leads = Heap.Leads ⟨a.object, edge⟩ := by
  funext x y
  simp only [Heap.Leads, linked.edge, a.heap_edge, related.pointer, Function.comp_apply, Option.map_eq_some_iff, GcPtr.view,
    Prod.mk.injEq, eq_iff_iff]
  constructor
  · rintro ⟨p, g, found, rfl, obj⟩
    obtain ⟨r, ref⟩ := Option.isSome_iff_exists.mp ((linked.agree p g found).trans (by rw [obj]; rfl))
    exact ⟨r, p, by rw [found, ← ref, ← obj]⟩
  · rintro ⟨r, p, found⟩
    exact ⟨p, _, found, rfl, rfl⟩

theorem Members.own {members : Nat → List Nat} (own : s.Members members) {edge : Nat → Option (Nat × Nat)}
    {object : Nat → Option (Nat × β)} (represents : s.collector.Represents ⟨object, edge⟩)
    (linked : Linked edge s.pointers) : OwnDeletes s.collector.table (s.deletes members) := by
  intro o isObject
  obtain ⟨nodup, mine⟩ := own o isObject
  refine ⟨nodup.filterMap fun p v r held held' => ?_, fun r inside => ?_⟩
  · obtain ⟨g, found, holds⟩ := Option.bind_eq_some_iff.mp held
    obtain ⟨source, found', holds'⟩ := Option.bind_eq_some_iff.mp held'
    exact linked.once p v g source r found found' holds holds'
  · obtain ⟨p, member, held⟩ := List.mem_filterMap.mp inside
    obtain ⟨g, found, holds⟩ := Option.bind_eq_some_iff.mp held
    obtain ⟨g', found', rfl⟩ := (mine p).mp member
    obtain rfl := Option.some.inj (found.symm.trans found')
    obtain ⟨n, obj⟩ := Option.isSome_iff_exists.mp ((linked.agree p g found).symm.trans (by rw [holds]; rfl))
    have known := (linked.edge r g.root n).mpr ⟨p, by rw [found, ← holds, ← obj]⟩
    exact ((represents.references r g.root n).mp known).2.1

open Classical in
theorem Related.destroyed (related : Related capacity root s a) {members : Nat → List Nat} (own : s.Members members)
    (represents : ∀ n, (a.object n).isSome ↔ IsObject s.collector.table n) {calls : List (Block β)}
    (dead : a.heap.Dead root (calls.map fun block => (block.node, block.destructor, block.payload))) (p : Nat) :
    (if p ∈ calls.flatMap fun block => members block.node then none else s.pointers p) =
      (s.pointers p).filter fun g => a.heap.Reached root g.root := by
  have condemned (n : Nat) : (∃ block ∈ calls, block.node = n) ↔ (a.object n).isSome ∧ ¬ a.heap.Reached root n := by
    rw [Option.isSome_iff_exists, ← exists_and_right]
    constructor
    · rintro ⟨block, called, rfl⟩
      exact ⟨_, (dead.2 _ _).mp (List.mem_map.mpr ⟨block, called, rfl⟩)⟩
    · rintro ⟨value, known⟩
      obtain ⟨block, called, same⟩ := List.mem_map.mp ((dead.2 n value).mpr known)
      exact ⟨block, called, congrArg Prod.fst same⟩
  have member : (p ∈ calls.flatMap fun block => members block.node) ↔
      ∃ g, s.pointers p = some g ∧ ¬ a.heap.Reached root g.root := by
    rw [List.mem_flatMap]
    constructor
    · rintro ⟨block, called, inside⟩
      obtain ⟨isObject, unreached⟩ := (condemned block.node).mp ⟨block, called, rfl⟩
      obtain ⟨g, found, same⟩ := ((own block.node ((represents _).mp isObject)).2 p).mp inside
      exact ⟨g, found, same ▸ unreached⟩
    · rintro ⟨g, found, unreached⟩
      have isObject : (a.object g.root).isSome :=
        (related.owner found).resolve_left fun same => unreached (same ▸ .refl)
      obtain ⟨block, called, same⟩ := (condemned g.root).mpr ⟨isObject, unreached⟩
      exact ⟨block, called, same ▸ ((own g.root ((represents _).mp isObject)).2 p).mpr ⟨g, found, rfl⟩⟩
  cases found : s.pointers p with
  | none => simp
  | some g =>
      by_cases reached : a.heap.Reached root g.root
      · simp [member, found, reached, Option.filter_some]
      · simp [member, found, reached, Option.filter_some]

theorem collect_follows (related : Related capacity root s a) {members : Nat → List Nat} (idle : s.frames = [])
    (own : s.Members members) (counted : s.collector.paging.pages.length < 2 ^ 32)
    (placed : ∀ t, s.collector.table.mark s.collector.table.bound = some t →
      HeapOp.Placed capacity s.collector.paging (.compress fun node => (t.nodes node).val.marked)) :
    ∃ calls c, s.collector.collect capacity (s.deletes members) = some (calls, c) ∧
      Follows capacity root (s.step capacity (.collect members))
        (a.step root (.collect (calls.map fun block => (block.node, block.destructor, block.payload)))) := by
  classical
  obtain ⟨edge, mirrored, linked⟩ := related.held
  have represents := mirrored.represents
  have leads := related.leads linked
  have reached : a.heap.Reached root = Heap.Reached root ⟨a.object, edge⟩ := by
    funext n
    rw [Heap.Reached, Heap.Reached, leads]
  obtain ⟨calls, c, collected, active, dead, mirrored'⟩ :=
    mirrored.collect (Members.own own represents linked) counted placed
  have dead' : a.heap.Dead root (calls.map fun block => (block.node, block.destructor, block.payload)) := by
    rw [Heap.Dead, reached]
    exact dead
  have taken : a.step root (.collect (calls.map fun block => (block.node, block.destructor, block.payload))) =
      some (a.keep root) := if_pos ⟨by rw [related.building, idle, List.map_nil], dead'⟩
  have stepped : s.step capacity (.collect members) =
      some { s with collector := c, pointers := fun p => (s.pointers p).filter fun g => a.heap.Reached root g.root } := by
    simp only [GcProgram.step, collected, Option.map_some, related.destroyed own represents.objects dead']
  refine ⟨calls, c, collected, ?_⟩
  rw [stepped]
  refine related.advance taken ⟨(Heap.keep root ⟨a.object, edge⟩).edge, ?_, ?_⟩ ?_ related.building (active ▸ related.nested)
  · have object : (a.keep root).object = (Heap.keep root ⟨a.object, edge⟩).object := by
      simp only [Environment.keep, Heap.keep, reached]
      rfl
    rw [object]
    exact mirrored'
  · rw [reached]
    exact linked.filter fun n => decide (Heap.Reached root ⟨a.object, edge⟩ n)
  · funext p
    simp only [Environment.keep, related.pointer, Function.comp_apply]
    cases s.pointers p with
    | none => rfl
    | some g => simp only [Option.map_some, Option.filter_some, GcPtr.view, apply_ite (Option.map GcPtr.view), Option.map_none]

theorem program_step (related : Related capacity root s a) {op : ProgramOp β} (proper : ProgramProper capacity s op) :
    ∃ next env, s.step capacity op = some next ∧ Runs.exec (Environment.step root) a (s.emit capacity op) = some env ∧
      Related capacity root next env := by
  -- where one action is emitted, it has been followed
  have single {action : Action Nat Nat (Nat × β)} (emitted : s.emit capacity op = [action])
      (follows : Follows capacity root (s.step capacity op) (a.step root action)) :
      ∃ next env, s.step capacity op = some next ∧ Runs.exec (Environment.step root) a (s.emit capacity op) = some env ∧
        Related capacity root next env := by
    obtain ⟨next, env, stepped, taken, after⟩ := follows
    exact ⟨next, env, stepped, by rw [emitted]; exact Runs.exec_cons.mpr ⟨env, taken, rfl⟩, after⟩
  cases op with
  | allocate length destructor payload =>
      obtain ⟨node, c, entered, follows⟩ := allocate_follows related proper.1 proper.2
      exact single (by rw [GcProgram.emit, entered]; rfl) follows
  | construct p => exact single rfl (construct_follows related proper.1 proper.2)
  | default p => exact single rfl (default_follows related proper)
  | copyNew p v =>
      obtain ⟨source, found⟩ := Option.isSome_iff_exists.mp proper.2
      exact single rfl (copyNew_follows related proper.1 found)
  | moveNew p v =>
      obtain ⟨source, found⟩ := Option.isSome_iff_exists.mp proper.2.1
      exact single rfl (moveNew_follows related proper.1 found proper.2.2)
  | copyAssign p v =>
      obtain ⟨g, known⟩ := Option.isSome_iff_exists.mp proper.1
      obtain ⟨source, found⟩ := Option.isSome_iff_exists.mp proper.2
      exact single rfl (copyAssign_follows related known found)
  | moveAssign p v =>
      obtain ⟨g, known⟩ := Option.isSome_iff_exists.mp proper.1
      obtain ⟨source, found⟩ := Option.isSome_iff_exists.mp proper.2.1
      exact single rfl (moveAssign_follows related known found proper.2.2)
  | destroy p =>
      obtain ⟨g, known⟩ := Option.isSome_iff_exists.mp proper
      exact single rfl (destroy_follows related known)
  | cast p v =>
      obtain ⟨absent, source, found, aimed⟩ := proper
      exact single rfl (cast_follows related absent found aimed)
  | write p payload =>
      obtain ⟨g, found, aimed⟩ := proper
      obtain ⟨destructor, old, read, follows⟩ := write_follows related found aimed payload
      exact single (by rw [GcProgram.emit, read]; rfl) follows
  | collect members =>
      obtain ⟨idle, own, counted, placed⟩ := proper
      obtain ⟨calls, c, collected, follows⟩ := collect_follows related idle own counted placed
      exact single (by rw [GcProgram.emit, collected]; rfl) follows

end Related

theorem gcProgram_related (capacity : Nat) :
    ∃ start : GcProgram β, gcProgram = some start ∧
      Related capacity start.collector.table.root start Environment.empty := by
  obtain ⟨start, begun, mirrored⟩ := @collector_mirrored β capacity
  have idle : start.collector.activeRoot = none := by
    obtain ⟨t, -, made⟩ := Option.map_eq_some_iff.mp begun
    rw [← made]
  refine ⟨⟨start.collector, fun _ => none, []⟩, by rw [gcProgram, begun, Option.map_some], ⟨⟨_, mirrored, ?_⟩, rfl, rfl,
    Or.inl idle, Environment.empty_sound⟩⟩
  exact ⟨by simp [Agree], by simp, by simp⟩

/-- `gc` pointers are variables: no pointer that is not null dangles, each has the payload that was last written
to its object, and a collection destroys the objects that no pointers lead to. -/
theorem pointers_refine (capacity : Nat) (start : GcProgram β) (begun : gcProgram = some start) (ops : List (ProgramOp β))
    (proper : Runs.Along (GcProgram.step capacity) (ProgramProper capacity) start ops) :
    ∃ s a, Runs.exec (GcProgram.step capacity) start ops = some s ∧
      Runs.exec (Environment.step start.collector.table.root) Environment.empty
        (Runs.trace (GcProgram.step capacity) (GcProgram.emit capacity) start ops) = some a ∧
      (∀ p, s.get p = a.get p) ∧
      ∀ p g, s.pointers p = some g → a.pointer p = some (g.root, g.obj) ∧ (s.get p).isSome = g.obj.isSome := by
  obtain ⟨start', begun', initial⟩ := @gcProgram_related β capacity
  obtain rfl := Option.some.inj (begun'.symm.trans begun)
  obtain ⟨s, run, -⟩ := proper.progress (fun s => ∃ a, Related capacity start'.collector.table.root s a)
    (fun s op known ok => by
      obtain ⟨a, related⟩ := known
      obtain ⟨next, env, taken, -, after⟩ := program_step related ok
      exact ⟨next, taken, env, after⟩) ⟨_, initial⟩
  obtain ⟨a, abstractRun, related⟩ := proper.simulation (Related capacity start'.collector.table.root)
    (fun s op next a related ok taken => by
      obtain ⟨next', env, taken', abstract, after⟩ := program_step related ok
      obtain rfl := Option.some.inj (taken'.symm.trans taken)
      exact ⟨env, abstract, after⟩) initial run
  refine ⟨s, a, run, abstractRun, related.get, fun p g found => ⟨related.found found, ?_⟩⟩
  rw [related.get]
  cases obj : g.obj with
  | none => simp [Environment.get, related.found found, obj]
  | some n => exact related.sound.get_isSome (by rw [related.found found, obj])

def ProgramOp.names : ProgramOp β → List Nat
  | .allocate _ _ _ | .write _ _ | .collect _ => []
  | .construct p | .default p | .destroy p => [p]
  | .copyNew p v | .moveNew p v | .copyAssign p v | .moveAssign p v | .cast p v => [p, v]

theorem GcProgram.step_absent {capacity : Nat} {s next : GcProgram β} {op : ProgramOp β} (taken : s.step capacity op = some next)
    {q : Nat} (other : q ∉ op.names) (absent : s.pointers q = none) : next.pointers q = none := by
  have ran (op : GcOp) (taken : s.runStep op = some next) (other : q ∉ op.names) : next.pointers q = none := by
    obtain ⟨run, stepped, rfl⟩ := Option.map_eq_some_iff.mp taken
    exact (GcRun.step_pointers stepped other).trans absent
  cases op with
  | allocate length destructor payload =>
      obtain ⟨made, -, rfl⟩ := Option.map_eq_some_iff.mp taken
      exact absent
  | construct p => exact ran (.construct p) taken other
  | default p => exact ran (.default p) taken other
  | copyNew p v => exact ran (.copyNew p v) taken other
  | moveNew p v => exact ran (.moveNew p v) taken other
  | copyAssign p v => exact ran (.copyAssign p v) taken other
  | moveAssign p v => exact ran (.moveAssign p v) taken other
  | destroy p => exact ran (.destroy p) taken other
  | cast p v =>
      simp only [ProgramOp.names, List.mem_cons, List.not_mem_nil, or_false, not_or] at other
      simp only [GcProgram.step] at taken
      split at taken
      · obtain ⟨made, -, same⟩ := Option.bind_eq_some_iff.mp taken
        obtain rfl := Option.some.inj same
        exact (Function.update_of_ne other.1 _ _).trans absent
      · cases taken
  | write p payload =>
      obtain ⟨g, -, taken⟩ := Option.bind_eq_some_iff.mp taken
      obtain ⟨obj, -, taken⟩ := Option.bind_eq_some_iff.mp taken
      obtain ⟨paging, -, same⟩ := Option.bind_eq_some_iff.mp taken
      obtain rfl := Option.some.inj same
      exact absent
  | collect members =>
      obtain ⟨result, -, rfl⟩ := Option.map_eq_some_iff.mp taken
      simp [absent]

def ProgramOp.Mutates : ProgramOp β → Prop
  | .collect _ => False
  | _ => True

-- What is asked of a collection cannot be decided: it is about all pointers and all layouts.
instance (capacity : Nat) (s : GcProgram β) : (op : ProgramOp β) → Decidable (op.Mutates ∧ ProgramProper capacity s op)
  | .allocate _ _ _ | .construct _ | .copyNew _ _ | .copyAssign _ _ => inferInstanceAs (Decidable (True ∧ _ ∧ _))
  | .moveNew _ _ | .moveAssign _ _ => inferInstanceAs (Decidable (True ∧ _ ∧ _ ∧ SameRoot _ _))
  | .default _ => inferInstanceAs (Decidable (True ∧ _ = _))
  | .destroy _ => inferInstanceAs (Decidable (True ∧ _ = true))
  | .cast p v => inferInstanceAs (Decidable (True ∧ s.pointers p = none ∧ ∃ source ∈ s.pointers v, source.obj.isSome))
  | .write p _ => inferInstanceAs (Decidable (True ∧ ∃ g ∈ s.pointers p, g.obj.isSome))
  | .collect _ => .isFalse And.left

-- Pointer 1 is a member of object 1 and refers to object 2, as pointer 2 does; the pointer to object 1 goes.
def memberProgram : List (ProgramOp Nat) :=
  [.allocate 8 1 10, .allocate 8 2 20, .construct 1, .construct 0, .copyNew 2 1, .moveNew 3 2, .cast 4 3, .copyAssign 2 4,
    .write 2 21, .destroy 4, .destroy 3, .destroy 0]

-- The destructor of object 1 destroys its member; object 2 is moved, and pointer 2 refers to it still.
theorem pointers_refine_member : ∃ start s a, gcProgram = some start ∧
    Runs.exec (GcProgram.step 48) start (memberProgram ++ [.collect fun o => if o = 1 then [1] else []]) = some s ∧
    Runs.exec (Environment.step start.collector.table.root) Environment.empty (Runs.trace (GcProgram.step 48)
      (GcProgram.emit 48) start (memberProgram ++ [.collect fun o => if o = 1 then [1] else []])) = some a ∧
    ((∀ p, s.get p = a.get p) ∧
      ∀ p g, s.pointers p = some g → a.pointer p = some (g.root, g.obj) ∧ (s.get p).isSome = g.obj.isSome) ∧
    s.pointers 1 = none ∧ a.get 2 = some (2, 21) := by
  let members : Nat → List Nat := fun o => if o = 1 then [1] else []
  let layouts := [[numberBlock 1 10], [numberBlock 2 21]]
  obtain ⟨start, middle, begun, run, holds⟩ : ∃ start s, (gcProgram : Option (GcProgram Nat)) = some start ∧
      Runs.exec (GcProgram.step 48) start memberProgram = some s ∧
      decide (IsList s.collector.table.nodes s.collector.table.objects [2, 1] ∧ s.frames = [] ∧
        (∀ p < 5, (s.pointers p).map GcPtr.root = if p = 1 then some 1 else if p = 2 then some 0 else none) ∧
        s.collector.paging.pages.length < 2 ^ 32 ∧ List.Forall₂ (Filled s.collector.paging.store) s.collector.paging.pages layouts ∧
        (s.step 48 (.collect members)).any (fun after =>
          decide (after.pointers 1 = none ∧ after.get 2 = some (2, 21))) = true) = true :=
    Runs.exec_of_any (by decide +kernel)
  obtain ⟨objects, idle, roots, counted, filled, collected⟩ := of_decide_eq_true holds
  have checked : (gcProgram : Option (GcProgram Nat)).all (fun start =>
      Runs.check (GcProgram.step 48) (fun s op => op.Mutates ∧ ProgramProper 48 s op) start memberProgram) = true := by
    decide +kernel
  rw [begun] at checked
  have proper := (Runs.Along.of_check checked).mono fun _ _ => And.right
  have named : ∀ op ∈ memberProgram, ∀ q ∈ op.names, q < 5 := by decide
  have absent (q : Nat) (above : 5 ≤ q) : middle.pointers q = none := by
    have others : Runs.Along (GcProgram.step 48) (fun _ op => q ∉ op.names) start memberProgram :=
      .of_forall fun op member inside => absurd (named op member q inside) (by omega)
    refine others.invariant (fun s => s.pointers q = none)
      (fun s op next none' other taken => GcProgram.step_absent taken other none') ?_ run
    obtain ⟨c, -, made⟩ := Option.map_eq_some_iff.mp begun
    rw [← made]
  have own : middle.Members members := by
    intro o isObject
    have inside : o = 2 ∨ o = 1 := by simpa using (isObject_of_list objects).mp isObject
    refine ⟨by rcases inside with rfl | rfl <;> decide, fun p => ?_⟩
    have root : (middle.pointers p).map GcPtr.root = if p = 1 then some 1 else if p = 2 then some 0 else none := by
      by_cases few : p < 5
      · exact roots p few
      · rw [absent p (by omega), if_neg (by omega), if_neg (by omega), Option.map_none]
    rw [← Option.map_eq_some_iff, root]
    rcases inside with rfl | rfl <;> grind
  obtain ⟨s, a, ran, abstract, refined⟩ := pointers_refine 48 start begun (memberProgram ++ [.collect members])
    (proper.append fun s ran => by
      obtain rfl := Option.some.inj (run.symm.trans ran)
      refine ⟨⟨idle, own, counted, fun t _ => placed_of_filled filled ?_⟩, fun _ _ => True.intro⟩
      simp [layouts, numberBlock, Overruns, Overhangs, alignLength, headerSize, Block.size])
  obtain ⟨middle', first, last⟩ := Runs.exec_snoc.mp ran
  obtain rfl := Option.some.inj (run.symm.trans first)
  rw [last] at collected
  obtain ⟨gone, value⟩ := of_decide_eq_true collected
  exact ⟨start, s, a, begun, ran, abstract, refined, gone, (refined.1 2).symm.trans value⟩

end PrototypeBundle.Gc
