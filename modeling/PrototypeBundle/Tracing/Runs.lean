import PrototypeBundle.Tracing.Operations

set_option autoImplicit false

namespace PrototypeBundle.Tracing

open Memory Intrusive

theorem start_inv : Inv start [] fun _ => [] where
  store :=
    { rootNew := by simp
      objLive := by simp [start]
      chain := fun o inside => rfl
      refLive := by simp [start]
      apart := by simp
      states := by simp
      targets := by simp }
  alone := by simp
  head := by simp [start]
  rootMark := rfl
  objBelow := by simp [start, objectStackRoot]
  refBelow := by simp
  pointer := by simp [start]
  once := by simp [start]
  owned := by simp
  target := by simp [start]
  payload := by simp
  payloadOnce := by simp
  managed := by simp [start]
  members := by simp [start]
  memberOnce := by simp [start]
  gone := by simp [start]
  housed := by simp [World.Housed, start]
  list := rfl

def Program (ops : List Op) : Prop := Runs.Along World.step Enabled start ops

theorem step_taken (w : World) (op : Op) (holds : ∃ L R, Inv w L R) (enabled : Enabled w op) :
    ∃ w', w.step op = some w' ∧ ∃ L R, Inv w' L R := by
  obtain ⟨L, R, inv⟩ := holds
  obtain ⟨w', L', R', run, inv'⟩ := inv.step enabled
  exact ⟨w', run, L', R', inv'⟩

theorem Program.inv {ops : List Op} (program : Program ops) :
    ∃ w, Runs.exec World.step start ops = some w ∧ ∃ L R, Inv w L R :=
  Runs.Along.progress _ step_taken program ⟨[], _, start_inv⟩

def World.Registered (w : World) (o : Nat) : Prop := o ≠ objectStackRoot ∧ (w.tracker.objs o).live = true

def World.PointsTo (w : World) (p o : Nat) : Prop :=
  w.Registered o ∧ ∃ g payload, w.pointers p = some g ∧ g.ptr = some payload ∧ (w.tracker.objs o).payload = some payload

structure World.Sound (w : World) : Prop where
  pointer : ∀ p g payload, w.pointers p = some g → g.ptr = some payload →
    payload ∉ w.destroyed ∧ ∃ o, w.PointsTo p o
  record : ∀ p g, w.pointers p = some g → (w.tracker.refs g.ref).live = true
  destroyedOnce : w.destroyed.Nodup

section Invariant

variable {w : World} {L : List Nat} {R : Nat → List Nat}

theorem Inv.registered (inv : Inv w L R) (o : Nat) : w.Registered o ↔ o ∈ L := by
  rw [World.Registered, inv.store.objLive, List.mem_cons]
  constructor
  · rintro ⟨different, root | inside⟩
    · exact absurd root different
    · exact inside
  · intro inside
    refine ⟨?_, Or.inr inside⟩
    rintro rfl
    exact inv.store.rootNew inside

theorem Inv.pointsTo (inv : Inv w L R) (p o : Nat) : w.PointsTo p o ↔ w.Aims p o := by
  constructor
  · rintro ⟨registered, g, payload, found, holds, shape⟩
    refine ⟨g, found, ?_⟩
    rw [inv.target p g found, Option.bind_eq_some_iff] at holds
    obtain ⟨x, aim, shape'⟩ := holds
    obtain ⟨member, active⟩ := inv.pointer p g found
    have inside := inv.store.targets _ (by simp) g.ref member active x aim
    rw [aim, inv.payloadOnce x inside o ((inv.registered o).mp registered) (shape'.trans shape.symm)]
  · rintro ⟨g, found, aim⟩
    obtain ⟨member, active⟩ := inv.pointer p g found
    have inside := inv.store.targets _ (by simp) g.ref member active o aim
    obtain ⟨payload, members, shape, _⟩ := inv.payload o inside
    refine ⟨(inv.registered o).mpr inside, g, payload, found, ?_, shape⟩
    rw [inv.target p g found, aim, Option.bind_some, shape]

theorem Inv.sound (inv : Inv w L R) : w.Sound where
  pointer := by
    intro p g payload found holds
    have aims := inv.target p g found
    rw [holds, eq_comm, Option.bind_eq_some_iff] at aims
    obtain ⟨o, aim, shape⟩ := aims
    have pointsTo := (inv.pointsTo p o).mpr ⟨g, found, aim⟩
    refine ⟨?_, o, pointsTo⟩
    -- a destroyed payload is no longer managed, that of a registered object is
    intro gone
    obtain ⟨payload', members, shape', known⟩ := inv.payload o ((inv.registered o).mp pointsTo.1)
    obtain rfl := Option.some.inj (shape.symm.trans shape')
    rw [(inv.gone.2 payload gone).1] at known
    simp at known
  record := fun p g found => inv.refLive (inv.pointer p g found).1
  destroyedOnce := inv.gone.1

end Invariant

/-- The run never fails, hence uses no deleted record, and ends in a sound state. -/
theorem program_sound {ops : List Op} (program : Program ops) :
    ∃ w, Runs.exec World.step start ops = some w ∧ w.Sound := by
  obtain ⟨w, run, L, R, inv⟩ := program.inv
  exact ⟨w, run, inv.sound⟩

def selfCycle : List Op := [.default 0, .makeGc 1 [0], .copyAssign 0 1, .collect, .destroy 1]

theorem selfCycle_run :
    ∃ w, Program selfCycle ∧ Runs.exec World.step start selfCycle = some w ∧
      (∀ p, w.pointers p = if p = 0 then some { ref := 1, ptr := some 2 } else none) ∧
      w.payloads 2 = some [0] ∧ (w.tracker.objs 3).payload = some 2 ∧ (w.tracker.objs 3).live = true := by
  refine ⟨_, ?_, rfl, ?_, rfl, rfl, rfl⟩
  · refine Runs.Along.cons rfl rfl (Runs.Along.cons ⟨rfl, by simp, ?_⟩ rfl
      (Runs.Along.cons ⟨rfl, rfl⟩ rfl (Runs.Along.cons True.intro rfl (Runs.Along.cons ⟨rfl, ?_⟩ rfl True.intro))))
    · intro m member
      obtain rfl := List.mem_singleton.mp member
      refine ⟨rfl, ?_⟩
      rintro ⟨payload, members, known, _⟩
      simp [start] at known
    · rintro ⟨payload, members, known, inside⟩
      change Function.update (fun _ : Nat => (none : Option (List Nat))) 2 (some [0]) payload = some members at known
      by_cases same : payload = 2
      · subst same
        rw [Function.update_self, Option.some.injEq] at known
        simp [← known] at inside
      · rw [Function.update_of_ne same] at known
        simp at known
  · intro p
    match p with
    | 0 => rfl
    | 1 => rfl
    | _ + 2 => rfl

theorem program_sound_selfCycle : ∃ w, Runs.exec World.step start selfCycle = some w ∧ w.Sound := by
  obtain ⟨_, program, _⟩ := selfCycle_run
  exact program_sound program

def World.Contains (w : World) (o p : Nat) : Prop :=
  w.Registered o ∧ ∃ payload members,
    (w.tracker.objs o).payload = some payload ∧ w.payloads payload = some members ∧ p ∈ members

def World.Leads (w : World) (a b : Nat) : Prop := ∃ p, w.Contains a p ∧ w.PointsTo p b

def World.Reachable (w : World) (o : Nat) : Prop :=
  ∃ p a, ¬ w.Member p ∧ w.PointsTo p a ∧ Relation.ReflTransGen w.Leads a o

def World.Garbage (w : World) (o : Nat) : Prop := w.Registered o ∧ ¬ w.Reachable o

/-- The payload that `o` has in `w` is destroyed in `w'`. -/
def Dead (w w' : World) (o : Nat) : Prop :=
  ∃ payload, (w.tracker.objs o).payload = some payload ∧ payload ∈ w'.destroyed

theorem Inv.kept_iff {w : World} {L : List Nat} {R : Nat → List Nat} (inv : Inv w L R) :
    ∃ w', w.step .collect = some w' ∧ ∀ o ∈ L, Dead w w' o ↔ ¬ ∃ p, w.PointsTo p o := by
  obtain ⟨w', done, run, inv', -, reach, released, payloads⟩ := collect_spec inv
  refine ⟨w', run, fun o inside => ?_⟩
  simp only [inv.pointsTo, ← reach o inside]
  constructor
  · rintro ⟨payload, shape, gone⟩ isKept
    obtain ⟨payload', members, shape', known⟩ := inv'.payload o (by simp [inside, isKept])
    rw [payloads, shape] at shape'
    obtain rfl := Option.some.inj shape'
    rw [(inv'.gone.2 payload gone).1] at known
    simp at known
  · intro away
    obtain ⟨payload, members, shape, _⟩ := inv.payload o inside
    exact ⟨payload, shape, released o inside away payload shape⟩

/-- All garbage is destroyed if and only if no garbage object is held by a member of another or the same one. -/
theorem collect_complete_iff {ops : List Op} {w : World} (program : Program ops)
    (run : Runs.exec World.step start ops = some w) :
    ∃ w', w.step .collect = some w' ∧
      ((∀ o, w.Garbage o → Dead w w' o) ↔ ¬ ∃ a b, w.Garbage a ∧ w.Garbage b ∧ w.Leads a b) := by
  obtain ⟨_, run', L, R, inv⟩ := program.inv
  obtain rfl := Option.some.inj (run.symm.trans run')
  obtain ⟨w', collected, dead⟩ := inv.kept_iff
  refine ⟨w', collected, ?_⟩
  constructor
  · rintro complete ⟨a, b, _, garbage, p, _, holds⟩
    exact (dead b ((inv.registered b).mp garbage.1)).mp (complete b garbage) ⟨p, holds⟩
  · intro isolated o garbage
    apply (dead o ((inv.registered o).mp garbage.1)).mpr
    rintro ⟨p, holds⟩
    apply garbage.2
    -- a pointer to garbage is a member of some object, which is not garbage
    by_cases free : w.Member p
    · obtain ⟨payload, members, known, inside⟩ := free
      obtain ⟨a, registered, shape⟩ := inv.managed payload members known
      have contains : w.Contains a p := ⟨(inv.registered a).mpr registered, payload, members, shape, known, inside⟩
      by_cases reachable : w.Reachable a
      · obtain ⟨q, b, outside, first, path⟩ := reachable
        exact ⟨q, b, outside, first, path.tail ⟨p, contains, holds⟩⟩
      · exact absurd ⟨a, o, ⟨contains.1, reachable⟩, garbage, p, contains, holds⟩ isolated
    · exact ⟨p, o, free, holds, Relation.ReflTransGen.refl⟩

theorem collect_complete_iff_selfCycle :
    ∃ w w', Runs.exec World.step start selfCycle = some w ∧ w.step .collect = some w' ∧
      ((∀ o, w.Garbage o → Dead w w' o) ↔ ¬ ∃ a b, w.Garbage a ∧ w.Garbage b ∧ w.Leads a b) := by
  obtain ⟨w, program, run, _⟩ := selfCycle_run
  obtain ⟨w', collected, complete⟩ := collect_complete_iff program run
  exact ⟨w, w', run, collected, complete⟩

theorem selfCycle_leaks :
    ¬ ∀ ops w w', Program ops → Runs.exec World.step start ops = some w → w.step .collect = some w' →
      ∀ o, w.Garbage o → Dead w w' o := by
  intro complete
  obtain ⟨w, program, run, pointers, known, shape, live⟩ := selfCycle_run
  obtain ⟨_, run', L, R, inv⟩ := program.inv
  obtain rfl := Option.some.inj (run.symm.trans run')
  obtain ⟨w', collected, dead⟩ := inv.kept_iff
  have registered : w.Registered 3 := ⟨by decide, live⟩
  have holds : w.PointsTo 0 3 := ⟨registered, { ref := 1, ptr := some 2 }, 2, pointers 0, rfl, shape⟩
  -- the only pointer is the member
  have garbage : w.Garbage 3 := by
    refine ⟨registered, ?_⟩
    rintro ⟨p, a, outside, ⟨_, g, payload, found, _⟩, _⟩
    rw [pointers] at found
    by_cases first : p = 0
    · exact outside ⟨2, [0], known, by simp [first]⟩
    · simp [first] at found
  exact (dead 3 ((inv.registered 3).mp registered)).mp (complete selfCycle w w' program run collected 3 garbage) ⟨0, holds⟩

end PrototypeBundle.Tracing
