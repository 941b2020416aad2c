import PrototypeBundle.Tracing.Collecting
import PrototypeBundle.Shared.Run

set_option autoImplicit false

namespace PrototypeBundle.Tracing.Concurrent

open Memory Intrusive

variable {s s' : System} {front back : List Nat}

theorem start_consistent : Consistent .start [] [] where
  owned :=
    { records :=
        { below := nofun
          once := nofun
          active := nofun
          created := nofun
          createdOnce := nofun
          stack := fun _ => Or.inl rfl
          previous := nofun }
      names :=
        { constructs := nofun
          writes := nofun
          writesOnce := nofun
          held := nofun
          heldWritten := nofun
          copies := nofun
          rest := fun _ _ => rfl
          writesInside := nofun }
      members :=
        { exist := nofun
          nodup := nofun
          once := nofun
          owned := nofun
          payload := nofun
          destroyed := nofun }
      aims :=
        { kept := nofun
          loaded := nofun
          ptr := nofun } }
  lists :=
    { attached := rfl
      rest := rfl
      nodup := List.nodup_nil
      below := nofun
      created := nofun
      listed := nofun
      alone := fun _ _ => rfl
      empty := nofun }
  marks := True.intro
  gone := ⟨nofun, nofun⟩
  links := ⟨nofun, nofun, nofun, nofun⟩

theorem Consistent.step (state : Consistent s front back) {a : Action} (allowed : s.Allowed a) (quiet : s.Quiet a)
    (run : s.step a = some s') : ∃ front' back', Consistent s' front' back' := by
  cases a with
  | call t call =>
      simp only [System.step] at run
      split at run
      case isTrue idle =>
        exact state.threadwise (state.owned.call_threadwise idle allowed run) (state.owned.call idle allowed run)
      case isFalse => cases run
  | resume t fails => exact state.threadwise (state.owned.resume_threadwise run) (state.owned.resume run)
  | collect =>
      simp only [System.step] at run
      split at run
      case isTrue idle =>
        cases run
        exact ⟨front, back, state.goto (by rw [idle]; rfl) rfl (by simp [idle]) (Or.inl rfl) True.intro nofun nofun⟩
      case isFalse => cases run
  | collectStep fails => exact state.collectStep quiet run

theorem Consistent.progress (state : Consistent s front back) :
    (∀ t fails, (s.threads t).pc ≠ .idle → (s.step (.resume t fails)).isSome) ∧
      ∀ fails, s.collector ≠ .idle → s.collector ≠ .thrown → (s.step (.collectStep fails)).isSome := by
  have dereference (p : Nat) (payloads : Nat → Option (List Nat)) (known : (s.pointers p).isSome) :
      (System.dereference { s with payloads } p).isSome := by
    obtain ⟨g, found⟩ := Option.isSome_iff_exists.mp known
    simp [System.dereference, found]
  constructor
  · intro t fails busy
    change (s.resume t fails).isSome
    unfold System.resume
    split
    case h_1 idle => exact absurd idle busy
    case h_4 p v at' =>
      obtain ⟨g, found⟩ := Option.isSome_iff_exists.mp
        (state.owned.names.writes t p (by rw [at']; rfl) (by rw [at']; rfl))
      obtain ⟨other, found'⟩ := Option.isSome_iff_exists.mp
        (state.owned.names.held t v (state.owned.names.copies t p v (by rw [at']; rfl)).1)
      cases target : (s.refs other.ref).target <;> simp [System.copy, found, found', System.setPointer, target]
    case h_6 p v target at' =>
      obtain ⟨g, found⟩ := Option.isSome_iff_exists.mp
        (state.owned.names.writes t p (by rw [at']; rfl) (by rw [at']; rfl))
      simp [System.store, found]
    all_goals rfl
  · intro fails notIdle notThrown
    change (s.collectStep fails).isSome
    unfold System.collectStep
    split
    case h_1 idle => exact absurd idle notIdle
    case h_15 thrown => exact absurd thrown notThrown
    case h_8 | h_9 => split <;> rfl
    case h_14 o rest at' =>
      have met := state.links.met
      rw [at'] at met
      obtain ⟨a, owner⟩ := Option.isSome_iff_exists.mp (met o (by simp [Collector.objects]))
      simp only [System.destroyMembers, owner, Option.bind_eq_bind, Option.bind_some]
      split
      case h_1 m members known => exact dereference m _ (state.owned.members.exist a _ m known (by simp))
      case h_2 => rfl
    all_goals rfl

/-- No pointer leads to a destroyed object, and no `make_gc` is about to return one. -/
structure System.Kept (s : System) : Prop where
  pointer : ∀ p g a, s.pointers p = some g → g.ptr = some a → a ∉ s.destroyed
  reference : ∀ p g o a, s.pointers p = some g → (s.refs g.ref).target = some o → (s.objs o).payload = some a →
    a ∉ s.destroyed
  made : ∀ t o a, (s.threads t).pc.makes = some o → (s.objs o).payload = some a → a ∉ s.destroyed

theorem Consistent.kept (state : Consistent s front back) : s.Kept where
  pointer := by
    intro p g a found holds member
    have forgotten := state.gone.destroyed (a + 1) a member (state.owned.members.destroyed a member)
    rcases state.owned.aims.ptr p g a found holds with ⟨t, v, loaded⟩ | ⟨aim, -⟩
    · exact forgotten.1 v (state.owned.aims.loaded t p v _ loaded)
    · exact forgotten.1 p aim
  reference := fun p g o a found aim payload member =>
    (state.gone.destroyed o a member payload).1 p ⟨g, found, aim⟩
  made := fun t o a making payload member => (state.gone.destroyed o a member payload).2 t making

/-- As long as the scan of the root's references never begins while an un-marked object is about to be
published behind it, nothing is destroyed that is still in use. -/
theorem interleavings_keep (actions : List Action) (final : System)
    (along : Runs.Along System.step (fun s a => s.Allowed a ∧ s.Quiet a) .start actions)
    (run : Runs.exec System.step .start actions = some final) : final.Kept := by
  obtain ⟨front, back, state⟩ := along.invariant (fun s => ∃ front back, Consistent s front back)
    (fun s a next ⟨front, back, state⟩ ⟨allowed, quiet⟩ taken => state.step allowed quiet taken)
    ⟨[], [], start_consistent⟩ run
  exact state.kept

theorem allowed_steps {actions : List Action} (steps : ∀ a ∈ actions, ∀ t call, a ≠ .call t call) (s : System) :
    Runs.Along System.step System.Allowed s actions := by
  induction actions generalizing s with
  | nil => exact True.intro
  | cons a rest ih =>
      refine ⟨?_, fun next _ => ih (fun b member => steps b (List.mem_cons_of_mem _ member)) next⟩
      cases a with
      | call t call => exact absurd rfl (steps _ (by simp) t call)
      | _ => exact True.intro

theorem makeGc_allowed {rest : List Action} (steps : ∀ a ∈ rest, ∀ t call, a ≠ .call t call) :
    Runs.Along System.step System.Allowed .start (.call 0 (.makeGc 0 []) :: rest) :=
  ⟨⟨⟨rfl, nofun⟩, List.nodup_nil, nofun⟩, fun next _ => allowed_steps steps next⟩

-- A collection scans the root while an object is being registered.
def registering : List Action :=
  [.call 0 (.makeGc 0 []), .collect, .collectStep false, .collectStep false, .collectStep false, .collectStep false,
    .collectStep false, .collectStep false, .resume 0 false]

theorem interleavings_keep_registering :
    ∃ final, Runs.exec System.step .start registering = some final ∧ final.objects = some 2 ∧ final.Kept := by
  have allowed : Runs.Along System.step System.Allowed .start registering := makeGc_allowed (by simp)
  have quiet : Runs.Along System.step System.Quiet .start registering := by
    refine Runs.Along.cons True.intro rfl (Runs.Along.cons True.intro rfl (Runs.Along.cons nofun rfl
      (Runs.Along.cons nofun rfl (Runs.Along.cons nofun rfl (Runs.Along.cons nofun rfl (Runs.Along.cons nofun rfl
      (Runs.Along.cons ?_ rfl (Runs.Along.cons True.intro rfl True.intro))))))))
    -- the object that the first thread makes has not been un-marked
    intro marks _ t o unmarked
    cases t with
    | zero =>
        refine ⟨fun making => ?_, nofun⟩
        cases making
        cases unmarked
    | succ t => exact ⟨nofun, nofun⟩
  exact ⟨_, rfl, rfl, interleavings_keep registering _ (allowed.and quiet) rfl⟩

-- An object is swept between its registration and its first reference.
def overtaken : List Action :=
  [.call 0 (.makeGc 0 []), .resume 0 false, .collect] ++ List.replicate 17 (.collectStep false)

theorem overtaken_destroyed : Runs.Along System.step System.Allowed .start overtaken ∧
    ∃ final, Runs.exec System.step .start overtaken = some final ∧ ¬ final.Kept := by
  refine ⟨makeGc_allowed (by simp), _, rfl, ?_⟩
  exact fun kept => kept.made 0 2 1 rfl rfl (by decide)

end PrototypeBundle.Tracing.Concurrent
