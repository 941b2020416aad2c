import Mathlib.Algebra.Order.BigOperators.Group.Finset
import Mathlib.Logic.Function.Basic
import PrototypeBundle.Shared.Run

set_option autoImplicit false

/-!
# `run` and `stop` of the executor

The flags are plain memory. Each load and store of one is a step, and so is a `run_lane` that returns.
-/

namespace PrototypeBundle.ProtoE.Stopping

open Runs

-- The thread of a worker. It is not joinable when `absent`, and has yet to store `running = true` when `starting`.
inductive Worker where
  | absent
  | starting
  | testing
  | running
  | returned
  deriving DecidableEq

-- Where the thread is that owns the executor.
inductive Code where
  | idle
  | creating (i : Nat)
  | clearing (i : Nat)
  | joining (i : Nat)
  -- a thread that is joinable has been assigned to
  | terminated
  deriving DecidableEq

structure State where
  running : Nat → Bool
  workers : Nat → Worker
  code : Code

inductive Act where
  | run
  | stop
  | proceed
  | worker (i : Nat)

def executor : State := ⟨fun _ => false, fun _ => .absent, .idle⟩

def State.setWorker (s : State) (i : Nat) (w : Worker) : State := { s with workers := Function.update s.workers i w }

def State.setRunning (s : State) (i : Nat) (flag : Bool) : State := { s with running := Function.update s.running i flag }

def State.proceed (n : Nat) (s : State) : Option State :=
  match s.code with
  | .creating i =>
      if i < n then
        match s.workers i with
        | .absent => some { s.setWorker i .starting with code := .creating (i + 1) }
        | _ => some { s with code := .terminated }
      else some { s with code := .idle }
  | .clearing i =>
      if i < n then some { s.setRunning i false with code := .clearing (i + 1) } else some { s with code := .joining 0 }
  | .joining i =>
      if i < n then
        match s.workers i with
        | .absent => some { s with code := .joining (i + 1) }
        | .returned => some { s.setWorker i .absent with code := .joining (i + 1) }
        | _ => none
      else some { s with code := .idle }
  | _ => none

def State.work (s : State) (i : Nat) : Option State :=
  match s.workers i with
  | .starting => some ((s.setRunning i true).setWorker i .testing)
  | .testing => some (s.setWorker i (if s.running i then .running else .returned))
  | .running => some (s.setWorker i .testing)
  | _ => none

def State.step (n : Nat) (s : State) : Act → Option State
  | .run =>
      match s.code with
      | .idle => if s.running 0 then some s else some { s.setRunning 0 true with code := .creating 1 }
      | _ => none
  | .stop =>
      match s.code with
      | .idle => some { s with code := .clearing 0 }
      | _ => none
  | .proceed => s.proceed n
  | .worker i => s.work i

/-- The worker has its flag set after `stop` has cleared it, or is still to set it. -/
def State.Stuck (s : State) (i : Nat) : Prop :=
  s.workers i = .starting ∨ s.running i = true ∧ (s.workers i = .testing ∨ s.workers i = .running)

inductive Moves (n : Nat) (s : State) : Act → State → Prop where
  | again (idle : s.code = .idle) (on : s.running 0 = true) : Moves n s .run s
  | run (idle : s.code = .idle) (off : s.running 0 = false) :
      Moves n s .run { s.setRunning 0 true with code := .creating 1 }
  | stop (idle : s.code = .idle) : Moves n s .stop { s with code := .clearing 0 }
  | create (i : Nat) (creating : s.code = .creating i) (inside : i < n) (absent : s.workers i = .absent) :
      Moves n s .proceed { s.setWorker i .starting with code := .creating (i + 1) }
  | terminate (i : Nat) (creating : s.code = .creating i) (inside : i < n) (joinable : s.workers i ≠ .absent) :
      Moves n s .proceed { s with code := .terminated }
  | created (i : Nat) (creating : s.code = .creating i) (last : n ≤ i) : Moves n s .proceed { s with code := .idle }
  | clear (i : Nat) (clearing : s.code = .clearing i) (inside : i < n) :
      Moves n s .proceed { s.setRunning i false with code := .clearing (i + 1) }
  | cleared (i : Nat) (clearing : s.code = .clearing i) (last : n ≤ i) : Moves n s .proceed { s with code := .joining 0 }
  | join (i : Nat) (joining : s.code = .joining i) (inside : i < n) (gone : s.workers i = .absent ∨ s.workers i = .returned) :
      Moves n s .proceed { s.setWorker i .absent with code := .joining (i + 1) }
  | joined (i : Nat) (joining : s.code = .joining i) (last : n ≤ i) : Moves n s .proceed { s with code := .idle }
  | start (i : Nat) (starting : s.workers i = .starting) : Moves n s (.worker i) ((s.setRunning i true).setWorker i .testing)
  | test (i : Nat) (testing : s.workers i = .testing) :
      Moves n s (.worker i) (s.setWorker i (if s.running i then .running else .returned))
  | ran (i : Nat) (running : s.workers i = .running) : Moves n s (.worker i) (s.setWorker i .testing)

section Steps

variable {n i j : Nat} {s next : State} {a : Act}

theorem State.setWorker_self (w : Worker) : (s.setWorker i w).workers i = w := Function.update_self ..

theorem State.setWorker_other (other : j ≠ i) (w : Worker) : (s.setWorker i w).workers j = s.workers j :=
  Function.update_of_ne other ..

theorem State.setRunning_self (flag : Bool) : (s.setRunning i flag).running i = flag := Function.update_self ..

theorem State.setRunning_other (other : j ≠ i) (flag : Bool) : (s.setRunning i flag).running j = s.running j :=
  Function.update_of_ne other ..

theorem State.setWorker_same {w : Worker} (same : s.workers i = w) : s.setWorker i w = s := by
  rw [setWorker, Function.update_eq_self_iff.mpr same.symm]

theorem step_moves (taken : s.step n a = some next) : Moves n s a next := by
  cases a with
  | run =>
      simp only [State.step] at taken
      split at taken
      · rename_i idle
        split at taken
        · rename_i on
          exact Option.some.inj taken ▸ .again idle on
        · rename_i off
          exact Option.some.inj taken ▸ .run idle (Bool.eq_false_iff.mpr off)
      · cases taken
  | stop =>
      simp only [State.step] at taken
      split at taken
      · rename_i idle
        exact Option.some.inj taken ▸ .stop idle
      · cases taken
  | proceed =>
      simp only [State.step, State.proceed] at taken
      split at taken
      · rename_i i creating
        split at taken
        · rename_i inside
          split at taken
          · rename_i absent
            exact Option.some.inj taken ▸ .create i creating inside absent
          · rename_i joinable
            exact Option.some.inj taken ▸ .terminate i creating inside joinable
        · rename_i last
          exact Option.some.inj taken ▸ .created i creating (Nat.le_of_not_lt last)
      · rename_i i clearing
        split at taken
        · rename_i inside
          exact Option.some.inj taken ▸ .clear i clearing inside
        · rename_i last
          exact Option.some.inj taken ▸ .cleared i clearing (Nat.le_of_not_lt last)
      · rename_i i joining
        split at taken
        · rename_i inside
          split at taken
          · rename_i absent
            obtain rfl := Option.some.inj taken
            have moved := Moves.join i joining inside (Or.inl absent)
            rwa [State.setWorker_same absent] at moved
          · rename_i returned
            exact Option.some.inj taken ▸ .join i joining inside (Or.inr returned)
          · cases taken
        · rename_i last
          exact Option.some.inj taken ▸ .joined i joining (Nat.le_of_not_lt last)
      · cases taken
  | worker i =>
      simp only [State.step, State.work] at taken
      split at taken
      · rename_i starting
        exact Option.some.inj taken ▸ .start i starting
      · rename_i testing
        exact Option.some.inj taken ▸ .test i testing
      · rename_i running
        exact Option.some.inj taken ▸ .ran i running
      · cases taken

structure Inv (n : Nat) (s : State) : Prop where
  lanes : ∀ i, i = 0 ∨ n ≤ i → s.workers i = .absent
  idle : s.code = .idle → s.running 0 = false → ∀ i, s.workers i = .absent
  creating : ∀ k, s.code = .creating k → 0 < k ∧ s.running 0 = true ∧ ∀ i, k ≤ i → s.workers i = .absent
  clearing : ∀ k, s.code = .clearing k → 0 < k → s.running 0 = false
  joining : ∀ k, s.code = .joining k → k ≤ n ∧ s.running 0 = false ∧ ∀ i < k, s.workers i = .absent
  alive : s.code ≠ .terminated

theorem executor_inv (n : Nat) : Inv n executor := by
  constructor <;> simp [executor]

theorem Inv.keep (inv : Inv n s) (code : next.code = s.code) (flag : next.running 0 = s.running 0)
    (workers : ∀ j, next.workers j = .absent ↔ s.workers j = .absent) : Inv n next := by
  constructor <;> simp only [code, flag, workers]
  · exact inv.lanes
  · exact inv.idle
  · exact inv.creating
  · exact inv.clearing
  · exact inv.joining
  · exact inv.alive

theorem Inv.keep_worker (inv : Inv n s) {w w' : Worker} (known : s.workers i = w) (present : w ≠ .absent)
    (present' : w' ≠ .absent) : Inv n (s.setWorker i w') := by
  refine inv.keep rfl rfl fun j => ?_
  by_cases same : j = i
  · rw [same, State.setWorker_self, known]
    exact iff_of_false present' present
  · rw [State.setWorker_other same]

theorem step_inv (lanes : 0 < n) (s : State) (a : Act) (next : State) (inv : Inv n s) (taken : s.step n a = some next) :
    Inv n next := by
  cases step_moves taken with
  | again idle on => exact inv
  | run idle off =>
      have none := inv.idle idle off
      constructor <;> simp [State.setRunning, none]
  | stop idle =>
      refine ⟨inv.lanes, nofun, nofun, ?_, nofun, nofun⟩
      rintro k ⟨⟩ positive
      exact absurd positive (Nat.lt_irrefl 0)
  | create i creating inside absent =>
      obtain ⟨positive, on, later⟩ := inv.creating i creating
      have beyond (j : Nat) (outside : j = 0 ∨ n ≤ j ∨ i + 1 ≤ j) : (s.setWorker i .starting).workers j = .absent := by
        have other : j ≠ i := by omega
        rw [State.setWorker_other other]
        rcases outside with first | last | after
        · exact inv.lanes j (Or.inl first)
        · exact inv.lanes j (Or.inr last)
        · exact later j (by omega)
      refine ⟨fun j outside => beyond j (by omega), nofun, ?_, nofun, nofun, nofun⟩
      rintro k ⟨⟩
      exact ⟨Nat.succ_pos i, on, fun j after => beyond j (Or.inr (Or.inr after))⟩
  | terminate i creating inside joinable =>
      exact absurd ((inv.creating i creating).2.2 i (Nat.le_refl i)) joinable
  | created i creating last =>
      obtain ⟨-, on, -⟩ := inv.creating i creating
      exact ⟨inv.lanes, fun _ off => absurd (on.symm.trans off) Bool.noConfusion, nofun, nofun, nofun, nofun⟩
  | clear i clearing inside =>
      refine ⟨inv.lanes, nofun, nofun, ?_, nofun, nofun⟩
      rintro k ⟨⟩ -
      by_cases first : i = 0
      · exact first ▸ State.setRunning_self false
      · exact (State.setRunning_other (Ne.symm first) false).trans (inv.clearing i clearing (Nat.pos_of_ne_zero first))
  | cleared i clearing last =>
      refine ⟨inv.lanes, nofun, nofun, nofun, ?_, nofun⟩
      rintro k ⟨⟩
      exact ⟨Nat.zero_le n, inv.clearing i clearing (by omega), fun j before => absurd before (Nat.not_lt_zero j)⟩
  | join i joining inside gone =>
      obtain ⟨-, off, before⟩ := inv.joining i joining
      have absent (j : Nat) (known : j ≠ i → s.workers j = .absent) : (s.setWorker i .absent).workers j = .absent := by
        by_cases same : j = i
        · rw [same, State.setWorker_self]
        · rw [State.setWorker_other same]
          exact known same
      refine ⟨fun j outside => absent j fun _ => inv.lanes j outside, nofun, nofun, nofun, ?_, nofun⟩
      rintro k ⟨⟩
      exact ⟨inside, off, fun j earlier => absent j fun other => before j (by omega)⟩
  | joined i joining last =>
      obtain ⟨-, off, before⟩ := inv.joining i joining
      refine ⟨inv.lanes, fun _ _ j => ?_, nofun, nofun, nofun, nofun⟩
      by_cases inside : j < n
      · exact before j (by omega)
      · exact inv.lanes j (by omega)
  | start i starting =>
      have first : i ≠ 0 := by
        rintro rfl
        rw [inv.lanes 0 (Or.inl rfl)] at starting
        cases starting
      have raised : Inv n (s.setRunning i true) := inv.keep rfl (State.setRunning_other first.symm true) fun _ => Iff.rfl
      exact raised.keep_worker starting nofun nofun
  | test i testing =>
      refine inv.keep_worker testing nofun ?_
      split <;> exact Worker.noConfusion
  | ran i running => exact inv.keep_worker running nofun nofun

theorem State.Stuck.congr (stuck : s.Stuck i) (worker : next.workers i = s.workers i) (flag : next.running i = s.running i) :
    next.Stuck i := by
  rw [Stuck, worker, flag]
  exact stuck

theorem Inv.stuck_joining (inv : Inv n s) {k : Nat} (joining : s.code = .joining k) (stuck : s.Stuck i) : k ≤ i ∧ i < n := by
  have present : s.workers i ≠ .absent := by
    intro absent
    rcases stuck with now | ⟨-, now | now⟩ <;> rw [absent] at now <;> cases now
  constructor
  · by_contra before
    exact present ((inv.joining k joining).2.2 i (Nat.lt_of_not_le before))
  · by_contra beyond
    exact present (inv.lanes i (Or.inr (Nat.le_of_not_lt beyond)))

theorem stuck_step {k : Nat} (joining : s.code = .joining k) (before : k ≤ i) (inside : i < n) (stuck : s.Stuck i)
    (taken : s.step n a = some next) : ∃ k' ≤ i, next.code = .joining k' ∧ next.Stuck i := by
  cases step_moves taken with
  | again idle | run idle | stop idle => exact Code.noConfusion (joining.symm.trans idle)
  | create k' creating | terminate k' creating | created k' creating => exact Code.noConfusion (joining.symm.trans creating)
  | clear k' clearing | cleared k' clearing => exact Code.noConfusion (joining.symm.trans clearing)
  | join k' joining' inside' gone =>
      obtain rfl := Code.joining.inj (joining.symm.trans joining')
      have other : i ≠ k := by
        rintro rfl
        rcases gone with gone | gone <;> rcases stuck with now | ⟨-, now | now⟩ <;> simp [gone] at now
      exact ⟨k + 1, by omega, rfl, stuck.congr (State.setWorker_other other _) rfl⟩
  | joined k' joining' last =>
      obtain rfl := Code.joining.inj (joining.symm.trans joining')
      omega
  | start j starting =>
      refine ⟨k, before, joining, ?_⟩
      by_cases same : i = j
      · subst same
        exact Or.inr ⟨State.setRunning_self true, Or.inl (State.setWorker_self _)⟩
      · exact stuck.congr (State.setWorker_other same _) (State.setRunning_other same true)
  | test j testing =>
      refine ⟨k, before, joining, ?_⟩
      by_cases same : i = j
      · subst same
        obtain now | ⟨flag, -⟩ := stuck
        · exact Worker.noConfusion (testing.symm.trans now)
        · exact Or.inr ⟨flag, Or.inr (by rw [State.setWorker_self, if_pos flag])⟩
      · exact stuck.congr (State.setWorker_other same _) rfl
  | ran j running =>
      refine ⟨k, before, joining, ?_⟩
      by_cases same : i = j
      · subst same
        obtain now | ⟨flag, -⟩ := stuck
        · exact Worker.noConfusion (running.symm.trans now)
        · exact Or.inr ⟨flag, Or.inl (State.setWorker_self _)⟩
      · exact stuck.congr (State.setWorker_other same _) rfl

theorem stuck_run {k : Nat} (joining : s.code = .joining k) (before : k ≤ i) (inside : i < n) (stuck : s.Stuck i)
    {later : List Act} {final : State} (run : exec (State.step n) s later = some final) : final.code ≠ .idle := by
  obtain ⟨k', -, waits, -⟩ := exec_invariant (fun s => ∃ k' ≤ i, s.code = .joining k' ∧ s.Stuck i)
    (fun s a next known taken => by
      obtain ⟨k', before, joining, stuck⟩ := known
      exact stuck_step joining before inside stuck taken) ⟨k, before, joining, stuck⟩ run
  rw [waits]
  exact Code.noConfusion

def Worker.rank : Worker → Nat
  | .running => 2
  | .testing => 1
  | _ => 0

def State.rank (n : Nat) (s : State) : Nat :=
  match s.code with
  | .joining k => n + 1 - k + ∑ i ∈ Finset.range n, (s.workers i).rank
  | _ => 0

theorem State.rank_joining {k : Nat} (joining : s.code = .joining k) :
    s.rank n = n + 1 - k + ∑ i ∈ Finset.range n, (s.workers i).rank := by
  rw [rank, joining]

theorem rank_le (s : State) : s.rank n ≤ 3 * n + 1 := by
  have workers : ∑ i ∈ Finset.range n, (s.workers i).rank ≤ ∑ i ∈ Finset.range n, 2 := by
    refine Finset.sum_le_sum fun i _ => ?_
    cases s.workers i <;> simp [Worker.rank]
  rw [Finset.sum_const_nat fun _ _ => rfl, Finset.card_range] at workers
  unfold State.rank
  split <;> omega

theorem setWorker_rank (inside : i < n) {w w' : Worker} (known : s.workers i = w) (less : w'.rank < w.rank) :
    ∑ j ∈ Finset.range n, ((s.setWorker i w').workers j).rank < ∑ j ∈ Finset.range n, (s.workers j).rank := by
  refine Finset.sum_lt_sum (fun j _ => ?_) ⟨i, Finset.mem_range.mpr inside, ?_⟩
  · by_cases same : j = i
    · rw [same, State.setWorker_self, known]
      exact less.le
    · rw [State.setWorker_other same]
  · rwa [State.setWorker_self, known]

theorem free_step (inv : Inv n s) {k : Nat} (joining : s.code = .joining k) (free : ∀ i, ¬ s.Stuck i)
    (taken : s.step n a = some next) :
    next.code = .idle ∨ ∃ k', next.code = .joining k' ∧ (∀ i, ¬ next.Stuck i) ∧ next.rank n < s.rank n := by
  -- a worker makes a step that leaves it free
  have worker {j : Nat} {w w' : Worker} (known : s.workers j = w) (present : w ≠ .absent) (less : w'.rank < w.rank)
      (still : ¬ (s.setWorker j w').Stuck j) : (s.setWorker j w').code = .idle ∨
        ∃ k', (s.setWorker j w').code = .joining k' ∧ (∀ i, ¬ (s.setWorker j w').Stuck i) ∧
          (s.setWorker j w').rank n < s.rank n := by
    have inside : j < n := by
      by_contra beyond
      exact present (known.symm.trans (inv.lanes j (Or.inr (Nat.le_of_not_lt beyond))))
    have fewer := setWorker_rank inside known less
    refine Or.inr ⟨k, joining, fun i stuck => ?_, ?_⟩
    · by_cases same : i = j
      · exact still (same ▸ stuck)
      · exact free i (stuck.congr (State.setWorker_other same _).symm rfl)
    · have later : (s.setWorker j w').code = .joining k := joining
      rw [State.rank_joining joining, State.rank_joining later]
      omega
  have off {j : Nat} (known : s.workers j = .testing ∨ s.workers j = .running) : s.running j = false :=
    Bool.eq_false_iff.mpr fun flag => free j (Or.inr ⟨flag, known⟩)
  cases step_moves taken with
  | again idle | run idle | stop idle => exact Code.noConfusion (joining.symm.trans idle)
  | create k' creating | terminate k' creating | created k' creating => exact Code.noConfusion (joining.symm.trans creating)
  | clear k' clearing | cleared k' clearing => exact Code.noConfusion (joining.symm.trans clearing)
  | join k' joining' inside gone =>
      obtain rfl := Code.joining.inj (joining.symm.trans joining')
      refine Or.inr ⟨k + 1, rfl, fun i stuck => ?_, ?_⟩
      · by_cases same : i = k
        · subst same
          rcases stuck with now | ⟨-, now | now⟩ <;> exact Worker.noConfusion ((State.setWorker_self (s := s) _).symm.trans now)
        · exact free i (stuck.congr (State.setWorker_other same _).symm rfl)
      · have kept : ∑ i ∈ Finset.range n, ((s.setWorker k .absent).workers i).rank ≤
            ∑ i ∈ Finset.range n, (s.workers i).rank := by
          refine Finset.sum_le_sum fun i _ => ?_
          by_cases same : i = k
          · rw [same, State.setWorker_self]
            exact Nat.zero_le _
          · rw [State.setWorker_other same]
        rw [State.rank_joining joining, State.rank]
        change n + 1 - (k + 1) + ∑ i ∈ Finset.range n, ((s.setWorker k .absent).workers i).rank < _
        omega
  | joined k' joining' last => exact Or.inl rfl
  | start j starting => exact absurd (Or.inl starting) (free j)
  | test j testing =>
      rw [if_neg (by rw [off (Or.inl testing)]; exact Bool.false_ne_true)]
      refine worker testing nofun (by decide) ?_
      rintro (now | ⟨-, now | now⟩) <;> rw [State.setWorker_self] at now <;> cases now
  | ran j running =>
      refine worker running nofun (by decide) ?_
      rintro (now | ⟨flag, -⟩)
      · rw [State.setWorker_self] at now
        cases now
      · exact Bool.false_ne_true ((off (Or.inr running)).symm.trans flag)

theorem free_next (joining : ∃ k, s.code = .joining k) (free : ∀ i, ¬ s.Stuck i) : ∃ a next, s.step n a = some next := by
  obtain ⟨k, joining⟩ := joining
  by_cases inside : k < n
  · cases known : s.workers k with
    | absent => exact ⟨.proceed, _, by simp only [State.step, State.proceed, joining, if_pos inside, known]; rfl⟩
    | starting => exact absurd (Or.inl known) (free k)
    | testing => exact ⟨.worker k, _, by simp only [State.step, State.work, known]; rfl⟩
    | running => exact ⟨.worker k, _, by simp only [State.step, State.work, known]; rfl⟩
    | returned => exact ⟨.proceed, _, by simp only [State.step, State.proceed, joining, if_pos inside, known]; rfl⟩
  · exact ⟨.proceed, _, by simp only [State.step, State.proceed, joining, if_neg inside]; rfl⟩

theorem free_run (lanes : 0 < n) (inv : Inv n s) (joining : ∃ k, s.code = .joining k) (free : ∀ i, ¬ s.Stuck i)
    {later : List Act} {final : State} (run : exec (State.step n) s later = some final)
    (through : Through (State.step n) (·.code ≠ .idle) s later) :
    later.length + final.rank n ≤ s.rank n ∧ (∃ k, final.code = .joining k) ∧ ∀ i, ¬ final.Stuck i := by
  induction later generalizing s with
  | nil =>
      obtain rfl := Option.some.inj run
      exact ⟨Nat.le_of_eq (Nat.zero_add _), joining, free⟩
  | cons a rest ih =>
      obtain ⟨next, taken, run⟩ := exec_cons.mp run
      have onward := through.2 next taken
      obtain ⟨k, joining⟩ := joining
      obtain idle | ⟨k', joining', free', less⟩ := free_step inv joining free taken
      · exact absurd idle onward.initial
      · obtain ⟨bound, last⟩ := ih (step_inv lanes s a next inv taken) ⟨k', joining'⟩ free' run onward
        exact ⟨by rw [List.length_cons]; omega, last⟩

theorem free_returns (lanes : 0 < n) (inv : Inv n s) (joining : ∃ k, s.code = .joining k) (free : ∀ i, ¬ s.Stuck i) :
    ∃ later final, exec (State.step n) s later = some final ∧ final.code = .idle := by
  induction left : s.rank n using Nat.strong_induction_on generalizing s with
  | _ left' ih =>
      obtain ⟨a, next, taken⟩ := free_next joining free
      obtain ⟨k, joining⟩ := joining
      obtain idle | ⟨k', joining', free', less⟩ := free_step inv joining free taken
      · exact ⟨[a], next, exec_cons.mpr ⟨next, taken, rfl⟩, idle⟩
      · obtain ⟨later, final, run, idle⟩ :=
          ih _ (left ▸ less) (step_inv lanes s a next inv taken) ⟨k', joining'⟩ free' rfl
        exact ⟨a :: later, final, exec_cons.mpr ⟨next, taken, run⟩, idle⟩

end Steps

/-- `run` never assigns to a thread that is joinable. Once `stop` joins, it can still return if and only if no
worker has its flag set again, or is still to set it; then it returns whatever the order of the steps. -/
theorem stop_returns_iff {n : Nat} (lanes : 0 < n) {actions : List Act} {s : State}
    (run : exec (State.step n) executor actions = some s) :
    s.code ≠ .terminated ∧ ∀ k, s.code = .joining k →
      ((∃ later final, exec (State.step n) s later = some final ∧ final.code = .idle) ↔ ∀ i, ¬ s.Stuck i) ∧
      ((∀ i, ¬ s.Stuck i) → ∀ later final, exec (State.step n) s later = some final →
        Through (State.step n) (·.code ≠ .idle) s later →
          later.length ≤ 3 * n ∧ ∃ a next, final.step n a = some next) := by
  have inv := exec_invariant (Inv n) (step_inv lanes) (executor_inv n) run
  refine ⟨inv.alive, fun k joining => ⟨⟨?_, free_returns lanes inv ⟨k, joining⟩⟩, ?_⟩⟩
  · rintro ⟨later, final, onward, idle⟩ i stuck
    obtain ⟨before, inside⟩ := inv.stuck_joining joining stuck
    exact stuck_run joining before inside stuck onward idle
  · intro free later final onward through
    obtain ⟨bound, ⟨k', joining'⟩, free'⟩ := free_run lanes inv ⟨k, joining⟩ free onward through
    have most := @rank_le n s
    have inside := ((exec_invariant (Inv n) (step_inv lanes) inv onward).joining k' joining').1
    rw [State.rank_joining joining'] at bound
    exact ⟨by omega, free_next ⟨k', joining'⟩ free'⟩

-- The worker is started, and `stop` clears its flag before it has set it.
def early : List Act := [.run, .proceed, .proceed, .stop, .proceed, .proceed, .proceed]

theorem stop_returns_iff_early : ∃ s, exec (State.step 2) executor early = some s ∧ s.code = .joining 0 ∧ s.Stuck 1 ∧
    s.code ≠ .terminated ∧ ∀ k, s.code = .joining k →
      ((∃ later final, exec (State.step 2) s later = some final ∧ final.code = .idle) ↔ ∀ i, ¬ s.Stuck i) ∧
      ((∀ i, ¬ s.Stuck i) → ∀ later final, exec (State.step 2) s later = some final →
        Through (State.step 2) (·.code ≠ .idle) s later →
          later.length ≤ 3 * 2 ∧ ∃ a next, final.step 2 a = some next) :=
  ⟨_, rfl, rfl, Or.inl rfl, @stop_returns_iff 2 (by decide) early _ rfl⟩

end PrototypeBundle.ProtoE.Stopping
