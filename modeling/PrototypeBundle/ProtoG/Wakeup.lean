import PrototypeBundle.ProtoG.Machine
import PrototypeBundle.Shared.Run
import Mathlib.Logic.Function.Basic
import Mathlib.Logic.Relation

set_option autoImplicit false

/-!
# Stopping the executor

The workers' waits and what notifies them. Here the lock, the accesses under it,
the test of a predicate and the blocking that follows it are steps of their own.
-/

namespace PrototypeBundle.ProtoG.Wakeup

open Runs

-- A section under the mutex.
inductive Request where
  | push (callback : Bool)
  | pushParallel (size : Nat)
  -- of `busy_wait_for`
  | take

-- The next step of code that runs outside the worker's loop; with `holding` and from there
-- to `release` it has the mutex.
inductive Code where
  | free
  | locking (request : Request)
  | holding (request : Request)
  | notifyAll
  | release
  | notifyOne

-- The next step of a thread; from `testing` to `blocking` or `deciding` a worker has the mutex.
inductive Phase where
  | locking
  | testing
  | blocking
  | blocked (notified : Bool)
  | deciding
  -- a worker in `current_task.invoke()`, or a client
  | running (worker : Bool) (code : Code)
  | returned

inductive Destructor where
  | alive
  -- `_is_running` has been stored
  | stored
  -- joins the workers
  | notified
  deriving DecidableEq

structure State where
  executor : Executor
  mutex : Option Nat
  phases : Nat → Phase
  destructor : Destructor

def Code.holds : Code → Bool
  | holding _ => true
  | notifyAll => true
  | release => true
  | _ => false

def Phase.holds : Phase → Bool
  | testing => true
  | blocking => true
  | deciding => true
  | running _ code => code.holds
  | _ => false

def Phase.waits : Phase → Bool
  | blocked notified => !notified
  | _ => false

def Phase.client : Phase → Bool
  | running worker _ => !worker
  | _ => false

def initial (cfg : Config) : State where
  executor := ⟨[], true, []⟩
  mutex := none
  phases := fun t => if t < cfg.threadCount.toNat then .locking else .running false .free
  destructor := .alive

def Phase.notify : Phase → Phase
  | blocked _ => blocked true
  | phase => phase

def State.put (s : State) (t : Nat) (phase : Phase) : State :=
  { s with phases := Function.update s.phases t phase }

def State.unlock (s : State) : State := { s with mutex := none }

def State.notifyOne (cfg : Config) (s : State) : Option Nat → Option State
  | some w => if (s.phases w).waits then some (s.put w (.blocked true)) else none
  | none => if (List.range cfg.threadCount.toNat).any fun w => (s.phases w).waits then none else some s

def State.notifyAll (s : State) : State := { s with phases := fun t => (s.phases t).notify }

def huskFront : List Task → List Task
  | [] => []
  | _ :: queue => .husk :: queue

-- What a section does to the queue, and the step behind it.
def Request.section (cfg : Config) (e : Executor) : Request → Executor × Code
  | push callback => (e.call cfg (.push callback), .notifyOne)
  | pushParallel size => (e.call cfg (.pushParallel size), .notifyAll)
  | take => ({ e with taskQueue := huskFront e.taskQueue }, .free)

def State.runCode (cfg : Config) (s : State) (t : Nat) (worker : Bool) (choice : Option Nat) : Code → Option State
  | .free => none
  | .locking request =>
      if s.mutex = none then some ({ s with mutex := some t }.put t (.running worker (.holding request))) else none
  | .holding request =>
      let (executor, code) := request.section cfg s.executor
      let s := { s with executor }
      some ((if code.holds then s else s.unlock).put t (.running worker code))
  | .notifyAll => some (s.notifyAll.put t (.running worker .release))
  | .release => some (s.unlock.put t (.running worker .free))
  | .notifyOne => (s.notifyOne cfg choice).map fun s => s.put t (.running worker .free)

def predicate (e : Executor) : Bool := !e.taskQueue.isEmpty || !e.isRunning

-- The next step of a thread; `choice` is for `notify_one`.
def State.advance (cfg : Config) (s : State) (t : Nat) (choice : Option Nat) : Phase → Option State
  | .locking => if s.mutex = none then some ({ s with mutex := some t }.put t .testing) else none
  | .testing => some (s.put t (if predicate s.executor then .deciding else .blocking))
  | .blocking => some (s.unlock.put t (.blocked false))
  | .blocked notified => if notified then some (s.put t .locking) else none
  | .deciding =>
      if s.executor.taskQueue.isEmpty && !s.executor.isRunning then some (s.unlock.put t .returned)
      else match s.executor.taskQueue with
        | [] => none
        | _ :: taskQueue =>
            some ({ s.unlock with executor := { s.executor with taskQueue } }.put t (.running true .free))
  | .running worker code => s.runCode cfg t worker choice code
  | .returned => none

inductive Act where
  | step (t : Nat) (choice : Option Nat)
  | wakeSpuriously (t : Nat)
  -- A callback or a client calls the executor.
  | call (t : Nat) (request : Request)
  -- A callback ends.
  | returns (t : Nat)
  | stop
  | notifyStop

def State.step (cfg : Config) (s : State) : Act → Option State
  | .step t choice => s.advance cfg t choice (s.phases t)
  | .wakeSpuriously t =>
      match s.phases t with
      | .blocked _ => some (s.put t .locking)
      | _ => none
  | .call t request =>
      match s.phases t with
      | .running worker .free => some (s.put t (.running worker (.locking request)))
      | _ => none
  | .returns t =>
      match s.phases t with
      | .running true .free => some (s.put t .locking)
      | _ => none
  | .stop =>
      if s.destructor = .alive then
        some { s with executor := { s.executor with isRunning := false }, destructor := .stored }
      else none
  | .notifyStop => if s.destructor = .stored then some { s.notifyAll with destructor := .notified } else none

/-- Steps that are taken whatever the callbacks and the scheduler do: nothing is called, nobody wakes unnotified. -/
def Act.Forced : Act → Prop
  | step _ _ => True
  | returns _ => True
  | _ => False

def State.Leads (cfg : Config) : State → State → Prop :=
  Relation.ReflTransGen fun s s' => ∃ a : Act, a.Forced ∧ s.step cfg a = some s'

/-- Once the destructor has notified, no worker is blocked unnotified, and each can return. -/
def State.Stops (cfg : Config) (s : State) : Prop :=
  s.destructor = .notified → ∀ w < cfg.threadCount.toNat,
    (s.phases w).waits = false ∧ ∃ s', s.Leads cfg s' ∧ s'.phases w = .returned

/-- When the destructor notifies, no worker is between a false predicate and its blocking. -/
def Settled (s : State) : Act → Prop
  | .notifyStop => ∀ t, s.phases t ≠ .blocking
  | _ => True

section Invariant

variable {cfg : Config} {s : State} {t : Nat}

@[simp] theorem put_self (phase : Phase) : (s.put t phase).phases t = phase := Function.update_self ..

theorem put_other {u : Nat} (other : u ≠ t) (phase : Phase) : (s.put t phase).phases u = s.phases u :=
  Function.update_of_ne other ..

@[simp] theorem notify_holds (phase : Phase) : phase.notify.holds = phase.holds := by
  cases phase <;> rfl

@[simp] theorem notify_client (phase : Phase) : phase.notify.client = phase.client := by
  cases phase <;> rfl

@[simp] theorem notify_waits (phase : Phase) : phase.notify.waits = false := by
  cases phase <;> rfl

structure State.Consistent (cfg : Config) (s : State) : Prop where
  owner : ∀ t, (s.phases t).holds = true ↔ s.mutex = some t
  stopped : s.destructor = .alive ∨ s.executor.isRunning = false
  deciding : ∀ t, s.phases t = .deciding → predicate s.executor = true
  settled : s.destructor = .notified → ∀ t, s.phases t ≠ .blocking ∧ (s.phases t).waits = false
  workers : ∀ t, (s.phases t).client = decide (cfg.threadCount.toNat ≤ t)

theorem initial_consistent (cfg : Config) : (initial cfg).Consistent cfg := by
  have phase (t : Nat) : (initial cfg).phases t = .locking ∨ (initial cfg).phases t = .running false .free := by
    simp only [initial]
    split
    · exact Or.inl rfl
    · exact Or.inr rfl
  refine ⟨fun t => ?_, Or.inl rfl, fun t impossible => ?_, fun impossible => Destructor.noConfusion impossible, ?_⟩
  · have unowned : (initial cfg).mutex ≠ some t := by simp [initial]
    rcases phase t with start | start
    · rw [start]
      exact iff_of_false Bool.noConfusion unowned
    · rw [start]
      exact iff_of_false Bool.noConfusion unowned
  · rcases phase t with start | start <;> simp [start] at impossible
  · intro t
    simp only [initial]
    split
    case isTrue worker => simp [Phase.client, worker]
    case isFalse client => simp [Phase.client, Nat.le_of_not_lt client]

theorem State.Consistent.update (consistent : s.Consistent cfg) {executor : Executor} {mutex : Option Nat} {phase : Phase}
    (own : phase.holds = true ↔ mutex = some t) (others : ∀ u, u ≠ t → (mutex = some u ↔ s.mutex = some u))
    (changed : executor = s.executor ∨ (s.phases t).holds = true ∧ executor.isRunning = s.executor.isRunning)
    (decides : phase = .deciding → predicate executor = true)
    (settles : s.destructor = .notified → phase ≠ .blocking ∧ phase.waits = false)
    (works : phase.client = (s.phases t).client) :
    (State.mk executor mutex (Function.update s.phases t phase) s.destructor).Consistent cfg := by
  refine ⟨fun u => ?_, ?_, fun u decided => ?_, fun notified u => ?_, fun u => ?_⟩
  · by_cases same : u = t
    · subst same
      simpa using own
    · simp only [Function.update_of_ne same]
      exact (consistent.owner u).trans (others u same).symm
  · rcases changed with rfl | ⟨-, same⟩
    · exact consistent.stopped
    · rw [same]
      exact consistent.stopped
  · by_cases same : u = t
    · subst same
      exact decides ((Function.update_self ..).symm.trans decided)
    · have before : s.phases u = .deciding := (Function.update_of_ne same ..).symm.trans decided
      rcases changed with rfl | ⟨holder, -⟩
      · exact consistent.deciding u before
      · -- two threads would have the mutex
        have second := (consistent.owner u).mp (by rw [before]; rfl)
        rw [(consistent.owner t).mp holder, Option.some.injEq] at second
        exact absurd second.symm same
  · by_cases same : u = t
    · subst same
      simpa using settles notified
    · simp only [Function.update_of_ne same]
      exact consistent.settled notified u
  · by_cases same : u = t
    · subst same
      simp only [Function.update_self]
      exact works.trans (consistent.workers u)
    · simp only [Function.update_of_ne same]
      exact consistent.workers u

theorem State.Consistent.notifyAll (consistent : s.Consistent cfg) : s.notifyAll.Consistent cfg := by
  refine ⟨fun t => ?_, consistent.stopped, fun t decided => ?_, fun notified t => ?_, fun t => ?_⟩
  · simpa [State.notifyAll] using consistent.owner t
  · refine consistent.deciding t ?_
    cases phase : s.phases t <;> simp [State.notifyAll, phase, Phase.notify] at decided
    rfl
  · refine ⟨fun blocking => ?_, by simp [State.notifyAll]⟩
    refine (consistent.settled notified t).1 ?_
    cases phase : s.phases t <;> simp [State.notifyAll, phase, Phase.notify] at blocking
    rfl
  · simpa [State.notifyAll] using consistent.workers t

theorem predicate_of_stopped {e : Executor} (stopped : e.isRunning = false) : predicate e = true := by
  simp [predicate, stopped]

theorem State.Consistent.locks (consistent : s.Consistent cfg) (free : s.mutex = none) {phase : Phase}
    (holds : phase.holds = true) (undecided : phase ≠ .deciding) (unsettled : phase ≠ .blocking)
    (works : phase.client = (s.phases t).client) :
    (({ s with mutex := some t } : State).put t phase).Consistent cfg := by
  refine consistent.update ?_ ?_ (Or.inl rfl) (fun decided => absurd decided undecided) ?_ works
  · simp [holds]
  · intro u other
    simp [free, Ne.symm other]
  · refine fun _ => ⟨unsettled, ?_⟩
    cases phase with
    | blocked notified => exact Bool.noConfusion holds
    | _ => rfl

theorem State.Consistent.unlocks (consistent : s.Consistent cfg) {executor : Executor} {phase : Phase}
    (holder : (s.phases t).holds = true) (same : executor.isRunning = s.executor.isRunning) (leaves : phase.holds = false)
    (settles : s.destructor = .notified → phase.waits = false)
    (works : phase.client = (s.phases t).client) :
    (({ s with executor } : State).unlock.put t phase).Consistent cfg := by
  have owned := (consistent.owner t).mp holder
  refine consistent.update ?_ ?_ (Or.inr ⟨holder, same⟩) ?_ ?_ works
  · simp [leaves, State.unlock]
  · intro u other
    simp [State.unlock, owned, Ne.symm other]
  · rintro rfl
    exact Bool.noConfusion leaves
  · intro notified
    refine ⟨?_, settles notified⟩
    rintro rfl
    exact Bool.noConfusion leaves

theorem State.Consistent.stays (consistent : s.Consistent cfg) {phase : Phase}
    (same : phase.holds = (s.phases t).holds) (decides : phase = .deciding → predicate s.executor = true)
    (settles : s.destructor = .notified → phase ≠ .blocking ∧ phase.waits = false)
    (works : phase.client = (s.phases t).client) :
    (s.put t phase).Consistent cfg := by
  refine consistent.update ?_ (fun _ _ => Iff.rfl) (Or.inl rfl) decides settles works
  rw [same]
  exact consistent.owner t

theorem State.Consistent.runsCode (consistent : s.Consistent cfg) {worker : Bool} {code : Code}
    (phase : s.phases t = .running worker code) {choice : Option Nat} {next : State}
    (taken : s.runCode cfg t worker choice code = some next) : next.Consistent cfg := by
  have works (later : Code) : (Phase.running worker later).client = (s.phases t).client := by
    rw [phase]
    rfl
  cases code with
  | free => simp [State.runCode] at taken
  | locking request =>
      rw [State.runCode, Option.ite_none_right_eq_some] at taken
      obtain ⟨free, same⟩ := taken
      obtain rfl := Option.some.inj same
      exact consistent.locks free rfl Phase.noConfusion Phase.noConfusion (works _)
  | holding request =>
      have holder : (s.phases t).holds = true := by rw [phase]; rfl
      cases request with
      | push callback =>
          obtain rfl := Option.some.inj taken
          exact consistent.unlocks holder rfl rfl (fun _ => rfl) (works _)
      | pushParallel size =>
          obtain rfl := Option.some.inj taken
          refine consistent.update ?_ (fun _ _ => Iff.rfl) (Or.inr ⟨holder, rfl⟩) Phase.noConfusion ?_ (works _)
          · exact iff_of_true rfl ((consistent.owner t).mp holder)
          · exact fun _ => ⟨Phase.noConfusion, rfl⟩
      | take =>
          obtain rfl := Option.some.inj taken
          exact consistent.unlocks holder rfl rfl (fun _ => rfl) (works _)
  | notifyAll =>
      obtain rfl := Option.some.inj taken
      refine consistent.notifyAll.stays ?_ Phase.noConfusion (fun _ => ⟨Phase.noConfusion, rfl⟩) ?_
      · simp [State.notifyAll, phase, Phase.notify, Phase.holds, Code.holds]
      · rw [State.notifyAll, notify_client]
        exact works _
  | release =>
      obtain rfl := Option.some.inj taken
      have holder : (s.phases t).holds = true := by rw [phase]; rfl
      exact consistent.unlocks holder rfl rfl (fun _ => rfl) (works _)
  | notifyOne =>
      rw [State.runCode, Option.map_eq_some_iff] at taken
      obtain ⟨woken, notified, rfl⟩ := taken
      have goesOn {s : State} (consistent : s.Consistent cfg) (phase : s.phases t = .running worker .notifyOne) :
          (s.put t (.running worker .free)).Consistent cfg := by
        refine consistent.stays ?_ Phase.noConfusion (fun _ => ⟨Phase.noConfusion, rfl⟩) ?_
        · rw [phase]
          rfl
        · rw [phase]
          rfl
      cases choice with
      | none =>
          rw [State.notifyOne, Option.ite_none_left_eq_some] at notified
          obtain rfl := Option.some.inj notified.2
          exact goesOn consistent phase
      | some w =>
          rw [State.notifyOne, Option.ite_none_right_eq_some] at notified
          obtain ⟨waits, same⟩ := notified
          obtain rfl := Option.some.inj same
          have different : t ≠ w := by
            rintro rfl
            rw [phase] at waits
            exact Bool.noConfusion waits
          refine goesOn ?_ ((put_other different _).trans phase)
          refine consistent.stays ?_ Phase.noConfusion (fun _ => ⟨Phase.noConfusion, rfl⟩) ?_
          all_goals
            cases before : s.phases w <;> simp [before, Phase.waits] at waits
            rfl

theorem State.Consistent.advances (consistent : s.Consistent cfg) {choice : Option Nat} {next : State}
    (taken : s.advance cfg t choice (s.phases t) = some next) : next.Consistent cfg := by
  cases phase : s.phases t with
  | locking =>
      rw [phase, State.advance, Option.ite_none_right_eq_some] at taken
      obtain ⟨free, same⟩ := taken
      obtain rfl := Option.some.inj same
      exact consistent.locks free rfl Phase.noConfusion Phase.noConfusion (by rw [phase]; rfl)
  | testing =>
      rw [phase] at taken
      obtain rfl := Option.some.inj taken
      have held : (s.phases t).holds = true := by rw [phase]; rfl
      by_cases passes : predicate s.executor = true
      · rw [if_pos passes]
        exact consistent.stays held.symm (fun _ => passes) (fun _ => ⟨Phase.noConfusion, rfl⟩) (by rw [phase]; rfl)
      · rw [if_neg passes]
        refine consistent.stays held.symm Phase.noConfusion (fun notified => ?_) (by rw [phase]; rfl)
        -- the predicate is true once `_is_running` has been stored
        rcases consistent.stopped with alive | stopped
        · rw [notified] at alive
          exact Destructor.noConfusion alive
        · exact absurd (predicate_of_stopped stopped) passes
  | blocking =>
      have held : (s.phases t).holds = true := by rw [phase]; rfl
      have settled (notified : s.destructor = .notified) := (consistent.settled notified t).1
      rw [phase] at taken
      obtain rfl := Option.some.inj taken
      exact consistent.unlocks held rfl rfl (fun notified => absurd phase (settled notified)) (by rw [phase]; rfl)
  | blocked notified =>
      rw [phase, State.advance, Option.ite_none_right_eq_some] at taken
      obtain ⟨-, same⟩ := taken
      obtain rfl := Option.some.inj same
      refine consistent.stays ?_ Phase.noConfusion (fun _ => ⟨Phase.noConfusion, rfl⟩) (by rw [phase]; rfl)
      rw [phase]
      rfl
  | deciding =>
      have held : (s.phases t).holds = true := by rw [phase]; rfl
      rw [phase, State.advance] at taken
      split at taken
      case isTrue =>
        obtain rfl := Option.some.inj taken
        exact consistent.unlocks held rfl rfl (fun _ => rfl) (by rw [phase]; rfl)
      case isFalse =>
        split at taken
        case h_1 => simp at taken
        case h_2 =>
          obtain rfl := Option.some.inj taken
          exact consistent.unlocks held rfl rfl (fun _ => rfl) (by rw [phase]; rfl)
  | running worker code =>
      rw [phase] at taken
      exact consistent.runsCode phase taken
  | returned =>
      rw [phase] at taken
      simp [State.advance] at taken

theorem State.Consistent.step (consistent : s.Consistent cfg) {a : Act} {next : State} (settled : Settled s a)
    (taken : s.step cfg a = some next) : next.Consistent cfg := by
  cases a with
  | step t choice => exact consistent.advances taken
  | wakeSpuriously t =>
      cases phase : s.phases t <;> simp only [State.step, phase, reduceCtorEq] at taken
      case blocked notified =>
        obtain rfl := Option.some.inj taken
        refine consistent.stays ?_ Phase.noConfusion (fun _ => ⟨Phase.noConfusion, rfl⟩) (by rw [phase]; rfl)
        rw [phase]
        rfl
  | call t request =>
      cases phase : s.phases t <;> simp only [State.step, phase, reduceCtorEq] at taken
      case running worker code =>
        cases code <;> simp only [reduceCtorEq] at taken
        case free =>
          obtain rfl := Option.some.inj taken
          refine consistent.stays ?_ Phase.noConfusion (fun _ => ⟨Phase.noConfusion, rfl⟩) ?_
          · rw [phase]
            rfl
          · rw [phase]
            rfl
  | returns t =>
      cases phase : s.phases t <;> simp only [State.step, phase, reduceCtorEq] at taken
      case running worker code =>
        cases worker <;> cases code <;> simp only [reduceCtorEq] at taken
        case true.free =>
          obtain rfl := Option.some.inj taken
          refine consistent.stays ?_ Phase.noConfusion (fun _ => ⟨Phase.noConfusion, rfl⟩) (by rw [phase]; rfl)
          rw [phase]
          rfl
  | stop =>
      rw [State.step, Option.ite_none_right_eq_some] at taken
      obtain ⟨-, same⟩ := taken
      obtain rfl := Option.some.inj same
      exact ⟨consistent.owner, Or.inr rfl, fun _ _ => predicate_of_stopped rfl, fun impossible => Destructor.noConfusion impossible,
        consistent.workers⟩
  | notifyStop =>
      rw [State.step, Option.ite_none_right_eq_some] at taken
      obtain ⟨stored, same⟩ := taken
      obtain rfl := Option.some.inj same
      have notified := consistent.notifyAll
      have stopped : s.executor.isRunning = false := by
        rcases consistent.stopped with alive | stopped
        · rw [stored] at alive
          exact Destructor.noConfusion alive
        · exact stopped
      refine ⟨notified.owner, Or.inr stopped, notified.deciding, fun _ t => ⟨fun blocking => settled t ?_, ?_⟩,
        notified.workers⟩
      · cases phase : s.phases t <;> simp [State.notifyAll, phase, Phase.notify] at blocking
        rfl
      · exact notify_waits _

end Invariant

section Progress

variable {cfg : Config} {s s' : State} {t : Nat}

def State.Quiet (cfg : Config) (s : State) : Prop := s.Consistent cfg ∧ s.destructor = .notified

theorem State.Quiet.stopped (quiet : s.Quiet cfg) : s.executor.isRunning = false := by
  obtain ⟨consistent, notified⟩ := quiet
  rcases consistent.stopped with alive | stopped
  · rw [notified] at alive
    exact Destructor.noConfusion alive
  · exact stopped

theorem runCode_destructor {worker : Bool} {code : Code} {choice : Option Nat}
    (taken : s.runCode cfg t worker choice code = some s') : s'.destructor = s.destructor := by
  cases code with
  | free => simp [State.runCode] at taken
  | locking request =>
      rw [State.runCode, Option.ite_none_right_eq_some] at taken
      exact Option.some.inj taken.2 ▸ rfl
  | holding request =>
      cases request <;> exact Option.some.inj taken ▸ rfl
  | notifyAll => exact Option.some.inj taken ▸ rfl
  | release => exact Option.some.inj taken ▸ rfl
  | notifyOne =>
      rw [State.runCode, Option.map_eq_some_iff] at taken
      obtain ⟨woken, notified, rfl⟩ := taken
      cases choice with
      | none =>
          rw [State.notifyOne, Option.ite_none_left_eq_some] at notified
          exact Option.some.inj notified.2 ▸ rfl
      | some w =>
          rw [State.notifyOne, Option.ite_none_right_eq_some] at notified
          exact Option.some.inj notified.2 ▸ rfl

theorem forced_destructor {a : Act} (forced : a.Forced) (taken : s.step cfg a = some s') :
    s'.destructor = s.destructor := by
  cases a with
  | step t choice =>
      rw [State.step] at taken
      cases phase : s.phases t <;> rw [phase] at taken <;> simp only [State.advance] at taken
      case running worker code => exact runCode_destructor taken
      case testing => exact Option.some.inj taken ▸ rfl
      case blocking => exact Option.some.inj taken ▸ rfl
      case returned => simp at taken
      case locking => exact Option.some.inj (Option.ite_none_right_eq_some.mp taken).2 ▸ rfl
      case blocked => exact Option.some.inj (Option.ite_none_right_eq_some.mp taken).2 ▸ rfl
      case deciding =>
        split at taken
        case isTrue => exact Option.some.inj taken ▸ rfl
        case isFalse =>
          split at taken
          case h_1 => simp at taken
          case h_2 => exact Option.some.inj taken ▸ rfl
  | returns t =>
      cases phase : s.phases t <;> simp only [State.step, phase, reduceCtorEq] at taken
      case running worker code =>
        cases worker <;> cases code <;> simp only [reduceCtorEq] at taken
        case true.free => exact Option.some.inj taken ▸ rfl
  | wakeSpuriously t => exact forced.elim
  | call t request => exact forced.elim
  | stop => exact forced.elim
  | notifyStop => exact forced.elim

theorem State.Quiet.leads (quiet : s.Quiet cfg) (leads : s.Leads cfg s') : s'.Quiet cfg := by
  induction leads with
  | refl => exact quiet
  | tail _ taken ih =>
      obtain ⟨a, forced, taken⟩ := taken
      have settled (s : State) : Settled s a := by
        cases a with
        | notifyStop => exact forced.elim
        | _ => exact True.intro
      exact ⟨ih.1.step (settled _) taken, (forced_destructor forced taken).trans ih.2⟩

theorem leads_step (taken : s.step cfg (.step t none) = some s') : s.Leads cfg s' := by
  have forced : (Act.step t none).Forced := True.intro
  exact .single ⟨_, forced, taken⟩

theorem leads_returns (taken : s.step cfg (.returns t) = some s') : s.Leads cfg s' := by
  have forced : (Act.returns t).Forced := True.intro
  exact .single ⟨_, forced, taken⟩

def Code.rank : Code → Nat
  | free => 0
  | notifyOne => 1
  | release => 1
  | notifyAll => 2
  | holding _ => 3
  | locking _ => 4

theorem code_step (quiet : s.Quiet cfg) {worker : Bool} {code : Code} (phase : s.phases t = .running worker code)
    (busy : code ≠ .free) (able : code.holds = true ∨ s.mutex = none) :
    ∃ next code', s.step cfg (.step t none) = some next ∧ next.phases t = .running worker code' ∧
      code'.rank < code.rank ∧ (code'.holds = true ∨ next.mutex = none) := by
  have taken : s.step cfg (.step t none) = s.runCode cfg t worker none code := by rw [State.step, phase]; rfl
  rw [taken]
  cases code with
  | free => exact absurd rfl busy
  | locking request =>
      have free : s.mutex = none := able.resolve_left Bool.noConfusion
      exact ⟨_, _, if_pos free, put_self _, by simp [Code.rank], Or.inl rfl⟩
  | holding request =>
      cases request with
      | push callback => exact ⟨_, _, rfl, put_self _, by simp [Code.rank], Or.inr rfl⟩
      | pushParallel size => exact ⟨_, _, rfl, put_self _, by simp [Code.rank], Or.inl rfl⟩
      | take => exact ⟨_, _, rfl, put_self _, by simp [Code.rank], Or.inr rfl⟩
  | notifyAll => exact ⟨_, _, rfl, put_self _, by simp [Code.rank], Or.inl rfl⟩
  | release => exact ⟨_, _, rfl, put_self _, by simp [Code.rank], Or.inr rfl⟩
  | notifyOne =>
      have none' : ((List.range cfg.threadCount.toNat).any fun w => (s.phases w).waits) = false := by
        rw [List.any_eq_false]
        exact fun w _ => by simp [(quiet.1.settled quiet.2 w).2]
      have free : s.mutex = none := able.resolve_left Bool.noConfusion
      have nobody : s.notifyOne cfg none = some s := by
        rw [State.notifyOne, none']
        rfl
      refine ⟨_, .free, ?_, put_self .., Nat.lt_succ_self 0, Or.inr free⟩
      rw [State.runCode, nobody]
      rfl

theorem code_finishes (quiet : s.Quiet cfg) {worker : Bool} {code : Code} (phase : s.phases t = .running worker code)
    (able : code.holds = true ∨ s.mutex = none) :
    ∃ s', s.Leads cfg s' ∧ s'.phases t = .running worker .free ∧ s'.mutex = none := by
  induction hrank : code.rank using Nat.strong_induction_on generalizing s code with
  | _ rank ih =>
      by_cases done : code = .free
      · subst done
        exact ⟨s, .refl, phase, able.resolve_left Bool.noConfusion⟩
      · obtain ⟨next, code', taken, phase', less, able'⟩ := code_step quiet phase done able
        obtain ⟨s', leads, result⟩ := ih code'.rank (hrank ▸ less) (quiet.leads (leads_step taken)) phase' able' rfl
        exact ⟨s', .trans (leads_step taken) leads, result⟩

theorem deciding_step (quiet : s.Quiet cfg) (phase : s.phases t = .deciding) :
    ∃ next, s.step cfg (.step t none) = some next ∧ next.mutex = none ∧
      (next.phases t = .returned ∨
        next.phases t = .running true .free ∧ next.executor.taskQueue.length < s.executor.taskQueue.length) := by
  have stopped := quiet.stopped
  rw [State.step, phase, State.advance]
  cases queue : s.executor.taskQueue with
  | nil => exact ⟨_, if_pos (by simp [stopped]), rfl, Or.inl (put_self _)⟩
  | cons front rest => exact ⟨_, if_neg (by simp), rfl, Or.inr ⟨put_self _, Nat.lt_succ_self _⟩⟩

theorem testing_step (quiet : s.Quiet cfg) (phase : s.phases t = .testing) :
    s.step cfg (.step t none) = some (s.put t .deciding) := by
  rw [State.step, phase, State.advance, if_pos (predicate_of_stopped quiet.stopped)]

theorem mutex_released (quiet : s.Quiet cfg) : ∃ s', s.Leads cfg s' ∧ s'.mutex = none := by
  cases owner : s.mutex with
  | none => exact ⟨s, .refl, owner⟩
  | some t =>
      have holds := (quiet.1.owner t).mpr owner
      cases phase : s.phases t with
      | locking => simp [phase, Phase.holds] at holds
      | blocked notified => simp [phase, Phase.holds] at holds
      | returned => simp [phase, Phase.holds] at holds
      | blocking => exact absurd phase (quiet.1.settled quiet.2 t).1
      | testing =>
          have first : s.Leads cfg (s.put t .deciding) := leads_step (testing_step quiet phase)
          obtain ⟨next, taken, free, -⟩ := deciding_step (quiet.leads first) (put_self _)
          exact ⟨next, .trans first (leads_step taken), free⟩
      | deciding =>
          obtain ⟨next, taken, free, -⟩ := deciding_step quiet phase
          exact ⟨next, leads_step taken, free⟩
      | running worker code =>
          rw [phase] at holds
          obtain ⟨s', leads, -, free⟩ := code_finishes quiet phase (Or.inl holds)
          exact ⟨s', leads, free⟩

theorem locking_returns (quiet : s.Quiet cfg) (phase : s.phases t = .locking) (free : s.mutex = none) :
    ∃ s', s.Leads cfg s' ∧ s'.phases t = .returned := by
  induction hlength : s.executor.taskQueue.length using Nat.strong_induction_on generalizing s with
  | _ length ih =>
      let locked : State := { s with mutex := some t }.put t .testing
      have first : s.Leads cfg locked := leads_step (by rw [State.step, phase, State.advance, if_pos free])
      have second : locked.Leads cfg (locked.put t .deciding) := leads_step (testing_step (quiet.leads first) (put_self _))
      have both := first.trans second
      obtain ⟨next, taken, free', returned | ⟨running, shorter⟩⟩ := deciding_step (quiet.leads both) (put_self _)
      · exact ⟨next, both.trans (leads_step taken), returned⟩
      · -- the callback ends, and the queue is shorter
        have ends : next.step cfg (.returns t) = some (next.put t .locking) := by rw [State.step, running]
        have again := (both.trans (leads_step taken)).trans (leads_returns ends)
        have less : (next.put t .locking).executor.taskQueue.length < length := hlength ▸ shorter
        obtain ⟨s', leads, result⟩ := ih _ less (quiet.leads again) (put_self _) free' rfl
        exact ⟨s', again.trans leads, result⟩

theorem worker_returns (quiet : s.Quiet cfg) (worker : t < cfg.threadCount.toNat) :
    ∃ s', s.Leads cfg s' ∧ s'.phases t = .returned := by
  obtain ⟨s₁, first, free⟩ := mutex_released quiet
  have quiet₁ := quiet.leads first
  have unowned (holds : (s₁.phases t).holds = true) : False := by
    have owner := (quiet₁.1.owner t).mp holds
    simp [free] at owner
  have fromTop {s₂ : State} (second : s₁.Leads cfg s₂) (phase : s₂.phases t = .locking) (free : s₂.mutex = none) :
      ∃ s', s.Leads cfg s' ∧ s'.phases t = .returned := by
    obtain ⟨s', leads, returned⟩ := locking_returns (quiet₁.leads second) phase free
    exact ⟨s', (first.trans second).trans leads, returned⟩
  cases phase : s₁.phases t with
  | locking => exact fromTop .refl phase free
  | testing => exact absurd (phase ▸ rfl) unowned
  | blocking => exact absurd (phase ▸ rfl) unowned
  | deciding => exact absurd (phase ▸ rfl) unowned
  | returned => exact ⟨s₁, first, phase⟩
  | blocked notified =>
      have notified' := (quiet₁.1.settled quiet₁.2 t).2
      rw [phase] at notified'
      cases notified with
      | false => exact Bool.noConfusion notified'
      | true => exact fromTop (leads_step (by rw [State.step, phase]; rfl)) (put_self _) free
  | running worker' code =>
      obtain ⟨s₂, second, phase₂, free₂⟩ := code_finishes quiet₁ phase (Or.inr free)
      have mine := (quiet₁.leads second).1.workers t
      rw [phase₂, decide_eq_false (Nat.not_le_of_lt worker)] at mine
      cases worker' with
      | false => exact Bool.noConfusion mine
      | true =>
          have ends : s₂.step cfg (.returns t) = some (s₂.put t .locking) := by rw [State.step, phase₂]
          exact fromTop (second.trans (leads_returns ends)) (put_self _) free₂

end Progress

theorem run_consistent {cfg : Config} {acts : List Act} (settled : Along (State.step cfg) Settled (initial cfg) acts)
    {s : State} (run : exec (State.step cfg) (initial cfg) acts = some s) : s.Consistent cfg :=
  settled.invariant (State.Consistent cfg) (fun _ _ _ consistent settled taken => consistent.step settled taken)
    (initial_consistent cfg) run

/-- In a run in which no worker is between a false predicate and its blocking when the
destructor notifies, nobody misses the notification, and every worker can return. -/
theorem workers_stop (cfg : Config) {acts : List Act} (settled : Along (State.step cfg) Settled (initial cfg) acts)
    {s : State} (run : exec (State.step cfg) (initial cfg) acts = some s) : s.Stops cfg := by
  have consistent := run_consistent settled run
  intro notified w worker
  exact ⟨(consistent.settled notified w).2, worker_returns ⟨consistent, notified⟩ worker⟩

/-- The condition cannot be spared: the worker that the notification overtakes blocks next. -/
theorem unsettled_breaks (cfg : Config) {acts : List Act} (settled : Along (State.step cfg) Settled (initial cfg) acts)
    {s next : State} (run : exec (State.step cfg) (initial cfg) acts = some s) (unsettled : ¬ Settled s .notifyStop)
    (taken : s.step cfg .notifyStop = some next) :
    ∃ t last, next.step cfg (.step t none) = some last ∧ ¬ last.Stops cfg := by
  have consistent := run_consistent settled run
  simp only [Settled, Classical.not_forall, Classical.not_not] at unsettled
  obtain ⟨t, blocking⟩ := unsettled
  have worker : t < cfg.threadCount.toNat := by
    have mine := consistent.workers t
    rw [blocking] at mine
    exact Nat.lt_of_not_le (of_decide_eq_false mine.symm)
  rw [State.step, Option.ite_none_right_eq_some] at taken
  obtain rfl := Option.some.inj taken.2
  have still : (s.phases t).notify = .blocking := by rw [blocking]; rfl
  refine ⟨t, _, by rw [State.step]; simp only [State.notifyAll, still]; rfl, fun stops => ?_⟩
  have told := (stops rfl t worker).1
  simp [Phase.waits] at told

def oneWorker : Config := ⟨1, by decide⟩

def waitingRun : List Act := [.step 0 none, .step 0 none, .step 0 none, .stop, .notifyStop]

theorem workers_stop_waiting :
    ∃ s, exec (State.step oneWorker) (initial oneWorker) waitingRun = some s ∧ s.Stops oneWorker := by
  have settled : Along (State.step oneWorker) Settled (initial oneWorker) waitingRun := by
    refine Along.cons True.intro rfl (Along.cons True.intro rfl (Along.cons True.intro rfl (Along.cons True.intro rfl ?_)))
    refine ⟨fun t => ?_, fun _ _ => True.intro⟩
    cases t with
    | zero => simp [State.put, State.unlock]
    | succ client => simp [State.put, State.unlock, initial, oneWorker]
  exact ⟨_, rfl, workers_stop oneWorker settled rfl⟩

/-- The worker has found the queue empty and `_is_running` set; then the destructor stores and
notifies, and the worker blocks. -/
theorem missed_notification :
    ∃ s, exec (State.step oneWorker) (initial oneWorker)
        [.step 0 none, .step 0 none, .stop, .notifyStop, .step 0 none] = some s ∧
      (s.phases 0).waits = true ∧ ¬ s.Stops oneWorker := by
  refine ⟨_, rfl, rfl, fun stops => ?_⟩
  have told := (stops rfl 0 (by decide)).1
  exact Bool.noConfusion told

end PrototypeBundle.ProtoG.Wakeup
