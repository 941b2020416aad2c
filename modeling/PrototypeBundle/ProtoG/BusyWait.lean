import PrototypeBundle.ProtoG.Machine
import PrototypeBundle.Shared.Run

set_option autoImplicit false

namespace PrototypeBundle.ProtoG

open Runs

-- One pass of the loop up to its test, with the callbacks that it invokes.
def Executor.iteration (e : Executor) : Executor × List Job :=
  match e.taskQueue with
  | [] => (e, [])
  | front :: queue =>
      let e := { e with taskQueue := .husk :: queue }
      match front.job with
      | none => (e, [])
      | some job => (e.resolve job.batch, [job])

-- `none` when the given number of iterations has not been enough.
def Executor.iterate (e : Executor) (tk : Nat) : Nat → Option (Executor × List Job)
  | 0 => none
  | iterations + 1 =>
      if e.iteration.1.done tk then some e.iteration
      else (e.iteration.1.iterate tk iterations).map fun (final, jobs) => (final, e.iteration.2 ++ jobs)

def Executor.busyWaitFor (e : Executor) (tk : Nat) (iterations : Nat) : Option (Executor × List Job) :=
  if e.done tk then some (e, []) else e.iterate tk iterations

/-- The queue holds callbacks of the token and nothing else, and the token counts them. -/
structure Pending (e : Executor) (tk : Nat) : Prop where
  jobs : ∀ task ∈ e.taskQueue, ∃ job, task.job = some job ∧ job.batch = tk
  counted : ∃ counter, e.unresolved[tk]? = some counter ∧ counter.toNat = e.taskQueue.length

/-- All tasks are executed, each once, in their order, within as many iterations. -/
def Serves (e : Executor) (tk : Nat) : Prop :=
  ∃ final, e.busyWaitFor tk e.taskQueue.length = some (final, e.taskQueue.filterMap Task.job) ∧
    final.taskQueue = [] ∧ final.done tk = true

theorem Executor.iteration_nil {e : Executor} (empty : e.taskQueue = []) : e.iteration = (e, []) := by
  rw [iteration, empty]

theorem Executor.iteration_none {e : Executor} {front : Task} {queue : List Task} (first : e.taskQueue = front :: queue)
    (none : front.job = none) : e.iteration = ({ e with taskQueue := .husk :: queue }, []) := by
  simp [iteration, first, none]

theorem Executor.iteration_some {e : Executor} {front : Task} {queue : List Task} {job : Job}
    (first : e.taskQueue = front :: queue) (some : front.job = some job) :
    e.iteration = (({ e with taskQueue := .husk :: queue } : Executor).resolve job.batch, [job]) := by
  simp [iteration, first, some]

theorem Executor.iterate_succ {e final : Executor} {tk iterations : Nat} {jobs : List Job}
    (returned : e.iterate tk (iterations + 1) = some (final, jobs)) :
    (e.iteration.1.done tk = true ∧ final = e.iteration.1 ∧ jobs = e.iteration.2) ∨
      (e.iteration.1.done tk = false ∧ ∃ later, e.iteration.1.iterate tk iterations = some (final, later) ∧
        jobs = e.iteration.2 ++ later) := by
  rw [iterate] at returned
  cases done : e.iteration.1.done tk with
  | true =>
      rw [done, if_pos rfl, Option.some.injEq] at returned
      exact Or.inl ⟨rfl, congrArg Prod.fst returned.symm, congrArg Prod.snd returned.symm⟩
  | false =>
      rw [done, if_neg Bool.false_ne_true, Option.map_eq_some_iff] at returned
      obtain ⟨⟨last, later⟩, returned, same⟩ := returned
      obtain ⟨rfl, rfl⟩ := Prod.mk.inj same
      exact Or.inr ⟨rfl, later, returned, rfl⟩

section Machine

variable (cfg : Config)

def soloStep (cfg : Config) (s : Executor × List Frame) (a : Act) : Option (Executor × List Frame) :=
  (turn cfg s.1 a s.2).map fun next => (next.1, next.2.1)

def soloEmit (cfg : Config) (s : Executor × List Frame) (a : Act) : List Event :=
  ((turn cfg s.1 a s.2).map fun next => next.2.2).getD []

theorem iteration_run (e : Executor) (tk : Nat) (stack : List Frame) :
    ∃ actions, exec (soloStep cfg) (e, .waiting tk :: stack) actions = some (e.iteration.1, .testing tk :: stack) ∧
      Countdown.started (trace (soloStep cfg) (soloEmit cfg) (e, .waiting tk :: stack) actions) = e.iteration.2 := by
  cases first : e.taskQueue with
  | nil =>
      rw [e.iteration_nil first]
      exact ⟨[.take], by simp [exec, soloStep, turn, first], by
        simp [trace, soloStep, soloEmit, turn, first, Countdown.started]⟩
  | cons front queue =>
      cases job : front.job with
      | none =>
          rw [e.iteration_none first job]
          exact ⟨[.take, .invoke], by simp [exec, soloStep, turn, first, job], by
            simp [trace, soloStep, soloEmit, turn, first, job, Countdown.started]⟩
      | some job' =>
          rw [e.iteration_some first job]
          exact ⟨[.take, .invoke, .returns, .resolve], by simp [exec, soloStep, turn, first, job], by
            simp [trace, soloStep, soloEmit, turn, first, job, Countdown.started]⟩

theorem started_append (first second : List Event) :
    Countdown.started (first ++ second) = Countdown.started first ++ Countdown.started second :=
  List.filterMap_append

theorem iterate_run {e final : Executor} {tk iterations : Nat} {jobs : List Job} (stack : List Frame)
    (returned : e.iterate tk iterations = some (final, jobs)) :
    ∃ actions, exec (soloStep cfg) (e, .waiting tk :: stack) actions = some (final, stack) ∧
      Countdown.started (trace (soloStep cfg) (soloEmit cfg) (e, .waiting tk :: stack) actions) = jobs := by
  induction iterations generalizing e jobs with
  | zero => simp [Executor.iterate] at returned
  | succ iterations ih =>
      obtain ⟨pass, run, starts⟩ := iteration_run cfg e tk stack
      rcases Executor.iterate_succ returned with ⟨done, rfl, rfl⟩ | ⟨busy, later, rest, rfl⟩
      · have leaves : soloStep cfg (e.iteration.1, .testing tk :: stack) .test = some (e.iteration.1, stack) := by
          simp [soloStep, turn, done]
        refine ⟨pass ++ [.test], exec_append.mpr ⟨_, run, by rw [exec_cons]; exact ⟨_, leaves, rfl⟩⟩, ?_⟩
        rw [trace_append _ run, started_append, starts]
        simp [trace, soloStep, soloEmit, turn, done, Countdown.started]
      · have again : soloStep cfg (e.iteration.1, .testing tk :: stack) .test =
            some (e.iteration.1, .waiting tk :: stack) := by
          simp [soloStep, turn, busy]
        have silent : soloEmit cfg (e.iteration.1, .testing tk :: stack) .test = [] := by
          simp [soloEmit, turn, busy]
        obtain ⟨actions, onward, more⟩ := ih rest
        refine ⟨pass ++ .test :: actions, exec_append.mpr ⟨_, run, exec_cons.mpr ⟨_, again, onward⟩⟩, ?_⟩
        rw [trace_append _ run, started_append, starts, trace_cons _ again, silent, List.nil_append, more]

theorem busyWaitFor_run {e final : Executor} {tk iterations : Nat} {jobs : List Job} {frame : Frame}
    (stack : List Frame) (free : frame.free = true) (made : tk < e.unresolved.length)
    (returned : e.busyWaitFor tk iterations = some (final, jobs)) :
    ∃ actions, exec (soloStep cfg) (e, frame :: stack) (.busyWaitFor tk :: actions) = some (final, frame :: stack) ∧
      Countdown.started (trace (soloStep cfg) (soloEmit cfg) (e, frame :: stack) (.busyWaitFor tk :: actions)) =
        jobs := by
  rw [Executor.busyWaitFor] at returned
  cases done : e.done tk with
  | true =>
      rw [done, if_pos rfl, Option.some.injEq] at returned
      obtain ⟨rfl, rfl⟩ := Prod.mk.inj returned
      exact ⟨[], by simp [exec, soloStep, turn, free, made, done], by
        simp [trace, soloStep, soloEmit, turn, free, made, done, Countdown.started]⟩
  | false =>
      rw [done, if_neg Bool.false_ne_true] at returned
      have enters : soloStep cfg (e, frame :: stack) (.busyWaitFor tk) = some (e, .waiting tk :: frame :: stack) := by
        simp [soloStep, turn, free, made, done]
      have silent : soloEmit cfg (e, frame :: stack) (.busyWaitFor tk) = [] := by
        simp [soloEmit, turn, free, made, done]
      obtain ⟨actions, run, starts⟩ := iterate_run cfg (frame :: stack) returned
      refine ⟨actions, exec_cons.mpr ⟨_, enters, run⟩, ?_⟩
      rw [trace_cons _ enters, silent, List.nil_append, starts]

end Machine

theorem Executor.iteration_length (e : Executor) : e.iteration.1.taskQueue.length = e.taskQueue.length := by
  cases first : e.taskQueue with
  | nil => rw [e.iteration_nil first, first]
  | cons front rest =>
      cases job : front.job with
      | none => rw [e.iteration_none first job, List.length_cons, List.length_cons]
      | some job' => rw [e.iteration_some first job, resolve, List.length_cons, List.length_cons]

-- Nothing is ever removed from the queue.
theorem Executor.iterate_length {e final : Executor} {tk iterations : Nat} {jobs : List Job}
    (returned : e.iterate tk iterations = some (final, jobs)) : final.taskQueue.length = e.taskQueue.length := by
  induction iterations generalizing e jobs with
  | zero => simp [iterate] at returned
  | succ iterations ih =>
      obtain ⟨-, rfl, -⟩ | ⟨-, later, returned, -⟩ := iterate_succ returned
      · exact e.iteration_length
      · rw [ih returned, e.iteration_length]

theorem Executor.busyWaitFor_length {e final : Executor} {tk iterations : Nat} {jobs : List Job}
    (returned : e.busyWaitFor tk iterations = some (final, jobs)) : final.taskQueue.length = e.taskQueue.length := by
  rw [busyWaitFor] at returned
  split at returned
  next =>
    obtain ⟨rfl, -⟩ := Prod.mk.inj (Option.some.inj returned)
    rfl
  next => exact iterate_length returned

theorem Executor.done_iff {e : Executor} {tk : Nat} {counter : UInt64} (count : e.unresolved[tk]? = some counter) :
    e.done tk = true ↔ counter.toNat = 0 := by
  rw [done, count, beq_iff_eq, Option.some.injEq, ← UInt64.toNat_inj]
  rfl

theorem Executor.iterate_husk {e : Executor} {tk : Nat} {queue : List Task} (first : e.taskQueue = .husk :: queue)
    (busy : e.done tk = false) (iterations : Nat) : e.iterate tk iterations = none := by
  have same : e.iteration = (e, []) := by
    rw [e.iteration_none first rfl, ← first]
  induction iterations with
  | zero => rfl
  | succ iterations ih => rw [iterate, same, busy, if_neg Bool.false_ne_true, ih, Option.map_none]

theorem Pending.stuck {e : Executor} {tk : Nat} (pending : Pending e tk) (several : 2 ≤ e.taskQueue.length)
    (iterations : Nat) : e.busyWaitFor tk iterations = none := by
  obtain ⟨counter, count, exact'⟩ := pending.counted
  have busy : ¬ e.done tk = true := by
    rw [Executor.done_iff count]
    omega
  rw [Executor.busyWaitFor, if_neg busy]
  cases iterations with
  | zero => rfl
  | succ iterations =>
      cases first : e.taskQueue with
      | nil => simp [first] at several
      | cons front queue =>
          obtain ⟨job, callable, batch⟩ := pending.jobs front (by simp [first])
          have left : e.iteration.1.unresolved[tk]? = some (counter - 1) := by
            rw [e.iteration_some first callable, Executor.resolve, batch]
            simp [count]
          have fewer : e.iteration.1.done tk = false := by
            rw [← Bool.not_eq_true, Executor.done_iff left, UInt64.toNat_sub_of_le]
            · have one : (1 : UInt64).toNat = 1 := rfl
              omega
            · rw [UInt64.le_iff_toNat_le]
              have one : (1 : UInt64).toNat = 1 := rfl
              omega
          have husk : e.iteration.1.taskQueue = .husk :: queue := by rw [e.iteration_some first callable, Executor.resolve]
          rw [Executor.iterate, fewer, if_neg Bool.false_ne_true, Executor.iterate_husk husk fewer, Option.map_none]

/-- Alone, the loop serves the empty queue only, and does not return with two tasks. -/
theorem busyWaitFor_serves {e : Executor} {tk : Nat} (pending : Pending e tk) :
    (Serves e tk ↔ e.taskQueue = []) ∧
      (2 ≤ e.taskQueue.length → ∀ iterations, e.busyWaitFor tk iterations = none) := by
  refine ⟨?_, pending.stuck⟩
  constructor
  · rintro ⟨final, returned, emptied, -⟩
    rw [← List.length_eq_zero_iff, ← Executor.busyWaitFor_length returned, emptied, List.length_nil]
  · intro empty
    obtain ⟨counter, count, exact'⟩ := pending.counted
    have done : e.done tk = true := by rw [Executor.done_iff count, exact', empty, List.length_nil]
    exact ⟨e, by rw [Executor.busyWaitFor, if_pos done, empty, List.filterMap_nil], empty, done⟩

def onePushed : Executor := (⟨[], true, []⟩ : Executor).call ⟨4, by decide⟩ (.push true)

theorem onePushed_pending : Pending onePushed 0 where
  jobs := by simp [onePushed, Executor.call, Call.tasks, Task.job]
  counted := ⟨1, rfl, rfl⟩

theorem busyWaitFor_serves_pushed :
    (Serves onePushed 0 ↔ onePushed.taskQueue = []) ∧
      (2 ≤ onePushed.taskQueue.length → ∀ iterations, onePushed.busyWaitFor 0 iterations = none) :=
  busyWaitFor_serves onePushed_pending

theorem onePushed_left : ¬ Serves onePushed 0 := by
  rintro ⟨final, returned, emptied, -⟩
  have same := Executor.busyWaitFor_length returned
  rw [emptied] at same
  exact absurd same (by decide)

end PrototypeBundle.ProtoG
