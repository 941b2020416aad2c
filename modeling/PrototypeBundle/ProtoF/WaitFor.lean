import PrototypeBundle.ProtoF.Accounting

set_option autoImplicit false

namespace PrototypeBundle.ProtoF

open ProtoG (Span)
open Runs

def Executor.resolve (e : Executor) (tk : Nat) : Executor := { e with unresolved := e.unresolved.modify tk (· - 1) }

-- One pass of the loop up to its test, with the tasks that it executes.
def Executor.iteration (e : Executor) : Executor × List Task :=
  match e.globalLane.pop with
  | none => (e, [])
  | some (task, globalLane) => (({ e with globalLane } : Executor).resolve task.batch, [task])

-- `none` when the given number of iterations has not been enough.
def Executor.iterate (e : Executor) (tk : Nat) : Nat → Option (Executor × List Task)
  | 0 => none
  | iterations + 1 =>
      if e.iteration.1.done tk then some e.iteration
      else (e.iteration.1.iterate tk iterations).map fun (final, tasks) => (final, e.iteration.2 ++ tasks)

def Executor.waitFor (e : Executor) (tk : Nat) (iterations : Nat) : Option (Executor × List Task) :=
  if e.done tk then some (e, []) else e.iterate tk iterations

def own (tk : Nat) (tasks : List Task) : Nat := tasks.countP (·.batch = tk)

/-- What the wait executes, from the end of the queue, and what it leaves there. No task is executed once the token is done. -/
structure Served (e final : Executor) (tk : Nat) (executed : List Task) : Prop where
  order : e.globalLane.taskQueue = final.globalLane.taskQueue ++ executed.reverse
  done : final.done tk = true
  needed : ∀ earlier task later, executed = earlier ++ task :: later →
    ∀ counter, e.unresolved[tk]? = some counter → own tk earlier < counter.toNat

variable {e final : Executor} {tk : Nat} {counter : UInt64}

theorem Executor.iteration_nil (empty : e.globalLane.taskQueue = []) : e.iteration = (e, []) := by
  rw [iteration, ExecLane.pop, empty]
  rfl

theorem Executor.iteration_concat {queue : List Task} {task : Task} (last : e.globalLane.taskQueue = queue ++ [task]) :
    e.iteration = (({ e with globalLane := ⟨queue⟩ } : Executor).resolve task.batch, [task]) := by
  rw [iteration, ExecLane.pop, last, List.getLast?_concat, List.dropLast_concat]
  rfl

theorem Executor.done_iff (count : e.unresolved[tk]? = some counter) : e.done tk = true ↔ counter.toNat = 0 := by
  rw [done, count, beq_iff_eq, Option.some.injEq, ← UInt64.toNat_inj]
  rfl

theorem Executor.resolve_own (count : e.unresolved[tk]? = some counter) : (e.resolve tk).unresolved[tk]? = some (counter - 1) := by
  rw [resolve, List.getElem?_modify_eq, count]
  rfl

theorem Executor.resolve_other {other : Nat} (different : other ≠ tk) (count : e.unresolved[tk]? = some counter) :
    (e.resolve other).unresolved[tk]? = some counter := by
  rw [resolve, List.getElem?_modify_ne (· - 1) e.unresolved different, count]

theorem sub_one {c : UInt64} (positive : 0 < c.toNat) : (c - 1).toNat = c.toNat - 1 := by
  have one : (1 : UInt64).toNat = 1 := rfl
  rw [UInt64.toNat_sub_of_le, one]
  rw [UInt64.le_iff_toNat_le, one]
  exact positive

theorem Executor.iteration_counter {queue : List Task} {task : Task} (last : e.globalLane.taskQueue = queue ++ [task])
    (count : e.unresolved[tk]? = some counter) (positive : 0 < counter.toNat) :
    ∃ left, e.iteration.1.unresolved[tk]? = some left ∧ left.toNat + own tk [task] = counter.toNat := by
  rw [iteration_concat last]
  by_cases same : task.batch = tk
  · refine ⟨counter - 1, ?_, ?_⟩
    · rw [same]
      exact resolve_own count
    · rw [sub_one positive, own, List.countP_singleton, decide_eq_true same, if_pos rfl]
      omega
  · refine ⟨counter, resolve_other same count, ?_⟩
    rw [own, List.countP_singleton, decide_eq_false same, if_neg Bool.false_ne_true, Nat.add_zero]

theorem Executor.iterate_stuck (count : e.unresolved[tk]? = some counter) (few : own tk e.globalLane.taskQueue < counter.toNat)
    (iterations : Nat) : e.iterate tk iterations = none := by
  induction iterations generalizing e counter with
  | zero => rfl
  | succ iterations ih =>
      rcases List.eq_nil_or_concat e.globalLane.taskQueue with empty | ⟨queue, task, last⟩
      · have busy : ¬ e.done tk = true := by
          rw [done_iff count]
          omega
        rw [iterate, iteration_nil empty, if_neg busy, ih count few, Option.map_none]
      · rw [List.concat_eq_append] at last
        obtain ⟨left, later, total⟩ := iteration_counter last count (Nat.zero_lt_of_lt few)
        have queued : e.iteration.1.globalLane.taskQueue = queue := by
          rw [iteration_concat last]
          rfl
        rw [last, own, List.countP_append] at few
        change own tk queue + own tk [task] < _ at few
        have busy : ¬ e.iteration.1.done tk = true := by
          rw [done_iff later]
          omega
        rw [iterate, if_neg busy, ih later (by rw [queued]; omega), Option.map_none]

theorem Executor.iterate_serves (count : e.unresolved[tk]? = some counter) (positive : 0 < counter.toNat)
    (enough : counter.toNat ≤ own tk e.globalLane.taskQueue) :
    ∃ final executed, e.iterate tk e.globalLane.taskQueue.length = some (final, executed) ∧ Served e final tk executed := by
  generalize length : e.globalLane.taskQueue.length = iterations
  induction iterations generalizing e counter with
  | zero =>
      rw [List.length_eq_zero_iff.mp length] at enough
      simp [own] at enough
      omega
  | succ iterations ih =>
      rcases List.eq_nil_or_concat e.globalLane.taskQueue with empty | ⟨queue, task, last⟩
      · rw [empty] at length
        cases length
      · rw [List.concat_eq_append] at last
        obtain ⟨left, later, total⟩ := iteration_counter last count positive
        have queued : e.iteration.1.globalLane.taskQueue = queue := by
          rw [iteration_concat last]
          rfl
        have executed : e.iteration.2 = [task] := by rw [iteration_concat last]
        rw [last, own, List.countP_append] at enough
        change _ ≤ own tk queue + own tk [task] at enough
        rw [iterate]
        by_cases zero : left.toNat = 0
        · have done := (done_iff later).mpr zero
          refine ⟨e.iteration.1, [task], by rw [if_pos done, ← executed], ?_, done, ?_⟩
          · rw [queued, last]
            rfl
          · intro earlier other rest split counter' count'
            obtain rfl := Option.some.inj (count.symm.trans count')
            cases earlier with
            | nil => exact positive
            | cons first earlier => simp at split
        · have busy : ¬ e.iteration.1.done tk = true := by rwa [done_iff later]
          have shorter : e.iteration.1.globalLane.taskQueue.length = iterations := by
            rw [last, List.length_append, List.length_singleton] at length
            rw [queued]
            omega
          obtain ⟨final, rest, returned, served⟩ := ih later (by omega) (by rw [queued]; omega) shorter
          refine ⟨final, task :: rest, by rw [if_neg busy, returned, executed]; rfl, ?_, served.done, ?_⟩
          · rw [last, ← queued, served.order, List.reverse_cons, List.append_assoc]
          · intro earlier other rest' split counter' count'
            obtain rfl := Option.some.inj (count.symm.trans count')
            cases earlier with
            | nil => exact positive
            | cons first earlier =>
                obtain ⟨rfl, tail⟩ := List.cons.inj split
                have fewer := served.needed earlier other rest' tail left later
                have first : own tk ([task] ++ earlier) = own tk [task] + own tk earlier := List.countP_append
                rw [List.singleton_append] at first
                omega

section Machine

variable (cfg : Config) (gone : Nat → Bool) (t : Nat)

def soloStep (s : Executor × List Frame) (a : Act) : Option (Executor × List Frame) :=
  (turn cfg gone t s.1 a s.2).map fun next => (next.1, next.2.1)

def soloEmit (s : Executor × List Frame) (a : Act) : List (Countdown.Entry (Option Span)) :=
  ((turn cfg gone t s.1 a s.2).map fun next => next.2.2).getD []

def startedBy (s : Executor × List Frame) (actions : List Act) : List Task :=
  Countdown.started (Countdown.events (trace (soloStep cfg gone t) (soloEmit cfg gone t) s actions))

variable {cfg gone t}

theorem startedBy_append {s middle : Executor × List Frame} {first : List Act}
    (run : exec (soloStep cfg gone t) s first = some middle) (second : List Act) :
    startedBy cfg gone t s (first ++ second) = startedBy cfg gone t s first ++ startedBy cfg gone t middle second := by
  rw [startedBy, trace_append _ run, Countdown.events, List.filterMap_append, Countdown.started, List.filterMap_append]
  rfl

theorem startedBy_quiet {s next : Executor × List Frame} {a : Act} (taken : soloStep cfg gone t s a = some next)
    (silent : soloEmit cfg gone t s a = []) (actions : List Act) :
    startedBy cfg gone t s (a :: actions) = startedBy cfg gone t next actions := by
  rw [startedBy, trace_cons _ taken, silent, List.nil_append, startedBy]

theorem iteration_alive (e : Executor) : e.iteration.1.laneDestroyed = e.laneDestroyed := by
  rw [Executor.iteration]
  split <;> rfl

theorem iteration_run (alive : e.laneDestroyed = false) (tk : Nat) (stack : List Frame) :
    ∃ actions, exec (soloStep cfg gone t) (e, .waiting tk :: stack) actions =
        some (e.iteration.1, .testing tk :: stack) ∧
      startedBy cfg gone t (e, .waiting tk :: stack) actions = e.iteration.2 := by
  rw [Executor.iteration]
  cases popped : e.globalLane.pop with
  | none =>
      exact ⟨[.take], by simp [exec, soloStep, turn, popped, alive], by
        simp [startedBy, trace, soloStep, soloEmit, turn, popped, alive, Countdown.events, Countdown.started]⟩
  | some found =>
      exact ⟨[.take, .returns, .resolve], by simp [exec, soloStep, turn, popped, alive, Executor.resolve], by
        simp [startedBy, trace, soloStep, soloEmit, turn, popped, alive, Countdown.events, Countdown.started]⟩

theorem iterate_run {iterations : Nat} {executed : List Task} (alive : e.laneDestroyed = false) (stack : List Frame)
    (returned : e.iterate tk iterations = some (final, executed)) :
    ∃ actions, exec (soloStep cfg gone t) (e, .waiting tk :: stack) actions = some (final, stack) ∧
      startedBy cfg gone t (e, .waiting tk :: stack) actions = executed := by
  induction iterations generalizing e executed with
  | zero => simp [Executor.iterate] at returned
  | succ iterations ih =>
      obtain ⟨pass, run, starts⟩ := @iteration_run _ cfg gone t alive tk stack
      rw [Executor.iterate] at returned
      cases done : e.iteration.1.done tk with
      | true =>
          rw [done, if_pos rfl, Option.some.injEq] at returned
          have leaves : soloStep cfg gone t (e.iteration.1, .testing tk :: stack) .test = some (e.iteration.1, stack) := by
            simp [soloStep, turn, done]
          refine ⟨pass ++ [.test], exec_append.mpr ⟨_, run, exec_cons.mpr ⟨_, leaves, ?_⟩⟩, ?_⟩
          · rw [returned]
            rfl
          · rw [startedBy_append run, starts, startedBy_quiet leaves (by simp [soloEmit, turn, done]), returned]
            exact List.append_nil _
      | false =>
          rw [done, if_neg Bool.false_ne_true, Option.map_eq_some_iff] at returned
          obtain ⟨⟨last, later⟩, returned, same⟩ := returned
          obtain ⟨rfl, rfl⟩ := Prod.mk.inj same
          have again : soloStep cfg gone t (e.iteration.1, .testing tk :: stack) .test =
              some (e.iteration.1, .waiting tk :: stack) := by
            simp [soloStep, turn, done]
          obtain ⟨actions, onward, more⟩ := ih ((iteration_alive e).trans alive) returned
          refine ⟨pass ++ .test :: actions, exec_append.mpr ⟨_, run, exec_cons.mpr ⟨_, again, onward⟩⟩, ?_⟩
          rw [startedBy_append run, starts, startedBy_quiet again (by simp [soloEmit, turn, done]), more]

theorem waitFor_run {iterations : Nat} {executed : List Task} {frame : Frame} (alive : e.laneDestroyed = false)
    (stack : List Frame) (free : frame.free = true) (made : tk < e.unresolved.length)
    (returned : e.waitFor tk iterations = some (final, executed)) :
    ∃ actions, exec (soloStep cfg gone t) (e, frame :: stack) (.waitFor tk :: actions) = some (final, frame :: stack) ∧
      startedBy cfg gone t (e, frame :: stack) (.waitFor tk :: actions) = executed := by
  rw [Executor.waitFor] at returned
  cases done : e.done tk with
  | true =>
      rw [done, if_pos rfl, Option.some.injEq] at returned
      obtain ⟨rfl, rfl⟩ := Prod.mk.inj returned
      exact ⟨[], by simp [exec, soloStep, turn, free, made, done], by
        simp [startedBy, trace, soloStep, soloEmit, turn, free, made, done, Countdown.events, Countdown.started]⟩
  | false =>
      rw [done, if_neg Bool.false_ne_true] at returned
      have enters : soloStep cfg gone t (e, frame :: stack) (.waitFor tk) = some (e, .waiting tk :: frame :: stack) := by
        simp [soloStep, turn, free, made, done]
      obtain ⟨actions, run, starts⟩ := iterate_run alive (frame :: stack) returned
      refine ⟨actions, exec_cons.mpr ⟨_, enters, run⟩, ?_⟩
      rw [startedBy_quiet enters (by simp [soloEmit, turn, free, made, done]), starts]

end Machine

/-- Alone, the wait returns if and only if the queue has as many tasks of the token as its counter says; then it
executes the tasks from the end of the queue, those of other tokens too, up to the one that makes the token done. -/
theorem waitFor_alone (cfg : Config) (gone : Nat → Bool) (t : Nat) (alive : e.laneDestroyed = false)
    (count : e.unresolved[tk]? = some counter) {frame : Frame} (stack : List Frame) (free : frame.free = true) :
    (counter.toNat ≤ own tk e.globalLane.taskQueue →
      ∃ final executed actions, e.waitFor tk e.globalLane.taskQueue.length = some (final, executed) ∧
        Served e final tk executed ∧
        exec (soloStep cfg gone t) (e, frame :: stack) (.waitFor tk :: actions) = some (final, frame :: stack) ∧
        startedBy cfg gone t (e, frame :: stack) (.waitFor tk :: actions) = executed) ∧
      (own tk e.globalLane.taskQueue < counter.toNat → ∀ iterations, e.waitFor tk iterations = none) := by
  have made : tk < e.unresolved.length := (List.getElem?_eq_some_iff.mp count).1
  constructor
  · intro enough
    obtain ⟨final, executed, returned, served⟩ : ∃ final executed,
        e.waitFor tk e.globalLane.taskQueue.length = some (final, executed) ∧ Served e final tk executed := by
      by_cases zero : counter.toNat = 0
      · have done := (Executor.done_iff count).mpr zero
        exact ⟨e, [], by rw [Executor.waitFor, if_pos done], by simp, done, by simp⟩
      · have busy : ¬ e.done tk = true := by rwa [Executor.done_iff count]
        rw [Executor.waitFor, if_neg busy]
        exact Executor.iterate_serves count (Nat.pos_of_ne_zero zero) enough
    obtain ⟨actions, run, starts⟩ := waitFor_run alive stack free made returned
    exact ⟨final, executed, actions, returned, served, run, starts⟩
  · intro few iterations
    have busy : ¬ e.done tk = true := by
      rw [Executor.done_iff count]
      omega
    rw [Executor.waitFor, if_neg busy]
    exact Executor.iterate_stuck count few iterations

-- Two tasks of token 0 with one of token 1 between them.
def mixed : Executor := ⟨⟨[⟨0, 0, none⟩, ⟨1, 0, none⟩, ⟨0, 1, none⟩]⟩, false, fun _ => false, [1, 1], false⟩

theorem waitFor_alone_mixed : ∃ final executed, mixed.waitFor 1 3 = some (final, executed) ∧
    Served mixed final 1 executed := by
  have counted : mixed.unresolved[1]? = some 1 := rfl
  have free : Frame.client.free = true := rfl
  obtain ⟨final, executed, -, returned, served, -⟩ :=
    (waitFor_alone ⟨1, by decide⟩ (fun _ => false) 1 rfl counted [] free).1 (by decide)
  exact ⟨final, executed, returned, served⟩

end PrototypeBundle.ProtoF
