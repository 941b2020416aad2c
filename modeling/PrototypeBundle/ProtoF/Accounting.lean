import PrototypeBundle.ProtoF.Machine

set_option autoImplicit false

namespace PrototypeBundle.ProtoF

open ProtoG (Span chunks)
open Countdown (Batch Entry Tally Effect Ledger)

variable {cfg : Config}

def Frame.waitingTasks : Frame → List Task
  | .pushing tasks => tasks
  | _ => []

def Frame.runningTasks : Frame → List Task
  | .calling task => [task]
  | .resolving task => [task]
  | _ => []

def waitingTasks (stack : List Frame) : List Task := stack.flatMap Frame.waitingTasks

def runningTasks (stack : List Frame) : List Task := stack.flatMap Frame.runningTasks

@[simp] theorem waitingTasks_cons (frame : Frame) (stack : List Frame) :
    waitingTasks (frame :: stack) = frame.waitingTasks ++ waitingTasks stack := rfl

@[simp] theorem runningTasks_cons (frame : Frame) (stack : List Frame) :
    runningTasks (frame :: stack) = frame.runningTasks ++ runningTasks stack := rfl

def tally (e : Executor) (stack : List Frame) : Tally (Option Span) where
  waiting := (e.globalLane.taskQueue : Multiset Task) + (waitingTasks stack : Multiset Task)
  running := runningTasks stack
  unresolved := e.unresolved

theorem Call.tasks_entries (c : Call) (tk : Nat) : c.tasks cfg tk = (c.batch cfg).entries tk := by
  cases c with
  | make initialUnresolved => rfl
  | run => rfl
  | runParallel size => refine List.ext_getElem ?_ ?_ <;> simp [tasks, batch, Batch.entries]

theorem Call.batch_count (c : Call) : UInt64.ofNat (c.batch cfg).count = c.initialUnresolved cfg := by
  cases c with
  | make initialUnresolved => exact UInt64.ofNat_toNat
  | run => rfl
  | runParallel size => rfl

theorem Call.batch_fits (c : Call) : (c.batch cfg).count < 2 ^ 64 := by
  cases c with
  | make initialUnresolved => exact initialUnresolved.toNat_lt
  | run => exact (by decide : 1 < 2 ^ 64)
  | runParallel size => exact cfg.jobDiv_lt

theorem ExecLane.pop_queue {l rest : ExecLane} {task : Task} (popped : l.pop = some (task, rest)) :
    l.taskQueue = rest.taskQueue ++ [task] := by
  obtain ⟨last, found, same⟩ := Option.map_eq_some_iff.mp popped
  obtain ⟨rfl, rfl⟩ := Prod.mk.inj same
  exact (List.dropLast_append_getLast? _ found).symm

theorem pop_waiting {l rest : ExecLane} {task : Task} (popped : l.pop = some (task, rest)) (others : Multiset Task) :
    (l.taskQueue : Multiset Task) + others = task ::ₘ ((rest.taskQueue : Multiset Task) + others) := by
  rw [ExecLane.pop_queue popped, ← Multiset.coe_add, Multiset.coe_singleton, ← Multiset.singleton_add]
  abel

theorem turn_effect {gone : Nat → Bool} {t : Nat} {e next : Executor} {act : Act} {stack rest : List Frame}
    {entries : List (Entry (Option Span))} (taken : turn cfg gone t e act stack = some (next, rest, entries)) :
    Effect (tally e stack) (tally next rest) entries := by
  unfold turn at taken
  split at taken
  · -- `stopRequested`
    split at taken <;> cases taken <;> exact .quiet _
  · -- `pop` by a worker
    simp only [Option.ite_none_left_eq_some] at taken
    obtain ⟨-, taken⟩ := taken
    split at taken
    · cases taken
      exact .quiet _
    · rename_i popped
      cases taken
      simp only [tally, pop_waiting popped]
      exact .start ..
  · cases taken
    exact .quiet _
  · rename_i task rest
    cases taken
    exact .lose task _ (runningTasks (.worker :: rest) : Multiset Task) _
  · rename_i task tk rest
    cases taken
    exact .lose task _ (runningTasks (.testing tk :: rest) : Multiset Task) _
  · rename_i task rest
    cases taken
    exact .finish task _ (runningTasks rest : Multiset Task) _
  · -- `call`
    simp only [Option.ite_none_right_eq_some, Option.some.injEq, Prod.mk.injEq] at taken
    obtain ⟨_, rfl, rfl, rfl⟩ := taken
    rename_i c frame rest _
    have issued := Effect.issue (tally e (frame :: rest)) (c.batch cfg) c.batch_fits
    rw [c.batch_count, ← c.tasks_entries] at issued
    have held : (tally e (frame :: rest)).waiting + (c.tasks cfg (tally e (frame :: rest)).unresolved.length : Multiset Task) =
        (e.globalLane.taskQueue : Multiset Task) +
          (waitingTasks (.pushing (c.tasks cfg e.unresolved.length) :: frame :: rest) : Multiset Task) := by
      simp only [tally, waitingTasks_cons (.pushing _), Frame.waitingTasks, ← Multiset.coe_add]
      abel
    rw [held] at issued
    exact issued
  · cases taken
    exact .quiet _
  · -- `push`: a task goes from the frame to the lane
    simp only [Option.ite_none_left_eq_some, Option.some.injEq, Prod.mk.injEq] at taken
    obtain ⟨_, rfl, rfl, rfl⟩ := taken
    rename_i task tasks rest _
    have moved : tally { e with globalLane := e.globalLane.push task } (.pushing tasks :: rest) =
        tally e (.pushing (task :: tasks) :: rest) := by
      simp only [tally, ExecLane.push, waitingTasks_cons, Frame.waitingTasks, Multiset.coe_add, List.append_assoc,
        List.cons_append]
      rfl
    exact moved ▸ .quiet _
  · -- `waitFor`
    simp only [Option.ite_none_right_eq_some] at taken
    obtain ⟨_, taken⟩ := taken
    split at taken <;> cases taken <;> exact .quiet _
  · -- `take`
    simp only [Option.ite_none_left_eq_some] at taken
    obtain ⟨-, taken⟩ := taken
    split at taken
    · cases taken
      exact .quiet _
    · rename_i popped
      cases taken
      simp only [tally, pop_waiting popped]
      exact .start ..
  · -- `test`
    split at taken <;> cases taken <;> exact .quiet _
  · cases taken
    exact .quiet _
  · -- `requestStop`
    split at taken <;> cases taken <;> exact .quiet _
  · cases taken
    exact .quiet _
  · -- `join`
    split at taken
    · simp only [Option.ite_none_right_eq_some, Option.some.injEq, Prod.mk.injEq] at taken
      obtain ⟨_, rfl, rfl, rfl⟩ := taken
      exact .quiet _
    · cases taken
      exact .quiet _
  · cases taken

def State.tally (s : State) : Tally (Option Span) where
  waiting := (s.executor.globalLane.taskQueue : Multiset Task) + (s.threads.flatMap waitingTasks : List Task)
  running := s.threads.flatMap runningTasks
  unresolved := s.executor.unresolved

theorem step_effect {s next : State} {a : Nat × Act} (taken : s.step cfg a = some next) :
    Effect s.tally next.tally (s.emit cfg a) := by
  obtain ⟨stack, e, rest, found, -, rfl, turned⟩ := State.step_turn taken
  obtain ⟨others, before, after⟩ := Countdown.flatMap_set waitingTasks found
  obtain ⟨othersRunning, beforeRunning, afterRunning⟩ := Countdown.flatMap_set runningTasks found
  have framed := (turn_effect turned).frame others othersRunning
  simp only [tally, add_assoc] at framed
  simp only [State.tally, before, after, beforeRunning, afterRunning]
  exact framed

theorem initial_threads {f : List Frame → List Task} (worker : f [.worker] = []) (client : f [.client] = [])
    (clients : Nat) : (State.initial cfg clients).threads.flatMap f = [] := by
  simp [State.initial, List.flatMap_replicate, worker, client]

theorem initial_matches (clients : Nat) : (State.initial cfg clients).tally.Matches .empty where
  inv := Countdown.Board.empty_inv
  waiting := by rw [State.tally, initial_threads rfl rfl]; rfl
  running := by rw [State.tally, initial_threads (f := runningTasks) rfl rfl]; rfl
  tokens := rfl
  counters := fun _ _ _ issued => by simp [Ledger.empty, Countdown.Board.empty] at issued

def State.history (cfg : Config) (clients : Nat) (actions : List (Nat × Act)) : List (Entry (Option Span)) :=
  Runs.trace (State.step cfg) (State.emit cfg) (State.initial cfg clients) actions

section Runs

variable {clients : Nat} {actions : List (Nat × Act)} {final : State}

theorem run_matches (run : Runs.exec (State.step cfg) (State.initial cfg clients) actions = some final) :
    ∃ ledger, Runs.exec Ledger.step .empty (State.history cfg clients actions) = some ledger ∧
      final.tally.Matches ledger :=
  (Runs.Along.trivial (State.step cfg) _ actions).simulation (fun s ledger => s.tally.Matches ledger)
    (fun _ _ _ _ related _ taken => (step_effect taken).matched related) (initial_matches clients) run

def calledSpans (history : List (Entry (Option Span))) (tk : Nat) : List Span :=
  ((Countdown.started (Countdown.events history)).filter (·.batch = tk)).filterMap Countdown.Item.content

theorem called_token {before rest : List (Nat × Act)} {t : Nat} {c : Call} {middle : State}
    (first : Runs.exec (State.step cfg) (State.initial cfg clients) before = some middle)
    (run : Runs.exec (State.step cfg) (State.initial cfg clients) (before ++ (t, .call c) :: rest) = some final) :
    (Countdown.issued (Countdown.events (State.history cfg clients
      (before ++ (t, .call c) :: rest))))[middle.executor.unresolved.length]? = some (c.batch cfg) := by
  obtain ⟨ledger, driven, related⟩ := run_matches first
  obtain ⟨issuedBefore, -⟩ := Countdown.Board.exec_history (Ledger.exec_events driven).1
  obtain ⟨middle', first', run⟩ := Runs.exec_append.mp run
  obtain rfl := Option.some.inj (first.symm.trans first')
  obtain ⟨next, taken, _⟩ := Runs.exec_cons.mp run
  have emitted : State.emit cfg middle (t, .call c) = [.event (.issue (c.batch cfg))] := by
    obtain ⟨stack, e, rest, found, -, -, turned⟩ := State.step_turn taken
    cases stack with
    | nil => simp [turn] at turned
    | cons frame stack =>
        simp only [turn, Option.ite_none_right_eq_some, Option.some.injEq, Prod.mk.injEq] at turned
        exact turned.2.2.2.symm
  have tokens : (Countdown.issued (Countdown.events (State.history cfg clients before))).length =
      middle.executor.unresolved.length := by
    rw [← List.nil_append (Countdown.issued _)]
    exact (congrArg List.length issuedBefore.symm).trans related.tokens.symm
  rw [State.history, Runs.trace_append _ first, Countdown.events, List.filterMap_append, Countdown.issued,
    List.filterMap_append]
  change (Countdown.issued (Countdown.events (State.history cfg clients before)) ++ _)[_]? = _
  rw [← tokens, List.getElem?_append_right (Nat.le_refl _), Nat.sub_self]
  simp [Runs.trace, emitted]

theorem parallel_spans (cfg : Config) (size tk : Nat) :
    (((Call.runParallel size).batch cfg).entries tk).filterMap Countdown.Item.content = chunks cfg.jobDiv size := by
  have contents := Batch.entries_content ((Call.runParallel size).batch cfg) tk
  rw [← Function.id_comp Countdown.Item.content, ← List.filterMap_map, contents]
  simp [Call.batch, List.filterMap_map]

end Runs

/-- The tasks of a token that are queued, that `run_parallel` or `run` has yet to push, and that are being executed. -/
def State.held (s : State) (tk : Nat) : Nat :=
  s.executor.globalLane.taskQueue.countP (·.batch = tk) + (s.threads.flatMap waitingTasks).countP (·.batch = tk) +
    (s.threads.flatMap runningTasks).countP (·.batch = tk)

/-- No task is executed twice; a counter is what it started with less the callbacks of its token that returned,
so that it counts the tasks that are held, and those whose callback threw, which keep it up forever. -/
theorem lane_accounted (cfg : Config) (clients : Nat) {actions : List (Nat × Act)} {final : State}
    (run : Runs.exec (State.step cfg) (State.initial cfg clients) actions = some final) :
    let history := State.history cfg clients actions
    let events := Countdown.events history
    (Countdown.started events).Nodup ∧
    (∀ tk batch, (Countdown.issued events)[tk]? = some batch → ∃ unresolved,
      final.executor.unresolved[tk]? = some unresolved ∧
        unresolved.toNat + (Countdown.finished events).countP (·.batch = tk) = batch.count ∧
        unresolved.toNat =
          batch.count - batch.items.length + (final.held tk + (Countdown.losses history).countP (·.batch = tk)) ∧
        (final.executor.done tk → ∀ task ∈ batch.entries tk, task ∈ Countdown.finished events) ∧
        ∀ task ∈ Countdown.losses history, task.batch = tk → ¬ final.executor.done tk) ∧
    ∀ before rest t size middle, actions = before ++ (t, .call (.runParallel size)) :: rest →
      Runs.exec (State.step cfg) (State.initial cfg clients) before = some middle →
      final.executor.done middle.executor.unresolved.length →
      ((calledSpans history middle.executor.unresolved.length).flatMap Span.elements).Perm (List.range size) := by
  intro history events
  obtain ⟨ledger, driven, related⟩ := run_matches run
  obtain ⟨once, accounted⟩ := related.accounted driven
  have zero {tk : Nat} {unresolved : UInt64} (counter : final.executor.unresolved[tk]? = some unresolved) :
      final.executor.done tk ↔ unresolved = 0 := by
    rw [Executor.done, counter, beq_iff_eq, Option.some.injEq]
  refine ⟨once, fun tk batch found => ?_, ?_⟩
  · obtain ⟨unresolved, counter, total, ended, lost⟩ := accounted tk batch found
    have held := related.held driven found counter
    rw [State.tally, Multiset.countP_add, Multiset.coe_countP, Multiset.coe_countP, Multiset.coe_countP] at held
    refine ⟨unresolved, counter, total, held, fun done task member => ?_, fun task member same done => ?_⟩
    · exact (List.mem_filter.mp ((ended ((zero counter).mp done)).1.mem_iff.mp member)).1
    · exact lost task member same ((zero counter).mp done)
  · rintro before rest t size middle rfl first done
    obtain ⟨unresolved, counter, -, ended, -⟩ := accounted _ _ (called_token first run)
    have called := (ended ((zero counter).mp done)).2
    have spans := (called.symm.filterMap Countdown.Item.content).flatMap_right Span.elements
    rwa [parallel_spans, ProtoG.chunks_elements cfg.jobDiv_pos] at spans

-- The worker has the second task before the last two are pushed, and the client spins until it is finished.
def sharedRun : List (Nat × Act) :=
  [(1, .call (.runParallel 20)), (1, .push), (1, .push), (0, .stopRequested), (0, .pop), (1, .push), (1, .push),
    (1, .push), (1, .waitFor 0)] ++
    (List.replicate 3 [(1, Act.take), (1, .returns), (1, .resolve), (1, .test)]).flatten ++
    [(1, .take), (0, .returns), (0, .resolve), (1, .test)]

theorem lane_accounted_shared : ∃ final,
    Runs.exec (State.step ⟨1, by decide⟩) (State.initial ⟨1, by decide⟩ 1) sharedRun = some final ∧
      final.executor.done 0 ∧
      ((calledSpans (State.history ⟨1, by decide⟩ 1 sharedRun) 0).flatMap Span.elements).Perm (List.range 20) := by
  have finishes : ((Runs.exec (State.step ⟨1, by decide⟩) (State.initial ⟨1, by decide⟩ 1) sharedRun).any
      fun final => final.executor.done 0) = true := by decide +kernel
  obtain ⟨final, run, done⟩ := (Option.any_eq_true _ _).mp finishes
  exact ⟨final, run, done, (lane_accounted _ 1 run).2.2 [] _ 1 20 _ rfl rfl done⟩

end PrototypeBundle.ProtoF
