import PrototypeBundle.ProtoG.Machine

set_option autoImplicit false

namespace PrototypeBundle.ProtoG

open Countdown (Batch Board)

variable {cfg : Config}

def Frame.waitingJobs : Frame → List Job
  | .current task => task.job.toList
  | _ => []

def Frame.runningJobs : Frame → List Job
  | .calling job => [job]
  | .resolving job => [job]
  | _ => []

def queuedJobs (queue : List Task) : List Job := queue.filterMap Task.job

def waitingJobs (stack : List Frame) : List Job := stack.flatMap Frame.waitingJobs

def runningJobs (stack : List Frame) : List Job := stack.flatMap Frame.runningJobs

theorem queuedJobs_cons (task : Task) (queue : List Task) :
    queuedJobs (task :: queue) = task.job.toList ++ queuedJobs queue := by
  cases found : task.job with
  | none => simp [queuedJobs, found]
  | some job => simp [queuedJobs, found]

@[simp] theorem waitingJobs_cons (frame : Frame) (stack : List Frame) :
    waitingJobs (frame :: stack) = frame.waitingJobs ++ waitingJobs stack := rfl

@[simp] theorem runningJobs_cons (frame : Frame) (stack : List Frame) :
    runningJobs (frame :: stack) = frame.runningJobs ++ runningJobs stack := rfl

theorem filterMap_mapIdx {α β γ δ : Type} {f : β → Option γ} {made : Nat → α → β} {kept : Nat → δ → γ} {k : α → δ}
    (same : ∀ i a, f (made i a) = some (kept i (k a))) (list : List α) :
    (list.mapIdx made).filterMap f = (list.map k).mapIdx kept := by
  induction list generalizing made kept with
  | nil => rfl
  | cons a rest ih =>
      rw [List.mapIdx_cons, List.filterMap_cons_some (same 0 a), List.map_cons, List.mapIdx_cons]
      rw [ih fun i b => same (i + 1) b]

theorem Call.tasks_jobs (c : Call) (tk : Nat) : queuedJobs (c.tasks cfg tk) = (c.batch cfg).entries tk := by
  cases c with
  | make initialUnresolved => rfl
  | push callback => cases callback <;> rfl
  | pushParallel size =>
      exact filterMap_mapIdx (f := Task.job) (k := some) (fun _ _ => rfl) (chunks cfg.jobDiv size)

theorem Call.batch_count (c : Call) : (c.batch cfg).count = (c.initialUnresolved cfg).toNat := by
  cases c with
  | make initialUnresolved => rfl
  | push callback => rfl
  | pushParallel size =>
      have bound := cfg.threadCount.toNat_lt
      have fits : cfg.jobDiv < 2 ^ 64 := by unfold Config.jobDiv; omega
      exact (UInt64.toNat_ofNat_of_lt' fits).symm

def pending (e : Executor) (stack : List Frame) : Multiset Job := queuedJobs e.taskQueue + waitingJobs stack

inductive Effect (cfg : Config) (e : Executor) (stack : List Frame) : Executor → List Frame → List Event → Prop where
  | quiet {next : Executor} {rest : List Frame} (counters : next.unresolved = e.unresolved)
      (waiting : pending next rest = pending e stack) (running : runningJobs rest = runningJobs stack) :
      Effect cfg e stack next rest []
  | issue (c : Call) : Effect cfg e stack (e.call cfg c) stack [.issue (c.batch cfg)]
  | start (job : Job) {rest : List Frame} (waiting : pending e stack = job ::ₘ pending e rest)
      (running : runningJobs rest = job :: runningJobs stack) : Effect cfg e stack e rest [.start job]
  | finish (job : Job) {rest : List Frame} (waiting : waitingJobs rest = waitingJobs stack)
      (running : runningJobs stack = job :: runningJobs rest) :
      Effect cfg e stack (e.resolve job.batch) rest [.finish job]

theorem turn_effect {e next : Executor} {act : Act} {stack rest : List Frame} {events : List Event}
    (taken : turn cfg e act stack = some (next, rest, events)) : Effect cfg e stack next rest events := by
  unfold turn at taken
  split at taken
  · -- `dequeue`: the front entry goes from the queue to the worker
    split at taken
    · cases taken
    · rename_i stack front queue found
      cases taken
      refine Effect.quiet rfl ?_ rfl
      simp only [pending, found, queuedJobs_cons, waitingJobs_cons, Frame.waitingJobs, ← Multiset.coe_add]
      abel
  · -- `leave`
    simp only [Option.ite_none_right_eq_some, Option.some.injEq, Prod.mk.injEq] at taken
    obtain ⟨_, rfl, rfl, rfl⟩ := taken
    exact Effect.quiet rfl rfl rfl
  · -- `invoke`
    rename_i task stack
    split at taken
    · rename_i empty
      cases taken
      exact Effect.quiet rfl (by simp [pending, Frame.waitingJobs, empty]) rfl
    · rename_i job found
      cases taken
      refine Effect.start job ?_ rfl
      simp [pending, Frame.waitingJobs, found]
  · cases taken
    exact Effect.quiet rfl rfl rfl
  · cases taken
    exact Effect.quiet rfl rfl rfl
  · cases taken
    exact Effect.finish _ rfl rfl
  · -- `call`
    simp only [Option.ite_none_right_eq_some, Option.some.injEq, Prod.mk.injEq] at taken
    obtain ⟨_, rfl, rfl, rfl⟩ := taken
    exact Effect.issue _
  · -- `busyWaitFor`
    simp only [Option.ite_none_right_eq_some] at taken
    obtain ⟨_, taken⟩ := taken
    split at taken <;> cases taken
    · exact Effect.quiet rfl rfl rfl
    · exact Effect.quiet rfl rfl rfl
  · -- `take`: the husk that stays in the queue has no job
    split at taken
    · cases taken
      exact Effect.quiet rfl rfl rfl
    · rename_i stack _ front queue found
      cases taken
      refine Effect.quiet rfl ?_ rfl
      have husk : queuedJobs (.husk :: queue) = queuedJobs queue := rfl
      simp only [pending, found, husk, queuedJobs_cons, waitingJobs_cons, Frame.waitingJobs, List.nil_append,
        ← Multiset.coe_add]
      abel
  · -- `test`
    split at taken <;> cases taken
    · exact Effect.quiet rfl rfl rfl
    · exact Effect.quiet rfl rfl rfl
  · cases taken
    exact Effect.quiet rfl rfl rfl
  · cases taken

structure Matches (s : State) (board : Board (Option Span)) : Prop where
  inv : board.Inv
  waiting : board.waiting = queuedJobs s.executor.taskQueue + s.threads.flatMap waitingJobs
  running : board.running = s.threads.flatMap runningJobs
  tokens : s.executor.unresolved.length = board.issued.length
  counters : ∀ tk batch unresolved, board.issued[tk]? = some batch → s.executor.unresolved[tk]? = some unresolved →
    unresolved.toNat = board.left tk batch

theorem initial_threads {f : List Frame → List Job} (worker : f [.worker] = []) (client : f [.client] = [])
    (clients : Nat) : (State.initial cfg clients).threads.flatMap f = [] := by
  simp [State.initial, List.flatMap_replicate, worker, client]

theorem initial_matches (clients : Nat) : Matches (State.initial cfg clients) .empty where
  inv := Board.empty_inv
  waiting := by rw [initial_threads rfl rfl]; rfl
  running := by rw [initial_threads rfl rfl]; rfl
  tokens := rfl
  counters := fun tk batch unresolved issued => by simp [Board.empty] at issued

section Matched

variable {s : State} {board : Board (Option Span)} {t : Nat} {stack rest : List Frame}

theorem Matches.quiet (related : Matches s board) (found : s.threads[t]? = some stack) {next : Executor}
    (counters : next.unresolved = s.executor.unresolved) (waiting : pending next rest = pending s.executor stack)
    (running : runningJobs rest = runningJobs stack) : Matches ⟨next, s.threads.set t rest⟩ board := by
  obtain ⟨others, before, after⟩ := Countdown.flatMap_set waitingJobs found
  obtain ⟨othersRunning, beforeRunning, afterRunning⟩ := Countdown.flatMap_set runningJobs found
  exact {
    inv := related.inv
    waiting := by
      rw [after, ← add_assoc]
      change _ = pending next rest + others
      rw [waiting, related.waiting, before, pending, add_assoc]
    running := by rw [related.running, afterRunning, running, beforeRunning]
    tokens := by rw [counters, related.tokens]
    counters := by rw [counters]; exact related.counters }

theorem Matches.issue (related : Matches s board) (found : s.threads[t]? = some stack) (c : Call) :
    ∃ board', board.step (.issue (c.batch cfg)) = some board' ∧
      Matches ⟨s.executor.call cfg c, s.threads.set t stack⟩ board' := by
  obtain ⟨bound, rfl⟩ := List.getElem?_eq_some_iff.mp found
  rw [List.set_getElem_self]
  refine ⟨_, rfl, ?_⟩
  exact {
    inv := related.inv.step_inv (show board.step (.issue (c.batch cfg)) = _ from rfl)
    waiting := by
      have jobs : queuedJobs (s.executor.call cfg c).taskQueue =
          queuedJobs s.executor.taskQueue ++ (c.batch cfg).entries board.issued.length := by
        rw [← related.tokens, ← Call.tasks_jobs]
        exact List.filterMap_append
      change board.waiting + _ = _
      rw [jobs, related.waiting, ← Multiset.coe_add, add_right_comm]
    running := related.running
    tokens := by simp [Executor.call, related.tokens]
    counters := fun tk batch unresolved issued counter => by
      change (s.executor.unresolved ++ [_])[tk]? = some unresolved at counter
      change (board.issued ++ [_])[tk]? = some batch at issued
      by_cases old : tk < board.issued.length
      · rw [List.getElem?_append_left old] at issued
        rw [List.getElem?_append_left (related.tokens ▸ old)] at counter
        exact related.counters tk batch unresolved issued counter
      · have last := (List.getElem?_eq_some_iff.mp issued).1
        have same : tk = board.issued.length := by simp at last; omega
        rw [same, ← related.tokens] at counter
        rw [same] at issued
        simp only [List.getElem?_concat_length, Option.some.injEq] at issued counter
        subst same issued counter
        change _ = (c.batch cfg).count - board.ended board.issued.length
        rw [related.inv.ended_fresh, Call.batch_count, Nat.sub_zero] }

theorem Matches.start (related : Matches s board) (found : s.threads[t]? = some stack) {job : Job}
    (waiting : pending s.executor stack = job ::ₘ pending s.executor rest)
    (running : runningJobs rest = job :: runningJobs stack) :
    ∃ board', board.step (.start job) = some board' ∧ Matches ⟨s.executor, s.threads.set t rest⟩ board' := by
  obtain ⟨others, before, after⟩ := Countdown.flatMap_set waitingJobs found
  obtain ⟨othersRunning, beforeRunning, afterRunning⟩ := Countdown.flatMap_set runningJobs found
  have split : board.waiting = job ::ₘ (pending s.executor rest + others) := by
    rw [related.waiting, before, ← add_assoc, ← Multiset.cons_add, ← waiting, pending]
  have member : job ∈ board.waiting := by rw [split]; exact Multiset.mem_cons_self _ _
  refine ⟨_, Board.step_start member, ?_⟩
  exact {
    inv := related.inv.step_inv (Board.step_start member)
    waiting := by
      change board.waiting.erase job = _
      rw [split, Multiset.erase_cons_head, after, pending, add_assoc]
    running := by
      change job ::ₘ board.running = _
      rw [related.running, beforeRunning, afterRunning, running, ← Multiset.cons_coe, Multiset.cons_add]
    tokens := related.tokens
    counters := related.counters }

theorem Matches.finish (related : Matches s board) (found : s.threads[t]? = some stack) {job : Job}
    (waiting : waitingJobs rest = waitingJobs stack) (running : runningJobs stack = job :: runningJobs rest) :
    ∃ board', board.step (.finish job) = some board' ∧
      Matches ⟨s.executor.resolve job.batch, s.threads.set t rest⟩ board' := by
  obtain ⟨others, before, after⟩ := Countdown.flatMap_set waitingJobs found
  obtain ⟨othersRunning, beforeRunning, afterRunning⟩ := Countdown.flatMap_set runningJobs found
  have split : board.running = job ::ₘ (runningJobs rest + othersRunning) := by
    rw [related.running, beforeRunning, running, ← Multiset.cons_coe, Multiset.cons_add]
  have member : job ∈ board.running := by rw [split]; exact Multiset.mem_cons_self _ _
  refine ⟨_, Board.step_finish member, ?_⟩
  exact {
    inv := related.inv.step_inv (Board.step_finish member)
    waiting := by
      change board.waiting = _
      rw [related.waiting, before, after, waiting]
      rfl
    running := by
      change board.running.erase job = _
      rw [split, Multiset.erase_cons_head, afterRunning]
    tokens := (List.length_modify ..).trans related.tokens
    counters := fun tk batch unresolved issued counter => by
      change (s.executor.unresolved.modify job.batch (· - 1))[tk]? = some unresolved at counter
      change unresolved.toNat = batch.count - (board.finished ++ [job]).countP (·.batch = tk)
      rw [Countdown.countP_concat]
      change unresolved.toNat = batch.count - (board.ended tk + _)
      by_cases same : job.batch = tk
      · -- the job still runs, so that its counter is not zero yet
        subst same
        have room := related.inv.ended_lt member issued
        rw [List.getElem?_modify_eq, Option.map_eq_map, Option.map_eq_some_iff] at counter
        obtain ⟨old, counter, rfl⟩ := counter
        have value := related.counters job.batch batch old issued counter
        have positive : (1 : UInt64) ≤ old := by
          rw [UInt64.le_iff_toNat_le, value]
          change 1 ≤ batch.count - board.ended job.batch
          omega
        rw [UInt64.toNat_sub_of_le _ _ positive, value, Board.left, if_pos rfl]
        change _ - 1 = _
        omega
      · rw [List.getElem?_modify_ne (· - 1) s.executor.unresolved same] at counter
        rw [if_neg same, Nat.add_zero]
        exact related.counters tk batch unresolved issued counter }

end Matched

theorem perform_matches {s next : State} {board : Board (Option Span)} {a : Nat × Act} (related : Matches s board)
    (taken : s.step cfg a = some next) :
    ∃ board', Runs.exec Board.step board (s.emit cfg a) = some board' ∧ Matches next board' := by
  obtain ⟨stack, e, rest, found, rfl, turned⟩ := State.step_turn taken
  generalize s.emit cfg a = events at turned ⊢
  have one {event : Event} {reached : State}
      (stepped : ∃ board', board.step event = some board' ∧ Matches reached board') :
      ∃ board', Runs.exec Board.step board [event] = some board' ∧ Matches reached board' := by
    obtain ⟨board', taken, related⟩ := stepped
    exact ⟨board', by simp [Runs.exec, taken], related⟩
  cases turn_effect turned with
  | quiet counters waiting running => exact ⟨board, rfl, related.quiet found counters waiting running⟩
  | issue c => exact one (related.issue found c)
  | start job waiting running => exact one (related.start found waiting running)
  | finish job waiting running => exact one (related.finish found waiting running)

section Runs

variable {clients : Nat} {actions : List (Nat × Act)} {final : State}

def State.history (cfg : Config) (clients : Nat) (actions : List (Nat × Act)) : List Event :=
  Runs.trace (State.step cfg) (State.emit cfg) (State.initial cfg clients) actions

theorem run_matches (run : Runs.exec (State.step cfg) (State.initial cfg clients) actions = some final) :
    ∃ board, Matches final board ∧ board.issued = Countdown.issued (State.history cfg clients actions) ∧
      board.started = Countdown.started (State.history cfg clients actions) ∧
      board.finished = Countdown.finished (State.history cfg clients actions) := by
  obtain ⟨board, driven, related⟩ := (Runs.Along.trivial (State.step cfg) _ actions).simulation Matches
    (fun _ _ _ _ related _ taken => perform_matches related taken) (initial_matches clients) run
  have history := Board.exec_history driven
  simp only [Board.empty, List.nil_append] at history
  exact ⟨board, related, history⟩

def calledSpans (history : List Event) (tk : Nat) : List Span :=
  ((Countdown.started history).filter (·.batch = tk)).filterMap Countdown.Item.content

theorem called_token {before rest : List (Nat × Act)} {t : Nat} {c : Call} {middle : State}
    (first : Runs.exec (State.step cfg) (State.initial cfg clients) before = some middle)
    (run : Runs.exec (State.step cfg) (State.initial cfg clients) (before ++ (t, .call c) :: rest) = some final) :
    (Countdown.issued (State.history cfg clients (before ++ (t, .call c) :: rest)))[middle.executor.unresolved.length]? =
      some (c.batch cfg) := by
  obtain ⟨board, related, issuedBefore, _⟩ := run_matches first
  obtain ⟨middle', first', run⟩ := Runs.exec_append.mp run
  obtain rfl := Option.some.inj (first.symm.trans first')
  obtain ⟨next, taken, _⟩ := Runs.exec_cons.mp run
  have emitted : State.emit cfg middle (t, .call c) = [.issue (c.batch cfg)] := by
    obtain ⟨stack, e, rest, found, -, turned⟩ := State.step_turn taken
    cases stack with
    | nil => simp [turn] at turned
    | cons frame stack =>
        simp only [turn, Option.ite_none_right_eq_some, Option.some.injEq, Prod.mk.injEq] at turned
        exact turned.2.2.2.symm
  rw [State.history, Runs.trace_append _ first, Countdown.issued, List.filterMap_append]
  change (Countdown.issued (State.history cfg clients before) ++ _)[_]? = _
  rw [← issuedBefore, related.tokens, List.getElem?_append_right (Nat.le_refl _), Nat.sub_self]
  simp [Runs.trace, emitted]

theorem parallel_spans (cfg : Config) (size tk : Nat) :
    (((Call.pushParallel size).batch cfg).entries tk).filterMap Countdown.Item.content = chunks cfg.jobDiv size := by
  have contents := Batch.entries_content ((Call.pushParallel size).batch cfg) tk
  rw [← Function.id_comp Countdown.Item.content, ← List.filterMap_map, contents]
  simp [Call.batch, List.filterMap_map]

end Runs

theorem tasks_accounted (cfg : Config) (clients : Nat) {actions : List (Nat × Act)} {final : State}
    (run : Runs.exec (State.step cfg) (State.initial cfg clients) actions = some final) :
    let history := State.history cfg clients actions
    (Countdown.started history).Nodup ∧
    (∀ tk batch, (Countdown.issued history)[tk]? = some batch → ∃ unresolved,
      final.executor.unresolved[tk]? = some unresolved ∧
        unresolved.toNat + (Countdown.finished history).countP (·.batch = tk) = batch.count ∧
        (final.executor.done tk → ∀ job ∈ batch.entries tk, job ∈ Countdown.finished history)) ∧
    ∀ before rest t size middle, actions = before ++ (t, .call (.pushParallel size)) :: rest →
      Runs.exec (State.step cfg) (State.initial cfg clients) before = some middle →
      final.executor.done middle.executor.unresolved.length →
      ((calledSpans history middle.executor.unresolved.length).flatMap Span.elements).Perm (List.range size) := by
  intro history
  obtain ⟨board, related, issued, started, finished⟩ := run_matches run
  have counter {tk : Nat} {batch : Batch (Option Span)} (found : (Countdown.issued history)[tk]? = some batch) :
      ∃ unresolved, final.executor.unresolved[tk]? = some unresolved ∧
        unresolved.toNat + (Countdown.finished history).countP (·.batch = tk) = batch.count := by
    rw [← issued] at found
    have bound := (List.getElem?_eq_some_iff.mp found).1
    rw [← related.tokens] at bound
    have value := related.counters tk batch _ found (List.getElem?_eq_getElem bound)
    have below := related.inv.ended_le found
    refine ⟨_, List.getElem?_eq_getElem bound, ?_⟩
    rw [value, ← finished]
    exact Nat.sub_add_cancel below
  have allEnded {tk : Nat} {batch : Batch (Option Span)} (found : (Countdown.issued history)[tk]? = some batch)
      (done : final.executor.done tk) :
      (batch.entries tk).Perm ((Countdown.finished history).filter (·.batch = tk)) ∧
        (batch.entries tk).Perm ((Countdown.started history).filter (·.batch = tk)) := by
    obtain ⟨unresolved, counted, total⟩ := counter found
    have zero : unresolved = 0 := by simpa [Executor.done, counted] using done
    rw [← issued] at found
    rw [← started, ← finished]
    refine related.inv.all_ended found ?_
    rw [Board.ended, finished, ← total, zero]
    exact (Nat.zero_add _).symm
  refine ⟨started ▸ related.inv.started_nodup, fun tk batch found => ?_, ?_⟩
  · obtain ⟨unresolved, counted, total⟩ := counter found
    refine ⟨unresolved, counted, total, fun done job member => ?_⟩
    exact (List.mem_filter.mp ((allEnded found done).1.mem_iff.mp member)).1
  · rintro before rest t size middle rfl first done
    have called := (allEnded (called_token first run) done).2
    have spans := (called.symm.filterMap Countdown.Item.content).flatMap_right Span.elements
    rwa [parallel_spans, chunks_elements cfg.jobDiv_pos] at spans

-- The worker and the caller of `busy_wait_for` share the chunks, and the worker meets the caller's husks.
def sharedRun : List (Nat × Act) :=
  [(1, .call (.pushParallel 20)), (0, .dequeue), (0, .invoke), (1, .busyWaitFor 0)] ++
    (List.replicate 7 [(1, Act.take), (1, .invoke), (1, .throws), (1, .resolve), (1, .test), (0, .returns),
      (0, .resolve), (0, .dequeue), (0, .invoke), (0, .dequeue), (0, .invoke)]).flatten ++
    [(0, .returns), (0, .resolve), (1, .take), (1, .invoke), (1, .returns), (1, .resolve), (1, .test)]

theorem shared_run_accounted : ∃ final,
    Runs.exec (State.step ⟨1, by decide⟩) (State.initial ⟨1, by decide⟩ 1) sharedRun = some final ∧
      final.executor.done 0 ∧
      ((calledSpans (State.history ⟨1, by decide⟩ 1 sharedRun) 0).flatMap Span.elements).Perm (List.range 20) := by
  have finishes : ((Runs.exec (State.step ⟨1, by decide⟩) (State.initial ⟨1, by decide⟩ 1) sharedRun).any
      fun final => final.executor.done 0) = true := by decide +kernel
  obtain ⟨final, run, done⟩ := (Option.any_eq_true _ _).mp finishes
  exact ⟨final, run, done, (tasks_accounted _ 1 run).2.2 [] _ 1 20 _ rfl rfl done⟩

end PrototypeBundle.ProtoG
