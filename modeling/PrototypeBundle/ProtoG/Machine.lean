import PrototypeBundle.ProtoG.Chunks

set_option autoImplicit false

/-!
# The executor as a machine

Workers and client threads each have a stack of frames. A section under the
executor's mutex, a test of a token and a decrement of its counter are one
step each.
-/

namespace PrototypeBundle.ProtoG

structure Config where
  threadCount : UInt16
  positive : 0 < threadCount.toNat

def Config.jobDiv (cfg : Config) : Nat := cfg.threadCount.toNat * 16

theorem Config.jobDiv_pos (cfg : Config) : 0 < cfg.jobDiv := Nat.mul_pos cfg.positive (by decide)

-- A callable of `push`, or the one of round `index` of `push_parallel` with the span it captured.
structure Callback where
  index : Nat
  dataSpan : Option Span
deriving DecidableEq

-- `none` is an empty callable, and a token that was moved from. A callable never loses its token.
structure Task where
  callback : Option Callback
  tk : Option Nat
  counted : callback.isSome → tk.isSome

-- What `std::move` leaves in the queue.
def Task.husk : Task := ⟨none, none, by simp⟩

abbrev Job := Countdown.Item (Option Span)

def Task.job (task : Task) : Option Job :=
  match task.callback, task.tk with
  | some callback, some tk => some ⟨tk, callback.index, callback.dataSpan⟩
  | _, _ => none

-- What makes a token. A `push` may be of an empty callable.
inductive Call where
  | make (initialUnresolved : UInt64)
  | push (callback : Bool)
  | pushParallel (size : Nat)

def Call.initialUnresolved (cfg : Config) : Call → UInt64
  | .make initialUnresolved => initialUnresolved
  | .push _ => 1
  | .pushParallel _ => UInt64.ofNat cfg.jobDiv

def Call.tasks (cfg : Config) (tk : Nat) : Call → List Task
  | .make _ => []
  | .push callback => [⟨if callback then some ⟨0, none⟩ else none, some tk, fun _ => rfl⟩]
  | .pushParallel size =>
      (chunks cfg.jobDiv size).mapIdx fun i span => ⟨some ⟨i, some span⟩, some tk, fun _ => rfl⟩

-- `unresolved` has the counter of every token made.
structure Executor where
  taskQueue : List Task
  isRunning : Bool
  unresolved : List UInt64

def Executor.done (e : Executor) (tk : Nat) : Bool := e.unresolved[tk]? == some 0

def Executor.resolve (e : Executor) (tk : Nat) : Executor :=
  { e with unresolved := e.unresolved.modify tk (· - 1) }

-- The token reaches other threads only through the tasks, so that making it and pushing them is one step.
def Executor.call (cfg : Config) (e : Executor) (c : Call) : Executor :=
  { e with
    taskQueue := e.taskQueue ++ c.tasks cfg e.unresolved.length
    unresolved := e.unresolved ++ [c.initialUnresolved cfg] }

inductive Frame where
  -- the worker's loop, before its lock
  | worker
  -- code outside the executor
  | client
  -- before `current_task.invoke()`
  | current (task : Task)
  | calling (job : Job)
  -- the callback has returned or thrown, the guard has not been destroyed
  | resolving (job : Job)
  -- `busy_wait_for` at the top of its loop, and at its test
  | waiting (tk : Nat)
  | testing (tk : Nat)

inductive Act where
  | dequeue
  | leave
  | invoke
  | returns
  | throws
  | resolve
  | call (c : Call)
  | busyWaitFor (tk : Nat)
  | take
  | test
  | stop

-- Code that may call the executor: a client's, or a callback's.
def Frame.free : Frame → Bool
  | .client => true
  | .calling _ => true
  | _ => false

abbrev Event := Countdown.Event (Option Span)

def Call.batch (cfg : Config) (c : Call) : Countdown.Batch (Option Span) :=
  match c with
  | .make initialUnresolved => ⟨initialUnresolved.toNat, [], Nat.zero_le _⟩
  | .push callback => ⟨1, if callback then [none] else [], by cases callback <;> decide⟩
  | .pushParallel size =>
      ⟨cfg.jobDiv, (chunks cfg.jobDiv size).map some, by rw [List.length_map, chunks_length]⟩

def turn (cfg : Config) (e : Executor) : Act → List Frame → Option (Executor × List Frame × List Event)
  | .dequeue, .worker :: rest =>
      match e.taskQueue with
      | [] => none -- blocks in `_cv.wait`
      | front :: queue => some ({ e with taskQueue := queue }, .current front :: .worker :: rest, [])
  | .leave, .worker :: rest =>
      if e.taskQueue.isEmpty && !e.isRunning then some (e, rest, []) else none
  | .invoke, .current task :: rest =>
      match task.job with
      | none => some (e, rest, [])
      | some job => some (e, .calling job :: rest, [.start job])
  | .returns, .calling job :: rest => some (e, .resolving job :: rest, [])
  -- the guard is destroyed on the way to `catch(...)` too
  | .throws, .calling job :: rest => some (e, .resolving job :: rest, [])
  | .resolve, .resolving job :: rest => some (e.resolve job.batch, rest, [.finish job])
  | .call c, frame :: rest =>
      if frame.free then some (e.call cfg c, frame :: rest, [.issue (c.batch cfg)]) else none
  | .busyWaitFor tk, frame :: rest =>
      if frame.free && tk < e.unresolved.length then
        if e.done tk then some (e, frame :: rest, []) else some (e, .waiting tk :: frame :: rest, [])
      else none
  | .take, .waiting tk :: rest =>
      match e.taskQueue with
      | [] => some (e, .testing tk :: rest, [])
      -- the front entry stays in the queue, without its callback
      | front :: queue =>
          some ({ e with taskQueue := .husk :: queue }, .current front :: .testing tk :: rest, [])
  | .test, .testing tk :: rest =>
      if e.done tk then some (e, rest, []) else some (e, .waiting tk :: rest, [])
  | .stop, .client :: rest => some ({ e with isRunning := false }, .client :: rest, [])
  | _, _ => none

structure State where
  executor : Executor
  threads : List (List Frame)

def State.initial (cfg : Config) (clients : Nat) : State where
  executor := ⟨[], true, []⟩
  threads := List.replicate cfg.threadCount.toNat [.worker] ++ List.replicate clients [.client]

def State.perform (cfg : Config) (s : State) (a : Nat × Act) : Option (State × List Event) :=
  match s.threads[a.1]? with
  | none => none
  | some stack =>
      (turn cfg s.executor a.2 stack).map fun (e, stack, events) => (⟨e, s.threads.set a.1 stack⟩, events)

def State.step (cfg : Config) (s : State) (a : Nat × Act) : Option State := (s.perform cfg a).map Prod.fst

def State.emit (cfg : Config) (s : State) (a : Nat × Act) : List Event :=
  match s.perform cfg a with
  | none => []
  | some (_, events) => events

theorem State.step_turn {cfg : Config} {s next : State} {a : Nat × Act} (taken : s.step cfg a = some next) :
    ∃ stack e rest, s.threads[a.1]? = some stack ∧ next = ⟨e, s.threads.set a.1 rest⟩ ∧
      turn cfg s.executor a.2 stack = some (e, rest, s.emit cfg a) := by
  unfold step perform at taken
  unfold emit perform
  cases found : s.threads[a.1]? with
  | none => simp [found] at taken
  | some stack =>
      simp only [found, Option.map_map, Option.map_eq_some_iff] at taken
      obtain ⟨⟨e, rest, events⟩, turned, rfl⟩ := taken
      simp only [turned, Option.map_some]
      exact ⟨stack, e, rest, rfl, rfl, turned⟩

end PrototypeBundle.ProtoG
