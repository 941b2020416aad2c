import Mathlib.Logic.Function.Basic
import PrototypeBundle.ProtoG.Chunks
import PrototypeBundle.Shared.Tally

set_option autoImplicit false

/-!
# The executor with one lane

Workers and client threads each have a stack of frames. A section under the mutex of the lane,
a test of a token or of a stop token, and a decrement of a counter are one step each.
-/

namespace PrototypeBundle.ProtoF

open ProtoG (Span chunks)
open Countdown (Batch Entry)

-- Without workers `run_parallel` would divide by zero.
structure Config where
  threadCount : UInt8
  positive : 0 < threadCount.toNat

def Config.jobDiv (cfg : Config) : Nat := cfg.threadCount.toNat * 4

theorem Config.jobDiv_pos (cfg : Config) : 0 < cfg.jobDiv := Nat.mul_pos cfg.positive (by decide)

theorem Config.jobDiv_lt (cfg : Config) : cfg.jobDiv < 2 ^ 64 := by
  have bound := cfg.threadCount.toNat_lt
  unfold jobDiv
  omega

-- A lambda of `run`, or of one round of `run_parallel`, with the token and the span it captured.
abbrev Task := Countdown.Item (Option Span)

structure ExecLane where
  taskQueue : List Task

namespace ExecLane

def push (l : ExecLane) (task : Task) : ExecLane := ⟨l.taskQueue ++ [task]⟩

-- `none` stands for the empty callable.
def pop (l : ExecLane) : Option (Task × ExecLane) := l.taskQueue.getLast?.map fun task => (task, ⟨l.taskQueue.dropLast⟩)

def steal (l : ExecLane) : Option (Task × ExecLane) := l.taskQueue.head?.map fun task => (task, ⟨l.taskQueue.tail⟩)

end ExecLane

-- What makes a token.
inductive Call where
  | make (initialUnresolved : UInt64)
  | run
  | runParallel (size : Nat)

def Call.initialUnresolved (cfg : Config) : Call → UInt64
  | .make initialUnresolved => initialUnresolved
  | .run => 1
  | .runParallel _ => UInt64.ofNat cfg.jobDiv

def Call.tasks (cfg : Config) (tk : Nat) : Call → List Task
  | .make _ => []
  | .run => [⟨tk, 0, none⟩]
  | .runParallel size => (chunks cfg.jobDiv size).mapIdx fun i span => ⟨tk, i, some span⟩

-- `unresolved` has the counter of every token made, `stopRequested` the flag of each worker.
structure Executor where
  globalLane : ExecLane
  laneDestroyed : Bool
  stopRequested : Nat → Bool
  unresolved : List UInt64
  -- `std::terminate`
  terminated : Bool

def Executor.done (e : Executor) (tk : Nat) : Bool := e.unresolved[tk]? == some 0

inductive Frame where
  -- the worker's loop at its test, and before its `pop`
  | worker
  | popping
  -- code outside the executor
  | client
  | calling (task : Task)
  -- the callback has returned, the counter has not gone down
  | resolving (task : Task)
  -- `run` and `run_parallel`, with the tasks they still have to push
  | pushing (tasks : List Task)
  -- `wait_for` at the top of its loop, and at its test
  | waiting (tk : Nat)
  | testing (tk : Nat)
  -- `~executor()`: its loop, before the lane is destroyed, and before worker `i` is joined
  | stopping (i : Nat)
  | members
  | joining (i : Nat)

inductive Act where
  | stopRequested
  | pop
  | returns
  | throws
  | resolve
  | call (c : Call)
  | push
  | waitFor (tk : Nat)
  | take
  | test
  | destroy
  | requestStop
  | destroyLane
  | join

-- Code that may call the executor: a client's, or a callback's.
def Frame.free : Frame → Bool
  | .client => true
  | .calling _ => true
  | _ => false

def Call.batch (cfg : Config) (c : Call) : Batch (Option Span) :=
  match c with
  | .make initialUnresolved => .bare initialUnresolved.toNat
  | .run => ⟨1, [none], Nat.le_refl _⟩
  | .runParallel size =>
      ⟨cfg.jobDiv, (chunks cfg.jobDiv size).map some, by rw [List.length_map, ProtoG.chunks_length]⟩

-- One turn of thread `t`; `gone` says which workers have returned.
def turn (cfg : Config) (gone : Nat → Bool) (t : Nat) (e : Executor) :
    Act → List Frame → Option (Executor × List Frame × List (Entry (Option Span)))
  | .stopRequested, .worker :: rest =>
      if e.stopRequested t then some (e, rest, []) else some (e, .popping :: rest, [])
  | .pop, .popping :: rest =>
      if e.laneDestroyed then none
      else match e.globalLane.pop with
        | none => some (e, .worker :: rest, [])
        | some (task, globalLane) => some ({ e with globalLane }, .calling task :: .worker :: rest, [.event (.start task)])
  | .returns, .calling task :: rest => some (e, .resolving task :: rest, [])
  -- nothing catches what a task of a worker throws
  | .throws, .calling task :: .worker :: rest => some ({ e with terminated := true }, .worker :: rest, [.lose task])
  | .throws, .calling task :: .testing _ :: rest => some (e, rest, [.lose task])
  | .resolve, .resolving task :: rest =>
      some ({ e with unresolved := e.unresolved.modify task.batch (· - 1) }, rest, [.event (.finish task)])
  | .call c, frame :: rest =>
      if frame.free then
        some ({ e with unresolved := e.unresolved ++ [c.initialUnresolved cfg] },
          .pushing (c.tasks cfg e.unresolved.length) :: frame :: rest, [.event (.issue (c.batch cfg))])
      else none
  | .push, .pushing [] :: rest => some (e, rest, [])
  | .push, .pushing (task :: tasks) :: rest =>
      if e.laneDestroyed then none
      else some ({ e with globalLane := e.globalLane.push task }, .pushing tasks :: rest, [])
  | .waitFor tk, frame :: rest =>
      if frame.free && tk < e.unresolved.length then
        if e.done tk then some (e, frame :: rest, []) else some (e, .waiting tk :: frame :: rest, [])
      else none
  | .take, .waiting tk :: rest =>
      if e.laneDestroyed then none
      else match e.globalLane.pop with
        | none => some (e, .testing tk :: rest, [])
        | some (task, globalLane) =>
            some ({ e with globalLane }, .calling task :: .testing tk :: rest, [.event (.start task)])
  | .test, .testing tk :: rest => if e.done tk then some (e, rest, []) else some (e, .waiting tk :: rest, [])
  | .destroy, .client :: rest => some (e, .stopping 0 :: rest, [])
  | .requestStop, .stopping i :: rest =>
      if i < cfg.threadCount.toNat then
        some ({ e with stopRequested := Function.update e.stopRequested i true }, .stopping (i + 1) :: rest, [])
      else some (e, .members :: rest, [])
  -- members go in the opposite order of their declaration: first the lane, then the workers, which are joined
  | .destroyLane, .members :: rest => some ({ e with laneDestroyed := true }, .joining 0 :: rest, [])
  | .join, .joining i :: rest =>
      if i < cfg.threadCount.toNat then
        if gone i then some (e, .joining (i + 1) :: rest, []) else none
      else some (e, rest, [])
  | _, _ => none

structure State where
  executor : Executor
  threads : List (List Frame)

def State.initial (cfg : Config) (clients : Nat) : State where
  executor := ⟨⟨[]⟩, false, fun _ => false, [], false⟩
  threads := List.replicate cfg.threadCount.toNat [.worker] ++ List.replicate clients [.client]

def State.gone (s : State) (i : Nat) : Bool :=
  match s.threads[i]? with
  | some [] => true
  | _ => false

def State.perform (cfg : Config) (s : State) (a : Nat × Act) : Option (State × List (Entry (Option Span))) :=
  match s.threads[a.1]? with
  | none => none
  | some stack =>
      if s.executor.terminated then none
      else (turn cfg s.gone a.1 s.executor a.2 stack).map fun (e, stack, entries) => (⟨e, s.threads.set a.1 stack⟩, entries)

def State.step (cfg : Config) (s : State) (a : Nat × Act) : Option State := (s.perform cfg a).map Prod.fst

def State.emit (cfg : Config) (s : State) (a : Nat × Act) : List (Entry (Option Span)) :=
  match s.perform cfg a with
  | none => []
  | some (_, entries) => entries

theorem State.step_turn {cfg : Config} {s next : State} {a : Nat × Act} (taken : s.step cfg a = some next) :
    ∃ stack e rest, s.threads[a.1]? = some stack ∧ s.executor.terminated = false ∧ next = ⟨e, s.threads.set a.1 rest⟩ ∧
      turn cfg s.gone a.1 s.executor a.2 stack = some (e, rest, s.emit cfg a) := by
  unfold step perform at taken
  unfold emit perform
  cases found : s.threads[a.1]? with
  | none => simp [found] at taken
  | some stack =>
      cases alive : s.executor.terminated with
      | true => simp [found, alive] at taken
      | false =>
          simp only [found, alive, Bool.false_eq_true, if_false, Option.map_map, Option.map_eq_some_iff] at taken
          obtain ⟨⟨e, rest, entries⟩, turned, rfl⟩ := taken
          simp only [turned, Bool.false_eq_true, if_false, Option.map_some]
          exact ⟨stack, e, rest, rfl, trivial, rfl, turned⟩

end PrototypeBundle.ProtoF
