import Mathlib.Data.Option.Basic
import Mathlib.Data.List.Nodup
import PrototypeBundle.ProtoE.Lane
import PrototypeBundle.ProtoG.Chunks

set_option autoImplicit false

/-!
# `run_parallel` and its callers

Each thread has a stack of frames. A section under the mutex of a queue and an
access to a counter or to the fields of a task is one step; `alloc`, which no
lock guards, has three.
-/

namespace PrototypeBundle.ProtoE

open ProtoG (chunks chunks_length)

-- The arguments of `run_parallel`; `data` is an address, counted in elements.
structure Call where
  callback : Nat
  data : Nat
  length : Nat

-- A callback with the arguments that `task::call` passes to it.
structure Work where
  callback : Nat
  dataBegin : Nat
  dataEnd : Nat
deriving DecidableEq

abbrev Job := Countdown.Item Work

abbrev Event := Countdown.Event Work

-- `batch` and `index` are the call and the chunk that the fields were last set for; no step depends on them.
structure Task where
  callback : Nat
  dataBegin : Nat
  dataEnd : Nat
  parent : Ref
  unresolvedChildren : UInt64
  batch : Nat
  index : Nat

def Task.job (task : Task) : Job := ⟨task.batch, task.index, ⟨task.callback, task.dataBegin, task.dataEnd⟩⟩

-- `job_div` is an `unsigned`.
def jobDiv (n : Nat) : Nat := n % 2 ^ 32

def Call.batch (n : Nat) (c : Call) : Countdown.Batch Work where
  count := jobDiv n
  items := (chunks (jobDiv n) c.length).map fun span =>
    ⟨c.callback, c.data + span.offset, c.data + span.offset + span.length⟩
  enough := by rw [List.length_map, chunks_length]

-- The calls so far and their parents are kept in `calls`; no step depends on them.
structure Executor where
  lanes : List Lane
  taskBuffer : Ref → Task
  calls : List (Call × Ref)

def Executor.setLane (e : Executor) (lane : Nat) (l : Lane) : Executor := { e with lanes := e.lanes.set lane l }

def Executor.setTask (e : Executor) (t : Ref) (task : Task) : Executor :=
  { e with taskBuffer := Function.update e.taskBuffer t task }

-- The next access of `alloc`: `++task_buffer_index` loads and stores, then the index is read again.
inductive Alloc where
  | load
  | store (value : Nat)
  | read
deriving DecidableEq

def Executor.alloc (e : Executor) (lane : Nat) (a : Alloc) : Option (Executor × (Alloc ⊕ Nat)) :=
  match e.lanes[lane]? with
  | none => none
  | some l =>
      match a with
      | .load => some (e, .inl (.store l.taskBufferIndex))
      | .store value => some (e.setLane lane { l with taskBufferIndex := value + 1 }, .inl .read)
      | .read => some (e, .inr l.taskBufferIndex)

-- Where `run_parallel` is. The tasks of a call are in the buffer of its lane; `r` numbers the calls.
inductive Stage where
  | allocParent (a : Alloc)
  | unresolved (parent : Nat)
  | allocTask (r parent i : Nat) (a : Alloc)
  | fields (r parent i t : Nat)
  | push (r parent i t : Nat)
  | wait (r parent : Nat)
  -- `alloc_free` on lane `k`
  | free (k : Nat)
deriving DecidableEq

inductive Frame where
  -- the worker's loop
  | worker
  -- code outside the executor
  | client
  -- `run_lane` before its `pop`, and when that found nothing
  | pop (lane i : Nat)
  | steal (i : Nat)
  -- `call` before it reads its task, in the callback, behind it, and before the decrement
  | invoke (t : Ref)
  | calling (t : Ref) (job : Job)
  | returned (t : Ref) (job : Job)
  | resolve (parent : Ref) (job : Job)
  | parallel (c : Call) (lane : Nat) (stage : Stage)

inductive Act where
  -- the only thing that the frame can do next
  | go
  | steal (randIndex : Nat)
  | returns
  | call (c : Call)

def Frame.free : Frame → Bool
  | .client => true
  | .calling _ _ => true
  | _ => false

-- The head of the loop of `run_parallel`.
def round (n r parent i : Nat) : Stage := if i < jobDiv n then .allocTask r parent i .load else .wait r parent

-- One step of `run_parallel` and the frames that replace its own.
def parallel (n : Nat) (e : Executor) (c : Call) (lane : Nat) : Stage → Option (Executor × List Frame × List Event)
  | .allocParent a =>
      (e.alloc lane a).map fun (e, result) =>
        (e, [.parallel c lane (result.elim Stage.allocParent Stage.unresolved)], [])
  | .unresolved parent =>
      if jobDiv n = 0 then none -- `length / job_div`
      else
        let task := { e.taskBuffer ⟨lane, parent⟩ with unresolvedChildren := UInt64.ofNat (jobDiv n) }
        let r := e.calls.length
        some ({ e.setTask ⟨lane, parent⟩ task with calls := e.calls ++ [(c, ⟨lane, parent⟩)] },
          [.parallel c lane (round n r parent 0)], [.issue (c.batch n)])
  | .allocTask r parent i a =>
      (e.alloc lane a).map fun (e, result) =>
        (e, [.parallel c lane (result.elim (Stage.allocTask r parent i) (Stage.fields r parent i))], [])
  | .fields r parent i t =>
      (chunks (jobDiv n) c.length)[i]?.map fun span =>
        let task : Task := { e.taskBuffer ⟨lane, t⟩ with
          callback := c.callback
          dataBegin := c.data + span.offset
          dataEnd := c.data + span.offset + span.length
          parent := ⟨lane, parent⟩
          batch := r
          index := i }
        (e.setTask ⟨lane, t⟩ task, [.parallel c lane (.push r parent i t)], [])
  | .push r parent i t =>
      e.lanes[lane]?.map fun l =>
        (e.setLane lane (l.push ⟨lane, t⟩), [.parallel c lane (round n r parent (i + 1))], [])
  | .wait r parent =>
      if (e.taskBuffer ⟨lane, parent⟩).unresolvedChildren = 0 then some (e, [.parallel c lane (.free 0)], [])
      -- `wait_for` passes 0 to `run_lane`, whatever its lane is
      else some (e, [.pop lane 0, .parallel c lane (.wait r parent)], [])
  | .free k =>
      match e.lanes[k]? with
      | none => some (e, [], [])
      | some l => some (e.setLane k { l with taskBufferIndex := 0 }, [.parallel c lane (.free (k + 1))], [])

def turn (n own : Nat) (e : Executor) : Act → List Frame → Option (Executor × List Frame × List Event)
  | .go, .worker :: rest => some (e, .pop own own :: .worker :: rest, [])
  | .go, .pop lane i :: rest =>
      match e.lanes[lane]? with
      | none => none
      | some l =>
          match l.pop with
          | none => some (e, .steal i :: rest, [])
          | some (t, l) => some (e.setLane lane l, .invoke t :: rest, [])
  | .steal randIndex, .steal i :: rest =>
      match e.lanes[randIndex]? with
      | none => none
      | some l =>
          if randIndex = i then some (e, rest, [])
          else
            match l.steal with
            | none => some (e, rest, [])
            | some (t, l) => some (e.setLane randIndex l, .invoke t :: rest, [])
  | .go, .invoke t :: rest =>
      let job := (e.taskBuffer t).job
      some (e, .calling t job :: rest, [.start job])
  | .returns, .calling t job :: rest => some (e, .returned t job :: rest, [])
  | .go, .returned t job :: rest => some (e, .resolve (e.taskBuffer t).parent job :: rest, [])
  | .go, .resolve parent job :: rest =>
      let task := e.taskBuffer parent
      some (e.setTask parent { task with unresolvedChildren := task.unresolvedChildren - 1 }, rest, [.finish job])
  | .call c, frame :: rest =>
      if frame.free then some (e, .parallel c own (.allocParent .load) :: frame :: rest, []) else none
  | .go, .parallel c lane stage :: rest =>
      (parallel n e c lane stage).map fun (e, frames, events) => (e, frames ++ rest, events)
  | _, _ => none

structure State where
  executor : Executor
  threads : List (List Frame)

-- `get_this_lane` on thread `t`, the worker of lane `t` or a thread that is no worker.
def thisLane (n t : Nat) : Nat := if 0 < t ∧ t < n then t else 0

-- After `run`: thread 0 has called it, then come the workers. Neither array of a lane is initialised.
def State.initial (n clients : Nat) (tasks : Nat → Nat → Ref) (taskBuffer : Ref → Task) : State where
  executor := ⟨(List.range n).map fun k => ⟨0, 0, tasks k, 0⟩, taskBuffer, []⟩
  threads := [.client] :: (List.replicate (n - 1) [.worker] ++ List.replicate clients [.client])

def State.perform (n : Nat) (s : State) (a : Nat × Act) : Option (State × List Event) :=
  match s.threads[a.1]? with
  | none => none
  | some stack =>
      (turn n (thisLane n a.1) s.executor a.2 stack).map fun (e, stack, events) =>
        (⟨e, s.threads.set a.1 stack⟩, events)

def State.step (n : Nat) (s : State) (a : Nat × Act) : Option State := (s.perform n a).map Prod.fst

def State.emit (n : Nat) (s : State) (a : Nat × Act) : List Event :=
  match s.perform n a with
  | none => []
  | some (_, events) => events

theorem State.step_turn {n : Nat} {s next : State} {a : Nat × Act} (taken : s.step n a = some next) :
    ∃ stack e rest, s.threads[a.1]? = some stack ∧ next = ⟨e, s.threads.set a.1 rest⟩ ∧
      turn n (thisLane n a.1) s.executor a.2 stack = some (e, rest, s.emit n a) := by
  unfold step perform at taken
  unfold emit perform
  cases found : s.threads[a.1]? with
  | none => simp [found] at taken
  | some stack =>
      simp only [found, Option.map_map, Option.map_eq_some_iff] at taken
      obtain ⟨⟨e, rest, events⟩, turned, rfl⟩ := taken
      simp only [turned, Option.map_some]
      exact ⟨stack, e, rest, rfl, rfl, turned⟩

/-- The tasks of its own that a call waits for or has not pushed yet. -/
def Stage.uses : Stage → List Nat
  | .allocParent _ => []
  | .unresolved parent => [parent]
  | .allocTask _ parent _ _ => [parent]
  | .fields _ parent _ t => [parent, t]
  | .push _ parent _ t => [parent, t]
  | .wait _ parent => [parent]
  | .free _ => []

def Frame.uses : Frame → List Ref
  | .invoke t => [t]
  | .calling t _ => [t]
  | .returned t _ => [t]
  | .parallel _ lane stage => stage.uses.map fun index => ⟨lane, index⟩
  | _ => []

def State.uses (s : State) : List Ref :=
  s.executor.lanes.flatMap Lane.queued ++ s.threads.flatMap fun stack => stack.flatMap Frame.uses

def Stage.alloc : Stage → Option Alloc
  | .allocParent a => some a
  | .allocTask _ _ _ a => some a
  | _ => none

/-- The lane of an `alloc` that has loaded the index and has not returned. -/
def Frame.allocating : Frame → List Nat
  | .parallel _ lane stage =>
      match stage.alloc with
      | none => []
      | some .load => []
      | some _ => [lane]
  | _ => []

def State.allocating (s : State) : List Nat := s.threads.flatMap fun stack => stack.flatMap Frame.allocating

def Stage.rewinds : Stage → Option Nat
  | .free k => some k
  | _ => none

/-- An `alloc` begins where no other one is going on and the buffer has room, and a lane is
rewound where no `alloc` is going on and none of its tasks is in use. -/
def Stage.Orderly (s : State) (lane : Nat) (stage : Stage) : Prop :=
  (stage.alloc = some .load →
    lane ∉ s.allocating ∧ ∀ l ∈ s.executor.lanes[lane]?, l.taskBufferIndex + 1 < 8192) ∧
  ∀ k ∈ stage.rewinds, k ∉ s.allocating ∧ ∀ t ∈ s.uses, t.lane ≠ k

def Frame.Orderly (s : State) : Frame → Prop
  | .parallel _ lane stage => stage.Orderly s lane
  | _ => True

def Orderly (s : State) : Nat × Act → Prop
  | (t, .go) => ∀ stack ∈ s.threads[t]?, ∀ frame ∈ stack.head?, frame.Orderly s
  | _ => True

end PrototypeBundle.ProtoE
