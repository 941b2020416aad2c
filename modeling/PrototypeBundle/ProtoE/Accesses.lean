import PrototypeBundle.ProtoE.Deque
import PrototypeBundle.Shared.Guarded
import PrototypeBundle.SpinLock.Mutexes

set_option autoImplicit false

-- The fields of a lane are plain memory; what keeps the threads apart is the code of `queue_mutex`.

namespace PrototypeBundle.ProtoE

open Deque hiding Call
open SpinLock

namespace Lane

inductive End where
  | back
  | front

-- Each place is one read or one write of a field.
inductive Loc where
  -- `tasks[back & mask] = t`
  | pushIndex (t : Ref)
  | pushTask (t : Ref) (back : UInt64)
  -- `++back`
  | readBack
  | writeBack (back : UInt64)
  -- `back == front`
  | emptyBack (side : End)
  | emptyFront (side : End) (back : UInt64)
  -- `tasks[back - 1 & mask]`, `tasks[front & mask]`
  | takeIndex (side : End)
  | takeTask (side : End) (index : UInt64)
  -- `--back`, `++front`
  | readSide (side : End) (t : Ref)
  | writeSide (side : End) (t : Ref) (index : UInt64)

def enter : Deque.Call Ref → Loc
  | .push t => .pushIndex t
  | .pop => .emptyBack .back
  | .steal _ => .emptyBack .front

def access : Loc → Lane → Lane × (Loc ⊕ Option Ref)
  | .pushIndex t, l => (l, .inl (.pushTask t l.back))
  | .pushTask t back, l => ({ l with tasks := Function.update l.tasks (slot back) t }, .inl .readBack)
  | .readBack, l => (l, .inl (.writeBack l.back))
  | .writeBack back, l => ({ l with back := back + 1 }, .inr none)
  | .emptyBack side, l => (l, .inl (.emptyFront side l.back))
  | .emptyFront side back, l => (l, if back = l.front then .inr none else .inl (.takeIndex side))
  | .takeIndex .back, l => (l, .inl (.takeTask .back (l.back - 1)))
  | .takeIndex .front, l => (l, .inl (.takeTask .front l.front))
  | .takeTask side index, l => (l, .inl (.readSide side (l.tasks (slot index))))
  | .readSide .back t, l => (l, .inl (.writeSide .back t l.back))
  | .readSide .front t, l => (l, .inl (.writeSide .front t l.front))
  | .writeSide .back t back, l => ({ l with back := back - 1 }, .inr (some t))
  | .writeSide .front t front, l => ({ l with front := front + 1 }, .inr (some t))

def apply (l : Lane) (c : Deque.Call Ref) : Lane × Option Ref := ((l.call c).2, (l.call c).1)

open Guarded in
theorem take_ends (l : Lane) (side : End) (empty : l.back = l.front) :
    Finishes access (.emptyBack side) l (l, none) :=
  .next rfl (.last (by rw [access, if_pos empty]))

open Guarded in
theorem access_ends (l : Lane) (c : Deque.Call Ref) : Finishes access (enter c) l (l.apply c) := by
  cases c with
  | push t => exact .next rfl (.next rfl (.next rfl (.last rfl)))
  | pop =>
      by_cases empty : l.back = l.front
      · have nothing : l.apply .pop = (l, none) := by simp [apply, call, pop, empty]
        exact nothing ▸ take_ends l .back empty
      · have popped : l.apply .pop = ({ l with back := l.back - 1 }, some (l.tasks (slot (l.back - 1)))) := by
          simp [apply, call, pop, empty]
        rw [popped]
        exact .next rfl (.next (by rw [access, if_neg empty]) (.next rfl (.next rfl (.next rfl (.last rfl)))))
  | steal thief =>
      by_cases empty : l.back = l.front
      · have nothing : l.apply (.steal thief) = (l, none) := by simp [apply, call, steal, empty]
        exact nothing ▸ take_ends l .front empty
      · have stolen : l.apply (.steal thief) = ({ l with front := l.front + 1 }, some (l.tasks (slot l.front))) := by
          simp [apply, call, steal, empty]
        rw [stolen]
        exact .next rfl (.next (by rw [access, if_neg empty]) (.next rfl (.next rfl (.next rfl (.last rfl)))))

-- `push`, `pop` and `steal` under `queue_mutex`
def guarded : Guarded.Section Lane Loc (Deque.Call Ref) (Option Ref) where
  enter := enter
  access := access
  apply := apply
  ends := access_ends

abbrev Threads := Guarded.State Bool DemoC.Code Lane Loc (Deque.Call Ref) (Option Ref)

abbrev Access := Nat × Guarded.Action Unit (Deque.Call Ref)

def threadsStep : Threads → Access → Option Threads := Guarded.step DemoC.spinMutex guarded

def threadsEmit : Threads → Access → List (Atomic.Event (Deque.Call Ref) (Option Ref)) :=
  Guarded.emit DemoC.spinMutex guarded

def threadsStart (l : Lane) : Threads := Guarded.start DemoC.spinMutex l

/-- Owner and thieves may be stopped between any two accesses: no two are at the fields at once, the calls take
effect one at a time, and unless more than 8192 tasks are outstanding they answer as a deque does. -/
theorem threads_deque {l : Lane} (empty : l.back = l.front) {actions : List Access} {s : Threads}
    (run : Runs.exec threadsStep (threadsStart l) actions = some s) :
    (∀ t u, Guarded.Inside s t → Guarded.Inside s u → t = u) ∧
      ∃ x, Runs.exec (Atomic.Object.step apply) (Atomic.Object.initial l)
          (Runs.trace threadsStep threadsEmit (threadsStart l) actions) = some x ∧
        x.responses.Subperm (x.log.map fun entry => (entry.1, entry.2.2)) ∧
        (Runs.Along step Room [] ((Guarded.answers x.log).map Prod.fst) →
          Guarded.answers x.log = Runs.trace step emit [] ((Guarded.answers x.log).map Prod.fst) ∧
            (returns (Guarded.answers x.log) ++ x.state.queued).Perm (pushes (Guarded.answers x.log))) := by
  obtain ⟨⟨x, abstract, ok, -⟩, exclusive⟩ := Guarded.linearizable run
  refine ⟨exclusive, x, abstract, ok.responses_subperm, fun room => ?_⟩
  obtain ⟨sequential, events⟩ := Guarded.legal_run ok.legal
  obtain ⟨same, final, ran, -, conserved, -⟩ := lane_deque empty _ room
  -- the log is the run of the calls of the lane, which are those of a deque
  obtain rfl := Option.some.inj (ran.symm.trans sequential)
  have answered : Runs.trace (callStep call) (callEmit call) l ((Guarded.answers x.log).map Prod.fst) =
      Guarded.answers x.log := events
  rw [answered] at same conserved
  exact ⟨same, conserved⟩

def contended : List Access :=
  [(1, .call (.steal 1)), (0, .call (.push ⟨0, 1⟩)), (0, .sync ()), (1, .sync ()), (0, .work), (1, .sync ()), (0, .work),
    (0, .work), (0, .work), (0, .sync ()), (1, .sync ()), (1, .sync ()), (1, .work), (1, .work), (1, .work), (1, .work),
    (1, .work), (1, .work), (1, .sync ())]

-- What the thief steals is the task of that push.
theorem threads_deque_contended : ∃ s x, Runs.exec threadsStep (threadsStart atWrap) contended = some s ∧
    Runs.exec (Atomic.Object.step apply) (Atomic.Object.initial atWrap)
      (Runs.trace threadsStep threadsEmit (threadsStart atWrap) contended) = some x ∧
    x.responses.Subperm (x.log.map fun entry => (entry.1, entry.2.2)) ∧ x.responses = [(1, some ⟨0, 1⟩), (0, none)] ∧
    Guarded.answers x.log = Runs.trace step emit [] [.push ⟨0, 1⟩, .steal 1] ∧
    (returns (Guarded.answers x.log) ++ x.state.queued).Perm (pushes (Guarded.answers x.log)) := by
  obtain ⟨s, run⟩ : ∃ s, Runs.exec threadsStep (threadsStart atWrap) contended = some s := ⟨_, rfl⟩
  obtain ⟨-, x, abstract, answered, deque⟩ := threads_deque rfl run
  have results : ((Runs.exec (Atomic.Object.step apply) (Atomic.Object.initial atWrap)
      (Runs.trace threadsStep threadsEmit (threadsStart atWrap) contended)).map fun x =>
        (x.responses, (Guarded.answers x.log).map Prod.fst)) =
      some ([(1, some ⟨0, 1⟩), (0, none)], [.push ⟨0, 1⟩, .steal 1]) := by decide
  rw [abstract] at results
  obtain ⟨responses, calls⟩ := Prod.mk.inj (Option.some.inj results)
  rw [calls] at deque
  obtain ⟨answers, conserved⟩ := deque ⟨Nat.zero_lt_succ _, fun _ _ => ⟨True.intro, fun _ _ => True.intro⟩⟩
  exact ⟨s, x, run, abstract, answered, responses, answers, conserved⟩

end Lane

end PrototypeBundle.ProtoE
