import PrototypeBundle.ProtoE.Lane
import PrototypeBundle.Shared.Deque

set_option autoImplicit false

-- Each call holds `queue_mutex`, so that the calls of the owner and of the thieves are one sequence.

namespace PrototypeBundle.ProtoE

open Deque hiding Call

namespace Lane

/-- The result of a call, null where the source returns null or nothing. -/
def call (l : Lane) : Deque.Call Ref → Option Ref × Lane
  | .push t => (none, l.push t)
  | .pop => (l.pop.map Prod.fst, (l.pop.map Prod.snd).getD l)
  | .steal _ => (l.steal.map Prod.fst, (l.steal.map Prod.snd).getD l)

/-- A push finds fewer than 8192 tasks outstanding. -/
def Room (queue : List Ref) : Deque.Call Ref → Prop
  | .push _ => queue.length < 8192
  | .pop => True
  | .steal _ => True

theorem queued_nil {l : Lane} : l.queued = [] ↔ l.back = l.front := by
  constructor
  · intro nil
    have length := l.queued_length
    rw [nil, List.length_nil] at length
    have ahead := ahead l.front l.back
    rw [← length] at ahead
    rw [← ahead]
    exact UInt64.add_zero ..
  · exact queued_empty

theorem pop_none_iff {l : Lane} : l.pop = none ↔ l.queued = [] := by
  rw [queued_nil, pop]
  by_cases same : l.back = l.front <;> simp [same]

theorem steal_none_iff {l : Lane} : l.steal = none ↔ l.queued = [] := by
  rw [queued_nil, steal]
  by_cases same : l.back = l.front <;> simp [same]

theorem call_refines (l : Lane) (c : Deque.Call Ref) (room : Room l.queued c) :
    (l.call c).1 = answer l.queued c ∧ (l.call c).2.queued = rest l.queued c := by
  cases c with
  | push t => exact ⟨rfl, push_queued room⟩
  | pop =>
      cases taken : l.pop with
      | none => simp [call, taken, answer, rest, pop_none_iff.mp taken]
      | some popped =>
          obtain ⟨t, next⟩ := popped
          simp [call, taken, answer, rest, pop_queued taken]
  | steal thief =>
      cases taken : l.steal with
      | none => simp [call, taken, answer, rest, steal_none_iff.mp taken]
      | some stolen =>
          obtain ⟨t, next⟩ := stolen
          simp [call, taken, answer, rest, steal_queued taken]

/-- The events of a lane that was empty, at any values of its counters, are those of a deque. -/
theorem lane_deque {l : Lane} (empty : l.back = l.front) (calls : List (Deque.Call Ref))
    (room : Runs.Along step Room [] calls) :
    Runs.trace (callStep call) (callEmit call) l calls = Runs.trace step emit [] calls ∧
      ∃ final, Runs.exec (callStep call) l calls = some final ∧ Runs.exec step [] calls = some final.queued ∧
        (returns (Runs.trace (callStep call) (callEmit call) l calls) ++ final.queued).Perm
          (pushes (Runs.trace (callStep call) (callEmit call) l calls)) ∧
        (final.pop = none ↔ final.queued = []) ∧ (final.steal = none ↔ final.queued = []) := by
  have start := queued_empty empty
  rw [← start] at room
  obtain ⟨events, final, run, abstract⟩ := run_refines queued call_refines room
  have conserved := run_perm abstract
  rw [← events, start, List.nil_append] at conserved
  rw [start] at events abstract
  exact ⟨events, final, run, abstract, conserved, pop_none_iff, steal_none_iff⟩

def atWrap : Lane := ⟨0xffffffffffffffff, 0xffffffffffffffff, fun _ => ⟨0, 0⟩, 0⟩

def wrapping : List (Deque.Call Ref) := [.push ⟨0, 1⟩, .push ⟨0, 2⟩, .steal 1, .push ⟨0, 3⟩, .pop, .pop, .pop]

theorem lane_deque_wrapping :
    Runs.trace (callStep call) (callEmit call) atWrap wrapping = Runs.trace step emit [] wrapping ∧
      ∃ final, Runs.exec (callStep call) atWrap wrapping = some final ∧
        Runs.exec step [] wrapping = some final.queued ∧
        (returns (Runs.trace (callStep call) (callEmit call) atWrap wrapping) ++ final.queued).Perm
          (pushes (Runs.trace (callStep call) (callEmit call) atWrap wrapping)) ∧
        (final.pop = none ↔ final.queued = []) ∧ (final.steal = none ↔ final.queued = []) :=
  lane_deque rfl wrapping (by simp [wrapping, Runs.Along, step, Room, rest])

end Lane

end PrototypeBundle.ProtoE
