import PrototypeBundle.Shared.Run
import Mathlib.Data.List.Perm.Basic

set_option autoImplicit false

namespace Deque

open Runs

variable {α σ : Type}

inductive Call (α : Type) where
  | push (v : α)
  | pop
  | steal (thief : Nat)
  deriving DecidableEq, Repr

def answer (queue : List α) : Call α → Option α
  | .push _ => none
  | .pop => queue.getLast?
  | .steal _ => queue.head?

def rest (queue : List α) : Call α → List α
  | .push v => queue ++ [v]
  | .pop => queue.dropLast
  | .steal _ => queue.tail

def step (queue : List α) (call : Call α) : Option (List α) := some (rest queue call)

def emit (queue : List α) (call : Call α) : List (Call α × Option α) := [(call, answer queue call)]

def Call.pushed : Call α → Option α
  | push v => some v
  | pop => none
  | steal _ => none

def pushes (events : List (Call α × Option α)) : List α := events.filterMap fun event => event.1.pushed

def returns (events : List (Call α × Option α)) : List α := events.filterMap fun event => event.2

theorem pushes_cons (call : Call α) (result : Option α) (events : List (Call α × Option α)) :
    pushes ((call, result) :: events) = call.pushed.toList ++ pushes events := by
  cases pushed : call.pushed <;> simp [pushes, pushed]

theorem returns_cons (call : Call α) (result : Option α) (events : List (Call α × Option α)) :
    returns ((call, result) :: events) = result.toList ++ returns events := by
  cases result <;> simp [returns]

theorem call_perm (queue : List α) (call : Call α) :
    ((answer queue call).toList ++ rest queue call).Perm (queue ++ call.pushed.toList) := by
  cases call with
  | push v => simp [answer, rest, Call.pushed]
  | pop =>
      rcases List.eq_nil_or_concat queue with rfl | ⟨front, last, rfl⟩
      · simp [answer, rest, Call.pushed]
      · simpa [answer, rest, Call.pushed] using (List.perm_append_singleton last front).symm
  | steal thief => cases queue <;> simp [answer, rest, Call.pushed]

theorem run_perm {queue final : List α} {calls : List (Call α)} (run : exec step queue calls = some final) :
    (returns (trace step emit queue calls) ++ final).Perm (queue ++ pushes (trace step emit queue calls)) := by
  induction calls generalizing queue with
  | nil =>
      obtain rfl := Option.some.inj run
      simp [trace, returns, pushes]
  | cons call calls ih =>
      obtain ⟨next, taken, run⟩ := exec_cons.mp run
      rw [trace_cons emit taken]
      obtain rfl := Option.some.inj taken
      rw [emit, List.singleton_append, returns_cons, pushes_cons]
      calc
        _ = (answer queue call).toList ++ (returns (trace step emit (rest queue call) calls) ++ final) :=
          List.append_assoc ..
        List.Perm _ ((answer queue call).toList ++ (rest queue call ++ pushes (trace step emit (rest queue call) calls))) :=
          (ih run).append_left _
        _ = (answer queue call).toList ++ rest queue call ++ pushes (trace step emit (rest queue call) calls) :=
          (List.append_assoc ..).symm
        List.Perm _ (queue ++ call.pushed.toList ++ pushes (trace step emit (rest queue call) calls)) :=
          (call_perm queue call).append_right _
        _ = _ := List.append_assoc ..

section Refinement

variable (call : σ → Call α → Option α × σ)

def callStep (s : σ) (c : Call α) : Option σ := some (call s c).2

def callEmit (s : σ) (c : Call α) : List (Call α × Option α) := [(c, (call s c).1)]

/-- What answers each call as its queue would, where `ok` holds of the queue, does so all along a run. -/
theorem run_refines {call : σ → Call α → Option α × σ} {ok : List α → Call α → Prop} (queue : σ → List α)
    (refines : ∀ s c, ok (queue s) c → (call s c).1 = answer (queue s) c ∧ queue (call s c).2 = rest (queue s) c)
    {s : σ} {calls : List (Call α)} (along : Along step ok (queue s) calls) :
    trace (callStep call) (callEmit call) s calls = trace step emit (queue s) calls ∧
      ∃ final, exec (callStep call) s calls = some final ∧ exec step (queue s) calls = some (queue final) := by
  have matched : ∀ s list c, queue s = list → ok list c → ∃ next next', callStep call s c = some next ∧
      step list c = some next' ∧ queue next = next' ∧ callEmit call s c = emit list c := by
    rintro s _ c rfl holds
    obtain ⟨same, left⟩ := refines s c holds
    refine ⟨_, _, rfl, rfl, left, ?_⟩
    rw [callEmit, emit, same]
  obtain ⟨events, final, _, run, run', rfl⟩ := along.refines _ matched rfl
  exact ⟨events, final, run, run'⟩

end Refinement

end Deque
