import PrototypeBundle.Shared.Run
import Mathlib.Logic.Function.Basic
import Mathlib.Data.List.Perm.Subperm

set_option autoImplicit false

/-!
# Atomic objects

A call takes effect at one moment between its invocation and its response. A concurrent
implementation is linearizable if its invocations and responses, with one such moment
for each call, are a run of the atomic object.
-/

namespace Atomic

variable {σ op ret : Type}

inductive Status (op ret : Type) where
  | idle
  | called (o : op)
  | done (r : ret)

inductive Event (op ret : Type) where
  | call (t : Nat) (o : op)
  | commit (t : Nat)
  | respond (t : Nat) (r : ret)

structure Object (σ op ret : Type) where
  state : σ
  status : Nat → Status op ret
  -- the calls that have taken effect, the latest first
  log : List (Nat × op × ret)
  responses : List (Nat × ret)

def Object.initial (s : σ) : Object σ op ret where
  state := s
  status := fun _ => .idle
  log := []
  responses := []

def Object.step [DecidableEq ret] (apply : σ → op → σ × ret) (x : Object σ op ret) :
    Event op ret → Option (Object σ op ret)
  | .call t o =>
      match x.status t with
      | .idle => some { x with status := Function.update x.status t (.called o) }
      | _ => none
  | .commit t =>
      match x.status t with
      | .called o =>
          let (state, r) := apply x.state o
          some { x with state, status := Function.update x.status t (.done r), log := (t, o, r) :: x.log }
      | _ => none
  | .respond t r =>
      match x.status t with
      | .done promised =>
          if r = promised then
            some { x with status := Function.update x.status t .idle, responses := (t, r) :: x.responses }
          else none
      | _ => none

theorem Object.step_call [DecidableEq ret] {apply : σ → op → σ × ret} {x : Object σ op ret} {t : Nat} (o : op)
    (idle : x.status t = .idle) :
    x.step apply (.call t o) = some { x with status := Function.update x.status t (.called o) } := by
  simp only [Object.step, idle]

theorem Object.step_commit [DecidableEq ret] {apply : σ → op → σ × ret} {x : Object σ op ret} {t : Nat} {o : op}
    (called : x.status t = .called o) :
    x.step apply (.commit t) = some { x with
      state := (apply x.state o).1
      status := Function.update x.status t (.done (apply x.state o).2)
      log := (t, o, (apply x.state o).2) :: x.log } := by
  simp only [Object.step, called]

theorem Object.step_respond [DecidableEq ret] {apply : σ → op → σ × ret} {x : Object σ op ret} {t : Nat} {r : ret}
    (done : x.status t = .done r) :
    x.step apply (.respond t r) = some { x with
      status := Function.update x.status t .idle
      responses := (t, r) :: x.responses } := by
  simp only [Object.step, done, if_true]

/-- A sequential run of the calls of `log`, the latest first, leads from `init` to `s`. -/
def Legal (apply : σ → op → σ × ret) (init : σ) : List (Nat × op × ret) → σ → Prop
  | [], s => s = init
  | (_, o, r) :: earlier, s => ∃ before, Legal apply init earlier before ∧ apply before o = (s, r)

theorem Legal.answer {apply : σ → op → σ × ret} {init final : σ} {later earlier : List (Nat × op × ret)} {t : Nat} {o : op}
    {r : ret} (legal : Legal apply init (later ++ (t, o, r) :: earlier) final) :
    ∃ before, Legal apply init earlier before ∧ r = (apply before o).2 := by
  induction later generalizing final with
  | nil =>
      obtain ⟨before, legal, applied⟩ := legal
      exact ⟨before, legal, (congrArg Prod.snd applied).symm⟩
  | cons entry later ih =>
      obtain ⟨before, legal, -⟩ := legal
      exact ih legal

def Status.pending (t : Nat) : Status op ret → List (Nat × ret)
  | done r => [(t, r)]
  | _ => []

structure Object.Ok (apply : σ → op → σ × ret) (init : σ) (x : Object σ op ret) : Prop where
  legal : Legal apply init x.log x.state
  answered : ∀ t, (x.log.map fun e => (e.1, e.2.2)).filter (·.1 = t) =
    (x.status t).pending t ++ x.responses.filter (·.1 = t)

variable [DecidableEq ret] {apply : σ → op → σ × ret} {init : σ} {x x' : Object σ op ret}

theorem Object.Ok.step (ok : x.Ok apply init) {event : Event op ret} (taken : x.step apply event = some x') :
    x'.Ok apply init := by
  obtain ⟨legal, answered⟩ := ok
  cases event with
  | call t o =>
      simp only [Object.step] at taken
      split at taken
      case h_1 idle =>
        rw [Option.some.injEq] at taken
        subst taken
        refine ⟨legal, fun u => ?_⟩
        by_cases same : u = t
        · subst same
          simpa [idle, Status.pending] using answered u
        · simpa [same] using answered u
      case h_2 => simp at taken
  | commit t =>
      simp only [Object.step] at taken
      split at taken
      case h_1 o called =>
        rw [Option.some.injEq] at taken
        subst taken
        refine ⟨⟨x.state, legal, rfl⟩, fun u => ?_⟩
        by_cases same : u = t
        · subst same
          simpa [called, Status.pending] using answered u
        · simpa [same, Ne.symm same] using answered u
      case h_2 => simp at taken
  | respond t r =>
      simp only [Object.step] at taken
      split at taken
      case h_1 promised done =>
        split at taken
        case isTrue equal =>
          rw [Option.some.injEq] at taken
          subst taken equal
          refine ⟨legal, fun u => ?_⟩
          by_cases same : u = t
          · subst same
            simpa [done, Status.pending] using answered u
          · simpa [same, Ne.symm same] using answered u
        case isFalse => simp at taken
      case h_2 => simp at taken

omit [DecidableEq ret] in
theorem Object.initial_ok : (Object.initial init : Object σ op ret).Ok apply init where
  legal := rfl
  answered := fun _ => rfl

theorem Object.run_ok {events : List (Event op ret)}
    (run : Runs.exec (Object.step apply) (Object.initial init) events = some x) : x.Ok apply init :=
  Runs.exec_invariant (Object.Ok apply init) (fun _ _ _ ok taken => ok.step taken) Object.initial_ok run

theorem Object.Ok.responses_subperm (ok : x.Ok apply init) :
    x.responses.Subperm (x.log.map fun e => (e.1, e.2.2)) := by
  rw [List.subperm_ext_iff]
  rintro ⟨t, r⟩ _
  have answered := congrArg (List.count (t, r)) (ok.answered t)
  rw [List.count_append, List.count_filter (by simp), List.count_filter (by simp)] at answered
  omega

end Atomic
