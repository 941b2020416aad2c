import PrototypeBundle.Shared.Atomic
import PrototypeBundle.Shared.Locking

set_option autoImplicit false

/-!
# Objects whose operations run under a lock

Between `lock` and `unlock` an operation makes one access to the data after another,
while the accesses to the lock and the sections of the other threads interleave with them.
-/

namespace Guarded

open Runs Locking Atomic

variable {ω κ γ δ loc op ret : Type}

/-- The accesses from a place of a section, when nobody else touches the data. -/
inductive Finishes (access : loc → δ → δ × (loc ⊕ ret)) : loc → δ → δ × ret → Prop
  | last {l : loc} {d d' : δ} {r : ret} (accessed : access l d = (d', .inr r)) : Finishes access l d (d', r)
  | next {l l' : loc} {d d' : δ} {out : δ × ret} (accessed : access l d = (d', .inl l'))
      (rest : Finishes access l' d' out) : Finishes access l d out

structure Section (δ loc op ret : Type) where
  enter : op → loc
  access : loc → δ → δ × (loc ⊕ ret)
  apply : δ → op → δ × ret
  ends : ∀ d o, Finishes access (enter o) d (apply d o)

inductive Progress (loc op ret : Type) where
  | idle
  | entering (o : op)
  | inside (o : op) (l : loc)
  | leaving (r : ret)

structure State (ω κ δ loc op ret : Type) where
  lock : Locking.State ω κ
  data : δ
  progress : Nat → Progress loc op ret

inductive Action (γ op : Type) where
  | call (o : op)
  -- an access to the word of the lock
  | sync (c : γ)
  -- an access to the data
  | work

variable (L : Lock ω κ γ) (S : Section δ loc op ret)

def start (d : δ) : State ω κ δ loc op ret := ⟨L.start, d, fun _ => .idle⟩

def synced (place : Place κ) : Progress loc op ret → Progress loc op ret
  | .idle => .idle
  | .entering o => if place.isHolds then .inside o (S.enter o) else .entering o
  | .inside o l => .inside o l
  | .leaving r => if place.isIdle then .idle else .leaving r

def step (s : State ω κ δ loc op ret) : Nat × Action γ op → Option (State ω κ δ loc op ret)
  | (t, .call o) =>
      match s.progress t with
      | .idle => (L.step s.lock (t, .lock)).map fun lock =>
          { s with lock, progress := Function.update s.progress t (.entering o) }
      | _ => none
  | (t, .sync c) => (L.step s.lock (t, .access c)).map fun lock =>
      { s with lock, progress := Function.update s.progress t (synced S (lock.threads t) (s.progress t)) }
  | (t, .work) =>
      match s.progress t with
      | .inside o l =>
          match S.access l s.data with
          | (data, .inl l') => some { s with data, progress := Function.update s.progress t (.inside o l') }
          | (data, .inr r) => (L.step s.lock (t, .unlock)).map fun lock =>
              { s with lock, data, progress := Function.update s.progress t (.leaving r) }
      | _ => none

/-- An operation takes effect with the last access of its section. -/
def emit (s : State ω κ δ loc op ret) : Nat × Action γ op → List (Event op ret)
  | (t, .call o) => [.call t o]
  | (t, .sync c) =>
      match s.progress t, L.step s.lock (t, .access c) with
      | .leaving r, some lock => if (lock.threads t).isIdle then [.respond t r] else []
      | _, _ => []
  | (t, .work) =>
      match s.progress t with
      | .inside _ l => if (S.access l s.data).2.isRight then [.commit t] else []
      | _ => []

def Progress.status : Progress loc op ret → Status op ret
  | idle => .idle
  | entering o => .called o
  | inside o _ => .called o
  | leaving r => .done r

def Inside (s : State ω κ δ loc op ret) (t : Nat) : Prop := ∃ o l, s.progress t = .inside o l

structure Related (s : State ω κ δ loc op ret) (x : Object δ op ret) : Prop where
  lock : L.Inv s.lock
  holds : ∀ t, Inside s t → s.lock.threads t = .holds
  quiet : (∀ t, ¬ Inside s t) → x.state = s.data
  busy : ∀ t o l, s.progress t = .inside o l → Finishes S.access l s.data (S.apply x.state o)
  status : ∀ t, x.status t = (s.progress t).status

variable {L S} {s s' : State ω κ δ loc op ret} {x : Object δ op ret} {t : Nat}

theorem Finishes.inr {l : loc} {d d' : δ} {r : ret} {out : δ × ret} (finishes : Finishes S.access l d out)
    (accessed : S.access l d = (d', .inr r)) : out = (d', r) := by
  cases finishes with
  | last own =>
      cases own.symm.trans accessed
      rfl
  | next own rest => cases own.symm.trans accessed

theorem Finishes.inl {l l' : loc} {d d' : δ} {out : δ × ret} (finishes : Finishes S.access l d out)
    (accessed : S.access l d = (d', .inl l')) : Finishes S.access l' d' out := by
  cases finishes with
  | last own => cases own.symm.trans accessed
  | next own rest =>
      cases own.symm.trans accessed
      exact rest

theorem step_call {o : op} (taken : step L S s (t, .call o) = some s') :
    s.progress t = .idle ∧ ∃ lock, L.step s.lock (t, .lock) = some lock ∧
      s' = { s with lock, progress := Function.update s.progress t (.entering o) } := by
  simp only [step] at taken
  split at taken
  case h_1 idle =>
    obtain ⟨lock, called, rfl⟩ := Option.map_eq_some_iff.mp taken
    exact ⟨idle, lock, called, rfl⟩
  case h_2 => cases taken

theorem step_sync {c : γ} (taken : step L S s (t, .sync c) = some s') :
    ∃ lock, L.step s.lock (t, .access c) = some lock ∧
      s' = { s with lock, progress := Function.update s.progress t (synced S (lock.threads t) (s.progress t)) } := by
  obtain ⟨lock, accessed, rfl⟩ := Option.map_eq_some_iff.mp taken
  exact ⟨lock, accessed, rfl⟩

theorem step_work (taken : step L S s (t, .work) = some s') :
    ∃ o l, s.progress t = .inside o l ∧
      ((∃ data l', S.access l s.data = (data, .inl l') ∧
          s' = { s with data, progress := Function.update s.progress t (.inside o l') }) ∨
        ∃ data r lock, S.access l s.data = (data, .inr r) ∧ L.step s.lock (t, .unlock) = some lock ∧
          s' = { s with lock, data, progress := Function.update s.progress t (.leaving r) }) := by
  simp only [step] at taken
  split at taken
  case h_1 o l inside =>
    refine ⟨o, l, inside, ?_⟩
    split at taken
    case h_1 data l' accessed => exact .inl ⟨data, l', accessed, (Option.some.inj taken).symm⟩
    case h_2 data r accessed =>
      obtain ⟨lock, released, rfl⟩ := Option.map_eq_some_iff.mp taken
      exact .inr ⟨data, r, lock, accessed, released, rfl⟩
  case h_2 => cases taken

theorem Related.alone (related : Related L S s x) {u : Nat} (first : Inside s t) (second : Inside s u) : t = u := by
  refine related.lock.exclusive t u ?_ ?_
  · rw [related.holds t first, Lock.owns]
  · rw [related.holds u second, Lock.owns]

theorem status_update (same : ∀ u, x.status u = (s.progress u).status) (progress : Progress loc op ret)
    {status : Status op ret} (agrees : status = progress.status) (u : Nat) :
    Function.update x.status t status u = (Function.update s.progress t progress u).status := by
  by_cases equal : u = t
  · subst equal
    rw [Function.update_self, Function.update_self, agrees]
  · rw [Function.update_of_ne equal, Function.update_of_ne equal, same]

theorem status_kept (same : ∀ u, x.status u = (s.progress u).status) {p : Progress loc op ret}
    (agrees : p.status = (s.progress t).status) (u : Nat) : x.status u = (Function.update s.progress t p u).status := by
  by_cases equal : u = t
  · subst equal
    rw [Function.update_self, agrees, same]
  · rw [Function.update_of_ne equal, same]

theorem inside_update {lock : Locking.State ω κ} {d : δ} {p : Progress loc op ret} {u : Nat} :
    Inside (⟨lock, d, Function.update s.progress t p⟩ : State ω κ δ loc op ret) u ↔
      if u = t then ∃ o l, p = .inside o l else Inside s u := by
  by_cases equal : u = t
  · subst equal
    simp [Inside]
  · simp [Inside, equal]

theorem Related.outside (related : Related L S s x) {lock : Locking.State ω κ} {p : Progress loc op ret}
    {x' : Object δ op ret} (inv : L.Inv lock) (others : ∀ u, u ≠ t → lock.threads u = s.lock.threads u)
    (before : ¬ Inside s t) (after : ∀ o l, p ≠ .inside o l) (state : x'.state = x.state)
    (status : ∀ u, x'.status u = (Function.update s.progress t p u).status) :
    Related L S { s with lock, progress := Function.update s.progress t p } x' := by
  have same (u : Nat) : Inside { s with lock, progress := Function.update s.progress t p } u ↔ u ≠ t ∧ Inside s u := by
    rw [inside_update]
    by_cases equal : u = t <;> simp [equal, after]
  constructor
  · exact inv
  · intro u inside
    obtain ⟨other, inside⟩ := (same u).mp inside
    exact (others u other).trans (related.holds u inside)
  · intro nobody
    refine state.trans (related.quiet fun u inside => nobody u ((same u).mpr ⟨?_, inside⟩))
    rintro rfl
    exact before inside
  · intro u o l inside
    obtain ⟨other, -⟩ := (same u).mp ⟨o, l, inside⟩
    simp only [Function.update_of_ne other] at inside
    rw [state]
    exact related.busy u o l inside
  · exact status

theorem Related.call [DecidableEq ret] (related : Related L S s x) {o : op} (taken : step L S s (t, .call o) = some s') :
    ∃ x', x.step S.apply (.call t o) = some x' ∧ Related L S s' x' := by
  obtain ⟨idle, lock, called, rfl⟩ := step_call taken
  have ready : x.status t = .idle := by rw [related.status, idle, Progress.status]
  refine ⟨_, Object.step_call o ready, ?_⟩
  refine related.outside (related.lock.step called) (fun u other => Lock.step_other other called) ?_ (by simp) rfl
    (status_update related.status _ rfl)
  rintro ⟨o, l, inside⟩
  cases idle.symm.trans inside

theorem Related.enter (related : Related L S s x) {a : Locking.Action γ} {lock : Locking.State ω κ}
    (accessed : L.step s.lock (t, a) = some lock) (before : ¬ Inside s t) (holds : lock.threads t = .holds) (u : Nat) :
    ¬ Inside s u := by
  intro inside
  have other : u ≠ t := by
    rintro rfl
    exact before inside
  have place := (Lock.step_other other accessed).trans (related.holds u inside)
  refine other ((related.lock.step accessed).exclusive u t ?_ ?_)
  · rw [place, Lock.owns]
  · rw [holds, Lock.owns]

theorem Related.sync [DecidableEq ret] (related : Related L S s x) {c : γ} (taken : step L S s (t, .sync c) = some s') :
    ∃ x', exec (Object.step S.apply) x (emit L S s (t, .sync c)) = some x' ∧ Related L S s' x' := by
  obtain ⟨lock, accessed, rfl⟩ := step_sync taken
  have inv := related.lock.step accessed
  have others (u : Nat) (other : u ≠ t) := Lock.step_other other accessed
  have before : ¬ Inside s t := by
    intro inside
    obtain ⟨k, w, outcome, at', -⟩ := Lock.step_access accessed
    cases at'.symm.trans (related.holds t inside)
  cases at' : s.progress t with
  | idle =>
      refine ⟨x, by simp [emit, at'], ?_⟩
      exact related.outside inv others before (by simp [synced]) rfl (status_kept related.status (by rw [at', synced]))
  | entering o =>
      refine ⟨x, by simp [emit, at'], ?_⟩
      by_cases holds : lock.threads t = .holds
      · have nobody := related.enter accessed before holds
        simp only [synced, holds, Place.isHolds, if_true]
        constructor
        · exact inv
        · intro u inside
          by_cases equal : u = t
          · exact equal ▸ holds
          · exact absurd ((inside_update.trans (by rw [if_neg equal])).mp inside) (nobody u)
        · intro empty
          exact absurd (inside_update.mpr (by simp)) (empty t)
        · intro u o' l inside
          by_cases equal : u = t
          · subst equal
            simp only [Function.update_self, Progress.inside.injEq] at inside
            obtain ⟨rfl, rfl⟩ := inside
            rw [related.quiet nobody]
            exact S.ends ..
          · simp only [Function.update_of_ne equal] at inside
            exact absurd ⟨o', l, inside⟩ (nobody u)
        · exact status_kept related.status (by rw [at', Progress.status, Progress.status])
      · have spins : (lock.threads t).isHolds = false := by
          cases place : lock.threads t with
          | holds => exact absurd place holds
          | _ => rfl
        simp only [synced, spins, Bool.false_eq_true, if_false]
        exact related.outside inv others before (by simp) rfl (status_kept related.status (by rw [at']))
  | inside o l => exact absurd ⟨o, l, at'⟩ before
  | leaving r =>
      cases out : (lock.threads t).isIdle with
      | true =>
          have done : x.status t = .done r := by rw [related.status, at', Progress.status]
          simp only [emit, at', accessed, out, if_true, synced]
          refine ⟨_, exec_cons.mpr ⟨_, Object.step_respond done, rfl⟩, ?_⟩
          exact related.outside inv others before (by simp) rfl (status_update related.status _ rfl)
      | false =>
          simp only [emit, at', accessed, out, synced, Bool.false_eq_true, if_false]
          exact ⟨x, rfl, related.outside inv others before (by simp) rfl (status_kept related.status (by rw [at']))⟩

theorem Related.work [DecidableEq ret] (related : Related L S s x) (taken : step L S s (t, .work) = some s') :
    ∃ x', exec (Object.step S.apply) x (emit L S s (t, .work)) = some x' ∧ Related L S s' x' := by
  obtain ⟨o, l, at', cases'⟩ := step_work taken
  have inside : Inside s t := ⟨o, l, at'⟩
  have finishes := related.busy t o l at'
  have others (u : Nat) (other : u ≠ t) : ¬ Inside s u := fun second => other (related.alone second inside)
  obtain ⟨data, l', accessed, rfl⟩ | ⟨data, r, lock, accessed, released, rfl⟩ := cases'
  · refine ⟨x, by simp [emit, at', accessed], ?_⟩
    constructor
    · exact related.lock
    · intro u second
      by_cases equal : u = t
      · exact equal ▸ related.holds t inside
      · exact absurd ((inside_update.trans (by rw [if_neg equal])).mp second) (others u equal)
    · intro empty
      exact absurd (inside_update.mpr (by simp)) (empty t)
    · intro u o' k second
      by_cases equal : u = t
      · subst equal
        simp only [Function.update_self, Progress.inside.injEq] at second
        obtain ⟨rfl, rfl⟩ := second
        exact finishes.inl accessed
      · simp only [Function.update_of_ne equal] at second
        exact absurd ⟨o', k, second⟩ (others u equal)
    · exact status_kept related.status (by rw [at', Progress.status, Progress.status])
  · have called : x.status t = .called o := by rw [related.status, at', Progress.status]
    have applied := finishes.inr accessed
    simp only [emit, at', accessed, Sum.isRight_inr, if_true]
    refine ⟨_, exec_cons.mpr ⟨_, Object.step_commit called, rfl⟩, ?_⟩
    have nobody (u : Nat) : ¬ Inside (⟨lock, data, Function.update s.progress t (.leaving r)⟩ : State ω κ δ loc op ret) u := by
      rw [inside_update]
      by_cases equal : u = t
      · simp [equal]
      · rw [if_neg equal]
        exact others u equal
    constructor
    · exact related.lock.step released
    · exact fun u second => absurd second (nobody u)
    · exact fun _ => congrArg Prod.fst applied
    · exact fun u o' k second => absurd ⟨o', k, second⟩ (nobody u)
    · exact status_update related.status _ (by rw [applied]; rfl)

theorem Related.step [DecidableEq ret] (related : Related L S s x) {a : Nat × Action γ op}
    (taken : step L S s a = some s') :
    ∃ x', exec (Object.step S.apply) x (emit L S s a) = some x' ∧ Related L S s' x' := by
  obtain ⟨t, action⟩ := a
  cases action with
  | call o =>
      obtain ⟨x', called, after⟩ := related.call taken
      exact ⟨x', exec_cons.mpr ⟨x', called, rfl⟩, after⟩
  | sync c => exact related.sync taken
  | work => exact related.work taken

theorem start_related (d : δ) : Related L S (start L d) (Object.initial d) where
  lock := Lock.start_inv
  holds := by simp [Inside, start]
  quiet := fun _ => rfl
  busy := by simp [start]
  status := fun _ => rfl

/-- Any run is one of the object on which an operation is one step, and at most one thread is at the data at a time. -/
theorem linearizable [DecidableEq ret] {d : δ} {actions : List (Nat × Action γ op)}
    (run : exec (Guarded.step L S) (start L d) actions = some s) :
    (∃ x, exec (Object.step S.apply) (Object.initial d) (trace (Guarded.step L S) (emit L S) (start L d) actions) = some x ∧
      x.Ok S.apply d ∧ Related L S s x) ∧ ∀ t u, Inside s t → Inside s u → t = u := by
  obtain ⟨x, abstract, related⟩ := (Along.trivial _ _ actions).simulation (Related L S)
    (fun _ _ _ _ related _ taken => related.step taken) (start_related d) run
  exact ⟨⟨x, abstract, Object.run_ok abstract, related⟩, fun _ _ => related.alone⟩

/-- The calls of a log, in the order in which they take effect, with what they return. -/
def answers (log : List (Nat × op × ret)) : List (op × ret) := log.reverse.map fun entry => entry.2

theorem legal_run {apply : δ → op → δ × ret} {init final : δ} {log : List (Nat × op × ret)}
    (legal : Legal apply init log final) :
    exec (fun d o => some (apply d o).1) init ((answers log).map Prod.fst) = some final ∧
      trace (fun d o => some (apply d o).1) (fun d o => [(o, (apply d o).2)]) init ((answers log).map Prod.fst) =
        answers log := by
  induction log generalizing final with
  | nil =>
      obtain rfl := legal
      exact ⟨rfl, rfl⟩
  | cons entry log ih =>
      obtain ⟨t, o, r⟩ := entry
      obtain ⟨before, legal, applied⟩ := legal
      obtain ⟨run, events⟩ := ih legal
      have later : answers ((t, o, r) :: log) = answers log ++ [(o, r)] := by
        rw [answers, List.reverse_cons, List.map_append, List.map_singleton, answers]
      rw [later, List.map_append, List.map_singleton]
      refine ⟨exec_append.mpr ⟨before, run, by simp [exec, applied]⟩, ?_⟩
      rw [trace_append _ run, events]
      simp [trace, applied]

end Guarded
