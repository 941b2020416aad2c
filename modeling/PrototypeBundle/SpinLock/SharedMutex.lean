import PrototypeBundle.Shared.Run
import Mathlib.Logic.Function.Basic
import Mathlib.Algebra.Order.Ring.Int

set_option autoImplicit false

/-!
# `shared_spin_mutex`

The flag counts the readers, or is -1 while a writer holds the mutex.
-/

namespace PrototypeBundle.SpinLock

open Runs

-- `_flag` is an `intptr_t`.
def wrap (value : Int) : Int := value.bmod (2 ^ 64)

inductive Op where
  | lock
  | tryLock
  | unlock
  | sharedLock
  | sharedUnlock
  deriving DecidableEq, Repr

-- The next access to the flag, with the value that a thread has loaded.
inductive Thread where
  | idle
  | lock
  | awaitZero
  | tryLock
  | unlock
  | sharedLock
  | sharedExchange (expected : Int)
  | awaitReaders
  | sharedUnlock
  | sharedUnlockExchange (expected : Int)
  deriving DecidableEq, Repr

structure State where
  flag : Int
  threads : Nat → Thread
  -- Who has returned from `lock` or a successful `try_lock` and not yet unlocked, once for each time.
  exclusive : List Nat
  -- The same for `shared_lock`.
  shared : List Nat

def initial : State where
  flag := 0
  threads := fun _ => .idle
  exclusive := []
  shared := []

inductive Action where
  | call (op : Op)
  -- An exchange may fail spuriously.
  | access (fails : Bool)
  deriving DecidableEq, Repr

-- Only a holder unlocks.
def State.begin (s : State) (t : Nat) : Op → Option Thread
  | .lock => some .lock
  | .tryLock => some .tryLock
  | .unlock => if t ∈ s.exclusive then some .unlock else none
  | .sharedLock => some .sharedLock
  | .sharedUnlock => if t ∈ s.shared then some .sharedUnlock else none

def State.access (s : State) (t : Nat) (fails : Bool) : Thread → Option (State × Thread)
  | .idle => none
  | .lock =>
      if s.flag = 0 ∧ fails = false then some ({ s with flag := -1 }, .awaitZero)
      -- the condition is negated: `lock` returns when the exchange has failed
      else some ({ s with exclusive := t :: s.exclusive }, .idle)
  | .awaitZero => if s.flag ≠ 0 then some (s, .awaitZero) else some (s, .lock)
  | .tryLock =>
      if s.flag = 0 ∧ fails = false then some ({ s with flag := -1, exclusive := t :: s.exclusive }, .idle)
      else some (s, .idle)
  | .unlock =>
      let s := { s with exclusive := s.exclusive.erase t }
      if s.flag = -1 ∧ fails = false then some ({ s with flag := 0 }, .idle) else some (s, .idle)
  | .sharedLock => if s.flag ≥ 0 then some (s, .sharedExchange s.flag) else some (s, .awaitReaders)
  | .sharedExchange expected =>
      if s.flag = expected ∧ fails = false then
        some ({ s with flag := wrap (expected + 1), shared := t :: s.shared }, .idle)
      else some (s, .awaitReaders)
  | .awaitReaders => if s.flag < 0 then some (s, .awaitReaders) else some (s, .sharedLock)
  | .sharedUnlock =>
      if s.flag ≤ 0 then some ({ s with shared := s.shared.erase t }, .idle)
      else some (s, .sharedUnlockExchange s.flag)
  | .sharedUnlockExchange expected =>
      if s.flag = expected ∧ fails = false then
        some ({ s with flag := wrap (expected - 1), shared := s.shared.erase t }, .idle)
      else some (s, .sharedUnlock)

def State.put (s : State) (t : Nat) (thread : Thread) : State :=
  { s with threads := Function.update s.threads t thread }

def State.step (s : State) : Nat × Action → Option State
  | (t, .call op) => if s.threads t = .idle then (s.begin t op).map (s.put t) else none
  | (t, .access fails) => (s.access t fails (s.threads t)).map fun next => next.1.put t next.2

section Step

variable {s : State} {t : Nat}

@[simp] theorem put_flag (thread : Thread) : (s.put t thread).flag = s.flag := rfl

@[simp] theorem put_exclusive (thread : Thread) : (s.put t thread).exclusive = s.exclusive := rfl

@[simp] theorem put_shared (thread : Thread) : (s.put t thread).shared = s.shared := rfl

@[simp] theorem put_self (thread : Thread) : (s.put t thread).threads t = thread := Function.update_self ..

theorem put_other {u : Nat} (other : u ≠ t) (thread : Thread) : (s.put t thread).threads u = s.threads u :=
  Function.update_of_ne other ..

theorem step_call {op : Op} {thread : Thread} (idle : s.threads t = .idle) (begun : s.begin t op = some thread) :
    s.step (t, .call op) = some (s.put t thread) := by
  rw [State.step, if_pos idle, begun, Option.map_some]

theorem step_access {fails : Bool} {thread : Thread} {next : State × Thread} (phase : s.threads t = thread)
    (accessed : s.access t fails thread = some next) : s.step (t, .access fails) = some (next.1.put t next.2) := by
  rw [State.step, phase, accessed, Option.map_some]

theorem access_threads {fails : Bool} {thread : Thread} {next : State × Thread}
    (accessed : s.access t fails thread = some next) : next.1.threads = s.threads := by
  cases thread with
  | idle => simp [State.access] at accessed
  | _ =>
      simp only [State.access] at accessed
      try split at accessed
      all_goals
        obtain rfl := Option.some.inj accessed
        rfl

end Step

/-- While a thread holds the mutex exclusively no other one holds it. -/
def State.Excludes (s : State) : Prop :=
  ∀ t ∈ s.exclusive, ∀ u, u ≠ t → u ∉ s.exclusive ∧ u ∉ s.shared

/-- `lock` returns only while the flag is -1 and nobody holds the mutex. -/
def Orderly (s : State) : Nat × Action → Prop
  | (_, .call _) => True
  | (t, .access fails) =>
      s.threads t = .lock → s.flag ≠ 0 ∨ fails = true → s.flag = -1 ∧ s.exclusive = [] ∧ s.shared = []

instance (s : State) : (a : Nat × Action) → Decidable (Orderly s a)
  | (_, .call _) => inferInstanceAs (Decidable True)
  | (_, .access _) => inferInstanceAs (Decidable (_ → _ → _ ∧ _ ∧ _))

section Invariant

def Counted (flag : Int) (exclusive shared : List Nat) : Prop :=
  (exclusive = [] ∧ flag = shared.length ∧ flag < 2 ^ 63) ∨
    (flag = -1 ∧ shared = [] ∧ exclusive.length ≤ 1) ∨
    (flag = -2 ^ 63 ∧ exclusive = [])

def Thread.Ok (exclusive shared : List Nat) (t : Nat) : Thread → Prop
  | .unlock => t ∈ exclusive
  | .sharedExchange expected => 0 ≤ expected
  | .sharedUnlock => t ∈ shared
  | .sharedUnlockExchange expected => t ∈ shared ∧ 0 < expected
  | _ => True

structure State.Consistent (s : State) : Prop where
  counted : Counted s.flag s.exclusive s.shared
  threads : ∀ t, (s.threads t).Ok s.exclusive s.shared t

theorem wrap_succ {value : Int} (nonneg : 0 ≤ value) (small : value < 2 ^ 63) :
    (wrap (value + 1) = value + 1 ∧ value + 1 < 2 ^ 63) ∨ wrap (value + 1) = -2 ^ 63 := by
  unfold wrap
  rw [Int.bmod_def]
  omega

theorem wrap_pred {value : Int} (positive : 0 < value) (small : value < 2 ^ 63) : wrap (value - 1) = value - 1 := by
  unfold wrap
  rw [Int.bmod_def]
  omega

theorem initial_consistent : initial.Consistent :=
  ⟨Or.inl ⟨rfl, rfl, by decide⟩, fun _ => True.intro⟩

variable {s : State} {t : Nat}

theorem State.Consistent.excludes (consistent : s.Consistent) : s.Excludes := by
  intro t holder u other
  rcases consistent.counted with ⟨none', -⟩ | ⟨-, noReader, single⟩ | ⟨-, none'⟩
  · rw [none'] at holder
    exact absurd holder List.not_mem_nil
  · obtain ⟨v, alone⟩ := List.length_eq_one_iff.mp (Nat.le_antisymm single (List.length_pos_of_mem holder))
    rw [alone, List.mem_singleton] at holder
    rw [alone, noReader, List.mem_singleton]
    exact ⟨fun same => other (same.trans holder.symm), List.not_mem_nil⟩
  · rw [none'] at holder
    exact absurd holder List.not_mem_nil

theorem State.Consistent.update (consistent : s.Consistent) {flag : Int} {exclusive shared : List Nat} {thread : Thread}
    (counted : Counted flag exclusive shared) (keepsExclusive : ∀ u, u ≠ t → u ∈ s.exclusive → u ∈ exclusive)
    (keepsShared : ∀ u, u ≠ t → u ∈ s.shared → u ∈ shared) (own : thread.Ok exclusive shared t) :
    (State.mk flag (Function.update s.threads t thread) exclusive shared).Consistent := by
  refine ⟨counted, fun u => ?_⟩
  by_cases same : u = t
  · subst same
    simpa using own
  · simp only [Function.update_of_ne same]
    have before := consistent.threads u
    cases phase : s.threads u with
    | unlock =>
        rw [phase] at before
        exact keepsExclusive u same before
    | sharedUnlock =>
        rw [phase] at before
        exact keepsShared u same before
    | sharedUnlockExchange expected =>
        rw [phase] at before
        exact ⟨keepsShared u same before.1, before.2⟩
    | sharedExchange expected =>
        rw [phase] at before
        exact before
    | idle => exact True.intro
    | lock => exact True.intro
    | awaitZero => exact True.intro
    | tryLock => exact True.intro
    | sharedLock => exact True.intro
    | awaitReaders => exact True.intro

theorem State.Consistent.moves (consistent : s.Consistent) {thread : Thread} (own : thread.Ok s.exclusive s.shared t) :
    (s.put t thread).Consistent :=
  consistent.update consistent.counted (fun _ _ holds => holds) (fun _ _ holds => holds) own

theorem State.Consistent.calls (consistent : s.Consistent) {op : Op} {thread : Thread} (begun : s.begin t op = some thread) :
    (s.put t thread).Consistent := by
  refine consistent.moves ?_
  cases op with
  | lock =>
      obtain rfl := Option.some.inj begun
      exact True.intro
  | tryLock =>
      obtain rfl := Option.some.inj begun
      exact True.intro
  | sharedLock =>
      obtain rfl := Option.some.inj begun
      exact True.intro
  | unlock =>
      rw [State.begin, Option.ite_none_right_eq_some] at begun
      obtain ⟨holder, same⟩ := begun
      obtain rfl := Option.some.inj same
      exact holder
  | sharedUnlock =>
      rw [State.begin, Option.ite_none_right_eq_some] at begun
      obtain ⟨holder, same⟩ := begun
      obtain rfl := Option.some.inj same
      exact holder

theorem Counted.free {exclusive shared : List Nat} (counted : Counted 0 exclusive shared) :
    exclusive = [] ∧ shared = [] := by
  rcases counted with ⟨none', readers, -⟩ | ⟨impossible, -⟩ | ⟨impossible, -⟩
  · exact ⟨none', List.length_eq_zero_iff.mp (by omega)⟩
  · omega
  · omega

theorem Counted.readers {flag : Int} {exclusive shared : List Nat} (counted : Counted flag exclusive shared)
    (nonneg : 0 ≤ flag) : exclusive = [] ∧ flag = shared.length ∧ flag < 2 ^ 63 := by
  rcases counted with reading | ⟨negative, -⟩ | ⟨negative, -⟩
  · exact reading
  · omega
  · omega

theorem Counted.unlocked {flag : Int} {exclusive shared : List Nat} (counted : Counted flag exclusive shared)
    (holder : t ∈ exclusive) : flag = -1 ∧ exclusive.erase t = [] ∧ shared = [] := by
  rcases counted with ⟨none', -⟩ | ⟨writing, noReader, single⟩ | ⟨-, none'⟩
  · exact absurd holder (none' ▸ List.not_mem_nil)
  · have size := List.length_erase_of_mem holder
    have some' := List.length_pos_of_mem holder
    exact ⟨writing, List.length_eq_zero_iff.mp (by omega), noReader⟩
  · exact absurd holder (none' ▸ List.not_mem_nil)

theorem State.Consistent.accesses (consistent : s.Consistent) {fails : Bool} (orderly : Orderly s (t, .access fails))
    {next : State × Thread} (taken : s.access t fails (s.threads t) = some next) : (next.1.put t next.2).Consistent := by
  have own := consistent.threads t
  have erased (holders : List Nat) (u : Nat) (other : u ≠ t) (holds : u ∈ holders) : u ∈ holders.erase t :=
    (List.mem_erase_of_ne other).mpr holds
  have added (holders : List Nat) (u : Nat) (_ : u ≠ t) (holds : u ∈ holders) : u ∈ t :: holders :=
    List.mem_cons_of_mem _ holds
  cases phase : s.threads t with
  | idle =>
      rw [phase] at taken
      exact absurd taken (by simp [State.access])
  | lock =>
      rw [phase, State.access] at taken
      split at taken
      case isTrue free =>
        obtain rfl := Option.some.inj taken
        have counted := consistent.counted
        rw [free.1] at counted
        obtain ⟨noWriter, noReader⟩ := counted.free
        refine consistent.update ?_ (fun _ _ holds => holds) (fun _ _ holds => holds) True.intro
        exact Or.inr (Or.inl ⟨rfl, noReader, by simp [noWriter]⟩)
      case isFalse failed =>
        obtain rfl := Option.some.inj taken
        -- the thread becomes the one holder of a flag that nobody would have reset
        obtain ⟨stranded, noWriter, noReader⟩ := orderly phase (by
          by_cases zero : s.flag = 0
          · exact Or.inr (by simpa [zero] using failed)
          · exact Or.inl zero)
        refine consistent.update ?_ (added s.exclusive) (fun _ _ holds => holds) True.intro
        exact Or.inr (Or.inl ⟨stranded, noReader, by simp [noWriter]⟩)
  | awaitZero =>
      rw [phase, State.access] at taken
      split at taken
      all_goals
        obtain rfl := Option.some.inj taken
        exact consistent.moves True.intro
  | tryLock =>
      rw [phase, State.access] at taken
      split at taken
      case isTrue free =>
        obtain rfl := Option.some.inj taken
        have counted := consistent.counted
        rw [free.1] at counted
        obtain ⟨noWriter, noReader⟩ := counted.free
        refine consistent.update ?_ (added s.exclusive) (fun _ _ holds => holds) True.intro
        exact Or.inr (Or.inl ⟨rfl, noReader, by simp [noWriter]⟩)
      case isFalse =>
        obtain rfl := Option.some.inj taken
        exact consistent.moves True.intro
  | unlock =>
      rw [phase] at own
      obtain ⟨writing, alone, noReader⟩ := consistent.counted.unlocked own
      simp only [phase, State.access] at taken
      split at taken
      case isTrue =>
        obtain rfl := Option.some.inj taken
        have counted : Counted 0 (s.exclusive.erase t) s.shared := Or.inl ⟨alone, by simp [noReader], by decide⟩
        exact consistent.update counted (erased s.exclusive) (fun _ _ holds => holds) True.intro
      case isFalse =>
        obtain rfl := Option.some.inj taken
        refine consistent.update ?_ (erased s.exclusive) (fun _ _ holds => holds) True.intro
        exact Or.inr (Or.inl ⟨writing, noReader, by simp [alone]⟩)
  | sharedLock =>
      rw [phase, State.access] at taken
      split at taken
      case isTrue nonneg =>
        obtain rfl := Option.some.inj taken
        exact consistent.moves nonneg
      case isFalse =>
        obtain rfl := Option.some.inj taken
        exact consistent.moves True.intro
  | sharedExchange expected =>
      rw [phase] at own
      rw [phase, State.access] at taken
      split at taken
      case isTrue found =>
        obtain rfl := Option.some.inj taken
        have counted := consistent.counted
        rw [found.1] at counted
        obtain ⟨noWriter, readers, small⟩ := counted.readers own
        refine consistent.update ?_ (fun _ _ holds => holds) (added s.shared) True.intro
        rcases wrap_succ own small with ⟨same, small'⟩ | wrapped
        · rw [same]
          exact Or.inl ⟨noWriter, by simp [readers], small'⟩
        · exact Or.inr (Or.inr ⟨wrapped, noWriter⟩)
      case isFalse =>
        obtain rfl := Option.some.inj taken
        exact consistent.moves True.intro
  | awaitReaders =>
      rw [phase, State.access] at taken
      split at taken
      all_goals
        obtain rfl := Option.some.inj taken
        exact consistent.moves True.intro
  | sharedUnlock =>
      rw [phase] at own
      rw [phase, State.access] at taken
      split at taken
      case isTrue nonpos =>
        obtain rfl := Option.some.inj taken
        refine consistent.update ?_ (fun _ _ holds => holds) (erased s.shared) True.intro
        have holder := List.length_pos_of_mem own
        -- with a reader and no positive flag the count has wrapped
        rcases consistent.counted with ⟨-, readers, -⟩ | ⟨-, noReader, -⟩ | wrapped
        · omega
        · exact absurd own (noReader ▸ List.not_mem_nil)
        · exact Or.inr (Or.inr wrapped)
      case isFalse positive =>
        obtain rfl := Option.some.inj taken
        exact consistent.moves ⟨own, Int.not_le.mp positive⟩
  | sharedUnlockExchange expected =>
      rw [phase] at own
      obtain ⟨holder, positive⟩ := own
      rw [phase, State.access] at taken
      split at taken
      case isTrue found =>
        obtain rfl := Option.some.inj taken
        have counted := consistent.counted
        rw [found.1] at counted
        obtain ⟨noWriter, readers, small⟩ := counted.readers (Int.le_of_lt positive)
        have size := List.length_erase_of_mem holder
        have counted' : Counted (wrap (expected - 1)) s.exclusive (s.shared.erase t) := by
          rw [wrap_pred positive small]
          exact Or.inl ⟨noWriter, by omega, by omega⟩
        exact consistent.update counted' (fun _ _ holds => holds) (erased s.shared) True.intro
      case isFalse =>
        obtain rfl := Option.some.inj taken
        exact consistent.moves holder

theorem State.Consistent.step (consistent : s.Consistent) {a : Nat × Action} {next : State} (orderly : Orderly s a)
    (taken : s.step a = some next) : next.Consistent := by
  obtain ⟨t, action⟩ := a
  cases action with
  | call op =>
      rw [State.step, Option.ite_none_right_eq_some, Option.map_eq_some_iff] at taken
      obtain ⟨-, thread, begun, rfl⟩ := taken
      exact consistent.calls begun
  | access fails =>
      rw [State.step, Option.map_eq_some_iff] at taken
      obtain ⟨next, accessed, rfl⟩ := taken
      exact consistent.accesses orderly accessed

end Invariant

theorem run_consistent {actions : List (Nat × Action)} {s : State} (orderly : Along State.step Orderly initial actions)
    (run : exec State.step initial actions = some s) : s.Consistent :=
  orderly.invariant State.Consistent (fun _ _ _ consistent orderly taken => consistent.step orderly taken)
    initial_consistent run

/-- In a run in which `lock` returns only while the flag is -1 and nobody holds the
mutex, no holder is ever joined by another one. -/
theorem holders_exclude {actions : List (Nat × Action)} {s : State} (orderly : Along State.step Orderly initial actions)
    (run : exec State.step initial actions = some s) : s.Excludes :=
  (run_consistent orderly run).excludes

def strandedRun : List (Nat × Action) :=
  [(0, .call .lock), (0, .access false), (1, .call .lock), (1, .access false), (2, .call .tryLock), (2, .access false)]

-- Thread 1 gets the mutex through the flag that the exchange of thread 0 has set.
theorem holders_exclude_stranded :
    ∃ s, exec State.step initial strandedRun = some s ∧ s.exclusive = [1] ∧ s.Excludes :=
  ⟨_, rfl, rfl, holders_exclude (Along.of_check (show check State.step Orderly initial strandedRun = true by decide)) rfl⟩

section Converse

variable {s next : State} {t u : Nat}

/-- Orderly steps lead from `s` to a state in which a holder is not alone. -/
def State.Breakable (s : State) : Prop :=
  ∃ rest last, Along State.step Orderly s rest ∧ exec State.step s rest = some last ∧ ¬ last.Excludes

theorem State.Breakable.of_step {a : Nat × Action} (orderly : Orderly s a) (taken : s.step a = some next)
    (later : next.Breakable) : s.Breakable := by
  obtain ⟨rest, last, along, run, broken⟩ := later
  exact ⟨a :: rest, last, along.cons orderly taken, exec_cons.mpr ⟨next, taken, run⟩, broken⟩

theorem State.Breakable.of_call (op : Op) {thread : Thread} (idle : s.threads t = .idle)
    (begun : s.begin t op = some thread) (later : (s.put t thread).Breakable) : s.Breakable := by
  have orderly : Orderly s (t, .call op) := True.intro
  exact .of_step orderly (step_call idle begun) later

theorem State.Breakable.of_access {thread : Thread} {next : State × Thread} (phase : s.threads t = thread)
    (notLock : thread ≠ .lock) (accessed : s.access t false thread = some next)
    (later : (next.1.put t next.2).Breakable) : s.Breakable := by
  have orderly : Orderly s (t, .access false) := fun lock => absurd (phase.symm.trans lock) notLock
  exact .of_step orderly (step_access phase accessed) later

theorem State.Breakable.now (holder : t ∈ s.exclusive) (other : u ≠ t) (joined : u ∈ s.exclusive ∨ u ∈ s.shared) :
    s.Breakable := by
  refine ⟨[], s, True.intro, rfl, fun excludes => ?_⟩
  obtain ⟨notWriter, notReader⟩ := excludes t holder u other
  exact joined.elim notWriter notReader

theorem State.Breakable.reader (holder : t ∈ s.exclusive) (other : u ≠ t) (idle : s.threads u = .idle)
    (nonneg : 0 ≤ s.flag) : s.Breakable := by
  have loads : (s.put u .sharedLock).access u false .sharedLock = some (s.put u .sharedLock, .sharedExchange s.flag) :=
    if_pos nonneg
  refine .of_call .sharedLock idle rfl (.of_access (put_self _) Thread.noConfusion loads ?_)
  refine .of_access (put_self _) Thread.noConfusion (if_pos ⟨rfl, rfl⟩) (.now holder other (Or.inr ?_))
  exact List.mem_cons_self

theorem exists_idle {actions : List (Nat × Action)} (run : exec State.step initial actions = some s) :
    ∃ n, ∀ v, n ≤ v → s.threads v = .idle := by
  refine exec_invariant (fun s => ∃ n, ∀ v, n ≤ v → s.threads v = .idle) ?_ ⟨0, fun _ _ => rfl⟩ run
  intro s a next idle taken
  obtain ⟨n, idle⟩ := idle
  obtain ⟨t, action⟩ := a
  have put (s' : State) (thread : Thread) (same : s'.threads = s.threads) :
      ∃ n, ∀ v, n ≤ v → (s'.put t thread).threads v = .idle := by
    refine ⟨max n (t + 1), fun v beyond => ?_⟩
    rw [put_other (by omega), same]
    exact idle v (by omega)
  cases action with
  | call op =>
      rw [State.step, Option.ite_none_right_eq_some, Option.map_eq_some_iff] at taken
      obtain ⟨-, thread, -, rfl⟩ := taken
      exact put s thread rfl
  | access fails =>
      rw [State.step, Option.map_eq_some_iff] at taken
      obtain ⟨next, accessed, rfl⟩ := taken
      exact put next.1 next.2 (access_threads accessed)

/-- Up to the wrap of the count no step can be spared from the condition: after one that
does not meet it, orderly steps are enough to let a second thread in. -/
theorem disorderly_breaks {actions : List (Nat × Action)} (orderly : Along State.step Orderly initial actions)
    (run : exec State.step initial actions = some s) (unwrapped : s.flag ≠ -2 ^ 63) {a : Nat × Action}
    (disorderly : ¬ Orderly s a) (taken : s.step a = some next) : next.Breakable := by
  have consistent := run_consistent orderly run
  obtain ⟨n, idle⟩ := exists_idle run
  obtain ⟨t, action⟩ := a
  cases action with
  | call op => exact absurd True.intro disorderly
  | access fails =>
      simp only [Orderly, Classical.not_imp] at disorderly
      obtain ⟨phase, failed, held⟩ := disorderly
      have notFree : ¬ (s.flag = 0 ∧ fails = false) := fun both => by
        rcases failed with nonzero | spurious
        · exact nonzero both.1
        · simp [spurious] at both
      rw [State.step, phase, State.access, if_neg notFree] at taken
      obtain rfl := Option.some.inj taken
      have other : max n (t + 1) ≠ t := by omega
      have waiting : (({ s with exclusive := t :: s.exclusive } : State).put t .idle).threads (max n (t + 1)) = .idle :=
        (Function.update_of_ne other ..).trans (idle _ (Nat.le_max_left ..))
      have holder : t ∈ (({ s with exclusive := t :: s.exclusive } : State).put t .idle).exclusive := List.mem_cons_self
      rcases consistent.counted with ⟨-, readers, -⟩ | ⟨writing, noReader, single⟩ | ⟨wrapped, -⟩
      · exact .reader holder other waiting (readers ▸ Int.natCast_nonneg _)
      · have some' : s.exclusive ≠ [] := fun none' => held ⟨writing, none', noReader⟩
        obtain ⟨v, alone⟩ := List.length_eq_one_iff.mp (Nat.le_antisymm single (List.length_pos_iff.mpr some'))
        by_cases own : v = t
        · -- it locks a second time; when it unlocks once it still is a holder
          subst own
          have unlocks : v ∈ v :: s.exclusive := List.mem_cons_self
          refine .of_call .unlock (put_self _) (if_pos unlocks) ?_
          refine .of_access (put_self _) Thread.noConfusion (if_pos ⟨writing, rfl⟩) ?_
          have still : v ∈ (v :: s.exclusive).erase v := by simp [alone]
          exact .reader still other (by rwa [put_other other, put_other other]) (Int.le_refl 0)
        · exact .now holder own (Or.inl (List.mem_cons_of_mem _ (by simp [alone])))
      · exact absurd wrapped unwrapped

end Converse

/-- Thread 0 holds the mutex when the exchange of thread 1 fails, and `lock` returns. -/
theorem failed_exchange_enters :
    ∃ s, exec State.step initial
        [(0, .call .tryLock), (0, .access false), (1, .call .lock), (1, .access false)] = some s ∧
      s.exclusive = [1, 0] ∧ ¬ s.Excludes := by
  refine ⟨_, rfl, rfl, fun excludes => ?_⟩
  exact absurd List.mem_cons_self (excludes 0 (by decide) 1 (by decide)).1

end PrototypeBundle.SpinLock
