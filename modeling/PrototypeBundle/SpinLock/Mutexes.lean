import PrototypeBundle.Shared.Locking
import Mathlib.Data.List.Basic

set_option autoImplicit false

/-!
# The exclusive mutexes

Each place in the code of a mutex is named after the access made there.
-/

namespace PrototypeBundle.SpinLock

open Locking Runs

namespace DemoA

inductive Code where
  | testAndSet
  | clear
  deriving DecidableEq

def access : Code → Bool → Bool × Outcome Code
  | .testAndSet, flag => (true, if flag then .moves .testAndSet else .acquires)
  | .clear, _ => (false, .releases none)

-- `demo_a::spin_mutex` has no `try_lock`.
def spinMutex : Lock Bool Code Unit where
  initial := false
  lock := .testAndSet
  tryLock := none
  unlock := .clear
  access := fun _ _ k flag => some (access k flag)
  held := id
  releasing := fun k => k = .clear
  free := rfl
  entry := by simp
  sound := by
    intro t c k flag flag' outcome taken
    cases k <;> cases flag <;> cases taken <;> simp [Outcome.Sound]

end DemoA

namespace DemoB

inductive Code where
  -- the optimistic `try_lock` of `lock`
  | first
  | testAndSet
  | tryLock
  | clear
  deriving DecidableEq

def access : Code → Bool → Bool × Outcome Code
  | .first, flag => (true, if flag then .moves .testAndSet else .acquires)
  | .testAndSet, flag => (true, if flag then .moves .testAndSet else .acquires)
  | .tryLock, flag => (true, if flag then .refuses else .acquires)
  | .clear, _ => (false, .releases none)

def spinMutex : Lock Bool Code Unit where
  initial := false
  lock := .first
  tryLock := some .tryLock
  unlock := .clear
  access := fun _ _ k flag => some (access k flag)
  held := id
  releasing := fun k => k = .clear
  free := rfl
  entry := by simp
  sound := by
    intro t c k flag flag' outcome taken
    cases k <;> cases flag <;> cases taken <;> simp [Outcome.Sound]

end DemoB

namespace DemoC

inductive Code where
  | exchange
  | load
  | tryLoad
  | tryExchange
  | store
  deriving DecidableEq

def access : Code → Bool → Bool × Outcome Code
  | .exchange, flag => (true, if flag then .moves .load else .acquires)
  | .load, flag => (flag, if flag then .moves .load else .moves .exchange)
  | .tryLoad, flag => (flag, if flag then .refuses else .moves .tryExchange)
  | .tryExchange, flag => (true, if flag then .refuses else .acquires)
  | .store, _ => (false, .releases none)

-- `demo_c::spin_mutex`, and the `spin_mutex` of the other files.
def spinMutex : Lock Bool Code Unit where
  initial := false
  lock := .exchange
  tryLock := some .tryLoad
  unlock := .store
  access := fun _ _ k flag => some (access k flag)
  held := id
  releasing := fun k => k = .store
  free := rfl
  entry := by simp
  sound := by
    intro t c k flag flag' outcome taken
    cases k <;> cases flag <;> cases taken <;> simp [Outcome.Sound]

end DemoC

namespace DemoFutex

/-- The calls on a futex word that nobody else uses: `futexWait` gives no result while the thread sleeps, else whether
it is `awake`. The queue keeps who was `woken`. -/
structure Kernel where
  Queue : Type
  Choice : Type
  anyChoice : Choice
  initial : Queue
  futexWait : (t : Nat) → Choice → (integer expected : Int) → Queue → Queue × Option Bool
  futexWakeOne : Queue → Queue
  woken : Queue → Nat → Bool

/-- A thread is `awake` just when a wake has been delivered to it, and only `futexWakeOne` delivers one. -/
structure Kernel.Faithful (kernel : Kernel) : Prop where
  awake : ∀ t c integer expected q, (kernel.futexWait t c integer expected q).2 = some true ↔ kernel.woken q t = true
  waits : ∀ t c integer expected q u,
    kernel.woken (kernel.futexWait t c integer expected q).1 u = true → kernel.woken q u = true

inductive Code where
  | exchange
  | wait
  | tryExchange
  | store
  | wakeOne
  deriving DecidableEq

structure Word (kernel : Kernel) where
  flag : Int
  queue : kernel.Queue

variable (kernel : Kernel)

def access (t : Nat) (c : kernel.Choice) : Code → Word kernel → Word kernel × Outcome Code
  | .exchange, w => ({ w with flag := 1 }, if w.flag = 0 then .acquires else .moves .wait)
  | .wait, w =>
      let (queue, result) := kernel.futexWait t c w.flag 1 w.queue
      ({ w with queue }, if result = some true then .moves .exchange else .moves .wait)
  | .tryExchange, w => ({ w with flag := 1 }, if w.flag = 0 then .acquires else .refuses)
  | .store, w => ({ w with flag := 0 }, .releases (some .wakeOne))
  | .wakeOne, w => ({ w with queue := kernel.futexWakeOne w.queue }, .returns)

def futex : Lock (Word kernel) Code kernel.Choice where
  initial := ⟨0, kernel.initial⟩
  lock := .exchange
  tryLock := some .tryExchange
  unlock := .store
  access := fun t c k w => some (access kernel t c k w)
  held := fun w => w.flag ≠ 0
  releasing := fun k => k = .store
  free := by simp
  entry := by simp
  sound := by
    intro t c k w w' outcome taken
    obtain ⟨rfl, rfl⟩ := Prod.mk.inj (Option.some.inj taken)
    cases k with
    | exchange => by_cases zero : w.flag = 0 <;> simp [zero, Outcome.Sound]
    | wait =>
        simp only
        split <;> exact ⟨rfl, rfl⟩
    | tryExchange => by_cases zero : w.flag = 0 <;> simp [zero, Outcome.Sound]
    | store => exact ⟨rfl, by simp, by simp⟩
    | wakeOne => exact ⟨rfl, rfl⟩

end DemoFutex

structure Implementation where
  Word : Type
  Code : Type
  Choice : Type
  mutex : Lock Word Code Choice
  -- the places of `lock`
  locking : Code → Bool

inductive Mutex where
  | demoA
  | demoB
  | demoC
  | futex (kernel : DemoFutex.Kernel)

def Mutex.implementation : Mutex → Implementation
  | demoA => ⟨Bool, DemoA.Code, Unit, DemoA.spinMutex, fun k => k = .testAndSet⟩
  | demoB => ⟨Bool, DemoB.Code, Unit, DemoB.spinMutex, fun k => k = .first ∨ k = .testAndSet⟩
  | demoC => ⟨Bool, DemoC.Code, Unit, DemoC.spinMutex, fun k => k = .exchange ∨ k = .load⟩
  | futex kernel =>
      ⟨DemoFutex.Word kernel, DemoFutex.Code, kernel.Choice, DemoFutex.futex kernel, fun k => k = .exchange ∨ k = .wait⟩

abbrev Mutex.State (m : Mutex) := Locking.State m.implementation.Word m.implementation.Code

abbrev Mutex.Action (m : Mutex) := Locking.Action m.implementation.Choice

def Mutex.start (m : Mutex) : m.State := m.implementation.mutex.start

def Mutex.step (m : Mutex) : m.State → Nat × m.Action → Option m.State := m.implementation.mutex.step

/-- The thread has returned from `lock` or a successful `try_lock`, and `unlock` has not yet freed the mutex. -/
def Mutex.Owns (m : Mutex) (s : m.State) (t : Nat) : Prop := m.implementation.mutex.owns (s.threads t) = true

def Mutex.Locked (m : Mutex) (s : m.State) : Prop := m.implementation.mutex.held s.word = true

/-- Whatever the kernel does, no mutex has two owners, and it is locked exactly while it has one. -/
theorem mutexes_exclude (m : Mutex) {actions : List (Nat × m.Action)} {s : m.State}
    (run : exec m.step m.start actions = some s) :
    (∀ t u, m.Owns s t → m.Owns s u → t = u) ∧ (m.Locked s ↔ ∃ t, m.Owns s t) := by
  have inv := Lock.run_inv run
  exact ⟨inv.exclusive, inv.word⟩

-- Thread 1 spins on the load until thread 0 has stored `false`.
def handedOver : List (Nat × Mutex.demoC.Action) :=
  [(0, .lock), (1, .lock), (0, .access ()), (1, .access ()), (1, .access ()), (0, .unlock), (0, .access ()),
    (1, .access ()), (1, .access ())]

theorem mutexes_exclude_handed : ∃ s, exec Mutex.demoC.step Mutex.demoC.start handedOver = some s ∧ Mutex.demoC.Owns s 1 ∧
    (∀ t u, Mutex.demoC.Owns s t → Mutex.demoC.Owns s u → t = u) ∧ (Mutex.demoC.Locked s ↔ ∃ t, Mutex.demoC.Owns s t) :=
  ⟨_, rfl, rfl, @mutexes_exclude .demoC handedOver _ rfl⟩

end PrototypeBundle.SpinLock
