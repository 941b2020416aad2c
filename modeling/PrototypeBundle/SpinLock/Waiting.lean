import PrototypeBundle.SpinLock.Mutexes

set_option autoImplicit false

namespace PrototypeBundle.SpinLock

open Locking Runs

def Mutex.Waits (m : Mutex) (s : m.State) (t : Nat) : Prop :=
  ∃ k, s.threads t = .code k ∧ m.implementation.locking k = true

def alone {γ : Type} (t : Nat) (choices : List γ) : List (Nat × Locking.Action γ) :=
  choices.map fun c => (t, .access c)

/-- Some run of the thread alone takes it out of `lock`. -/
def Mutex.Gets (m : Mutex) (s : m.State) (t : Nat) : Prop :=
  ∃ choices s', exec m.step s (alone t choices) = some s' ∧ s'.threads t = .holds

/-- In the inner loop of `futex::lock`, with no wake delivered. -/
def Mutex.Stranded : (m : Mutex) → m.State → Nat → Prop
  | futex kernel, s, t => s.threads t = .code .wait ∧ kernel.woken s.word.queue t = false
  | _, _, _ => False

def Mutex.Faithful : Mutex → Prop
  | futex kernel => kernel.Faithful
  | _ => True

def Mutex.WakesOne : (m : Mutex) → m.State → Nat × m.Action → Prop
  | futex _, s, (t, .access _) => s.threads t = .code .wakeOne
  | _, _, _ => False

section Futex

variable {kernel : DemoFutex.Kernel} {s s' : (Mutex.futex kernel).State} {t : Nat}

open DemoFutex in
theorem access_queue (faithful : kernel.Faithful) {u : Nat} {c : kernel.Choice} {k : Code} {w : Word kernel} (quiet : k ≠ .wakeOne)
    (asleep : kernel.woken w.queue t = false) : kernel.woken (access kernel u c k w).1.queue t = false := by
  cases k with
  | wait =>
      rw [← Bool.not_eq_true]
      intro woken
      exact absurd (faithful.waits u c w.flag 1 w.queue t woken) (by simp [asleep])
  | wakeOne => exact absurd rfl quiet
  | _ => exact asleep

open DemoFutex in
theorem stranded_step (faithful : kernel.Faithful) (stranded : (Mutex.futex kernel).Stranded s t)
    {a : Nat × (Mutex.futex kernel).Action}
    (quiet : ¬ (Mutex.futex kernel).WakesOne s a) (taken : (Mutex.futex kernel).step s a = some s') :
    (Mutex.futex kernel).Stranded s' t := by
  obtain ⟨at', asleep⟩ := stranded
  obtain ⟨u, action⟩ := a
  -- a thread that calls is not `t`, and leaves the word alone
  have called {place : Place Code} (other : s.threads u ≠ .code .wait) (same : s' = s.put u place) :
      (Mutex.futex kernel).Stranded s' t := by
    have different : t ≠ u := by
      rintro rfl
      exact other at'
    rw [same]
    exact ⟨(Locking.put_other different _).trans at', asleep⟩
  cases action with
  | lock =>
      obtain ⟨idle, same⟩ := Lock.step_lock taken
      exact called (by simp [idle]) same
  | tryLock =>
      obtain ⟨k, idle, -, same⟩ := Lock.step_tryLock taken
      exact called (by simp [idle]) same
  | unlock =>
      obtain ⟨holds, same⟩ := Lock.step_unlock taken
      exact called (by simp [holds]) same
  | access c =>
      obtain ⟨k, w, outcome, code, accessed, rfl⟩ := Lock.step_access taken
      obtain ⟨rfl, rfl⟩ := Prod.mk.inj (Option.some.inj accessed)
      have awaits : k ≠ .wakeOne := by
        rintro rfl
        exact quiet code
      refine ⟨?_, access_queue faithful awaits asleep⟩
      by_cases own : t = u
      · subst own
        obtain rfl := Place.code.inj (code.symm.trans at')
        have unanswered : (kernel.futexWait t c s.word.flag 1 s.word.queue).2 ≠ some true := fun answered =>
          absurd ((faithful.awake ..).mp answered) (by simp [asleep])
        rw [Locking.put_self]
        simp only [if_neg unanswered, Outcome.place]
      · exact (Locking.put_other own _).trans at'

theorem stranded_alone (faithful : kernel.Faithful) (stranded : (Mutex.futex kernel).Stranded s t)
    {choices : List kernel.Choice} (run : exec (Mutex.futex kernel).step s (alone t choices) = some s') : (Mutex.futex kernel).Stranded s' t := by
  induction choices generalizing s with
  | nil =>
      obtain rfl := Option.some.inj run
      exact stranded
  | cons c choices ih =>
      obtain ⟨next, taken, run⟩ := exec_cons.mp run
      refine ih (stranded_step faithful stranded ?_ taken) run
      exact fun wakes => nomatch Place.code.inj (stranded.1.symm.trans wakes)

/-- A sleeper in one list, who has been woken in the other; a sleep may be interrupted. -/
def waitQueue : DemoFutex.Kernel where
  Queue := List Nat × List Nat
  Choice := Bool
  anyChoice := false
  initial := ([], [])
  futexWait := fun t interrupted integer expected (sleeping, awake) =>
    if t ∈ awake then ((sleeping, awake.erase t), some true)
    else if t ∈ sleeping then
      if interrupted then ((sleeping.erase t, awake), some false) else ((sleeping, awake), none)
    else if integer = expected then ((sleeping ++ [t], awake), none)
    else ((sleeping, awake), some false)
  futexWakeOne := fun (sleeping, awake) =>
    match sleeping with
    | [] => ([], awake)
    | t :: rest => (rest, t :: awake)
  woken := fun (_, awake) t => t ∈ awake

-- Thread 1 has found the word set and sleeps when thread 0 stores 0.
def asleep : List (Nat × (Mutex.futex waitQueue).Action) :=
  [(0, .lock), (0, .access false), (1, .lock), (1, .access false), (1, .access false), (0, .unlock), (0, .access false)]

end Futex

section Alone

variable {m : Mutex} {s : m.State} {t : Nat}

theorem Mutex.Gets.last {c : m.implementation.Choice} {k : m.implementation.Code} {w : m.implementation.Word}
    (at' : s.threads t = .code k) (accessed : m.implementation.mutex.access t c k s.word = some (w, .acquires)) :
    m.Gets s t :=
  ⟨[c], _, exec_cons.mpr ⟨_, Lock.access_taken at' accessed, rfl⟩, Locking.put_self _⟩

theorem Mutex.Gets.first {c : m.implementation.Choice} {k : m.implementation.Code} {w : m.implementation.Word}
    {outcome : Outcome m.implementation.Code} (at' : s.threads t = .code k)
    (accessed : m.implementation.mutex.access t c k s.word = some (w, outcome))
    (gets : m.Gets (({ s with word := w } : m.State).put t outcome.place) t) : m.Gets s t := by
  obtain ⟨choices, s', run, holds⟩ := gets
  exact ⟨c :: choices, s', exec_cons.mpr ⟨_, Lock.access_taken at' accessed, run⟩, holds⟩

theorem first_exchange_gets {kernel : DemoFutex.Kernel} {s : (Mutex.futex kernel).State}
    (at' : s.threads t = .code DemoFutex.Code.exchange) (zero : s.word.flag = 0) : (Mutex.futex kernel).Gets s t := by
  have takes : (DemoFutex.futex kernel).access t kernel.anyChoice .exchange s.word =
      some ({ s.word with flag := 1 }, .acquires) := by
    simp only [DemoFutex.futex, DemoFutex.access, zero, if_true]
  exact .last at' takes

theorem woken_gets {kernel : DemoFutex.Kernel} (faithful : kernel.Faithful) {s : (Mutex.futex kernel).State}
    (at' : s.threads t = .code DemoFutex.Code.wait) (zero : s.word.flag = 0)
    (woken : kernel.woken s.word.queue t = true) : (Mutex.futex kernel).Gets s t := by
  have answered : (kernel.futexWait t kernel.anyChoice s.word.flag 1 s.word.queue).2 = some true :=
    (faithful.awake ..).mpr woken
  have leaves : (DemoFutex.futex kernel).access t kernel.anyChoice .wait s.word =
      some ({ s.word with queue := (kernel.futexWait t kernel.anyChoice s.word.flag 1 s.word.queue).1 },
        .moves .exchange) := by
    simp only [DemoFutex.futex, DemoFutex.access, answered, if_true]
  exact .first at' leaves (first_exchange_gets (Locking.put_self _) zero)

/-- In `lock` on a free mutex, a thread that is left alone gets it, unless it waits for a wake that has not been sent. -/
theorem alone_gets_iff (faithful : m.Faithful) (free : ¬ m.Locked s) (waits : m.Waits s t) : m.Gets s t ↔ ¬ m.Stranded s t := by
  obtain ⟨k, at', locking⟩ := waits
  cases m with
  | demoA =>
      have unset : s.word = false := Bool.eq_false_iff.mpr free
      change DemoA.Code at k
      have place : k = DemoA.Code.testAndSet := of_decide_eq_true locking
      subst place
      exact iff_of_true (.last (c := ()) at' (congrArg some (by rw [unset]; rfl))) id
  | demoB =>
      have unset : s.word = false := Bool.eq_false_iff.mpr free
      change DemoB.Code at k
      have place : k = DemoB.Code.first ∨ k = DemoB.Code.testAndSet := of_decide_eq_true locking
      refine iff_of_true ?_ id
      rcases place with rfl | rfl
      · exact .last (c := ()) at' (congrArg some (by rw [unset]; rfl))
      · exact .last (c := ()) at' (congrArg some (by rw [unset]; rfl))
  | demoC =>
      have unset : s.word = false := Bool.eq_false_iff.mpr free
      change DemoC.Code at k
      have place : k = DemoC.Code.exchange ∨ k = DemoC.Code.load := of_decide_eq_true locking
      refine iff_of_true ?_ id
      rcases place with rfl | rfl
      · exact .last (c := ()) at' (congrArg some (by rw [unset]; rfl))
      · -- the load finds it free, the exchange takes it
        have loads : DemoC.spinMutex.access t () .load s.word = some (false, .moves .exchange) := by
          rw [unset]
          rfl
        exact .first at' loads (.last (c := ()) (Locking.put_self _) rfl)
  | futex kernel =>
      have zero : s.word.flag = 0 := by
        have unset : ¬ decide (s.word.flag ≠ 0) = true := free
        simpa using unset
      change DemoFutex.Code at k
      have place : k = DemoFutex.Code.exchange ∨ k = DemoFutex.Code.wait := of_decide_eq_true locking
      rcases place with rfl | rfl
      · refine iff_of_true (first_exchange_gets at' zero) fun stranded => ?_
        cases Place.code.inj (at'.symm.trans stranded.1)
      · constructor
        · rintro ⟨choices, s', run, holds⟩ stranded
          cases (stranded_alone faithful stranded run).1.symm.trans holds
        · intro sent
          have woken : kernel.woken s.word.queue t = true := by
            rw [← Bool.not_eq_false]
            exact fun asleep => sent ⟨at', asleep⟩
          exact woken_gets faithful at' zero woken

-- The exchange of thread 1 fails, thread 0 unlocks, and then the load of thread 1 finds the mutex free.
theorem alone_gets_iff_spinning : ∃ s, exec Mutex.demoC.step Mutex.demoC.start (handedOver.take 7) = some s ∧
    (Mutex.demoC.Gets s 1 ↔ ¬ Mutex.demoC.Stranded s 1) :=
  ⟨_, rfl, alone_gets_iff (m := .demoC) True.intro Bool.false_ne_true ⟨.load, rfl, rfl⟩⟩

end Alone

end PrototypeBundle.SpinLock
