import PrototypeBundle.ProtoF.Machine

set_option autoImplicit false

-- The lane is declared after the workers, so that it is destroyed before they are joined.

namespace PrototypeBundle.ProtoF

open Runs

variable {cfg : Config}

inductive Code : (base : Frame) → (free : Bool) → List Frame → Prop where
  | worker : Code .worker false [.worker]
  | client : Code .client true [.client]
  | calling {base : Frame} (task : Task) {rest : List Frame} (below : Code base false rest) :
      Code base true (.calling task :: rest)
  | testing {base : Frame} (tk : Nat) {rest : List Frame} (below : Code base true rest) :
      Code base false (.testing tk :: rest)

inductive Shape (cfg : Config) (e : Executor) : (base : Frame) → List Frame → Prop where
  | code {base : Frame} {free : Bool} {stack : List Frame} (code : Code base free stack) : Shape cfg e base stack
  | resolving {base : Frame} (task : Task) {rest : List Frame} (below : Code base false rest) :
      Shape cfg e base (.resolving task :: rest)
  | pushing {base : Frame} (tasks : List Task) {rest : List Frame} (below : Code base true rest) :
      Shape cfg e base (.pushing tasks :: rest)
  | waiting {base : Frame} (tk : Nat) {rest : List Frame} (below : Code base true rest) : Shape cfg e base (.waiting tk :: rest)
  | popping : Shape cfg e .worker [.popping]
  | stopping (i : Nat) (requested : ∀ j < i, e.stopRequested j = true) : Shape cfg e .client [.stopping i]
  | members (requested : ∀ j < cfg.threadCount.toNat, e.stopRequested j = true) : Shape cfg e .client [.members]
  | joining (i : Nat) (requested : ∀ j < cfg.threadCount.toNat, e.stopRequested j = true) :
      Shape cfg e .client [.joining i]
  | gone (base : Frame) : Shape cfg e base []

/-- The worker has no access to the lane before it. -/
inductive Clear : List Frame → Prop where
  | gone : Clear []
  | loop : Clear [.worker]
  | resolving (task : Task) : Clear [.resolving task, .worker]

/-- The next access of the thread is to the lane. -/
def Touches : List Frame → Prop
  | .popping :: _ => True
  | .pushing (_ :: _) :: _ => True
  | .waiting _ :: _ => True
  | _ => False

def Dangling (s : State) : Prop :=
  s.executor.laneDestroyed = true ∧ ∃ (t : Nat) (stack : List Frame), s.threads[t]? = some stack ∧ Touches stack

section Turn

variable {gone : Nat → Bool} {t : Nat} {e next : Executor} {act : Act} {base : Frame} {stack rest : List Frame}
  {entries : List (Countdown.Entry (Option ProtoG.Span))}

theorem Code.free_frame {free : Bool} {frame : Frame} (code : Code base free (frame :: rest)) : frame.free = free := by
  cases code <;> rfl

theorem Code.turn_free (code : Code base true stack) (taken : turn cfg gone t e act stack = some (next, rest, entries)) :
    Shape cfg next base rest := by
  cases code with
  | client =>
      cases act with
      | call c =>
          cases taken
          exact .pushing _ .client
      | waitFor tk =>
          simp only [turn, Option.ite_none_right_eq_some] at taken
          obtain ⟨-, taken⟩ := taken
          split at taken <;> cases taken
          · exact .code .client
          · exact .waiting tk .client
      | destroy =>
          cases taken
          exact .stopping 0 (by simp)
      | _ => simp [turn] at taken
  | calling task below =>
      have code := Code.calling task below
      cases act with
      | returns =>
          cases taken
          exact .resolving task below
      | throws =>
          cases below with
          | worker =>
              cases taken
              exact .code .worker
          | testing tk below =>
              cases taken
              exact .code below
      | call c =>
          cases taken
          exact .pushing _ code
      | waitFor tk =>
          simp only [turn, Option.ite_none_right_eq_some] at taken
          obtain ⟨-, taken⟩ := taken
          split at taken <;> cases taken
          · exact .code code
          · exact .waiting tk code
      | _ => simp [turn] at taken

theorem Shape.turn (shape : Shape cfg e base stack) (taken : turn cfg gone t e act stack = some (next, rest, entries)) :
    Shape cfg next base rest := by
  cases shape with
  | @code _ free _ code =>
      cases free with
      | true => exact code.turn_free taken
      | false =>
          cases code with
          | worker =>
              cases act <;> simp only [ProtoF.turn, Frame.free, Bool.false_and, Bool.false_eq_true, if_false,
                reduceCtorEq] at taken
              split at taken <;> cases taken
              · exact .gone _
              · exact .popping
          | testing tk below =>
              cases act <;> simp only [ProtoF.turn, Frame.free, Bool.false_and, Bool.false_eq_true, if_false,
                reduceCtorEq] at taken
              split at taken <;> cases taken
              · exact .code below
              · exact .waiting tk below
  | resolving task below =>
      cases act <;> simp only [ProtoF.turn, Frame.free, Bool.false_and, Bool.false_eq_true, if_false, reduceCtorEq] at taken
      cases taken
      exact .code below
  | pushing tasks below =>
      cases tasks with
      | nil =>
          cases act <;> simp only [ProtoF.turn, Frame.free, Bool.false_and, Bool.false_eq_true, if_false,
            reduceCtorEq] at taken
          cases taken
          exact .code below
      | cons first tasks =>
          cases act <;> simp only [ProtoF.turn, Frame.free, Bool.false_and, Bool.false_eq_true, if_false, reduceCtorEq,
            Option.ite_none_left_eq_some] at taken
          obtain ⟨-, taken⟩ := taken
          cases taken
          exact .pushing tasks below
  | waiting tk below =>
      cases act <;> simp only [ProtoF.turn, Frame.free, Bool.false_and, Bool.false_eq_true, if_false, reduceCtorEq,
        Option.ite_none_left_eq_some] at taken
      obtain ⟨-, taken⟩ := taken
      split at taken <;> cases taken
      · exact .code (.testing tk below)
      · exact .code (.calling _ (.testing tk below))
  | popping =>
      cases act <;> simp only [ProtoF.turn, Frame.free, Bool.false_and, Bool.false_eq_true, if_false, reduceCtorEq,
        Option.ite_none_left_eq_some] at taken
      obtain ⟨-, taken⟩ := taken
      split at taken <;> cases taken
      · exact .code .worker
      · exact .code (.calling _ .worker)
  | stopping i requested =>
      cases act <;> simp only [ProtoF.turn, Frame.free, Bool.false_and, Bool.false_eq_true, if_false, reduceCtorEq] at taken
      split at taken
      next bound =>
        cases taken
        refine .stopping (i + 1) fun j less => ?_
        by_cases same : j = i
        · simp only [same, Function.update_self]
        · simp only [Function.update_of_ne same, requested j (by omega)]
      next bound =>
        cases taken
        exact .members fun j less => requested j (by omega)
  | members requested =>
      cases act <;> simp only [ProtoF.turn, Frame.free, Bool.false_and, Bool.false_eq_true, if_false, reduceCtorEq] at taken
      cases taken
      exact .joining 0 requested
  | joining i requested =>
      cases act <;> simp only [ProtoF.turn, Frame.free, Bool.false_and, Bool.false_eq_true, if_false, reduceCtorEq] at taken
      split at taken
      · simp only [Option.ite_none_right_eq_some, Option.some.injEq, Prod.mk.injEq] at taken
        obtain ⟨-, rfl, rfl, -⟩ := taken
        exact .joining (i + 1) requested
      · cases taken
        exact .gone _
  | gone => simp [ProtoF.turn] at taken

theorem turn_stops (taken : turn cfg gone t e act stack = some (next, rest, entries)) :
    next.stopRequested = e.stopRequested ∨ ∃ i, next.stopRequested = Function.update e.stopRequested i true := by
  unfold turn at taken
  split at taken <;> (repeat' split at taken) <;> cases taken <;> first | exact .inl rfl | exact .inr ⟨_, rfl⟩

theorem turn_keeps (taken : turn cfg gone t e act stack = some (next, rest, entries)) {j : Nat}
    (set : e.stopRequested j = true) : next.stopRequested j = true := by
  rcases turn_stops taken with same | ⟨i, same⟩
  · rw [same, set]
  · rw [same, Function.update_apply, set, ite_self]

theorem Shape.mono (shape : Shape cfg e base stack) (kept : ∀ j, e.stopRequested j = true → next.stopRequested j = true) :
    Shape cfg next base stack := by
  cases shape with
  | code code => exact .code code
  | resolving task below => exact .resolving task below
  | pushing tasks below => exact .pushing tasks below
  | waiting tk below => exact .waiting tk below
  | popping => exact .popping
  | stopping i requested => exact .stopping i fun j less => kept j (requested j less)
  | members requested => exact .members fun j less => kept j (requested j less)
  | joining i requested => exact .joining i fun j less => kept j (requested j less)
  | gone => exact .gone _

end Turn

structure Shaped (cfg : Config) (s : State) : Prop where
  count : s.threads.length = cfg.threadCount.toNat + 1
  shapes : ∀ i stack, s.threads[i]? = some stack →
    Shape cfg s.executor (if i < cfg.threadCount.toNat then .worker else .client) stack

theorem initial_shaped : Shaped cfg (State.initial cfg 1) where
  count := by simp [State.initial]
  shapes := by
    intro i stack found
    rw [State.initial, List.getElem?_append] at found
    simp only [List.length_replicate, List.getElem?_replicate] at found
    by_cases worker : i < cfg.threadCount.toNat
    · rw [if_pos worker, if_pos worker, Option.some.injEq] at found
      rw [if_pos worker, ← found]
      exact .code .worker
    · rw [if_neg worker, Option.ite_none_right_eq_some, Option.some.injEq] at found
      rw [if_neg worker, ← found.2]
      exact .code .client

theorem Shaped.step {s next : State} {a : Nat × Act} (shaped : Shaped cfg s) (taken : s.step cfg a = some next) :
    Shaped cfg next := by
  obtain ⟨stack, e, rest, found, -, rfl, turned⟩ := State.step_turn taken
  constructor
  · rw [List.length_set]
    exact shaped.count
  · intro i other held
    by_cases same : a.1 = i
    · subst same
      rw [List.getElem?_set_self (List.getElem?_eq_some_iff.mp found).1, Option.some.injEq] at held
      exact held ▸ (shaped.shapes a.1 stack found).turn turned
    · rw [List.getElem?_set_ne same] at held
      exact (shaped.shapes i other held).mono fun _ => turn_keeps turned

theorem run_shaped {actions : List (Nat × Act)} {s : State}
    (run : exec (State.step cfg) (State.initial cfg 1) actions = some s) : Shaped cfg s :=
  exec_invariant (Shaped cfg) (fun _ _ _ shaped taken => shaped.step taken) initial_shaped run

theorem State.step_of_turn {s : State} {t : Nat} {act : Act} {stack rest : List Frame} {e : Executor}
    {entries : List (Countdown.Entry (Option ProtoG.Span))} (found : s.threads[t]? = some stack)
    (alive : s.executor.terminated = false) (turned : turn cfg s.gone t s.executor act stack = some (e, rest, entries)) :
    s.step cfg (t, act) = some ⟨e, s.threads.set t rest⟩ := by
  simp only [step, perform, found, alive, Bool.false_eq_true, if_false, turned, Option.map_some]

structure Ended (cfg : Config) (s : State) : Prop where
  requested : ∀ i < cfg.threadCount.toNat, s.executor.stopRequested i = true
  workers : ∀ i < cfg.threadCount.toNat, ∀ stack, s.threads[i]? = some stack → Clear stack
  client : ∀ i stack, ¬ i < cfg.threadCount.toNat → s.threads[i]? = some stack → stack = [] ∨ ∃ k, stack = [.joining k]

theorem Ended.quiet {s : State} (ended : Ended cfg s) : ¬ Dangling s := by
  rintro ⟨-, t, stack, found, touches⟩
  by_cases worker : t < cfg.threadCount.toNat
  · cases ended.workers t worker stack found with
    | gone => exact touches
    | loop => exact touches
    | resolving => exact touches
  · rcases ended.client t stack worker found with rfl | ⟨k, rfl⟩
    · exact touches
    · exact touches

theorem Ended.step {s next : State} {a : Nat × Act} (ended : Ended cfg s) (taken : s.step cfg a = some next) :
    Ended cfg next := by
  obtain ⟨stack, e, rest, found, -, rfl, turned⟩ := State.step_turn taken
  have inside := (List.getElem?_eq_some_iff.mp found).1
  constructor
  · exact fun i worker => turn_keeps turned (ended.requested i worker)
  · intro i worker other held
    by_cases same : a.1 = i
    · subst same
      rw [List.getElem?_set_self inside, Option.some.injEq] at held
      subst held
      generalize a.2 = act at turned
      generalize s.emit cfg a = entries at turned
      cases ended.workers a.1 worker stack found with
      | gone => simp [turn] at turned
      | loop =>
          cases act <;> simp only [turn, Frame.free, Bool.false_and, Bool.false_eq_true, if_false, reduceCtorEq] at turned
          rw [if_pos (ended.requested a.1 worker)] at turned
          cases turned
          exact .gone
      | resolving task =>
          cases act <;> simp only [turn, Frame.free, Bool.false_and, Bool.false_eq_true, if_false, reduceCtorEq] at turned
          cases turned
          exact .loop
    · rw [List.getElem?_set_ne same] at held
      exact ended.workers i worker other held
  · intro i other client held
    by_cases same : a.1 = i
    · subst same
      rw [List.getElem?_set_self inside, Option.some.injEq] at held
      subst held
      generalize a.2 = act at turned
      generalize s.emit cfg a = entries at turned
      rcases ended.client a.1 stack client found with rfl | ⟨k, rfl⟩
      · simp [turn] at turned
      · cases act <;> simp only [turn, Frame.free, Bool.false_and, Bool.false_eq_true, if_false, reduceCtorEq] at turned
        split at turned
        · simp only [Option.ite_none_right_eq_some, Option.some.injEq, Prod.mk.injEq] at turned
          exact .inr ⟨k + 1, turned.2.2.1.symm⟩
        · cases turned
          exact .inl rfl
    · rw [List.getElem?_set_ne same] at held
      exact ended.client i other client held

def Reaches (cfg : Config) (s : State) : Prop := ∃ later final, exec (State.step cfg) s later = some final ∧ Dangling final

section Reaches

variable {s next : State} {t : Nat} {stack rest : List Frame} {base : Frame}

theorem Reaches.first {a : Nat × Act} (taken : s.step cfg a = some next) (reaches : Reaches cfg next) : Reaches cfg s := by
  obtain ⟨later, final, run, dangling⟩ := reaches
  exact ⟨a :: later, final, exec_cons.mpr ⟨next, taken, run⟩, dangling⟩

theorem Reaches.here (destroyed : s.executor.laneDestroyed = true) (found : s.threads[t]? = some stack)
    (touches : Touches stack) : Reaches cfg s :=
  ⟨[], s, rfl, destroyed, t, stack, found, touches⟩

theorem set_found (found : s.threads[t]? = some stack) (e : Executor) :
    (⟨e, s.threads.set t rest⟩ : State).threads[t]? = some rest :=
  List.getElem?_set_self (List.getElem?_eq_some_iff.mp found).1

theorem Code.reaches (code : Code base true stack) (destroyed : s.executor.laneDestroyed = true)
    (alive : s.executor.terminated = false) (found : s.threads[t]? = some stack) : Reaches cfg s := by
  cases stack with
  | nil => cases code
  | cons frame below =>
      have called : turn cfg s.gone t s.executor (.call .run) (frame :: below) = some
          ({ s.executor with unresolved := s.executor.unresolved ++ [1] },
            .pushing [⟨s.executor.unresolved.length, 0, none⟩] :: frame :: below, [.event (.issue (Call.run.batch cfg))]) := by
        simp only [turn, code.free_frame, if_true]
        rfl
      exact .first (State.step_of_turn found alive called)
        (.here destroyed (set_found found _) True.intro)

theorem testing_reaches {tk : Nat} (below : Code base true rest) (destroyed : s.executor.laneDestroyed = true)
    (alive : s.executor.terminated = false) (found : s.threads[t]? = some (.testing tk :: rest)) : Reaches cfg s := by
  cases done : s.executor.done tk with
  | true =>
      have returns : turn cfg s.gone t s.executor .test (.testing tk :: rest) = some (s.executor, rest, []) := by
        simp only [turn, done, if_true]
      exact .first (State.step_of_turn found alive returns) (below.reaches destroyed alive (set_found found _))
  | false =>
      have again : turn cfg s.gone t s.executor .test (.testing tk :: rest) =
          some (s.executor, .waiting tk :: rest, []) := by
        simp only [turn, done, Bool.false_eq_true, if_false]
      exact .first (State.step_of_turn found alive again)
        (.here destroyed (set_found found _) True.intro)

theorem Shape.reaches (shape : Shape cfg s.executor .worker stack) (busy : ¬ Clear stack)
    (destroyed : s.executor.laneDestroyed = true) (alive : s.executor.terminated = false)
    (found : s.threads[t]? = some stack) : Reaches cfg s := by
  cases shape with
  | @code _ free _ code =>
      cases free with
      | true => exact code.reaches destroyed alive found
      | false =>
          cases code with
          | worker => exact absurd .loop busy
          | testing tk below => exact testing_reaches below destroyed alive found
  | resolving task below =>
      cases below with
      | worker => exact absurd (.resolving task) busy
      | @testing _ tk rest below =>
          have resolved : ProtoF.turn cfg s.gone t s.executor .resolve (.resolving task :: .testing tk :: rest) =
              some ({ s.executor with unresolved := s.executor.unresolved.modify task.batch (· - 1) },
                .testing tk :: rest, [.event (.finish task)]) := rfl
          exact .first (State.step_of_turn found alive resolved) (testing_reaches below destroyed alive (set_found found _))
  | @pushing _ tasks rest below =>
      cases tasks with
      | nil =>
          have returned : ProtoF.turn cfg s.gone t s.executor .push (.pushing [] :: rest) = some (s.executor, rest, []) := rfl
          exact .first (State.step_of_turn found alive returned) (below.reaches destroyed alive (set_found found _))
      | cons task tasks => exact .here destroyed found True.intro
  | waiting tk below => exact .here destroyed found True.intro
  | popping => exact .here destroyed found True.intro
  | gone => exact absurd .gone busy

end Reaches

/-- Destroying the lane is safe if and only if no worker is past the test of its stop token then, except to resolve
a task that it has finished. -/
theorem destroyed_reaches_iff {actions : List (Nat × Act)} {s next : State} {t : Nat}
    (run : exec (State.step cfg) (State.initial cfg 1) actions = some s)
    (taken : s.step cfg (t, .destroyLane) = some next) :
    Reaches cfg next ↔ ∃ i < cfg.threadCount.toNat, ∃ stack, s.threads[i]? = some stack ∧ ¬ Clear stack := by
  have shaped := run_shaped run
  obtain ⟨stack, e, rest, found, alive, rfl, turned⟩ := State.step_turn taken
  -- the thread in the destructor is the client, and has requested all stops
  obtain ⟨rfl, rfl, rfl, client, requested⟩ : stack = [.members] ∧ e = { s.executor with laneDestroyed := true } ∧
      rest = [.joining 0] ∧ ¬ t < cfg.threadCount.toNat ∧
      ∀ j < cfg.threadCount.toNat, s.executor.stopRequested j = true := by
    have shape := shaped.shapes t stack found
    cases stack with
    | nil => simp [turn] at turned
    | cons frame below =>
        cases frame <;> simp only [turn, reduceCtorEq, Option.some.injEq, Prod.mk.injEq] at turned
        obtain ⟨rfl, rfl, -⟩ := turned
        by_cases worker : t < cfg.threadCount.toNat
        · rw [if_pos worker] at shape
          cases shape with
          | code code => cases code
        · rw [if_neg worker] at shape
          cases shape with
          | code code => cases code
          | members requested => exact ⟨rfl, rfl, rfl, worker, requested⟩
  have others {i : Nat} (worker : i < cfg.threadCount.toNat) (stack : List Frame) :
      (s.threads.set t [.joining 0])[i]? = some stack ↔ s.threads[i]? = some stack := by
    rw [List.getElem?_set_ne]
    rintro rfl
    exact client worker
  constructor
  · rintro ⟨later, final, run', dangling⟩
    by_contra clear
    push Not at clear
    have ended : Ended cfg ⟨{ s.executor with laneDestroyed := true }, s.threads.set t [.joining 0]⟩ := by
      constructor
      · exact requested
      · exact fun i worker other held => clear i worker other ((others worker other).mp held)
      · intro i other notWorker held
        have bound := (List.getElem?_eq_some_iff.mp held).1
        have bound' := (List.getElem?_eq_some_iff.mp found).1
        rw [List.length_set, shaped.count] at bound
        rw [shaped.count] at bound'
        obtain rfl : i = t := by omega
        rw [List.getElem?_set_self (List.getElem?_eq_some_iff.mp found).1, Option.some.injEq] at held
        exact .inr ⟨0, held.symm⟩
    exact (exec_invariant (Ended cfg) (fun _ _ _ ended taken => ended.step taken) ended run').quiet dangling
  · rintro ⟨i, worker, other, held, busy⟩
    have shape := shaped.shapes i other held
    rw [if_pos worker] at shape
    exact Shape.reaches (s := ⟨{ s.executor with laneDestroyed := true }, s.threads.set t [.joining 0]⟩)
      (shape.mono fun _ => id) busy rfl alive ((others worker other).mpr held)

-- The worker has found no stop requested, and the destructor overtakes it before its `pop`.
def overtakenRun : List (Nat × Act) := [(0, .stopRequested), (1, .destroy), (1, .requestStop), (1, .requestStop)]

def overtaken : State :=
  ⟨⟨⟨[]⟩, false, Function.update (fun _ => false) 0 true, [], false⟩, [[.popping], [.members]]⟩

theorem destroyed_reaches_iff_overtaken : ∃ next, overtaken.step ⟨1, by decide⟩ (1, .destroyLane) = some next ∧
    Reaches ⟨1, by decide⟩ next := by
  have run : exec (State.step ⟨1, by decide⟩) (State.initial ⟨1, by decide⟩ 1) overtakenRun = some overtaken := rfl
  obtain ⟨next, taken⟩ : ∃ next, overtaken.step ⟨1, by decide⟩ (1, .destroyLane) = some next := ⟨_, rfl⟩
  exact ⟨next, taken, (destroyed_reaches_iff run taken).mpr ⟨0, by decide, [.popping], rfl, nofun⟩⟩

end PrototypeBundle.ProtoF
