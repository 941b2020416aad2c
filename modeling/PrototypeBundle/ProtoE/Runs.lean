import PrototypeBundle.ProtoE.Effects

set_option autoImplicit false

namespace PrototypeBundle.ProtoE

open Countdown (Board)

def State.waiting (n : Nat) (s : State) : Multiset Job :=
  (s.holds n).filterMap (Hold.waitingJob s.executor.taskBuffer)

structure Sound (n : Nat) (s : State) (history : List Event) : Prop where
  -- no task was handed out while a pointer to it was in use
  separate : s.uses.Nodup
  inside : ∀ t ∈ s.uses, t.lane < n ∧ t.index < 8192
  once : (Countdown.started history).Nodup
  called : ∀ job ∈ Countdown.started history, ∃ c parent,
    s.executor.calls[job.batch]? = some (c, parent) ∧ job ∈ (c.batch n).entries job.batch
  kept : ∀ (r : Nat) (c : Call) (parent : Ref), s.executor.calls[r]? = some (c, parent) →
    ∀ job ∈ (c.batch n).entries r, job ∈ Countdown.started history ∨ job ∈ s.waiting n
  counted : ∀ (r : Nat) (parent : Ref), Hold.waited r parent ∈ s.holds n → ∃ c,
    s.executor.calls[r]? = some (c, parent) ∧
      (s.executor.taskBuffer parent).unresolvedChildren.toNat + (Countdown.finished history).countP (·.batch = r) =
        jobDiv n ∧
      ((s.executor.taskBuffer parent).unresolvedChildren = 0 ↔
        ∀ job ∈ (c.batch n).entries r, job ∈ Countdown.finished history)
  returned : ∀ (r : Nat) (c : Call) (parent : Ref), s.executor.calls[r]? = some (c, parent) →
    Hold.waited r parent ∉ s.holds n →
      ((c.batch n).entries r).Perm ((Countdown.finished history).filter (·.batch = r)) ∧
      ((c.batch n).entries r).Perm ((Countdown.started history).filter (·.batch = r))

structure Consistent (n : Nat) (s : State) (board : Board Work) : Prop where
  homed : s.executor.Homed n
  apart : Apart n s.executor.index ((s.holds n).filterMap Hold.ref) ((s.holds n).filterMap Hold.allocating)
  settled : Settled n s.executor.taskBuffer s.executor.calls (s.holds n) board

section Uses

variable {n : Nat} {s : State}

theorem unissued_quiet {α : Type} {f : Hold → Option α} (quiet : ∀ job, f (.unissued job) = none) (r i : Nat) (c : Call) :
    (unissued n r i c).filterMap f = [] := by
  refine List.filterMap_eq_nil_iff.mpr fun h member => ?_
  obtain ⟨job, -, rfl⟩ := List.mem_map.mp member
  exact quiet job

theorem allocHolds_ref (lane : Nat) (a : Alloc) : (allocHolds lane a).filterMap Hold.ref = [] := by
  cases a <;> rfl

theorem Frame.holds_ref (frame : Frame) : (frame.holds n).filterMap Hold.ref = frame.uses := by
  have none := fun r i c => unissued_quiet (n := n) (f := Hold.ref) (fun _ => rfl) r i c
  cases frame with
  | parallel c lane stage =>
      cases stage with
      | allocParent a => exact allocHolds_ref lane a
      | allocTask r parent i a =>
          change (⟨lane, parent⟩ : Ref) :: (allocHolds lane a ++ unissued n r i c).filterMap Hold.ref = _
          rw [List.filterMap_append, allocHolds_ref, none]
          rfl
      | fields r parent i t => exact congrArg (fun refs => ⟨lane, parent⟩ :: ⟨lane, t⟩ :: refs) (none r i c)
      | push r parent i t => exact congrArg (fun refs => ⟨lane, parent⟩ :: ⟨lane, t⟩ :: refs) (none r (i + 1) c)
      | _ => rfl
  | _ => rfl

theorem Frame.holds_allocating (frame : Frame) :
    ((frame.holds n).filterMap Hold.allocating).map Prod.fst = frame.allocating := by
  have none := fun r i c => unissued_quiet (n := n) (f := Hold.allocating) (fun _ => rfl) r i c
  cases frame with
  | parallel c lane stage =>
      cases stage with
      | allocParent a => cases a <;> rfl
      | allocTask r parent i a =>
          change (List.filterMap Hold.allocating
            (.waited r ⟨lane, parent⟩ :: (allocHolds lane a ++ unissued n r i c))).map Prod.fst = _
          rw [List.filterMap_cons_none rfl, List.filterMap_append, none, List.append_nil]
          cases a <;> rfl
      | fields r parent i t => exact congrArg (List.map Prod.fst) (none r i c)
      | push r parent i t => exact congrArg (List.map Prod.fst) (none r (i + 1) c)
      | _ => rfl
  | _ => rfl

theorem pending_filterMap {α : Type} (f : Hold → Option α) (queued : List Ref) :
    Multiset.filterMap f (queued.map Hold.pending : List Hold) = (queued.filterMap fun t => f (.pending t) : List α) := by
  change ((queued.map Hold.pending).filterMap f : Multiset α) = _
  rw [List.filterMap_map]
  rfl

theorem State.holds_ref (s : State) : (s.holds n).filterMap Hold.ref = (s.uses : Multiset Ref) := by
  unfold holds uses Executor.holds
  rw [Multiset.filterMap_add, pending_filterMap, ← Multiset.coe_add]
  have queued (refs : List Ref) : refs.filterMap (fun t => Hold.ref (.pending t)) = refs := List.filterMap_some
  have threads : (s.threads.flatMap fun stack => stack.flatMap (Frame.holds n)).filterMap Hold.ref =
      s.threads.flatMap fun stack => stack.flatMap Frame.uses := by
    simp only [List.filterMap_flatMap, Frame.holds_ref]
  rw [queued]
  exact congrArg (fun list : List Ref => (_ : Multiset Ref) + list) threads

theorem State.holds_allocating (s : State) :
    ((s.holds n).filterMap Hold.allocating).map Prod.fst = (s.allocating : Multiset Nat) := by
  unfold holds allocating Executor.holds
  rw [Multiset.filterMap_add, pending_filterMap]
  have queued (refs : List Ref) : refs.filterMap (fun t => Hold.allocating (.pending t)) = [] :=
    List.filterMap_eq_nil_iff.mpr fun _ _ => rfl
  have threads : ((s.threads.flatMap fun stack => stack.flatMap (Frame.holds n)).filterMap Hold.allocating).map Prod.fst =
      s.threads.flatMap fun stack => stack.flatMap Frame.allocating := by
    simp only [List.filterMap_flatMap, List.map_flatMap, Frame.holds_allocating]
  rw [queued, Multiset.coe_nil, zero_add]
  exact congrArg (fun list : List Nat => (list : Multiset Nat)) threads

end Uses

section Steps

variable {n : Nat} {s next : State} {board : Board Work}

theorem Consistent.room (consistent : Consistent n s board) (lane : Nat) (l : Lane)
    (found : s.executor.lanes[lane]? = some l) : l.queued.length < 8192 := by
  refine consistent.apart.queue_length ?_ (consistent.homed.own lane l found)
  obtain ⟨others, whole, -⟩ := Countdown.flatMap_set Lane.queued found
  rw [State.holds_ref, State.uses, ← Multiset.coe_add, whole, add_assoc]
  exact Multiset.le_add_right _ _

theorem Effect.kept {before after others : Multiset Hold} {e : Executor} {events : List Event}
    (effect : Effect n s before e after events) (whole : s.holds n = before + others)
    (apart : Apart n s.executor.index ((before + others).filterMap Hold.ref) ((before + others).filterMap Hold.allocating))
    (settled : Settled n s.executor.taskBuffer s.executor.calls (before + others) board) :
    ∃ board', Runs.exec Board.step board events = some board' ∧
      Apart n e.index ((after + others).filterMap Hold.ref) ((after + others).filterMap Hold.allocating) ∧
      Settled n e.taskBuffer e.calls (after + others) board' := by
  have idleLane {lane : Nat} (idle : lane ∉ s.allocating) :
      lane ∉ ((before + others).filterMap Hold.allocating).map Prod.fst := by
    rw [← whole, State.holds_allocating]
    exact idle
  have one {event : Event} {e : Executor} {holds : Multiset Hold}
      (apart : Apart n e.index (holds.filterMap Hold.ref) (holds.filterMap Hold.allocating))
      (stepped : ∃ board', board.step event = some board' ∧ Settled n e.taskBuffer e.calls holds board') :
      ∃ board', Runs.exec Board.step board [event] = some board' ∧
        Apart n e.index (holds.filterMap Hold.ref) (holds.filterMap Hold.allocating) ∧
        Settled n e.taskBuffer e.calls holds board' := by
    obtain ⟨board', taken, settled'⟩ := stepped
    exact ⟨board', by simp [Runs.exec, taken], apart, settled'⟩
  cases effect with
  | quiet same index buffer calls => exact ⟨board, rfl, by rw [same, index]; exact apart, by rw [same, buffer, calls]; exact settled⟩
  | load inside idle room =>
      have loaded := apart.load inside (idleLane idle) room
      refine ⟨board, rfl, ?_, ?_⟩
      · simpa [Multiset.filterMap_cons, Hold.ref, Hold.allocating] using loaded
      · rw [Multiset.cons_add]
        exact (Settled.cons_idle rfl).mpr settled
  | store split index buffer calls =>
      subst split
      rw [Multiset.cons_add] at settled
      have stored : Apart n e.index _ _ :=
        index ▸ Apart.store (by simpa [Multiset.filterMap_cons, Hold.ref, Hold.allocating] using apart)
      refine ⟨board, rfl, ?_, ?_⟩
      · simpa [Multiset.filterMap_cons, Hold.ref, Hold.allocating] using stored
      · rw [Multiset.cons_add, buffer, calls]
        exact (Settled.cons_idle rfl).mpr ((Settled.cons_idle rfl).mp settled)
  | read split =>
      subst split
      rw [Multiset.cons_add] at settled
      have returned := Apart.read (by simpa [Multiset.filterMap_cons, Hold.ref, Hold.allocating] using apart)
      refine ⟨board, rfl, ?_, ?_⟩
      · simpa [Multiset.filterMap_cons, Hold.ref, Hold.allocating] using returned
      · rw [Multiset.cons_add]
        exact (Settled.cons_idle rfl).mpr ((Settled.cons_idle rfl).mp settled)
  | issue split counter =>
      subst split
      rw [Multiset.cons_add] at settled apart
      refine one ?_ ?_
      · change Apart n s.executor.index _ _
        rw [Multiset.cons_add, add_assoc, Multiset.filterMap_cons, Multiset.filterMap_cons,
          unissued_add fun _ => rfl, unissued_add fun _ => rfl]
        rw [Multiset.filterMap_cons, Multiset.filterMap_cons] at apart
        exact apart
      · rw [Multiset.cons_add, add_assoc]
        exact settled.issue apart.separate _ counter
  | fields split own =>
      subst split
      rw [Multiset.cons_add, Multiset.cons_add] at settled apart
      refine ⟨board, rfl, ?_, ?_⟩
      · change Apart n s.executor.index _ _
        simpa [Multiset.filterMap_cons, Hold.ref, Hold.allocating] using apart
      · rw [Multiset.cons_add]
        exact settled.fields apart.separate (Multiset.mem_add.mpr (.inl own))
  | start split =>
      subst split
      rw [Multiset.cons_add] at settled
      refine one ?_ ?_
      · simpa [Multiset.filterMap_cons, Hold.ref, Hold.allocating] using apart
      · rw [Multiset.cons_add]
        exact settled.start
  | @unparent t job rest split =>
      subst split
      rw [Multiset.cons_add] at settled
      have fewer : Apart n _ ((rest + others).filterMap Hold.ref) _ := apart.mono (by
        rw [Multiset.cons_add]
        exact Multiset.filterMap_le_filterMap _ (Multiset.le_cons_self _ _))
      refine ⟨board, rfl, ?_, ?_⟩
      · simpa [Multiset.filterMap_cons, Hold.ref, Hold.allocating] using fewer
      · rw [Multiset.cons_add]
        exact settled.unparent
  | finish split counter =>
      subst split
      rw [Multiset.cons_add] at settled apart
      refine one ?_ (settled.finish apart.separate counter)
      change Apart n s.executor.index _ _
      simpa [Multiset.filterMap_cons, Hold.ref, Hold.allocating] using apart
  | leave split zero =>
      subst split
      rw [Multiset.cons_add] at settled
      have fewer : Apart n _ ((after + others).filterMap Hold.ref) _ := apart.mono (by
        rw [Multiset.cons_add]
        exact Multiset.filterMap_le_filterMap _ (Multiset.le_cons_self _ _))
      refine ⟨board, rfl, ?_, settled.leave zero⟩
      simpa [Multiset.filterMap_cons, Hold.ref, Hold.allocating] using fewer
  | rewind idle unused index buffer calls =>
      refine ⟨board, rfl, ?_, by rw [buffer, calls]; exact settled⟩
      rw [index]
      refine apart.rewind (idleLane idle) fun x used => unused x ?_
      rw [← whole, State.holds_ref] at used
      exact Multiset.mem_coe.mp used

theorem State.holds_split {t : Nat} {stack : List Frame} (found : s.threads[t]? = some stack) :
    ∃ others, s.holds n = view n s.executor stack + others ∧
      ∀ e rest, State.holds n ⟨e, s.threads.set t rest⟩ = view n e rest + others := by
  obtain ⟨others, before, after⟩ := Countdown.flatMap_set (fun stack => stack.flatMap (Frame.holds n)) found
  refine ⟨others, ?_, fun e rest => ?_⟩
  · rw [holds, before, ← add_assoc]
    rfl
  · change e.holds + _ = _
    rw [after, ← add_assoc]
    rfl

theorem Consistent.step {a : Nat × Act} (consistent : Consistent n s board) (orderly : Orderly s a)
    (taken : s.step n a = some next) :
    ∃ board', Runs.exec Board.step board (s.emit n a) = some board' ∧ Consistent n next board' := by
  obtain ⟨t, act⟩ := a
  obtain ⟨stack, e, rest, found, rfl, turned⟩ := State.step_turn taken
  obtain ⟨others, whole, replaced⟩ := State.holds_split (n := n) found
  have own : ∀ c lane stage below, act = .go → stack = .parallel c lane stage :: below → stage.Orderly s lane := by
    rintro c lane stage below rfl rfl
    exact orderly _ found _ rfl
  obtain ⟨effect, homed⟩ := turn_effect consistent.homed consistent.room own turned
  obtain ⟨board', driven, apart, settled⟩ :=
    effect.kept whole (whole ▸ consistent.apart) (whole ▸ consistent.settled)
  refine ⟨board', driven, homed, ?_, ?_⟩
  · change Apart n e.index ((State.holds n ⟨e, s.threads.set t rest⟩).filterMap _)
      ((State.holds n ⟨e, s.threads.set t rest⟩).filterMap _)
    rw [replaced]
    exact apart
  · change Settled n e.taskBuffer e.calls (State.holds n ⟨e, s.threads.set t rest⟩) board'
    rw [replaced]
    exact settled

theorem initial_consistent (n clients : Nat) (tasks : Nat → Nat → Ref) (taskBuffer : Ref → Task) :
    Consistent n (State.initial n clients tasks taskBuffer) .empty := by
  have empty : (State.initial n clients tasks taskBuffer).holds n = 0 := by
    have queued : ((List.range n).map fun k => (⟨0, 0, tasks k, 0⟩ : Lane)).flatMap Lane.queued = [] := by
      simp [Lane.queued]
    have threads : (State.initial n clients tasks taskBuffer).threads.flatMap
        (fun stack => stack.flatMap (Frame.holds n)) = [] := by
      simp [State.initial, List.flatMap_replicate, Frame.holds]
    rw [State.holds, threads]
    change ((((List.range n).map fun k => (⟨0, 0, tasks k, 0⟩ : Lane)).flatMap Lane.queued).map Hold.pending : Multiset Hold) + 0 = 0
    rw [queued]
    rfl
  have index (lane : Nat) : (State.initial n clients tasks taskBuffer).executor.index lane = 0 := by
    change ((List.range n).map fun k => (⟨0, 0, tasks k, 0⟩ : Lane))[lane]?.elim 0 Lane.taskBufferIndex = 0
    rw [List.getElem?_map]
    cases (List.range n)[lane]? <;> rfl
  refine ⟨⟨by simp [State.initial], fun lane l found t member => ?_⟩, ?_, ?_⟩
  · obtain ⟨k, -, rfl⟩ := List.mem_map.mp (List.mem_of_getElem? found)
    simp [Lane.queued] at member
  · rw [empty]
    exact {
      separate := Multiset.nodup_zero
      single := Multiset.nodup_zero
      below := fun _ member => absurd member (Multiset.notMem_zero _)
      room := fun lane => by rw [index]; decide
      inside := fun _ member => absurd member (Multiset.notMem_zero _)
      stored := fun _ _ member => absurd member (Multiset.notMem_zero _)
      bumped := fun _ member => absurd member (Multiset.notMem_zero _) }
  · rw [empty]
    exact {
      inv := Board.empty_inv
      issued := rfl
      waiting := rfl
      running := rfl
      linked := fun _ member => absurd member (Multiset.notMem_zero _)
      closed := fun r c parent found => by simp [State.initial] at found }

end Steps

theorem Consistent.sound {n : Nat} {s : State} {board : Board Work} (consistent : Consistent n s board)
    {history : List Event} (started : board.started = Countdown.started history)
    (finished : board.finished = Countdown.finished history) : Sound n s history := by
  have settled := consistent.settled
  have inv := settled.inv
  have used (t : Ref) (member : t ∈ s.uses) : t ∈ (s.holds n).filterMap Hold.ref := by
    rw [State.holds_ref]
    exact Multiset.mem_coe.mpr member
  have issuedCall {r : Nat} {batch : Countdown.Batch Work} (found : board.issued[r]? = some batch) :
      ∃ c parent, s.executor.calls[r]? = some (c, parent) ∧ batch = c.batch n := by
    rw [settled.issued, List.getElem?_map, Option.map_eq_some_iff] at found
    obtain ⟨call, found, rfl⟩ := found
    exact ⟨call.1, call.2, found, rfl⟩
  have closed {r : Nat} {c : Call} {parent : Ref} (found : s.executor.calls[r]? = some (c, parent))
      (ended : board.ended r = jobDiv n) :
      ((c.batch n).entries r).Perm ((Countdown.finished history).filter (·.batch = r)) ∧
        ((c.batch n).entries r).Perm ((Countdown.started history).filter (·.batch = r)) := by
    rw [← started, ← finished]
    exact inv.all_ended (settled.call_issued found) ended
  constructor
  case separate =>
    have separate := consistent.apart.separate
    rw [State.holds_ref] at separate
    exact Multiset.coe_nodup.mp separate
  case inside =>
    intro t member
    obtain ⟨lane, -, below⟩ := consistent.apart.below t (used t member)
    exact ⟨lane, Nat.lt_of_le_of_lt below (consistent.apart.room t.lane)⟩
  case once => exact started ▸ inv.started_nodup
  case called =>
    intro job member
    obtain ⟨batch, found, entry⟩ := inv.started_issued (started ▸ member)
    obtain ⟨c, parent, call, rfl⟩ := issuedCall found
    exact ⟨c, parent, call, entry⟩
  case kept =>
    intro r c parent call job entry
    rw [← started, State.waiting, ← settled.waiting]
    exact (inv.waiting_or_started (settled.call_issued call) entry).symm
  case counted =>
    intro r parent waits
    obtain ⟨⟨c, call⟩, value⟩ := settled.linked _ waits
    have below : board.ended r ≤ jobDiv n := inv.ended_le (settled.call_issued call)
    refine ⟨c, call, ?_, ?_, ?_⟩
    · rw [value, ← finished]
      exact Nat.sub_add_cancel below
    · intro zero job entry
      rw [zero] at value
      change 0 = _ at value
      have member := (closed call (by omega)).1.mem_iff.mp entry
      exact (List.mem_filter.mp member).1
    · intro all
      have ended := inv.ended_all (settled.call_issued call) (finished ▸ all)
      have length : (c.batch n).items.length = jobDiv n := by simp [Call.batch, ProtoG.chunks_length]
      rw [ended, length, Nat.sub_self] at value
      exact UInt64.toNat.inj value
  case returned =>
    intro r c parent call gone
    exact closed call ((settled.closed r c parent call).resolve_left gone)

section Runs

variable {n clients : Nat} {tasks : Nat → Nat → Ref} {taskBuffer : Ref → Task} {actions : List (Nat × Act)}

def history (n clients : Nat) (tasks : Nat → Nat → Ref) (taskBuffer : Ref → Task) (actions : List (Nat × Act)) : List Event :=
  Runs.trace (State.step n) (State.emit n) (State.initial n clients tasks taskBuffer) actions

theorem tasks_separate {final : State}
    (orderly : Runs.Along (State.step n) Orderly (State.initial n clients tasks taskBuffer) actions)
    (run : Runs.exec (State.step n) (State.initial n clients tasks taskBuffer) actions = some final) :
    Sound n final (history n clients tasks taskBuffer actions) := by
  obtain ⟨board, driven, consistent⟩ := orderly.simulation (Consistent n)
    (fun _ _ _ _ consistent ok taken => consistent.step ok taken) (initial_consistent n clients tasks taskBuffer) run
  obtain ⟨-, started, finished⟩ := Board.exec_history driven
  exact consistent.sound started finished

end Runs

instance (s : State) (lane : Nat) (stage : Stage) : Decidable (stage.Orderly s lane) :=
  inferInstanceAs (Decidable ((stage.alloc = some .load →
    lane ∉ s.allocating ∧ ∀ l ∈ s.executor.lanes[lane]?, l.taskBufferIndex + 1 < 8192) ∧
      ∀ k ∈ stage.rewinds, k ∉ s.allocating ∧ ∀ t ∈ s.uses, t.lane ≠ k))

instance (s : State) : (frame : Frame) → Decidable (frame.Orderly s)
  | .parallel _ lane stage => inferInstanceAs (Decidable (stage.Orderly s lane))
  | .worker => isTrue True.intro
  | .client => isTrue True.intro
  | .pop _ _ => isTrue True.intro
  | .steal _ => isTrue True.intro
  | .invoke _ => isTrue True.intro
  | .calling _ _ => isTrue True.intro
  | .returned _ _ => isTrue True.intro
  | .resolve _ _ => isTrue True.intro

instance (s : State) : (a : Nat × Act) → Decidable (Orderly s a)
  | (t, .go) => inferInstanceAs (Decidable (∀ stack ∈ s.threads[t]?, ∀ frame ∈ stack.head?, frame.Orderly s))
  | (_, .steal _) => isTrue True.intro
  | (_, .returns) => isTrue True.intro
  | (_, .call _) => isTrue True.intro

def goes (t steps : Nat) : List (Nat × Act) := List.replicate steps (t, .go)

def nowhere : Ref := ⟨0, 0⟩

def blank : Task := ⟨0, 0, 0, nowhere, 0, 0, 0⟩

-- Two lanes: the worker steals one chunk and the caller runs the other.
def sharedCall : List (Nat × Act) :=
  (0, .call ⟨7, 100, 10⟩) :: goes 0 14 ++ goes 1 2 ++ (1, .steal 0) :: goes 1 1 ++ goes 0 3 ++
    (0, .returns) :: goes 0 2 ++ (1, .returns) :: goes 1 2 ++ goes 0 4

theorem tasks_separate_shared : ∃ final,
    Runs.exec (State.step 2) (State.initial 2 0 (fun _ _ => nowhere) fun _ => blank) sharedCall = some final ∧
      (Countdown.finished (history 2 0 (fun _ _ => nowhere) (fun _ => blank) sharedCall)).length = 2 ∧
      Sound 2 final (history 2 0 (fun _ _ => nowhere) (fun _ => blank) sharedCall) := by
  have runs : (Runs.exec (State.step 2) (State.initial 2 0 (fun _ _ => nowhere) fun _ => blank) sharedCall).isSome := by
    decide +kernel
  have orderly : Runs.check (State.step 2) Orderly (State.initial 2 0 (fun _ _ => nowhere) fun _ => blank) sharedCall = true := by
    decide +kernel
  obtain ⟨final, run⟩ := Option.isSome_iff_exists.mp runs
  exact ⟨final, run, by decide +kernel, tasks_separate (Runs.Along.of_check orderly) run⟩

def single : State := State.initial 1 0 (fun _ _ => nowhere) fun _ => blank

def outerCall : List (Nat × Act) := (0, .call ⟨7, 100, 10⟩) :: goes 0 12

def nestedCall : List (Nat × Act) := (0, .call ⟨8, 200, 10⟩) :: goes 0 12 ++ (0, .returns) :: goes 0 5

/-- The second nested call gets the tasks of the outer one, which then waits for ever: its only
chunk has finished, and its counter has wrapped. -/
theorem waited_task_reused :
    (∃ s, Runs.exec (State.step 1) single (outerCall ++ nestedCall ++ (0, .call ⟨8, 200, 10⟩) :: goes 0 3) = some s ∧
      s.uses = [⟨0, 1⟩, ⟨0, 2⟩, ⟨0, 1⟩] ∧ ∀ history, ¬ Sound 1 s history) ∧
    ∃ s, Runs.exec (State.step 1) single (outerCall ++ nestedCall ++ nestedCall ++ (0, .returns) :: goes 0 2) = some s ∧
      s.uses = [⟨0, 1⟩] ∧ (s.executor.taskBuffer ⟨0, 1⟩).unresolvedChildren.toNat = 2 ^ 64 - 1 ∧
      (Countdown.finished (Runs.trace (State.step 1) (State.emit 1) single
        (outerCall ++ nestedCall ++ nestedCall ++ (0, .returns) :: goes 0 2))).map Countdown.Item.batch = [1, 2, 0] := by
  constructor
  · have reused : ((Runs.exec (State.step 1) single (outerCall ++ nestedCall ++ (0, .call ⟨8, 200, 10⟩) :: goes 0 3)).any
        fun s => s.uses = [⟨0, 1⟩, ⟨0, 2⟩, ⟨0, 1⟩]) = true := by decide +kernel
    obtain ⟨s, run, uses⟩ := (Option.any_eq_true _ _).mp reused
    have uses := of_decide_eq_true uses
    refine ⟨s, run, uses, fun history sound => ?_⟩
    have separate := sound.separate
    rw [uses] at separate
    exact absurd separate (by decide)
  · have wrapped : ((Runs.exec (State.step 1) single
        (outerCall ++ nestedCall ++ nestedCall ++ (0, .returns) :: goes 0 2)).any
          fun s => s.uses = [⟨0, 1⟩] ∧ (s.executor.taskBuffer ⟨0, 1⟩).unresolvedChildren.toNat = 2 ^ 64 - 1) = true := by
      decide +kernel
    obtain ⟨s, run, holds⟩ := (Option.any_eq_true _ _).mp wrapped
    obtain ⟨uses, counter⟩ := of_decide_eq_true holds
    exact ⟨s, run, uses, counter, by decide +kernel⟩

end PrototypeBundle.ProtoE
