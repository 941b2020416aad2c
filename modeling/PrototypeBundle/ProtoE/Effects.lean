import PrototypeBundle.ProtoE.Buffers
import PrototypeBundle.ProtoE.Holds

set_option autoImplicit false

namespace PrototypeBundle.ProtoE

open ProtoG (chunks chunks_length)

def allocHolds (lane : Nat) : Alloc → List Hold
  | .load => []
  | a => [.alloc lane a]

def unissued (n r i : Nat) (c : Call) : List Hold := (((c.batch n).entries r).drop i).map Hold.unissued

def Stage.holds (n : Nat) (c : Call) (lane : Nat) : Stage → List Hold
  | .allocParent a => allocHolds lane a
  | .unresolved parent => [.fresh ⟨lane, parent⟩]
  | .allocTask r parent i a => .waited r ⟨lane, parent⟩ :: (allocHolds lane a ++ unissued n r i c)
  | .fields r parent i t => .waited r ⟨lane, parent⟩ :: .fresh ⟨lane, t⟩ :: unissued n r i c
  | .push r parent i t => .waited r ⟨lane, parent⟩ :: .pending ⟨lane, t⟩ :: unissued n r (i + 1) c
  | .wait r parent => [.waited r ⟨lane, parent⟩]
  | .free _ => []

def Frame.holds (n : Nat) : Frame → List Hold
  | .invoke t => [.pending t]
  | .calling t job => [.running t job]
  | .returned t job => [.running t job]
  | .resolve parent job => [.resolving parent job]
  | .parallel c lane stage => stage.holds n c lane
  | _ => []

def Executor.holds (e : Executor) : Multiset Hold := (e.lanes.flatMap Lane.queued : List Ref).map Hold.pending

def view (n : Nat) (e : Executor) (stack : List Frame) : Multiset Hold := e.holds + (stack.flatMap (Frame.holds n) : List Hold)

def State.holds (n : Nat) (s : State) : Multiset Hold :=
  s.executor.holds + (s.threads.flatMap fun stack => stack.flatMap (Frame.holds n) : List Hold)

def Executor.index (e : Executor) (lane : Nat) : Nat := e.lanes[lane]?.elim 0 Lane.taskBufferIndex

structure Executor.Homed (n : Nat) (e : Executor) : Prop where
  count : e.lanes.length = n
  own : ∀ (lane : Nat) (l : Lane), e.lanes[lane]? = some l → ∀ t ∈ l.queued, t.lane = lane

section Lanes

variable {n lane : Nat} {e : Executor} {l l' : Lane} {t : Ref}

theorem Executor.index_eq (found : e.lanes[lane]? = some l) : e.index lane = l.taskBufferIndex := by
  rw [index, found]
  rfl

theorem Executor.index_setLane (found : e.lanes[lane]? = some l) :
    (e.setLane lane l').index = Function.update e.index lane l'.taskBufferIndex := by
  have bound := (List.getElem?_eq_some_iff.mp found).1
  funext other
  change (e.lanes.set lane l')[other]?.elim 0 Lane.taskBufferIndex = _
  by_cases same : other = lane
  · subst same
    rw [List.getElem?_set_self bound, Function.update_self]
    rfl
  · rw [List.getElem?_set_ne (Ne.symm same), Function.update_of_ne same]
    rfl

theorem Executor.index_kept (found : e.lanes[lane]? = some l) (same : l'.taskBufferIndex = l.taskBufferIndex) :
    (e.setLane lane l').index = e.index := by
  rw [index_setLane found, same, ← index_eq found, Function.update_eq_self]

theorem Executor.Homed.set (homed : e.Homed n) (own : ∀ t ∈ l'.queued, t.lane = lane) : (e.setLane lane l').Homed n := by
  refine ⟨(List.length_set ..).trans homed.count, fun other m found => ?_⟩
  change (e.lanes.set lane l')[other]? = some m at found
  by_cases same : other = lane
  · subst same
    have bound := (List.getElem?_eq_some_iff.mp found).1
    rw [List.length_set] at bound
    rw [List.getElem?_set_self bound] at found
    cases found
    exact own
  · rw [List.getElem?_set_ne (Ne.symm same)] at found
    exact homed.own other m found

theorem Executor.holds_setLane (found : e.lanes[lane]? = some l) {more fewer : Lane}
    (moved : (more.queued : Multiset Ref) = t ::ₘ fewer.queued) :
    (e.setLane lane more).holds = .pending t ::ₘ (e.setLane lane fewer).holds := by
  obtain ⟨others, -, after⟩ := Countdown.flatMap_set Lane.queued found
  change ((e.lanes.set lane more).flatMap Lane.queued : Multiset Ref).map _ =
    _ ::ₘ ((e.lanes.set lane fewer).flatMap Lane.queued : Multiset Ref).map _
  rw [after, after, moved, Multiset.cons_add, Multiset.map_cons]

theorem Executor.holds_kept (found : e.lanes[lane]? = some l) (same : l'.queued = l.queued) :
    (e.setLane lane l').holds = e.holds := by
  obtain ⟨others, before, after⟩ := Countdown.flatMap_set Lane.queued found
  have queues : ((e.lanes.set lane l').flatMap Lane.queued : Multiset Ref) = e.lanes.flatMap Lane.queued := by
    rw [after, same, before]
  exact congrArg (Multiset.map Hold.pending) queues

theorem Executor.setLane_self (found : e.lanes[lane]? = some l) : e.setLane lane l = e := by
  obtain ⟨bound, rfl⟩ := List.getElem?_eq_some_iff.mp found
  unfold setLane
  rw [List.set_getElem_self]

end Lanes

section Views

variable {n r parent i lane : Nat} {c : Call} {e : Executor}

theorem list_cons_add {α : Type} (a : α) (list : List α) (rest : Multiset α) :
    ((a :: list : List α) : Multiset α) + rest = a ::ₘ ((list : Multiset α) + rest) := Multiset.cons_add a list rest

theorem view_cons (n : Nat) (e : Executor) (frame : Frame) (rest : List Frame) :
    view n e (frame :: rest) = (frame.holds n : Multiset Hold) + view n e rest := by
  unfold view
  rw [List.flatMap_cons, ← Multiset.coe_add, add_left_comm]

theorem view_single (n : Nat) (e : Executor) (frame : Frame) (rest : List Frame) :
    view n e ([frame] ++ rest) = (frame.holds n : Multiset Hold) + view n e rest := view_cons n e frame rest

theorem view_empty {frame : Frame} (empty : frame.holds n = []) (e : Executor) (rest : List Frame) :
    view n e (frame :: rest) = view n e rest := by
  rw [view_cons, empty, Multiset.coe_nil, zero_add]

theorem view_congr {next : Executor} (same : next.holds = e.holds) (stack : List Frame) :
    view n next stack = view n e stack := by
  unfold view
  rw [same]

theorem round_holds (n r parent i lane : Nat) (c : Call) :
    (round n r parent i).holds n c lane = .waited r ⟨lane, parent⟩ :: unissued n r i c := by
  unfold round
  split
  · rfl
  · rename_i last
    have none : unissued n r i c = [] := by
      have length : ((c.batch n).entries r).length = jobDiv n := by
        rw [Countdown.Batch.entries_length]
        simp [Call.batch, chunks_length]
      rw [unissued, List.drop_eq_nil_of_le (by omega), List.map_nil]
    rw [none]
    rfl

theorem unissued_cons {span : ProtoG.Span} (found : (chunks (jobDiv n) c.length)[i]? = some span) :
    unissued n r i c =
      .unissued ⟨r, i, ⟨c.callback, c.data + span.offset, c.data + span.offset + span.length⟩⟩ ::
        unissued n r (i + 1) c := by
  have entry : ((c.batch n).entries r)[i]? =
      some ⟨r, i, ⟨c.callback, c.data + span.offset, c.data + span.offset + span.length⟩⟩ := by
    simp [Countdown.Batch.entries, Call.batch, found]
  obtain ⟨bound, value⟩ := List.getElem?_eq_some_iff.mp entry
  rw [unissued, List.drop_eq_getElem_cons bound, List.map_cons, value]
  rfl

end Views

inductive Effect (n : Nat) (s : State) (before : Multiset Hold) : Executor → Multiset Hold → List Event → Prop where
  | quiet {next : Executor} {after : Multiset Hold} (same : after = before) (index : next.index = s.executor.index)
      (buffer : next.taskBuffer = s.executor.taskBuffer) (calls : next.calls = s.executor.calls) :
      Effect n s before next after []
  | load {lane : Nat} (inside : lane < n) (idle : lane ∉ s.allocating) (room : s.executor.index lane + 1 < 8192) :
      Effect n s before s.executor (.alloc lane (.store (s.executor.index lane)) ::ₘ before) []
  | store {lane value : Nat} {next : Executor} {rest : Multiset Hold}
      (split : before = .alloc lane (.store value) ::ₘ rest)
      (index : next.index = Function.update s.executor.index lane (value + 1))
      (buffer : next.taskBuffer = s.executor.taskBuffer) (calls : next.calls = s.executor.calls) :
      Effect n s before next (.alloc lane .read ::ₘ rest) []
  | read {lane : Nat} {rest : Multiset Hold} (split : before = .alloc lane .read ::ₘ rest) :
      Effect n s before s.executor (.fresh ⟨lane, s.executor.index lane⟩ ::ₘ rest) []
  | issue {parent : Ref} {rest : Multiset Hold} {c : Call} {task : Task} (split : before = .fresh parent ::ₘ rest)
      (counter : task.unresolvedChildren = UInt64.ofNat (jobDiv n)) :
      Effect n s before { s.executor.setTask parent task with calls := s.executor.calls ++ [(c, parent)] }
        (.waited s.executor.calls.length parent ::ₘ
          (((c.batch n).entries s.executor.calls.length).map Hold.unissued + rest)) [.issue (c.batch n)]
  | fields {t : Ref} {rest : Multiset Hold} {task : Task} (split : before = .fresh t ::ₘ .unissued task.job ::ₘ rest)
      (own : Hold.waited task.batch task.parent ∈ rest) :
      Effect n s before (s.executor.setTask t task) (.pending t ::ₘ rest) []
  | start {t : Ref} {rest : Multiset Hold} (split : before = .pending t ::ₘ rest) :
      Effect n s before s.executor (.running t (s.executor.taskBuffer t).job ::ₘ rest)
        [.start (s.executor.taskBuffer t).job]
  | unparent {t : Ref} {job : Job} {rest : Multiset Hold} (split : before = .running t job ::ₘ rest) :
      Effect n s before s.executor (.resolving (s.executor.taskBuffer t).parent job ::ₘ rest) []
  | finish {parent : Ref} {job : Job} {rest : Multiset Hold} {task : Task}
      (split : before = .resolving parent job ::ₘ rest)
      (counter : task.unresolvedChildren = (s.executor.taskBuffer parent).unresolvedChildren - 1) :
      Effect n s before (s.executor.setTask parent task) rest [.finish job]
  | leave {r : Nat} {parent : Ref} {rest : Multiset Hold} (split : before = .waited r parent ::ₘ rest)
      (zero : (s.executor.taskBuffer parent).unresolvedChildren = 0) : Effect n s before s.executor rest []
  | rewind {k : Nat} {next : Executor} (idle : k ∉ s.allocating) (unused : ∀ t ∈ s.uses, t.lane ≠ k)
      (index : next.index = Function.update s.executor.index k 0)
      (buffer : next.taskBuffer = s.executor.taskBuffer) (calls : next.calls = s.executor.calls) :
      Effect n s before next before []

section Turns

variable {n lane : Nat} {s : State} {next : Executor} {c : Call} {stage : Stage} {frames rest : List Frame}
  {events : List Event}

theorem alloc_effect (homed : s.executor.Homed n) {a : Alloc} {result : Alloc ⊕ Nat} (others : Multiset Hold)
    (orderly : a = .load → lane ∉ s.allocating ∧ ∀ l ∈ s.executor.lanes[lane]?, l.taskBufferIndex + 1 < 8192)
    (taken : s.executor.alloc lane a = some (next, result)) :
    Effect n s ((allocHolds lane a : Multiset Hold) + others) next
        ((result.elim (allocHolds lane) fun t => [.fresh ⟨lane, t⟩] : List Hold) + others) [] ∧
      next.holds = s.executor.holds ∧ next.Homed n := by
  unfold Executor.alloc at taken
  cases found : s.executor.lanes[lane]? with
  | none => simp [found] at taken
  | some l =>
      simp only [found] at taken
      have current := Executor.index_eq found
      have inside := (List.getElem?_eq_some_iff.mp found).1
      rw [homed.count] at inside
      cases a with
      | load =>
          obtain ⟨rfl, rfl⟩ := Prod.mk.inj (Option.some.inj taken)
          obtain ⟨idle, room⟩ := orderly rfl
          refine ⟨?_, rfl, homed⟩
          have bound : s.executor.index lane + 1 < 8192 := current ▸ room l found
          change Effect n s (0 + others) _ (([.alloc lane (.store l.taskBufferIndex)] : List Hold) + others) []
          rw [zero_add, list_cons_add, ← current]
          change Effect n s others _ (_ ::ₘ (0 + others)) []
          rw [zero_add]
          exact Effect.load inside idle bound
      | store value =>
          obtain ⟨rfl, rfl⟩ := Prod.mk.inj (Option.some.inj taken)
          refine ⟨?_, Executor.holds_kept found rfl, homed.set (homed.own lane l found)⟩
          change Effect n s (([.alloc lane (.store value)] : List Hold) + others) _
            (([.alloc lane .read] : List Hold) + others) []
          rw [list_cons_add, list_cons_add]
          exact Effect.store rfl (Executor.index_setLane found) rfl rfl
      | read =>
          obtain ⟨rfl, rfl⟩ := Prod.mk.inj (Option.some.inj taken)
          refine ⟨?_, rfl, homed⟩
          change Effect n s (([.alloc lane .read] : List Hold) + others) _
            (([.fresh ⟨lane, l.taskBufferIndex⟩] : List Hold) + others) []
          rw [list_cons_add, list_cons_add, ← current]
          exact Effect.read rfl

theorem parallel_effect (homed : s.executor.Homed n)
    (room : ∀ (lane : Nat) (l : Lane), s.executor.lanes[lane]? = some l → l.queued.length < 8192)
    (orderly : stage.Orderly s lane) (taken : parallel n s.executor c lane stage = some (next, frames, events))
    (rest : List Frame) :
    Effect n s (view n s.executor (.parallel c lane stage :: rest)) next (view n next (frames ++ rest)) events ∧
      next.Homed n := by
  cases stage with
  | allocParent a =>
      simp only [parallel, Option.map_eq_some_iff, Prod.mk.injEq] at taken
      obtain ⟨⟨e, result⟩, allocated, rfl, rfl, rfl⟩ := taken
      obtain ⟨effect, queues, homed'⟩ := alloc_effect homed (view n s.executor rest)
        (fun loads => orderly.1 (congrArg some loads)) allocated
      refine ⟨?_, homed'⟩
      rw [view_cons, view_single, view_congr queues]
      cases result with
      | inl a => exact effect
      | inr parent => exact effect
  | unresolved parent =>
      simp only [parallel, Option.ite_none_left_eq_some, Option.some.injEq, Prod.mk.injEq] at taken
      obtain ⟨_, rfl, rfl, rfl⟩ := taken
      refine ⟨?_, homed.count, homed.own⟩
      rw [view_cons, view_single]
      change Effect n s (([.fresh ⟨lane, parent⟩] : List Hold) + view n s.executor rest) _
        (((round n _ parent 0).holds n c lane : List Hold) + view n s.executor rest) _
      rw [round_holds, list_cons_add, list_cons_add]
      exact Effect.issue (by rw [Multiset.coe_nil, zero_add]) rfl
  | allocTask r parent i a =>
      simp only [parallel, Option.map_eq_some_iff, Prod.mk.injEq] at taken
      obtain ⟨⟨e, result⟩, allocated, rfl, rfl, rfl⟩ := taken
      obtain ⟨effect, queues, homed'⟩ := alloc_effect homed
        (.waited r ⟨lane, parent⟩ ::ₘ ((unissued n r i c : Multiset Hold) + view n s.executor rest))
        (fun loads => orderly.1 (congrArg some loads)) allocated
      refine ⟨?_, homed'⟩
      -- the parent and the chunks to come stay as they are
      have apart (list : List Hold) :
          ((.waited r ⟨lane, parent⟩ :: (list ++ unissued n r i c) : List Hold) : Multiset Hold) + view n s.executor rest =
            list + (.waited r ⟨lane, parent⟩ ::ₘ ((unissued n r i c : Multiset Hold) + view n s.executor rest)) := by
        rw [list_cons_add, ← Multiset.coe_add, Multiset.add_cons, add_assoc]
      rw [view_cons, view_single, view_congr queues]
      change Effect n s (((.waited r ⟨lane, parent⟩ :: (allocHolds lane a ++ unissued n r i c) : List Hold) : Multiset Hold) +
        view n s.executor rest) _ _ _
      rw [apart]
      cases result with
      | inl a => exact (apart (allocHolds lane a)).symm ▸ effect
      | inr t => exact (apart [.fresh ⟨lane, t⟩]).symm ▸ effect
  | fields r parent i t =>
      simp only [parallel, Option.map_eq_some_iff, Prod.mk.injEq] at taken
      obtain ⟨span, found, rfl, rfl, rfl⟩ := taken
      refine ⟨?_, homed.count, homed.own⟩
      rw [view_cons, view_single]
      change Effect n s (((.waited r ⟨lane, parent⟩ :: .fresh ⟨lane, t⟩ :: unissued n r i c : List Hold) : Multiset Hold) +
        view n s.executor rest) _ (((.waited r ⟨lane, parent⟩ :: .pending ⟨lane, t⟩ :: unissued n r (i + 1) c : List Hold) :
          Multiset Hold) + view n s.executor rest) _
      rw [unissued_cons found, list_cons_add, list_cons_add, list_cons_add, list_cons_add, list_cons_add,
        Multiset.cons_swap (Hold.waited r ⟨lane, parent⟩) (Hold.pending ⟨lane, t⟩)]
      refine Effect.fields ?_ (Multiset.mem_cons_self _ _)
      rw [Multiset.cons_swap (Hold.waited r ⟨lane, parent⟩), Multiset.cons_swap (Hold.waited r ⟨lane, parent⟩)]
      rfl
  | push r parent i t =>
      simp only [parallel, Option.map_eq_some_iff, Prod.mk.injEq] at taken
      obtain ⟨l, found, rfl, rfl, rfl⟩ := taken
      have pushed := Lane.push_queued (t := ⟨lane, t⟩) (room lane l found)
      have moved : ((l.push ⟨lane, t⟩).queued : Multiset Ref) = ⟨lane, t⟩ ::ₘ l.queued := by
        rw [pushed, ← Multiset.coe_add, add_comm]
        rfl
      have queues := Executor.holds_setLane found moved
      rw [Executor.setLane_self found] at queues
      refine ⟨Effect.quiet ?_ (Executor.index_kept found rfl) rfl rfl, homed.set ?_⟩
      · rw [view_cons, view_single]
        change (((round n r parent (i + 1)).holds n c lane : List Hold) : Multiset Hold) + (_ + _) =
          ((.waited r ⟨lane, parent⟩ :: .pending ⟨lane, t⟩ :: unissued n r (i + 1) c : List Hold) : Multiset Hold) + (_ + _)
        rw [queues, round_holds, list_cons_add, list_cons_add, list_cons_add, Multiset.cons_add, Multiset.add_cons]
      · intro t' member
        rw [pushed, List.mem_append] at member
        rcases member with old | new
        · exact homed.own lane l found t' old
        · rw [List.mem_singleton.mp new]
  | wait r parent =>
      simp only [parallel] at taken
      split at taken
      · rename_i zero
        cases taken
        refine ⟨?_, homed⟩
        rw [view_cons, view_single]
        change Effect n s (([.waited r ⟨lane, parent⟩] : List Hold) + view n s.executor rest) _
          (0 + view n s.executor rest) _
        rw [list_cons_add, zero_add]
        exact Effect.leave (by rw [Multiset.coe_nil, zero_add]) zero
      · cases taken
        refine ⟨Effect.quiet ?_ rfl rfl rfl, homed⟩
        rw [List.cons_append, view_empty rfl]
        rfl
  | free k =>
      cases found : s.executor.lanes[k]? with
      | none =>
          simp only [parallel, found, Option.some.injEq, Prod.mk.injEq] at taken
          obtain ⟨rfl, rfl, rfl⟩ := taken
          exact ⟨Effect.quiet (view_empty rfl _ _).symm rfl rfl rfl, homed⟩
      | some l =>
          simp only [parallel, found, Option.some.injEq, Prod.mk.injEq] at taken
          obtain ⟨rfl, rfl, rfl⟩ := taken
          refine ⟨?_, homed.set (homed.own k l found)⟩
          have queues : (s.executor.setLane k { l with taskBufferIndex := 0 }).holds = s.executor.holds :=
            Executor.holds_kept found rfl
          rw [view_empty rfl, List.cons_append, List.nil_append, view_empty rfl, view_congr queues]
          obtain ⟨idle, unused⟩ := orderly.2 k rfl
          exact Effect.rewind idle unused (Executor.index_setLane found) rfl rfl

theorem take_effect (homed : s.executor.Homed n) {l l' : Lane} {t : Ref} (found : s.executor.lanes[lane]? = some l)
    (moved : (l.queued : Multiset Ref) = t ::ₘ l'.queued) (index : l'.taskBufferIndex = l.taskBufferIndex)
    {frame : Frame} (empty : frame.holds n = []) (rest : List Frame) :
    Effect n s (view n s.executor (frame :: rest)) (s.executor.setLane lane l')
        (view n (s.executor.setLane lane l') (.invoke t :: rest)) [] ∧
      (s.executor.setLane lane l').Homed n := by
  have queues := Executor.holds_setLane found moved
  rw [Executor.setLane_self found] at queues
  refine ⟨Effect.quiet ?_ (Executor.index_kept found index) rfl rfl, homed.set fun t' member => ?_⟩
  · rw [view_cons, view_cons, empty]
    change (([.pending t] : List Hold) : Multiset Hold) + (_ + _) = 0 + (_ + _)
    rw [queues, list_cons_add, zero_add, Multiset.coe_nil, zero_add, Multiset.cons_add]
  · have among : t' ∈ (l.queued : Multiset Ref) := moved ▸ Multiset.mem_cons_of_mem (Multiset.mem_coe.mpr member)
    exact homed.own lane l found t' (Multiset.mem_coe.mp among)

theorem turn_effect {own : Nat} {act : Act} {stack : List Frame} (homed : s.executor.Homed n)
    (room : ∀ (lane : Nat) (l : Lane), s.executor.lanes[lane]? = some l → l.queued.length < 8192)
    (orderly : ∀ c lane stage below, act = .go → stack = .parallel c lane stage :: below → stage.Orderly s lane)
    (taken : turn n own s.executor act stack = some (next, rest, events)) :
    Effect n s (view n s.executor stack) next (view n next rest) events ∧ next.Homed n := by
  unfold turn at taken
  split at taken
  · -- the worker's loop
    cases taken
    exact ⟨Effect.quiet (view_empty rfl _ _) rfl rfl rfl, homed⟩
  · -- `pop`
    rename_i lane i below
    cases found : s.executor.lanes[lane]? with
    | none => simp [found] at taken
    | some l =>
        simp only [found] at taken
        split at taken
        · cases taken
          exact ⟨Effect.quiet (by rw [view_empty rfl, view_empty rfl]) rfl rfl rfl, homed⟩
        · rename_i t l' popped
          cases taken
          have moved : (l.queued : Multiset Ref) = t ::ₘ l'.queued := by
            rw [Lane.pop_queued popped, ← Multiset.coe_add, add_comm]
            rfl
          exact take_effect homed found moved (Lane.pop_index popped) rfl _
  · -- `steal`
    rename_i randIndex i below
    cases found : s.executor.lanes[randIndex]? with
    | none => simp [found] at taken
    | some l =>
        simp only [found] at taken
        split at taken
        · cases taken
          exact ⟨Effect.quiet (view_empty rfl _ _).symm rfl rfl rfl, homed⟩
        · split at taken
          · cases taken
            exact ⟨Effect.quiet (view_empty rfl _ _).symm rfl rfl rfl, homed⟩
          · rename_i t l' stolen
            cases taken
            have moved : (l.queued : Multiset Ref) = t ::ₘ l'.queued := by
              rw [Lane.steal_queued stolen]
              rfl
            exact take_effect homed found moved (Lane.steal_index stolen) rfl _
  · -- `invoke`
    rename_i t below
    cases taken
    refine ⟨?_, homed⟩
    rw [view_cons, view_cons]
    exact Effect.start (list_cons_add _ _ _)
  · -- the callback returns
    cases taken
    exact ⟨Effect.quiet rfl rfl rfl rfl, homed⟩
  · -- the parent is read
    rename_i t job below
    cases taken
    refine ⟨?_, homed⟩
    rw [view_cons, view_cons]
    exact Effect.unparent (list_cons_add _ _ _)
  · -- the decrement
    rename_i parent job below
    cases taken
    refine ⟨?_, homed.count, homed.own⟩
    rw [view_cons]
    refine Effect.finish ?_ rfl
    change (([.resolving parent job] : List Hold) : Multiset Hold) + _ = _
    rw [list_cons_add, Multiset.coe_nil, zero_add]
    rfl
  · -- a callback or a client calls `run_parallel`
    simp only [Option.ite_none_right_eq_some, Option.some.injEq, Prod.mk.injEq] at taken
    obtain ⟨_, rfl, rfl, rfl⟩ := taken
    exact ⟨Effect.quiet (view_empty rfl _ _) rfl rfl rfl, homed⟩
  · -- `run_parallel` goes on
    rename_i c lane stage below
    simp only [Option.map_eq_some_iff, Prod.mk.injEq] at taken
    obtain ⟨⟨e, frames, emitted⟩, stepped, rfl, rfl, rfl⟩ := taken
    exact parallel_effect homed room (orderly c lane stage below rfl rfl) stepped below
  · cases taken

end Turns

end PrototypeBundle.ProtoE
