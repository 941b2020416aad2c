import Mathlib.Data.Multiset.Filter
import PrototypeBundle.ProtoE.Machine

set_option autoImplicit false

-- Tasks and jobs of a state as one multiset, kept together with a countdown whose
-- batches are the calls.

namespace PrototypeBundle.ProtoE

open Countdown (Board)

inductive Hold where
  -- a chunk whose task has not been set up
  | unissued (job : Job)
  | fresh (t : Ref)
  | pending (t : Ref)
  | running (t : Ref) (job : Job)
  | resolving (parent : Ref) (job : Job)
  | waited (r : Nat) (parent : Ref)
  | alloc (lane : Nat) (a : Alloc)

def Hold.ref : Hold → Option Ref
  | .fresh t => some t
  | .pending t => some t
  | .running t _ => some t
  | .waited _ parent => some parent
  | _ => none

def Hold.allocating : Hold → Option (Nat × Alloc)
  | .alloc lane a => some (lane, a)
  | _ => none

def Hold.waitingJob (taskBuffer : Ref → Task) : Hold → Option Job
  | .unissued job => some job
  | .pending t => some (taskBuffer t).job
  | _ => none

def Hold.runningJob : Hold → Option Job
  | .running _ job => some job
  | .resolving _ job => some job
  | _ => none

def Hold.Linked (n : Nat) (taskBuffer : Ref → Task) (calls : List (Call × Ref)) (board : Board Work) : Hold → Prop
  | .pending t => ∃ c, calls[(taskBuffer t).batch]? = some (c, (taskBuffer t).parent)
  | .running t job => ∃ c, calls[job.batch]? = some (c, (taskBuffer t).parent)
  | .resolving parent job => ∃ c, calls[job.batch]? = some (c, parent)
  | .waited r parent =>
      (∃ c, calls[r]? = some (c, parent)) ∧
        (taskBuffer parent).unresolvedChildren.toNat = jobDiv n - board.ended r
  | _ => True

structure Settled (n : Nat) (taskBuffer : Ref → Task) (calls : List (Call × Ref)) (holds : Multiset Hold)
    (board : Board Work) : Prop where
  inv : board.Inv
  issued : board.issued = calls.map fun call => call.1.batch n
  waiting : board.waiting = holds.filterMap (Hold.waitingJob taskBuffer)
  running : board.running = holds.filterMap Hold.runningJob
  linked : ∀ h ∈ holds, h.Linked n taskBuffer calls board
  closed : ∀ r c parent, calls[r]? = some (c, parent) → Hold.waited r parent ∈ holds ∨ board.ended r = jobDiv n

section Hold

variable {n : Nat} {taskBuffer : Ref → Task} {calls : List (Call × Ref)} {board board' : Board Work} {h : Hold}
  {x : Ref} {task : Task}

theorem Hold.waitingJob_update (other : h.ref ≠ some x) :
    h.waitingJob (Function.update taskBuffer x task) = h.waitingJob taskBuffer := by
  cases h with
  | pending t =>
      have different : t ≠ x := fun same => other (congrArg some same)
      exact congrArg (fun task : Task => some task.job) (Function.update_of_ne different ..)
  | _ => rfl

theorem Hold.Linked.update (linked : h.Linked n taskBuffer calls board) (other : h.ref ≠ some x) :
    h.Linked n (Function.update taskBuffer x task) calls board := by
  cases h with
  | pending t =>
      have different : t ≠ x := fun same => other (congrArg some same)
      simpa only [Linked, Function.update_of_ne different] using linked
  | running t job =>
      have different : t ≠ x := fun same => other (congrArg some same)
      simpa only [Linked, Function.update_of_ne different] using linked
  | waited r parent =>
      have different : parent ≠ x := fun same => other (congrArg some same)
      simpa only [Linked, Function.update_of_ne different] using linked
  | _ => exact linked

theorem Hold.Linked.extend (linked : h.Linked n taskBuffer calls board) (call : Call × Ref) :
    h.Linked n taskBuffer (calls ++ [call]) board := by
  have keeps {r : Nat} {parent : Ref} (found : ∃ c, calls[r]? = some (c, parent)) :
      ∃ c, (calls ++ [call])[r]? = some (c, parent) := by
    obtain ⟨c, found⟩ := found
    have bound := (List.getElem?_eq_some_iff.mp found).1
    exact ⟨c, (List.getElem?_append_left bound).trans found⟩
  cases h with
  | pending t => exact keeps linked
  | running t job => exact keeps linked
  | resolving parent job => exact keeps linked
  | waited r parent => exact ⟨keeps linked.1, linked.2⟩
  | _ => exact linked

theorem Hold.Linked.reboard (linked : h.Linked n taskBuffer calls board)
    (same : ∀ r parent, h = .waited r parent → board'.ended r = board.ended r) :
    h.Linked n taskBuffer calls board' := by
  cases h with
  | waited r parent => exact ⟨linked.1, (linked.2.trans (by rw [same r parent rfl]))⟩
  | _ => exact linked

theorem ref_ne_of_separate {rest : Multiset Hold} (separate : ((h ::ₘ rest).filterMap Hold.ref).Nodup)
    (has : h.ref = some x) : ∀ other ∈ rest, other.ref ≠ some x := by
  intro other member also
  rw [Multiset.filterMap_cons_some _ _ _ has, Multiset.nodup_cons] at separate
  exact separate.1 ((Multiset.mem_filterMap ..).mpr ⟨other, member, also⟩)

theorem filterMap_update {rest : Multiset Hold} (elsewhere : ∀ other ∈ rest, other.ref ≠ some x) :
    rest.filterMap (Hold.waitingJob (Function.update taskBuffer x task)) =
      rest.filterMap (Hold.waitingJob taskBuffer) := by
  induction rest using Multiset.induction_on with
  | empty => rfl
  | cons other rest ih =>
      rw [Multiset.filterMap_cons, Multiset.filterMap_cons,
        Hold.waitingJob_update (elsewhere other (Multiset.mem_cons_self _ _)),
        ih fun others member => elsewhere others (Multiset.mem_cons_of_mem member)]

end Hold

section Jobs

variable (taskBuffer : Ref → Task) (rest : Multiset Hold) (t : Ref) (job : Job)

theorem unissued_waits : (Hold.unissued job ::ₘ rest).filterMap (Hold.waitingJob taskBuffer) =
    job ::ₘ rest.filterMap (Hold.waitingJob taskBuffer) := Multiset.filterMap_cons_some _ _ _ rfl

theorem pending_waits : (Hold.pending t ::ₘ rest).filterMap (Hold.waitingJob taskBuffer) =
    (taskBuffer t).job ::ₘ rest.filterMap (Hold.waitingJob taskBuffer) := Multiset.filterMap_cons_some _ _ _ rfl

theorem running_runs : (Hold.running t job ::ₘ rest).filterMap Hold.runningJob = job ::ₘ rest.filterMap Hold.runningJob :=
  Multiset.filterMap_cons_some _ _ _ rfl

theorem resolving_runs :
    (Hold.resolving t job ::ₘ rest).filterMap Hold.runningJob = job ::ₘ rest.filterMap Hold.runningJob :=
  Multiset.filterMap_cons_some _ _ _ rfl

end Jobs

theorem filterMap_unissued (taskBuffer : Ref → Task) (jobs : List Job) :
    Multiset.filterMap (Hold.waitingJob taskBuffer) (jobs.map Hold.unissued : List Hold) = jobs := by
  induction jobs with
  | nil => rfl
  | cons job rest ih =>
      rw [List.map_cons, ← Multiset.cons_coe, ← Multiset.cons_coe, unissued_waits, ih]

theorem unissued_none {α : Type} {f : Hold → Option α} (none : ∀ job, f (.unissued job) = none) (jobs : List Job) :
    Multiset.filterMap f (jobs.map Hold.unissued : List Hold) = 0 := by
  have empty : (jobs.map Hold.unissued).filterMap f = [] := by
    refine List.filterMap_eq_nil_iff.mpr fun h member => ?_
    obtain ⟨job, -, rfl⟩ := List.mem_map.mp member
    exact none job
  exact congrArg (fun list : List α => (list : Multiset α)) empty

theorem unissued_add {α : Type} {f : Hold → Option α} (none : ∀ job, f (.unissued job) = none) (jobs : List Job)
    (rest : Multiset Hold) :
    Multiset.filterMap f ((jobs.map Hold.unissued : List Hold) + rest) = rest.filterMap f := by
  rw [Multiset.filterMap_add, unissued_none none, zero_add]

def Hold.idle : Hold → Bool
  | .fresh _ => true
  | .alloc _ _ => true
  | _ => false

section Settled

variable {n : Nat} {taskBuffer : Ref → Task} {calls : List (Call × Ref)} {board : Board Work}
  {rest : Multiset Hold} {t parent : Ref} {job : Job} {task : Task}

theorem Settled.cons_idle {h : Hold} (idle : h.idle) :
    Settled n taskBuffer calls (h ::ₘ rest) board ↔ Settled n taskBuffer calls rest board := by
  have waits : h.waitingJob taskBuffer = none := by cases h <;> first | rfl | cases idle
  have runs : h.runningJob = none := by cases h <;> first | rfl | cases idle
  have free : h.Linked n taskBuffer calls board := by cases h <;> first | exact True.intro | cases idle
  have waitless {r : Nat} {parent : Ref} : Hold.waited r parent ≠ h := by rintro rfl; cases idle
  constructor
  · intro settled
    have waiting := settled.waiting
    have running := settled.running
    rw [Multiset.filterMap_cons_none _ _ waits] at waiting
    rw [Multiset.filterMap_cons_none _ _ runs] at running
    refine ⟨settled.inv, settled.issued, waiting, running, ?_, fun r c parent found => ?_⟩
    · exact fun other member => settled.linked other (Multiset.mem_cons_of_mem member)
    · exact (settled.closed r c parent found).imp_left fun member => (Multiset.mem_cons.mp member).resolve_left waitless
  · intro settled
    refine ⟨settled.inv, settled.issued, ?_, ?_, fun other member => ?_, fun r c parent found => ?_⟩
    · rw [Multiset.filterMap_cons_none _ _ waits, settled.waiting]
    · rw [Multiset.filterMap_cons_none _ _ runs, settled.running]
    · rcases Multiset.mem_cons.mp member with rfl | member
      · exact free
      · exact settled.linked other member
    · exact (settled.closed r c parent found).imp_left Multiset.mem_cons_of_mem

theorem Settled.issue (settled : Settled n taskBuffer calls (.fresh parent ::ₘ rest) board)
    (separate : ((Hold.fresh parent ::ₘ rest).filterMap Hold.ref).Nodup) (c : Call)
    (counter : task.unresolvedChildren = UInt64.ofNat (jobDiv n)) :
    ∃ board', board.step (.issue (c.batch n)) = some board' ∧
      Settled n (Function.update taskBuffer parent task) (calls ++ [(c, parent)])
        (.waited calls.length parent ::ₘ (((c.batch n).entries calls.length).map Hold.unissued + rest)) board' := by
  have elsewhere := ref_ne_of_separate separate rfl
  have before := (Settled.cons_idle rfl).mp settled
  have number : board.issued.length = calls.length := by rw [before.issued, List.length_map]
  have taken : board.step (.issue (c.batch n)) = some { board with
      issued := board.issued ++ [c.batch n]
      waiting := board.waiting + (c.batch n).entries board.issued.length } := rfl
  refine ⟨_, taken, before.inv.step_inv taken, ?_, ?_, ?_, fun h member => ?_, fun r c' parent' found => ?_⟩
  · rw [List.map_append, ← before.issued, List.map_singleton]
  · rw [Multiset.filterMap_cons_none _ _ rfl, Multiset.filterMap_add, filterMap_unissued,
      filterMap_update elsewhere, ← before.waiting, number, add_comm]
  · rw [Multiset.filterMap_cons_none _ _ rfl, unissued_add fun _ => rfl]
    exact before.running
  · rcases Multiset.mem_cons.mp member with rfl | member
    · refine ⟨⟨c, List.getElem?_concat_length⟩, ?_⟩
      have fits : jobDiv n < 2 ^ 64 := by unfold jobDiv; omega
      have fresh := before.inv.ended_fresh
      rw [number] at fresh
      rw [Function.update_self, counter, UInt64.toNat_ofNat_of_lt' fits]
      change _ = jobDiv n - board.ended calls.length
      rw [fresh, Nat.sub_zero]
    · rcases Multiset.mem_add.mp member with member | member
      · obtain ⟨job, -, rfl⟩ := List.mem_map.mp (Multiset.mem_coe.mp member)
        exact True.intro
      · exact (((before.linked h member).update (elsewhere h member)).extend _).reboard fun _ _ _ => rfl
  · by_cases old : r < calls.length
    · rw [List.getElem?_append_left old] at found
      refine (before.closed r c' parent' found).imp_left fun member => ?_
      exact Multiset.mem_cons_of_mem (Multiset.mem_add.mpr (.inr member))
    · have bound := (List.getElem?_eq_some_iff.mp found).1
      have same : r = calls.length := by simp at bound; omega
      subst same
      rw [List.getElem?_concat_length, Option.some.injEq, Prod.mk.injEq] at found
      rw [found.2]
      exact .inl (Multiset.mem_cons_self _ _)

theorem Settled.fields (settled : Settled n taskBuffer calls (.fresh t ::ₘ .unissued task.job ::ₘ rest) board)
    (separate : ((Hold.fresh t ::ₘ .unissued task.job ::ₘ rest).filterMap Hold.ref).Nodup)
    (own : Hold.waited task.batch task.parent ∈ rest) :
    Settled n (Function.update taskBuffer t task) calls (.pending t ::ₘ rest) board := by
  have elsewhere := ref_ne_of_separate separate rfl
  have before := (Settled.cons_idle rfl).mp settled
  have others (h : Hold) (member : h ∈ rest) : h.ref ≠ some t := elsewhere h (Multiset.mem_cons_of_mem member)
  refine ⟨before.inv, before.issued, ?_, ?_, fun h member => ?_, fun r c parent found => ?_⟩
  · have now : (Hold.pending t).waitingJob (Function.update taskBuffer t task) = some task.job :=
      congrArg (fun task : Task => some task.job) (Function.update_self ..)
    rw [before.waiting, unissued_waits, Multiset.filterMap_cons_some _ _ _ now,
      filterMap_update others]
  · rw [before.running, Multiset.filterMap_cons_none _ _ rfl, Multiset.filterMap_cons_none _ _ rfl]
  · rcases Multiset.mem_cons.mp member with rfl | member
    · have parents := (before.linked _ (Multiset.mem_cons_of_mem own)).1
      simpa only [Hold.Linked, Function.update_self] using parents
    · exact (before.linked h (Multiset.mem_cons_of_mem member)).update (others h member)
  · refine (before.closed r c parent found).imp_left fun member => ?_
    exact Multiset.mem_cons_of_mem ((Multiset.mem_cons.mp member).resolve_left (by simp))

theorem Settled.start (settled : Settled n taskBuffer calls (.pending t ::ₘ rest) board) :
    ∃ board', board.step (.start (taskBuffer t).job) = some board' ∧
      Settled n taskBuffer calls (.running t (taskBuffer t).job ::ₘ rest) board' := by
  have waiting := settled.waiting
  rw [pending_waits] at waiting
  have member : (taskBuffer t).job ∈ board.waiting := waiting ▸ Multiset.mem_cons_self _ _
  have taken := Board.step_start member
  refine ⟨_, taken, settled.inv.step_inv taken, settled.issued, ?_, ?_, fun h member => ?_, fun r c parent found => ?_⟩
  · rw [waiting, Multiset.erase_cons_head, Multiset.filterMap_cons_none _ _ rfl]
  · rw [running_runs, settled.running, Multiset.filterMap_cons_none _ _ rfl]
  · rcases Multiset.mem_cons.mp member with rfl | member
    · exact settled.linked _ (Multiset.mem_cons_self _ _)
    · exact (settled.linked h (Multiset.mem_cons_of_mem member)).reboard fun _ _ _ => rfl
  · refine (settled.closed r c parent found).imp_left fun member => ?_
    exact Multiset.mem_cons_of_mem ((Multiset.mem_cons.mp member).resolve_left (by simp))

theorem Settled.unparent (settled : Settled n taskBuffer calls (.running t job ::ₘ rest) board) :
    Settled n taskBuffer calls (.resolving (taskBuffer t).parent job ::ₘ rest) board := by
  refine ⟨settled.inv, settled.issued, ?_, ?_, fun h member => ?_, fun r c parent found => ?_⟩
  · rw [settled.waiting, Multiset.filterMap_cons_none _ _ rfl, Multiset.filterMap_cons_none _ _ rfl]
  · rw [settled.running, running_runs, resolving_runs]
  · rcases Multiset.mem_cons.mp member with rfl | member
    · have own := settled.linked (.running t job) (Multiset.mem_cons_self _ _)
      exact own
    · exact settled.linked h (Multiset.mem_cons_of_mem member)
  · refine (settled.closed r c parent found).imp_left fun member => ?_
    exact Multiset.mem_cons_of_mem ((Multiset.mem_cons.mp member).resolve_left (by simp))

theorem Settled.call_issued (settled : Settled n taskBuffer calls rest board) {r : Nat} {c : Call}
    (found : calls[r]? = some (c, parent)) : board.issued[r]? = some (c.batch n) := by
  rw [settled.issued, List.getElem?_map, found]
  rfl

theorem Settled.finish (settled : Settled n taskBuffer calls (.resolving parent job ::ₘ rest) board)
    (separate : ((Hold.resolving parent job ::ₘ rest).filterMap Hold.ref).Nodup)
    (counter : task.unresolvedChildren = (taskBuffer parent).unresolvedChildren - 1) :
    ∃ board', board.step (.finish job) = some board' ∧
      Settled n (Function.update taskBuffer parent task) calls rest board' := by
  have running := settled.running
  rw [resolving_runs] at running
  have member : job ∈ board.running := running ▸ Multiset.mem_cons_self _ _
  have taken := Board.step_finish member
  obtain ⟨c, found⟩ := settled.linked (.resolving parent job) (Multiset.mem_cons_self _ _)
  -- the job still runs, so that its call still waits for its parent
  have unfinished : board.ended job.batch < jobDiv n := settled.inv.ended_lt member (settled.call_issued found)
  have waits : Hold.waited job.batch parent ∈ rest := by
    rcases settled.closed _ c parent found with among | ended
    · exact (Multiset.mem_cons.mp among).resolve_left (by simp)
    · omega
  obtain ⟨others, rfl⟩ := Multiset.exists_cons_of_mem waits
  rw [Multiset.filterMap_cons_none _ _ rfl] at separate
  have elsewhere := ref_ne_of_separate separate rfl
  refine ⟨_, taken, settled.inv.step_inv taken, settled.issued, ?_, ?_, fun h member => ?_, fun r c' parent' found' => ?_⟩
  · rw [settled.waiting, Multiset.filterMap_cons_none _ _ rfl, Multiset.filterMap_cons_none _ _ rfl,
      Multiset.filterMap_cons_none _ _ rfl, filterMap_update elsewhere]
  · rw [running, Multiset.erase_cons_head]
  · have counted := Countdown.countP_concat board.finished job
    rcases Multiset.mem_cons.mp member with rfl | member
    · obtain ⟨-, value⟩ := settled.linked (.waited job.batch parent) (Multiset.mem_cons_of_mem waits)
      have positive : (1 : UInt64) ≤ (taskBuffer parent).unresolvedChildren := by
        rw [UInt64.le_iff_toNat_le, value]
        change 1 ≤ _
        omega
      refine ⟨⟨c, found⟩, ?_⟩
      rw [Function.update_self, counter, UInt64.toNat_sub_of_le _ _ positive, value]
      change _ - 1 = jobDiv n - (board.finished ++ [job]).countP _
      rw [counted, if_pos rfl]
      exact (Nat.sub_sub ..)
    · have before := settled.linked h (Multiset.mem_cons_of_mem (Multiset.mem_cons_of_mem member))
      refine (before.update (elsewhere h member)).reboard fun r parent' same => ?_
      subst same
      have different : job.batch ≠ r := by
        rintro rfl
        obtain ⟨c', found'⟩ := before.1
        obtain ⟨-, rfl⟩ := Prod.mk.inj (Option.some.inj (found.symm.trans found'))
        exact elsewhere _ member rfl
      change (board.finished ++ [job]).countP _ = _
      rw [counted, if_neg different, Nat.add_zero]
      rfl
  · rcases settled.closed r c' parent' found' with among | ended
    · exact .inl ((Multiset.mem_cons.mp among).resolve_left (by simp))
    · have different : job.batch ≠ r := by
        rintro rfl
        omega
      right
      change (board.finished ++ [job]).countP _ = _
      rw [Countdown.countP_concat, if_neg different, Nat.add_zero]
      exact ended

theorem Settled.leave {r : Nat} (settled : Settled n taskBuffer calls (.waited r parent ::ₘ rest) board)
    (zero : (taskBuffer parent).unresolvedChildren = 0) : Settled n taskBuffer calls rest board := by
  refine ⟨settled.inv, settled.issued, ?_, ?_, fun h member => ?_, fun r' c parent' found => ?_⟩
  · rw [settled.waiting, Multiset.filterMap_cons_none _ _ rfl]
  · rw [settled.running, Multiset.filterMap_cons_none _ _ rfl]
  · exact settled.linked h (Multiset.mem_cons_of_mem member)
  · rcases settled.closed r' c parent' found with among | ended
    · rcases Multiset.mem_cons.mp among with same | among
      · cases same
        obtain ⟨-, value⟩ := settled.linked (.waited r parent) (Multiset.mem_cons_self _ _)
        have below : board.ended r ≤ jobDiv n := settled.inv.ended_le (settled.call_issued found)
        rw [zero] at value
        change 0 = _ at value
        right
        omega
      · exact .inl among
    · exact .inr ended

end Settled

end PrototypeBundle.ProtoE
