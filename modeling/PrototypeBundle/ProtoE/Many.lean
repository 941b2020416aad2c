import PrototypeBundle.ProtoE.Machine
import PrototypeBundle.Shared.Binary64

set_option autoImplicit false

namespace PrototypeBundle.ProtoE

open ProtoG (Span chunks chunksFrom chunks_length chunks_elements)

-- `job_div`. A conversion to `unsigned` is undefined for other values.
def manyJobDiv (length cores : Nat) : Option Nat :=
  let root := Binary64.sqrt (Binary64.ofNat (length / cores))
  if root < 2 ^ 32 then some root else none

/-- A task pushed, by its index in the buffer, with the length of the queue after the push. -/
structure Entry where
  index : Nat
  work : Work
  parent : Nat
  queued : Nat

structure Pushed where
  parent : Nat
  unresolvedChildren : UInt64
  entries : List Entry
  lane : Lane

namespace Lane

-- By one thread.
def alloc (l : Lane) : Nat × Lane :=
  (l.taskBufferIndex + 1, { l with taskBufferIndex := l.taskBufferIndex + 1 })

def stolen (l : Lane) : Nat → Lane
  | 0 => l
  | thefts + 1 => ((l.steal.map Prod.snd).getD l).stolen thefts

-- The loop from `i` on, with `left` rounds to go. `thieves` has the calls of `steal` before each push.
def pushMany (own parent : Nat) (thieves : Nat → Nat) (c : Call) (jobDiv rem : Nat) :
    (left i stride : Nat) → Lane → List Entry × Lane
  | 0, _, _, l => ([], l)
  | left + 1, i, stride, l =>
      let offset := i * stride
      let stride := if i = jobDiv - 1 then stride + rem else stride
      let (t, l) := l.alloc
      let l := (l.stolen (thieves i)).push ⟨own, t⟩
      let (entries, last) := pushMany own parent thieves c jobDiv rem left (i + 1) stride l
      (⟨t, ⟨c.callback, c.data + offset, c.data + offset + stride⟩, parent, l.queued.length⟩ :: entries, last)

def runParallelMany (own : Nat) (thieves : Nat → Nat) (c : Call) (cores : Nat) (l : Lane) : Option Pushed := do
  let jobDiv ← manyJobDiv c.length cores
  let (parent, l) := l.alloc
  if jobDiv = 0 then none -- `length / job_div`
  else
    let (entries, l) := l.pushMany own parent thieves c jobDiv (c.length % jobDiv) jobDiv 0 (c.length / jobDiv)
    some ⟨parent, UInt64.ofNat jobDiv, entries, l⟩

end Lane

def Work.elements (work : Work) : List Nat := List.range' work.dataBegin (work.dataEnd - work.dataBegin)

/-- The tasks divide the data, and nothing exceeds the 8192 places of the buffer and of the ring. -/
def Fits (own : Nat) (thieves : Nat → Nat) (c : Call) (cores : Nat) (l : Lane) : Prop :=
  ∃ pushed, l.runParallelMany own thieves c cores = some pushed ∧
    (pushed.entries.flatMap fun entry => entry.work.elements) = List.range' c.data c.length ∧
    pushed.parent < 8192 ∧ ∀ entry ∈ pushed.entries, entry.index < 8192 ∧ entry.queued ≤ 8192

variable {l : Lane}

theorem root_bounds (q : Nat) :
    (0 < Binary64.sqrt (Binary64.ofNat q) ↔ 0 < q) ∧
      (Binary64.sqrt (Binary64.ofNat q) < 8191 ↔ q < 8191 * 8191) := by
  constructor
  · constructor
    · intro positive
      by_contra zero
      have none : Binary64.sqrt (Binary64.ofNat q) < 1 := by
        rw [show q = 0 by omega, Binary64.ofNat_exact (by omega)]
        exact Binary64.sqrt_lt (by omega) (by omega)
      omega
    · intro positive
      exact Binary64.sqrt_ge (Binary64.ofNat_ge (by omega) positive)
  · constructor
    · intro low
      by_contra high
      have reached : 8191 ≤ Binary64.sqrt (Binary64.ofNat q) :=
        Binary64.sqrt_ge (Binary64.ofNat_ge (by omega) (by omega))
      omega
    · intro low
      rw [Binary64.ofNat_exact (by omega)]
      exact Binary64.sqrt_lt (by omega) low

theorem manyJobDiv_bounds {length cores jobDiv : Nat} (converted : manyJobDiv length cores = some jobDiv) :
    (0 < jobDiv ↔ 0 < length / cores) ∧ (jobDiv < 8191 ↔ length / cores < 8191 * 8191) := by
  simp only [manyJobDiv, Option.ite_none_right_eq_some, Option.some.injEq] at converted
  rw [← converted.2]
  exact root_bounds _

theorem manyJobDiv_defined {length cores : Nat} (low : length / cores < 8191 * 8191) :
    ∃ jobDiv, manyJobDiv length cores = some jobDiv := by
  have root := (root_bounds (length / cores)).2.mpr low
  exact ⟨_, by rw [manyJobDiv, if_pos (by omega)]⟩

theorem Lane.stolen_index (l : Lane) (thefts : Nat) : (l.stolen thefts).taskBufferIndex = l.taskBufferIndex := by
  induction thefts generalizing l with
  | zero => rfl
  | succ thefts ih =>
      rw [stolen, ih]
      cases taken : l.steal with
      | none => rfl
      | some next =>
          obtain ⟨t, next⟩ := next
          exact steal_index taken

theorem Lane.stolen_queued (l : Lane) (thefts : Nat) : (l.stolen thefts).queued.length ≤ l.queued.length := by
  induction thefts generalizing l with
  | zero => exact Nat.le_refl _
  | succ thefts ih =>
      rw [stolen]
      refine (ih _).trans ?_
      cases taken : l.steal with
      | none => exact Nat.le_refl _
      | some next =>
          obtain ⟨t, next⟩ := next
          rw [steal_queued taken]
          exact Nat.le_succ _

section Loop

variable (own parent : Nat) (thieves : Nat → Nat) (c : Call) (jobDiv rem : Nat)

theorem pushMany_index (left i stride : Nat) (l : Lane) :
    (l.pushMany own parent thieves c jobDiv rem left i stride).1.map Entry.index = List.range' (l.taskBufferIndex + 1) left := by
  induction left generalizing i stride l with
  | zero => rfl
  | succ left ih =>
      rw [Lane.pushMany]
      simp only [List.map_cons, List.range'_succ, ih, Lane.alloc]
      rw [Lane.push, Lane.stolen_index]

theorem pushMany_work (left i stride : Nat) (l : Lane) :
    (l.pushMany own parent thieves c jobDiv rem left i stride).1.map Entry.work =
      (chunksFrom jobDiv rem left i stride).map fun span =>
        ⟨c.callback, c.data + span.offset, c.data + span.offset + span.length⟩ := by
  induction left generalizing i stride l with
  | zero => rfl
  | succ left ih =>
      rw [Lane.pushMany, chunksFrom]
      simp only [List.map_cons, ih]

theorem pushMany_queued (left i stride : Nat) (l : Lane) (room : l.queued.length + left ≤ 8192) :
    ∀ entry ∈ (l.pushMany own parent thieves c jobDiv rem left i stride).1, entry.queued ≤ 8192 := by
  induction left generalizing i stride l with
  | zero => simp [Lane.pushMany]
  | succ left ih =>
      have fewer := Lane.stolen_queued l.alloc.2 (thieves i)
      have same : l.alloc.2.queued = l.queued := rfl
      have longer : ((l.alloc.2.stolen (thieves i)).push ⟨own, l.alloc.1⟩).queued.length ≤ l.queued.length + 1 := by
        rw [Lane.push_queued (by rw [same] at fewer; omega), List.length_append, List.length_singleton]
        rw [same] at fewer
        omega
      rw [Lane.pushMany]
      simp only [List.mem_cons, forall_eq_or_imp]
      refine ⟨by omega, ih (i + 1) _ _ (by omega)⟩

end Loop

section Whole

variable (own parent : Nat) (thieves : Nat → Nat) (c : Call) {cores jobDiv : Nat}

def manyEntries (jobDiv : Nat) (l : Lane) : List Entry :=
  (l.pushMany own parent thieves c jobDiv (c.length % jobDiv) jobDiv 0 (c.length / jobDiv)).1

theorem run_eq (l : Lane) (converted : manyJobDiv c.length cores = some jobDiv) (positive : 0 < jobDiv) :
    ∃ pushed, l.runParallelMany own thieves c cores = some pushed ∧ pushed.parent = l.taskBufferIndex + 1 ∧
      pushed.entries = manyEntries own (l.taskBufferIndex + 1) thieves c jobDiv l.alloc.2 := by
  simp only [Lane.runParallelMany, converted, Option.bind_eq_bind, Option.bind_some]
  rw [if_neg (by omega)]
  exact ⟨_, rfl, rfl, rfl⟩

theorem works_elements (spans : List Span) :
    ((spans.map fun span : Span => (⟨c.callback, c.data + span.offset, c.data + span.offset + span.length⟩ : Work)).flatMap
      Work.elements) = (spans.flatMap Span.elements).map (c.data + ·) := by
  rw [List.flatMap_map, List.map_flatMap]
  refine List.flatMap_congr ?_
  intro span _
  rw [Work.elements, Span.elements, List.map_add_range', Nat.add_sub_cancel_left]

theorem entries_elements (positive : 0 < jobDiv) (l : Lane) :
    ((manyEntries own parent thieves c jobDiv l).flatMap fun entry => entry.work.elements) =
      List.range' c.data c.length := by
  have works := pushMany_work own parent thieves c jobDiv (c.length % jobDiv) jobDiv 0 (c.length / jobDiv) l
  rw [manyEntries, ← List.flatMap_map, works, works_elements]
  change ((chunks jobDiv c.length).flatMap Span.elements).map (c.data + ·) = _
  rw [chunks_elements positive, List.range_eq_range', List.map_add_range', Nat.add_zero]

theorem entries_index (l : Lane) :
    (manyEntries own parent thieves c jobDiv l).map Entry.index = List.range' (l.taskBufferIndex + 1) jobDiv :=
  pushMany_index ..

variable {own parent thieves c}

theorem last_index (positive : 0 < jobDiv) {l : Lane}
    (inside : ∀ entry ∈ manyEntries own parent thieves c jobDiv l, entry.index < 8192) :
    l.taskBufferIndex + jobDiv < 8192 := by
  have top : l.taskBufferIndex + jobDiv ∈ List.range' (l.taskBufferIndex + 1) jobDiv := by
    rw [List.mem_range'_1]
    omega
  rw [← entries_index own parent thieves c] at top
  obtain ⟨entry, member, same⟩ := List.mem_map.mp top
  have bound := inside entry member
  omega

/-- `run_parallel_many` meets its bounds exactly for lengths between the number of cores and 8191 ^ 2 times it. -/
theorem run_parallel_many_fits (positive : 0 < cores) (empty : l.back = l.front) (rewound : l.taskBufferIndex = 0) :
    Fits own thieves c cores l ↔ cores ≤ c.length ∧ c.length / cores < 8191 * 8191 := by
  have first : l.alloc.2.taskBufferIndex = 1 := by rw [Lane.alloc, rewound]
  constructor
  · rintro ⟨pushed, run, -, -, inside⟩
    cases converted : manyJobDiv c.length cores with
    | none => simp [Lane.runParallelMany, converted] at run
    | some jobDiv =>
        obtain ⟨one, few⟩ := manyJobDiv_bounds converted
        by_cases zero : jobDiv = 0
        · simp [Lane.runParallelMany, converted, zero] at run
        · obtain ⟨pushed', run', -, entries⟩ := run_eq own thieves c l converted (by omega)
          obtain rfl := Option.some.inj (run.symm.trans run')
          rw [entries] at inside
          have top := last_index (by omega) fun entry member => (inside entry member).1
          exact ⟨(Nat.div_pos_iff.mp (one.mp (by omega))).2, few.mp (by omega)⟩
  · rintro ⟨enough, low⟩
    obtain ⟨jobDiv, converted⟩ := manyJobDiv_defined low
    obtain ⟨one, few⟩ := manyJobDiv_bounds converted
    have some := one.mpr (Nat.div_pos enough positive)
    have few := few.mpr low
    obtain ⟨pushed, run, parent, entries⟩ := run_eq own thieves c l converted some
    refine ⟨pushed, run, ?_, by omega, ?_⟩
    · rw [entries]
      exact entries_elements own _ thieves c some _
    · rw [entries]
      intro entry member
      constructor
      · have listed := List.mem_map_of_mem (f := Entry.index) member
        rw [entries_index, List.mem_range'_1] at listed
        omega
      · refine pushMany_queued own _ thieves c jobDiv _ jobDiv 0 _ l.alloc.2 ?_ entry member
        have none : l.alloc.2.queued = [] := Lane.queued_empty empty
        rw [none, List.length_nil]
        omega

-- Two cores and 20 elements: three tasks, one of which is stolen before the third is pushed.
theorem run_parallel_many_fits_twoCores :
    Fits 0 (fun i => if i = 2 then 1 else 0) ⟨0, 100, 20⟩ 2 ⟨0, 0, fun _ => ⟨0, 0⟩, 0⟩ ↔
      2 ≤ 20 ∧ 20 / 2 < 8191 * 8191 :=
  run_parallel_many_fits (by decide) rfl rfl

/-- Fewer elements than cores: the division by `job_div` is one by zero. -/
theorem few_elements_unfit : ¬ Fits 0 (fun _ => 0) ⟨0, 100, 1⟩ 2 ⟨0, 0, fun _ => ⟨0, 0⟩, 0⟩ := by
  rintro ⟨pushed, run, -⟩
  have zero : manyJobDiv 1 2 = some 0 := by decide +kernel
  simp [Lane.runParallelMany, zero] at run

end Whole

end PrototypeBundle.ProtoE
