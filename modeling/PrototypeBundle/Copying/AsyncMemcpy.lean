import PrototypeBundle.ProtoG.Chunks
import PrototypeBundle.Shared.Run
import Mathlib.Logic.Function.Basic
import Mathlib.Data.List.Perm.Basic
import Mathlib.Data.List.Count

set_option autoImplicit false

/-!
# `with_async_memcpy`

The tasks of one iteration run at the same time. A step copies one byte of one of them.
-/

namespace PrototypeBundle.Copying

open ProtoG (Span)

-- `MAX_ITERATION_RANGE`, the size of the buffers.
def maxIterationRange : Nat := 2 ^ 30

-- The calls of `memcpy` in the loop from `i` on, with `left` rounds to go.
def tasksFrom (cpuCount rem : Nat) : (left i stride : Nat) → List Span
  | 0, _, _ => []
  | left + 1, i, stride =>
      let offset := i * stride
      -- the last task has the remainder only
      let stride := if i = cpuCount - 1 then rem else stride
      ⟨offset, stride⟩ :: tasksFrom cpuCount rem left (i + 1) stride

def tasks (len cpuCount : Nat) : List Span := tasksFrom cpuCount (len % cpuCount) cpuCount 0 (len / cpuCount)

structure ByteCopy where
  task : Nat
  position : Nat
  deriving DecidableEq, Repr

structure Iteration where
  bufferA : Nat → UInt8
  bufferB : Nat → UInt8
  pending : List ByteCopy

def byteCopies (spans : List Span) (first : Nat) : List ByteCopy :=
  match spans with
  | [] => []
  | span :: rest => span.elements.map (ByteCopy.mk first) ++ byteCopies rest (first + 1)

def start (bufferA bufferB : Nat → UInt8) (len cpuCount : Nat) : Iteration :=
  ⟨bufferA, bufferB, byteCopies (tasks len cpuCount) 0⟩

def Iteration.step (s : Iteration) (c : ByteCopy) : Option Iteration :=
  if c ∈ s.pending then
    some { s with
      bufferB := Function.update s.bufferB c.position (s.bufferA c.position)
      pending := s.pending.erase c }
  else none

structure Copied (len : Nat) (s final : Iteration) (copies : List ByteCopy) : Prop where
  equal : ∀ p < len, final.bufferB p = s.bufferA p
  once : ∀ p < len, (copies.map ByteCopy.position).count p = 1
  within : ∀ c ∈ copies, c.position < len

/-- Every `memcpy` is inside of the buffers, and whenever all tasks have completed, they have copied `len` bytes. -/
def Copies (len cpuCount : Nat) : Prop :=
  (∀ task ∈ tasks len cpuCount, task.offset + task.length ≤ maxIterationRange) ∧
    ∀ bufferA bufferB copies final,
      Runs.exec Iteration.step (start bufferA bufferB len cpuCount) copies = some final → final.pending = [] →
        Copied len (start bufferA bufferB len cpuCount) final copies

section Run

variable {s final : Iteration} {copies : List ByteCopy}

theorem step_cases {next : Iteration} {c : ByteCopy} (taken : s.step c = some next) :
    c ∈ s.pending ∧ next = ⟨s.bufferA, Function.update s.bufferB c.position (s.bufferA c.position), s.pending.erase c⟩ := by
  rw [Iteration.step, Option.ite_none_right_eq_some] at taken
  exact ⟨taken.1, (Option.some.inj taken.2).symm⟩

theorem run_perm (run : Runs.exec Iteration.step s copies = some final) (completed : final.pending = []) :
    copies.Perm s.pending := by
  induction copies generalizing s with
  | nil =>
      obtain rfl := Option.some.inj run
      rw [completed]
  | cons c copies ih =>
      obtain ⟨next, taken, run⟩ := Runs.exec_cons.mp run
      obtain ⟨member, rfl⟩ := step_cases taken
      exact ((ih run).cons c).trans (List.perm_cons_erase member).symm

theorem run_bytes (run : Runs.exec Iteration.step s copies = some final) (p : Nat) :
    final.bufferA = s.bufferA ∧
      final.bufferB p = if p ∈ copies.map ByteCopy.position then s.bufferA p else s.bufferB p := by
  induction copies generalizing s with
  | nil =>
      obtain rfl := Option.some.inj run
      simp
  | cons c copies ih =>
      obtain ⟨next, taken, run⟩ := Runs.exec_cons.mp run
      obtain ⟨-, rfl⟩ := step_cases taken
      obtain ⟨source, later⟩ := ih run
      refine ⟨source, ?_⟩
      rw [later, List.map_cons]
      by_cases here : p = c.position
      · subst here
        simp
      · simp [here]

theorem run_exists (s : Iteration) (order : copies.Perm s.pending) :
    ∃ final, Runs.exec Iteration.step s copies = some final ∧ final.pending = [] := by
  induction copies generalizing s with
  | nil => exact ⟨s, rfl, order.symm.eq_nil⟩
  | cons c copies ih =>
      have member : c ∈ s.pending := order.subset (List.mem_cons_self ..)
      have rest := (order.trans (List.perm_cons_erase member)).cons_inv
      obtain ⟨final, run, completed⟩ :=
        ih ⟨s.bufferA, Function.update s.bufferB c.position (s.bufferA c.position), s.pending.erase c⟩ rest
      exact ⟨final, Runs.exec_cons.mpr ⟨_, if_pos member, run⟩, completed⟩

end Run

theorem byteCopies_positions (spans : List Span) (first : Nat) :
    (byteCopies spans first).map ByteCopy.position = spans.flatMap Span.elements := by
  induction spans generalizing first with
  | nil => rfl
  | cons span rest ih =>
      rw [byteCopies, List.map_append, List.map_map, ih, List.flatMap_cons]
      exact congrArg (· ++ _) (List.map_id _)

theorem tasksFrom_elements (cpuCount rem : Nat) {left i stride : Nat} (remaining : i + (left + 1) = cpuCount) :
    (tasksFrom cpuCount rem (left + 1) i stride).flatMap Span.elements =
      List.range' (i * stride) (left * stride + rem) := by
  induction left generalizing i with
  | zero =>
      have last : i = cpuCount - 1 := by omega
      simp [tasksFrom, ← last, Span.elements]
  | succ left ih =>
      have notLast : i ≠ cpuCount - 1 := by omega
      rw [tasksFrom]
      simp only [if_neg notLast, List.flatMap_cons, Span.elements]
      rw [ih (by omega)]
      have next : (i + 1) * stride = i * stride + stride := by ring
      have total : stride + (left * stride + rem) = (left + 1) * stride + rem := by ring
      rw [← total, next, List.range'_append_1]

theorem tasksFrom_end (cpuCount rem : Nat) {left i stride : Nat} (remaining : i + left = cpuCount) :
    ∀ task ∈ tasksFrom cpuCount rem left i stride, task.offset + task.length ≤ (cpuCount - 1) * stride + rem := by
  induction left generalizing i with
  | zero => simp [tasksFrom]
  | succ left ih =>
      rw [tasksFrom]
      by_cases last : i = cpuCount - 1
      · obtain rfl : left = 0 := by omega
        simp [← last, tasksFrom]
      · have below : (i + 1) * stride ≤ (cpuCount - 1) * stride := Nat.mul_le_mul_right _ (by omega)
        have next : (i + 1) * stride = i * stride + stride := by ring
        simp only [if_neg last, List.mem_cons, forall_eq_or_imp]
        exact ⟨by omega, ih (by omega)⟩

section Iteration

variable (len : Nat) {cpuCount : Nat} (positive : 0 < cpuCount)

include positive

theorem tasks_elements :
    (tasks len cpuCount).flatMap Span.elements = List.range ((cpuCount - 1) * (len / cpuCount) + len % cpuCount) := by
  obtain ⟨left, rfl⟩ := Nat.exists_eq_add_of_lt positive
  simp only [Nat.zero_add] at positive ⊢
  rw [tasks, tasksFrom_elements _ _ (by omega), Nat.zero_mul, Nat.add_sub_cancel, List.range_eq_range']

theorem copied_length : (cpuCount - 1) * (len / cpuCount) + len % cpuCount + len / cpuCount = len := by
  have whole := Nat.div_add_mod len cpuCount
  have split : cpuCount * (len / cpuCount) = (cpuCount - 1) * (len / cpuCount) + len / cpuCount := by
    rw [← Nat.succ_mul, Nat.succ_eq_add_one, Nat.sub_add_cancel positive]
  omega

theorem start_positions (bufferA bufferB : Nat → UInt8) :
    (start bufferA bufferB len cpuCount).pending.map ByteCopy.position =
      List.range ((cpuCount - 1) * (len / cpuCount) + len % cpuCount) := by
  rw [start, byteCopies_positions, tasks_elements len positive]

theorem Copies.short (copies : Copies len cpuCount) : len < cpuCount := by
  have total := copied_length len positive
  obtain ⟨final, run, completed⟩ := run_exists (start (fun _ => 0) (fun _ => 0) len cpuCount) (List.Perm.refl _)
  have once := (copies.2 _ _ _ final run completed).once
  rw [start_positions len positive] at once
  by_contra long
  have stride : 0 < len / cpuCount := Nat.div_pos (by omega) positive
  -- the first byte behind the last task
  have missing := once ((cpuCount - 1) * (len / cpuCount) + len % cpuCount) (by omega)
  rw [List.count_eq_zero_of_not_mem (by simp)] at missing
  omega

theorem Copies.small (copies : Copies len cpuCount) : len ≤ maxIterationRange := by
  have short := copies.short len positive
  by_contra large
  have last : len - 1 ∈ (tasks len cpuCount).flatMap Span.elements := by
    rw [tasks_elements len positive, List.mem_range, Nat.div_eq_of_lt short, Nat.mod_eq_of_lt short]
    omega
  obtain ⟨task, member, element⟩ := List.mem_flatMap.mp last
  rw [Span.elements, List.mem_range'_1] at element
  have bound := copies.1 task member
  omega

omit positive in
theorem tasks_inside (short : len < cpuCount) : ∀ task ∈ tasks len cpuCount, task.offset + task.length ≤ len := by
  intro task member
  have bound := tasksFrom_end cpuCount _ (Nat.zero_add _) task member
  rwa [Nat.div_eq_of_lt short, Nat.mod_eq_of_lt short, Nat.mul_zero, Nat.zero_add] at bound

theorem run_copied (short : len < cpuCount) {bufferA bufferB : Nat → UInt8} {copies : List ByteCopy} {final : Iteration}
    (run : Runs.exec Iteration.step (start bufferA bufferB len cpuCount) copies = some final)
    (completed : final.pending = []) : Copied len (start bufferA bufferB len cpuCount) final copies := by
  have order := (run_perm run completed).map ByteCopy.position
  rw [start_positions len positive, Nat.div_eq_of_lt short, Nat.mod_eq_of_lt short, Nat.mul_zero, Nat.zero_add] at order
  constructor
  case equal =>
    intro p inside
    rw [(run_bytes run p).2, if_pos (order.mem_iff.mpr (List.mem_range.mpr inside))]
  case once =>
    intro p inside
    rw [order.count_eq, List.count_eq_one_of_mem List.nodup_range (List.mem_range.mpr inside)]
  case within =>
    intro c member
    exact List.mem_range.mp (order.mem_iff.mp (List.mem_map_of_mem member))

/-- One iteration copies what it should exactly when there are fewer bytes than tasks, all of them in the last one. -/
theorem with_async_memcpy_copies : Copies len cpuCount ↔ len < cpuCount ∧ len ≤ maxIterationRange := by
  constructor
  · intro copies
    exact ⟨copies.short len positive, copies.small len positive⟩
  · rintro ⟨short, small⟩
    refine ⟨fun task member => ?_, fun bufferA bufferB copies final run completed => ?_⟩
    · exact (tasks_inside len short task member).trans small
    · exact run_copied len positive short run completed

end Iteration

theorem with_async_memcpy_copies_three : Copies 3 4 ↔ 3 < 4 ∧ 3 ≤ maxIterationRange :=
  with_async_memcpy_copies 3 (by decide)

/-- Two tasks for four bytes, of which the second one copies none. -/
theorem four_bytes_missed : ¬ Copies 4 2 := by
  rintro ⟨-, copied⟩
  have half := copied (fun _ => 0) (fun _ => 0) [⟨0, 0⟩, ⟨0, 1⟩] _ rfl (by decide)
  exact absurd (half.once 2 (by decide)) (by decide)

end PrototypeBundle.Copying
