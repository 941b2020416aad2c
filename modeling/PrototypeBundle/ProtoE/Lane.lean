import Mathlib.Data.List.Range
import Mathlib.Logic.Function.Basic

set_option autoImplicit false

/-!
# A lane

The queue of a lane is a ring of 8192 pointers. Its counters have 64 bits and
wrap, which the mask does not notice.
-/

namespace PrototypeBundle.ProtoE

-- A `task *`: the lane whose buffer it points into, and the place there.
structure Ref where
  lane : Nat
  index : Nat
deriving DecidableEq, Repr

structure Lane where
  front : UInt64
  back : UInt64
  tasks : Nat → Ref
  taskBufferIndex : Nat

def mask : UInt64 := 8192 - 1

def slot (counter : UInt64) : Nat := (counter &&& mask).toNat

def Lane.push (l : Lane) (t : Ref) : Lane :=
  { l with tasks := Function.update l.tasks (slot l.back) t, back := l.back + 1 }

def Lane.pop (l : Lane) : Option (Ref × Lane) :=
  if l.back = l.front then none else some (l.tasks (slot (l.back - 1)), { l with back := l.back - 1 })

def Lane.steal (l : Lane) : Option (Ref × Lane) :=
  if l.back = l.front then none else some (l.tasks (slot l.front), { l with front := l.front + 1 })

def Lane.queued (l : Lane) : List Ref :=
  (List.range (l.back - l.front).toNat).map fun k => l.tasks (slot (l.front + UInt64.ofNat k))

theorem slot_eq (counter : UInt64) : slot counter = counter.toNat % 8192 := by
  have masked : slot counter = counter.toNat &&& (2 ^ 13 - 1) := UInt64.toNat_and ..
  rw [masked, Nat.and_two_pow_sub_one_eq_mod]

theorem slot_add (counter : UInt64) (k : Nat) : slot (counter + UInt64.ofNat k) = (counter.toNat + k) % 8192 := by
  rw [slot_eq, UInt64.toNat_add, UInt64.toNat_ofNat']
  omega

theorem ahead (front back : UInt64) : front + UInt64.ofNat (back - front).toNat = back := by
  rw [UInt64.ofNat_toNat, UInt64.add_comm, UInt64.sub_add_cancel]

variable {l next : Lane} {t : Ref}

theorem Lane.queued_length (l : Lane) : l.queued.length = (l.back - l.front).toNat := by
  rw [queued, List.length_map, List.length_range]

theorem Lane.queued_empty (empty : l.back = l.front) : l.queued = [] := by
  rw [← List.length_eq_zero_iff, queued_length, empty, UInt64.sub_self, UInt64.toNat_zero]

theorem Lane.push_queued (room : l.queued.length < 8192) : (l.push t).queued = l.queued ++ [t] := by
  rw [queued_length] at room
  have longer : (l.back + 1 - l.front).toNat = (l.back - l.front).toNat + 1 := by
    rw [UInt64.toNat_sub, UInt64.toNat_add]
    rw [UInt64.toNat_sub] at room ⊢
    have one : (1 : UInt64).toNat = 1 := rfl
    have := l.back.toNat_lt
    have := l.front.toNat_lt
    omega
  have last : slot l.back = (l.front.toNat + (l.back - l.front).toNat) % 8192 := by
    rw [← slot_add, ahead]
  change (List.range (l.back + 1 - l.front).toNat).map
    (fun k => Function.update l.tasks (slot l.back) t (slot (l.front + UInt64.ofNat k))) = _
  rw [longer, List.range_succ, List.map_append, List.map_singleton, queued]
  congr 1
  · refine List.map_congr_left fun k member => Function.update_of_ne ?_ ..
    -- fewer than 8192 pointers are queued, so that the new one overwrites none
    rw [slot_add, last]
    have := List.mem_range.mp member
    omega
  · rw [ahead, Function.update_self]

theorem Lane.pop_queued (popped : l.pop = some (t, next)) : l.queued = next.queued ++ [t] := by
  simp only [pop, Option.ite_none_left_eq_some, Option.some.injEq, Prod.mk.injEq] at popped
  obtain ⟨nonempty, rfl, rfl⟩ := popped
  have positive : (l.back - l.front).toNat = (l.back - 1 - l.front).toNat + 1 := by
    have different : l.back.toNat ≠ l.front.toNat := fun same => nonempty (UInt64.toNat.inj same)
    rw [UInt64.toNat_sub, UInt64.toNat_sub, UInt64.toNat_sub]
    have one : (1 : UInt64).toNat = 1 := rfl
    have := l.back.toNat_lt
    have := l.front.toNat_lt
    omega
  rw [queued, positive, List.range_succ, List.map_append, List.map_singleton, queued, ahead]

theorem Lane.steal_queued (stolen : l.steal = some (t, next)) : l.queued = t :: next.queued := by
  simp only [steal, Option.ite_none_left_eq_some, Option.some.injEq, Prod.mk.injEq] at stolen
  obtain ⟨nonempty, rfl, rfl⟩ := stolen
  have positive : (l.back - l.front).toNat = (l.back - (l.front + 1)).toNat + 1 := by
    have different : l.back.toNat ≠ l.front.toNat := fun same => nonempty (UInt64.toNat.inj same)
    rw [UInt64.toNat_sub, UInt64.toNat_sub, UInt64.toNat_add]
    have one : (1 : UInt64).toNat = 1 := rfl
    have := l.back.toNat_lt
    have := l.front.toNat_lt
    omega
  rw [queued, positive, List.range_succ_eq_map, List.map_cons, List.map_map, queued]
  congr 1
  · rw [slot_add, slot_eq, Nat.add_zero]
  · refine List.map_congr_left fun k _ => congrArg l.tasks ?_
    change slot (l.front + UInt64.ofNat (k + 1)) = slot (l.front + 1 + UInt64.ofNat k)
    rw [slot_add, slot_add, UInt64.toNat_add]
    have one : (1 : UInt64).toNat = 1 := rfl
    omega

theorem Lane.pop_index (popped : l.pop = some (t, next)) : next.taskBufferIndex = l.taskBufferIndex := by
  simp only [pop, Option.ite_none_left_eq_some, Option.some.injEq, Prod.mk.injEq] at popped
  obtain ⟨_, _, rfl⟩ := popped
  rfl

theorem Lane.steal_index (stolen : l.steal = some (t, next)) : next.taskBufferIndex = l.taskBufferIndex := by
  simp only [steal, Option.ite_none_left_eq_some, Option.some.injEq, Prod.mk.injEq] at stolen
  obtain ⟨_, _, rfl⟩ := stolen
  rfl

-- The ring of an empty queue may start anywhere.
example : ((((⟨8191, 8191, fun _ => ⟨0, 0⟩, 0⟩ : Lane).push ⟨0, 1⟩).push ⟨0, 2⟩).steal.map fun stolen =>
    (stolen.1, stolen.2.queued)) = some (⟨0, 1⟩, [⟨0, 2⟩]) := by decide

end PrototypeBundle.ProtoE
