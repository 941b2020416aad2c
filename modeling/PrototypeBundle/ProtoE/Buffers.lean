import Mathlib.Data.Multiset.AddSub
import Mathlib.Data.Multiset.UnionInter
import PrototypeBundle.ProtoE.Machine

set_option autoImplicit false

namespace PrototypeBundle.ProtoE

structure Apart (n : Nat) (index : Nat → Nat) (refs : Multiset Ref) (allocs : Multiset (Nat × Alloc)) : Prop where
  separate : refs.Nodup
  single : (allocs.map Prod.fst).Nodup
  below : ∀ x ∈ refs, x.lane < n ∧ 0 < x.index ∧ x.index ≤ index x.lane
  room : ∀ lane, index lane < 8192
  inside : ∀ a ∈ allocs, a.1 < n
  stored : ∀ lane value, (lane, Alloc.store value) ∈ allocs → value = index lane ∧ value + 1 < 8192
  bumped : ∀ lane, (lane, Alloc.read) ∈ allocs → 0 < index lane ∧ ∀ x ∈ refs, x.lane = lane → x.index < index lane

section Apart

variable {n lane : Nat} {index : Nat → Nat} {refs kept : Multiset Ref} {allocs : Multiset (Nat × Alloc)}

theorem Apart.mono (apart : Apart n index refs allocs) (fewer : kept ≤ refs) : Apart n index kept allocs where
  separate := Multiset.nodup_of_le fewer apart.separate
  single := apart.single
  below := fun x member => apart.below x (Multiset.mem_of_le fewer member)
  room := apart.room
  inside := apart.inside
  stored := apart.stored
  bumped := fun lane reading =>
    ⟨(apart.bumped lane reading).1, fun x member => (apart.bumped lane reading).2 x (Multiset.mem_of_le fewer member)⟩

theorem Apart.load (apart : Apart n index refs allocs) (inside : lane < n) (idle : lane ∉ allocs.map Prod.fst)
    (room : index lane + 1 < 8192) : Apart n index refs ((lane, .store (index lane)) ::ₘ allocs) where
  separate := apart.separate
  single := by
    rw [Multiset.map_cons]
    exact Multiset.nodup_cons.mpr ⟨idle, apart.single⟩
  below := apart.below
  room := apart.room
  inside := fun a member => by
    rcases Multiset.mem_cons.mp member with rfl | member
    · exact inside
    · exact apart.inside a member
  stored := fun other value member => by
    rcases Multiset.mem_cons.mp member with same | member
    · cases same
      exact ⟨rfl, room⟩
    · exact apart.stored other value member
  bumped := fun other member => by
    rcases Multiset.mem_cons.mp member with same | member
    · cases same
    · exact apart.bumped other member

theorem Apart.elsewhere {a : Alloc} (apart : Apart n index refs ((lane, a) ::ₘ allocs)) {other : Nat × Alloc}
    (member : other ∈ allocs) : other.1 ≠ lane := by
  have single := apart.single
  rw [Multiset.map_cons, Multiset.nodup_cons] at single
  intro same
  have listed := Multiset.mem_map_of_mem Prod.fst member
  rw [same] at listed
  exact single.1 listed

theorem Apart.store {value : Nat} (apart : Apart n index refs ((lane, .store value) ::ₘ allocs)) :
    Apart n (Function.update index lane (value + 1)) refs ((lane, .read) ::ₘ allocs) := by
  obtain ⟨current, room⟩ := apart.stored lane value (Multiset.mem_cons_self _ _)
  have onLane : Function.update index lane (value + 1) lane = value + 1 := Function.update_self ..
  have offLane {other : Nat} (different : other ≠ lane) :
      Function.update index lane (value + 1) other = index other := Function.update_of_ne different ..
  constructor
  case separate => exact apart.separate
  case single =>
    have single := apart.single
    rwa [Multiset.map_cons] at single ⊢
  case below =>
    intro x member
    obtain ⟨lanes, positive, below⟩ := apart.below x member
    refine ⟨lanes, positive, ?_⟩
    by_cases same : x.lane = lane
    · rw [same, onLane]
      rw [same] at below
      omega
    · rwa [offLane same]
  case room =>
    intro other
    by_cases same : other = lane
    · rwa [same, onLane]
    · rw [offLane same]
      exact apart.room other
  case inside =>
    intro a member
    rcases Multiset.mem_cons.mp member with rfl | member
    · exact apart.inside (lane, .store value) (Multiset.mem_cons_self _ _)
    · exact apart.inside a (Multiset.mem_cons_of_mem member)
  case stored =>
    intro other loaded member
    rcases Multiset.mem_cons.mp member with same | member
    · cases same
    · rw [offLane (apart.elsewhere member)]
      exact apart.stored other loaded (Multiset.mem_cons_of_mem member)
  case bumped =>
    intro other member
    rcases Multiset.mem_cons.mp member with same | member
    · cases same
      rw [onLane]
      refine ⟨Nat.succ_pos _, fun x used same => ?_⟩
      obtain ⟨-, -, below⟩ := apart.below x used
      rw [same] at below
      omega
    · rw [offLane (apart.elsewhere member)]
      exact apart.bumped other (Multiset.mem_cons_of_mem member)

theorem Apart.read (apart : Apart n index refs ((lane, .read) ::ₘ allocs)) :
    Apart n index (⟨lane, index lane⟩ ::ₘ refs) allocs := by
  obtain ⟨positive, behind⟩ := apart.bumped lane (Multiset.mem_cons_self _ _)
  constructor
  case separate =>
    refine Multiset.nodup_cons.mpr ⟨fun used => ?_, apart.separate⟩
    exact Nat.lt_irrefl _ (behind _ used rfl)
  case single =>
    have single := apart.single
    rw [Multiset.map_cons, Multiset.nodup_cons] at single
    exact single.2
  case below =>
    intro x member
    rcases Multiset.mem_cons.mp member with rfl | member
    · exact ⟨apart.inside _ (Multiset.mem_cons_self _ _), positive, Nat.le_refl _⟩
    · exact apart.below x member
  case room => exact apart.room
  case inside => exact fun a member => apart.inside a (Multiset.mem_cons_of_mem member)
  case stored => exact fun other value member => apart.stored other value (Multiset.mem_cons_of_mem member)
  case bumped =>
    intro other member
    obtain ⟨positive, behind⟩ := apart.bumped other (Multiset.mem_cons_of_mem member)
    refine ⟨positive, fun x used same => ?_⟩
    rcases Multiset.mem_cons.mp used with rfl | used
    · exact absurd same.symm (apart.elsewhere member)
    · exact behind x used same

theorem Apart.rewind (apart : Apart n index refs allocs) (idle : lane ∉ allocs.map Prod.fst)
    (unused : ∀ x ∈ refs, x.lane ≠ lane) : Apart n (Function.update index lane 0) refs allocs := by
  have offLane {other : Nat} (different : other ≠ lane) : Function.update index lane 0 other = index other :=
    Function.update_of_ne different ..
  have elsewhere {a : Nat × Alloc} (member : a ∈ allocs) : a.1 ≠ lane := fun same =>
    idle (same ▸ Multiset.mem_map_of_mem Prod.fst member)
  constructor
  case separate => exact apart.separate
  case single => exact apart.single
  case below =>
    intro x member
    rw [offLane (unused x member)]
    exact apart.below x member
  case room =>
    intro other
    by_cases same : other = lane
    · rw [same, Function.update_self]
      decide
    · rw [offLane same]
      exact apart.room other
  case inside => exact apart.inside
  case stored =>
    intro other value member
    rw [offLane (elsewhere member)]
    exact apart.stored other value member
  case bumped =>
    intro other member
    rw [offLane (elsewhere member)]
    exact apart.bumped other member

theorem Apart.queue_length (apart : Apart n index refs allocs) {queue : List Ref} (used : (queue : Multiset Ref) ≤ refs)
    (own : ∀ t ∈ queue, t.lane = lane) : queue.length < 8192 := by
  have distinct : (queue.map Ref.index).Nodup := by
    refine (List.nodup_map_iff_inj_on (Multiset.coe_nodup.mp (Multiset.nodup_of_le used apart.separate))).mpr ?_
    intro t member t' member' same
    have lanes : t.lane = t'.lane := (own t member).trans (own t' member').symm
    cases t
    cases t'
    simp_all
  have bounded : ∀ k ∈ queue.map Ref.index, k ∈ (List.range' 1 8191) := by
    intro k member
    obtain ⟨t, among, rfl⟩ := List.mem_map.mp member
    obtain ⟨-, positive, below⟩ := apart.below t (Multiset.mem_of_le used among)
    have room := apart.room t.lane
    rw [List.mem_range'_1]
    omega
  have fits := (List.subperm_of_subset distinct bounded).length_le
  rw [List.length_map, List.length_range'] at fits
  omega

end Apart

end PrototypeBundle.ProtoE
