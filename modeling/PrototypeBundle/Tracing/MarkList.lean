import PrototypeBundle.Tracing.Agreement

set_option autoImplicit false

namespace PrototypeBundle.Tracing

open Memory Intrusive

/-- The tracker after the collection, the objects destroyed and those pushed. -/
def Pushing.collect (t : Tracker) (fuel : Nat) : Option (Tracker × List Nat × List Nat) := do
  let (t, pushed) ← t.tracePushing fuel
  let (t, destroyed) ← t.collectObjects fuel
  return (t, destroyed, pushed)

/-- With enough fuel the collection returns, so that it has thrown nothing. -/
theorem collect_survivors {t : Tracker} {L : List Nat} {R : Nat → List Nat} (heap : Heap t L R)
    (rootMark : (t.objs objectStackRoot).nextMarked = none) :
    ∃ bound, ∀ fuel ≥ bound, ∃ t' destroyed pushed survivors R',
      t.collect fuel = some (t', destroyed) ∧ Pushing.collect t fuel = some (t', destroyed, pushed) ∧ pushed.Nodup ∧
      (∀ o, o ∈ destroyed ↔ o ∈ L ∧ ¬ Relation.ReflTransGen (Refers t R) objectStackRoot o) ∧
      (destroyed ++ survivors).Perm L ∧ survivors.Nodup ∧ Collected t t' R survivors R' ∧
      ∀ o ∈ survivors, (t'.objs o).nextMarked = none := by
  obtain ⟨bound, ample⟩ := enough_fuel L R
  refine ⟨bound, fun fuel large => ?_⟩
  obtain ⟨enough, waves⟩ := ample fuel large
  obtain ⟨t₁, pushed, done, traced, once, surveyed⟩ := tracePushing_spec heap rootMark fuel enough waves
  have separated := surveyed.separated
  obtain ⟨t', swept, collected, marks⟩ := separated.collect heap enough (by omega)
  have run : Pushing.collect t fuel = some (t', _, pushed) :=
    Option.bind_eq_some_iff.mpr ⟨_, traced, Option.bind_eq_some_iff.mpr ⟨_, swept, rfl⟩⟩
  have traced' : t.trace fuel = some t₁ := by rw [Tracker.trace, traced, Option.map_some]
  refine ⟨t', _, pushed, _, _, Option.bind_eq_some_iff.mpr ⟨t₁, traced', swept⟩, run, once, separated.destroyed_iff,
    parted_perm L done, collected.heap.list.nodup, collected, fun o member => ?_⟩
  have isDone := of_decide_eq_true (List.mem_filter.mp (List.mem_reverse.mp member)).2
  exact (marks o isDone).trans (surveyed.unlinked o isDone)

theorem collect_survivors_pair :
    ∃ bound, ∀ fuel ≥ bound, ∃ t' destroyed pushed, pairHeap.collect fuel = some (t', destroyed) ∧
      Pushing.collect pairHeap fuel = some (t', destroyed, pushed) ∧ pushed.Nodup ∧ 1 ∉ destroyed := by
  obtain ⟨bound, exact'⟩ := collect_survivors pairHeap_heap rfl
  refine ⟨bound, fun fuel large => ?_⟩
  obtain ⟨t', destroyed, pushed, survivors, R', run, run', once, gone, -⟩ := exact' fuel large
  refine ⟨t', destroyed, pushed, run, run', once, fun member => ((gone 1).mp member).2 ?_⟩
  exact .single ⟨3, List.mem_singleton.mpr rfl, rfl, rfl⟩

end PrototypeBundle.Tracing
