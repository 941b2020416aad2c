import PrototypeBundle.Shared.XorShift

set_option autoImplicit false

namespace PrototypeBundle.Random

open XorShift

-- What a call leaves in `xorshift32_state`.
def xorshift32 (state : BitVec 32) : BitVec 32 :=
  let state := state ^^^ state <<< 13
  let state := state ^^^ state <<< 17
  let state := state ^^^ state <<< 5
  state

/-- Every other state is met before the first return. -/
def VisitsAll (start : BitVec 32) : Prop :=
  ∀ target, target ≠ 0 →
    ∃ calls, xorshift32^[calls] start = target ∧ ∀ earlier, 0 < earlier → earlier ≤ calls → xorshift32^[earlier] start ≠ start

theorem xorshift32_eq (state : BitVec 32) : xorshift32 state = shiftXor 5 (shiftXor 17 (shiftXor 13 state)) := rfl

theorem xorshift32_low (state : BitVec 32) : (xorshift32 state).getLsbD 0 = state.getLsbD 0 := by
  rw [xorshift32_eq, shiftXor_low (by omega), shiftXor_low (by omega), shiftXor_low (by omega)]

-- All three shifts are to the left, so that nothing ever reaches the lowest bit.
theorem iterate_low (calls : Nat) (state : BitVec 32) :
    (xorshift32^[calls] state).getLsbD 0 = state.getLsbD 0 := by
  induction calls generalizing state with
  | zero => rfl
  | succ calls ih => rw [Function.iterate_succ_apply, ih, xorshift32_low]

theorem shiftXor_eight {k : Nat} (some : 4 ≤ k) (state : BitVec 32) : (shiftXor k)^[8] state = state := by
  rw [show 8 = 2 ^ 3 by rfl, iterate_two_pow, shiftXor_all (by omega)]

theorem xorshift32_eight (state : BitVec 32) : xorshift32^[8] state = state := by
  have parts : xorshift32 = shiftXor 5 ∘ shiftXor 17 ∘ shiftXor 13 := rfl
  have inner : Function.Commute (shiftXor (w := 32) 17) (shiftXor 13) := shiftXor_comm 17 13
  have outer : Function.Commute (shiftXor (w := 32) 5) (shiftXor 17 ∘ shiftXor 13) := by
    intro x
    rw [Function.comp_apply, Function.comp_apply, shiftXor_comm 5 17, shiftXor_comm 5 13]
  rw [parts, outer.comp_iterate, inner.comp_iterate, Function.comp_apply, Function.comp_apply,
    shiftXor_eight (by omega), shiftXor_eight (by omega), shiftXor_eight (by omega)]

theorem not_visitsAll (start : BitVec 32) : ¬ VisitsAll start := by
  intro all
  -- one of `1` and `2` differs from the start in the lowest bit
  obtain ⟨target, nonzero, other⟩ : ∃ target : BitVec 32, target ≠ 0 ∧ target.getLsbD 0 ≠ start.getLsbD 0 := by
    cases low : start.getLsbD 0 with
    | false => exact ⟨1, by decide, by decide⟩
    | true => exact ⟨2, by decide, by decide⟩
  obtain ⟨calls, reached, -⟩ := all target nonzero
  exact other (reached ▸ iterate_low calls start)

theorem xorshift32_period (start : BitVec 32) : ¬ VisitsAll start ∧ xorshift32^[8] start = start :=
  ⟨not_visitsAll start, xorshift32_eight start⟩

-- The first state of the program is odd: `2` is never reached.
theorem not_visitsAll_deadbeef : ¬ VisitsAll 0xdeadbeef := by
  intro all
  obtain ⟨calls, reached, -⟩ := all 2 (by decide)
  have low := iterate_low calls 0xdeadbeef
  rw [reached] at low
  simp at low

end PrototypeBundle.Random
