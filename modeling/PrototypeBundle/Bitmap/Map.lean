import Mathlib.Logic.Function.Basic

set_option autoImplicit false

namespace PrototypeBundle.Bitmap

def IsLowest {w : Nat} (x : BitVec w) (index : Nat) : Prop :=
  x.getLsbD index = true ∧ ∀ j < index, x.getLsbD j = false

namespace Map

def noBlock : BitVec 64 := BitVec.allOnes 64

def initial : BitVec 64 := BitVec.allOnes 64

-- `scan` is `_bit_scan_forward`. Its argument is an `int`, and the shift is undefined when its
-- result is no position of a bit.
def pop (scan : BitVec 32 → Int) (data : BitVec 64) : Option (BitVec 64 × BitVec 64) :=
  let index := scan (data.setWidth 32)
  if index = 64 then some (noBlock, data)
  else if 0 ≤ index ∧ index < 64 then some (BitVec.ofInt 64 index, data &&& ~~~(1#64 <<< index.toNat))
  else none

-- Nothing is known of the result for an argument without a bit.
def Documented (scan : BitVec 32 → Int) : Prop :=
  ∀ x, x ≠ 0 → ∃ index : Nat, scan x = index ∧ IsLowest x index

def Right (data : BitVec 64) (result : Option (BitVec 64 × BitVec 64)) : Prop :=
  (result = some (noBlock, data) ↔ data = 0) ∧
    (data ≠ 0 → ∃ index rest, IsLowest data index ∧ result = some (BitVec.ofNat 64 index, rest) ∧
      ∀ j, rest.getLsbD j = (data.getLsbD j && j != index))

def answers (scan : BitVec 32 → Int) : Nat → BitVec 64 → Option (List (BitVec 64))
  | 0, _ => some []
  | pops + 1, data => do
      let (block, data) ← pop scan data
      let rest ← answers scan pops data
      some (block :: rest)

theorem lowest_of_low {data : BitVec 64} {index : Nat} (lowest : IsLowest (data.setWidth 32) index) :
    index < 32 ∧ IsLowest data index := by
  obtain ⟨set, clear⟩ := lowest
  rw [BitVec.getLsbD_setWidth, Bool.and_eq_true, decide_eq_true_iff] at set
  refine ⟨set.1, set.2, ?_⟩
  intro j less
  have unset := clear j less
  rw [BitVec.getLsbD_setWidth, decide_eq_true (by omega), Bool.true_and] at unset
  exact unset

theorem getLsbD_clear (data : BitVec 64) {index : Nat} (inside : index < 64) (j : Nat) :
    (data &&& ~~~(1#64 <<< index)).getLsbD j = (data.getLsbD j && j != index) := by
  by_cases outside : j < 64
  · rcases Nat.lt_trichotomy j index with less | rfl | more
    · simp [outside, less, Nat.ne_of_lt less]
    · simp [outside]
    · simp [outside, show ¬ j < index by omega, show j - index ≠ 0 by omega,
        Nat.ne_of_gt more]
  · simp [outside, BitVec.getLsbD_of_ge data j (by omega)]

theorem pop_lowest {scan : BitVec 32 → Int} (documented : Documented scan) {data : BitVec 64}
    (low : data.setWidth 32 ≠ 0) :
    ∃ index, index < 32 ∧ IsLowest data index ∧
      pop scan data = some (BitVec.ofNat 64 index, data &&& ~~~(1#64 <<< index)) := by
  obtain ⟨index, found, lowest⟩ := documented _ low
  obtain ⟨inside, lowestData⟩ := lowest_of_low lowest
  refine ⟨index, inside, lowestData, ?_⟩
  rw [pop, found, if_neg (by omega), if_pos (by omega), BitVec.ofInt_natCast, Int.toNat_natCast]

theorem pop_right {scan : BitVec 32 → Int} (documented : Documented scan) {data : BitVec 64}
    (low : data.setWidth 32 ≠ 0) : Right data (pop scan data) := by
  obtain ⟨index, inside, lowest, result⟩ := pop_lowest documented low
  have nonzero : data ≠ 0 := by
    rintro rfl
    exact low (by decide)
  have answer : BitVec.ofNat 64 index ≠ noBlock := by
    intro same
    have value := congrArg BitVec.toNat same
    rw [BitVec.toNat_ofNat, Nat.mod_eq_of_lt (by omega)] at value
    have top : noBlock.toNat = 2 ^ 64 - 1 := rfl
    omega
  refine ⟨?_, ?_⟩
  · rw [result]
    constructor
    · intro same
      exact absurd (congrArg Prod.fst (Option.some.inj same)) answer
    · intro empty
      exact absurd empty nonzero
  · intro _
    exact ⟨index, _, lowest, result, getLsbD_clear data (by omega)⟩

/-- The scan by counting the zeros below the lowest bit, with a value for an argument without a bit. -/
def scanOr (value : Int) (x : BitVec 32) : Int := if x = 0 then value else x.ctz.toNat

theorem scanOr_documented (value : Int) : Documented (scanOr value) := by
  intro x nonzero
  refine ⟨x.ctz.toNat, by rw [scanOr, if_neg nonzero], BitVec.getLsbD_true_ctz_of_ne_zero nonzero, ?_⟩
  intro j less
  exact BitVec.getLsbD_false_of_lt_ctz less

theorem pop_wrong {data : BitVec 64} (low : data.setWidth 32 = 0) :
    ∃ scan, Documented scan ∧ ¬ Right data (pop scan data) := by
  by_cases empty : data = 0
  · refine ⟨scanOr 0, scanOr_documented 0, ?_⟩
    rintro ⟨sentinel, -⟩
    have result := sentinel.mpr empty
    subst empty
    exact absurd result (by decide)
  · refine ⟨scanOr 64, scanOr_documented 64, ?_⟩
    rintro ⟨sentinel, -⟩
    exact empty (sentinel.mp (by rw [pop, low]; rfl))

theorem pop_right_iff (data : BitVec 64) :
    (∀ scan, Documented scan → Right data (pop scan data)) ↔ data.setWidth 32 ≠ 0 := by
  constructor
  · intro right low
    obtain ⟨scan, documented, wrong⟩ := pop_wrong low
    exact wrong (right scan documented)
  · intro low scan documented
    exact pop_right documented low

def remaining (popped : Nat) : BitVec 64 := BitVec.allOnes 64 <<< popped

theorem getLsbD_remaining (popped j : Nat) :
    (remaining popped).getLsbD j = (decide (j < 64) && decide (popped ≤ j)) := by
  rw [remaining, BitVec.getLsbD_shiftLeft, BitVec.getLsbD_allOnes]
  grind

theorem pop_remaining {scan : BitVec 32 → Int} (documented : Documented scan) {popped : Nat} (low : popped < 32) :
    pop scan (remaining popped) = some (BitVec.ofNat 64 popped, remaining (popped + 1)) := by
  have here : (remaining popped).getLsbD popped = true := by
    rw [getLsbD_remaining]
    simp only [Nat.le_refl, decide_true, Bool.and_true, decide_eq_true_eq]
    omega
  have bit : ((remaining popped).setWidth 32).getLsbD popped = true := by
    rw [BitVec.getLsbD_setWidth, here, decide_eq_true low, Bool.and_self]
  have seen : (remaining popped).setWidth 32 ≠ 0 := by
    intro empty
    rw [empty] at bit
    simp at bit
  obtain ⟨index, inside, lowest, result⟩ := pop_lowest documented seen
  have same : index = popped := by
    have set := lowest.1
    rw [getLsbD_remaining] at set
    simp only [Bool.and_eq_true, decide_eq_true_eq] at set
    by_contra other
    have clear := lowest.2 popped (by omega)
    rw [here] at clear
    simp at clear
  subst same
  rw [result]
  congr 2
  refine BitVec.eq_of_getLsbD_eq ?_
  intro j _
  rw [getLsbD_clear _ (by omega), getLsbD_remaining, getLsbD_remaining]
  grind

theorem answers_remaining {scan : BitVec 32 → Int} (documented : Documented scan) (pops popped more : Nat)
    (low : popped + pops ≤ 32) :
    answers scan (pops + more) (remaining popped) =
      (answers scan more (remaining (popped + pops))).map ((List.range' popped pops).map (BitVec.ofNat 64) ++ ·) := by
  induction pops generalizing popped with
  | zero => simp
  | succ pops ih =>
      rw [show pops + 1 + more = pops + more + 1 by omega, answers, pop_remaining documented (by omega)]
      simp only [Option.bind_eq_bind, Option.bind_some]
      rw [ih (popped + 1) (by omega), show popped + 1 + pops = popped + (pops + 1) by omega]
      cases answers scan more (remaining (popped + (pops + 1))) <;> simp [List.range'_succ]

end Map

structure Stack where
  head : Option Nat
  next : Nat → Option Nat

namespace Stack

def linked : Nat → Nat → Option Nat
  | 0 => fun _ => none
  | i + 1 => Function.update (linked i) i (some (i + 1))

def stack : Stack where
  head := some 0
  next := Function.update (linked 63) 63 none

-- By one thread, the exchange fails only spuriously, `failures` times.
def pop (s : Stack) : Nat → Option Nat × Stack
  | 0 =>
      match s.head with
      | none => (none, s)
      | some old => (some old, { s with head := s.next old })
  | failures + 1 =>
      match s.head with
      | none => (none, s)
      | some _ => pop s failures

def answers (failures : Nat → Nat) : Nat → Stack → List (Option Nat)
  | 0, _ => []
  | pops + 1, s =>
      let (block, s) := pop s (failures pops)
      block :: answers failures pops s

theorem linked_eq (n i : Nat) : linked n i = if i < n then some (i + 1) else none := by
  induction n with
  | zero => simp [linked]
  | succ n ih =>
      rw [linked, Function.update_apply, ih]
      grind

theorem stack_next (i : Nat) : stack.next i = if i < 63 then some (i + 1) else none := by
  simp only [stack, Function.update_apply, linked_eq]
  grind

theorem pop_eq (s : Stack) (failures : Nat) :
    pop s failures = (s.head, { s with head := s.head.bind s.next }) := by
  obtain ⟨head, next⟩ := s
  induction failures with
  | zero => cases head <;> rfl
  | succ failures ih =>
      cases head with
      | none => rfl
      | some old => rw [pop, ih]

def block (i : Nat) : Option Nat := if i < 64 then some i else none

theorem answers_eq (failures : Nat → Nat) (pops popped : Nat) :
    answers failures pops { stack with head := block popped } = (List.range' popped pops).map block := by
  induction pops generalizing popped with
  | zero => rfl
  | succ pops ih =>
      have next : (block popped).bind stack.next = block (popped + 1) := by
        rw [block]
        split
        next inside => rw [Option.bind_some, stack_next, block]; grind
        next => rw [block]; grind
      rw [answers, pop_eq, List.range'_succ, List.map_cons]
      simp only [next]
      rw [ih]

end Stack

/-- What the map answers where the stack answers with a block or null. -/
def position : Option Nat → BitVec 64
  | some block => BitVec.ofNat 64 block
  | none => Map.noBlock

/-- The first pops of a new map answer as those of the stack. -/
def AsStack (scan : BitVec 32 → Int) (pops : Nat) : Prop :=
  ∀ failures, Map.answers scan pops Map.initial = some ((Stack.answers failures pops Stack.stack).map position)

theorem stack_answers (failures : Nat → Nat) (pops : Nat) :
    Stack.answers failures pops Stack.stack = (List.range pops).map Stack.block := by
  rw [List.range_eq_range', ← Stack.answers_eq failures]
  rfl

theorem positions {pops : Nat} (all : pops ≤ 64) :
    ((List.range' 0 pops).map Stack.block).map position = (List.range' 0 pops).map (BitVec.ofNat 64) := by
  rw [List.map_map]
  refine List.map_congr_left ?_
  intro i member
  rw [List.mem_range'_1] at member
  rw [Function.comp_apply, Stack.block, if_pos (by omega), position]

theorem asStack_low {scan : BitVec 32 → Int} (documented : Map.Documented scan) {pops : Nat} (low : pops ≤ 32) :
    AsStack scan pops := by
  intro failures
  have answers := Map.answers_remaining documented pops 0 0 (by omega)
  rw [stack_answers, List.range_eq_range', positions (by omega)]
  simpa [Map.answers, Map.remaining, Map.initial] using answers

-- After 32 pops the scan sees no bit. Should it return the sentinel then, the map seems empty.
theorem not_asStack {pops : Nat} (high : 32 < pops) : ¬ AsStack (Map.scanOr 64) pops := by
  intro same
  obtain ⟨more, rfl⟩ : ∃ more, pops = 32 + (more + 1) := ⟨pops - 33, by omega⟩
  have answers := Map.answers_remaining (Map.scanOr_documented 64) 32 0 (more + 1) (by omega)
  have start : Map.initial = Map.remaining 0 := by decide
  have sentinel : Map.pop (Map.scanOr 64) (Map.remaining (0 + 32)) = some (Map.noBlock, Map.remaining 32) := by decide
  have stack := same (fun _ => 0)
  rw [stack_answers, start, answers, Map.answers, sentinel] at stack
  simp only [Option.bind_eq_bind, Option.bind_some] at stack
  cases later : Map.answers (Map.scanOr 64) more (Map.remaining 32) with
  | none => simp [later] at stack
  | some rest =>
      -- the answer of the pop after those is the sentinel, not the block 32
      rw [later] at stack
      have entry := congrArg (·[32]?) (Option.some.inj stack)
      simp [Stack.block, position, Map.noBlock] at entry

theorem asStack_iff (pops : Nat) : (∀ scan, Map.Documented scan → AsStack scan pops) ↔ pops ≤ 32 := by
  constructor
  · intro same
    by_contra high
    exact not_asStack (by omega) (same _ (Map.scanOr_documented 64))
  · intro low scan documented
    exact asStack_low documented low

theorem map_pop_iff (data : BitVec 64) (pops : Nat) :
    ((∀ scan, Map.Documented scan → Map.Right data (Map.pop scan data)) ↔ data.setWidth 32 ≠ 0) ∧
      ((∀ scan, Map.Documented scan → AsStack scan pops) ↔ pops ≤ 32) :=
  ⟨Map.pop_right_iff data, asStack_iff pops⟩

/-- A map with block 32 only seems empty when the scan returns the sentinel for an argument without a bit. -/
theorem map_pop_high :
    ¬ ∀ data scan, Map.Documented scan → Map.Right data (Map.pop scan data) := by
  intro right
  have sentinel := (right (1 <<< 32) _ (Map.scanOr_documented 64)).1.mp (by decide)
  exact absurd sentinel (by decide)

end PrototypeBundle.Bitmap
