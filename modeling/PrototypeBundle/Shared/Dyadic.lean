import Mathlib.Data.Nat.Bitwise
import Mathlib.Data.Set.Insert
import Mathlib.Order.WellFounded
import Mathlib.Tactic.Ring

set_option autoImplicit false

/-!
# Tilings by dyadic blocks

A block of order `k` covers `2 ^ k` cells from an offset that is a multiple of
`2 ^ k`. Such blocks are nested or disjoint, so a tiling may halve a block or
join two buddies and stay a tiling.
-/

namespace Dyadic

structure Block where
  offset : Nat
  order : Nat
  deriving DecidableEq, Repr

namespace Block

def stop (b : Block) : Nat := b.offset + 2 ^ b.order

def Contains (b : Block) (x : Nat) : Prop := b.offset ≤ x ∧ x < b.stop

def Aligned (b : Block) : Prop := 2 ^ b.order ∣ b.offset

theorem contains_offset (b : Block) : b.Contains b.offset :=
  ⟨Nat.le_refl _, Nat.lt_add_of_pos_right (Nat.two_pow_pos _)⟩

end Block

/-- The other half of the block of order `k + 1` around offset `o`. -/
def buddy (o k : Nat) : Nat := if 2 ^ (k + 1) ∣ o then o + 2 ^ k else o - 2 ^ k

theorem odd_multiple {o k : Nat} (aligned : 2 ^ k ∣ o) (half : ¬ 2 ^ (k + 1) ∣ o) :
    ∃ m, o = 2 ^ (k + 1) * m + 2 ^ k := by
  obtain ⟨m, rfl⟩ := aligned
  rcases Nat.even_or_odd' m with ⟨n, even | odd⟩
  · exact absurd ⟨n, by rw [even, pow_succ]; ring⟩ half
  · exact ⟨n, by rw [odd, pow_succ]; ring⟩

theorem xor_eq_buddy {o k : Nat} (aligned : 2 ^ k ∣ o) : o ^^^ 2 ^ k = buddy o k := by
  have shifted (m : Nat) : 2 ^ k * m ^^^ 2 ^ k = 2 ^ k * (m ^^^ 1) := by
    have := Nat.shiftLeft_xor_distrib (a := m) (b := 1) (i := k)
    simpa [Nat.shiftLeft_eq, Nat.mul_comm] using this.symm
  by_cases whole : 2 ^ (k + 1) ∣ o
  · obtain ⟨m, rfl⟩ := whole
    have even : Even (2 * m) := even_two_mul m
    rw [buddy, if_pos ⟨m, rfl⟩, pow_succ, Nat.mul_assoc, shifted, Nat.xor_one_of_even even]
    ring
  · obtain ⟨m, rfl⟩ := odd_multiple aligned whole
    have odd : Odd (2 * m + 1) := odd_two_mul_add_one m
    have multiple : 2 ^ (k + 1) * m + 2 ^ k = 2 ^ k * (2 * m + 1) := by ring
    rw [buddy, if_neg whole, multiple, shifted, Nat.xor_one_of_odd odd, Nat.add_sub_cancel,
      Nat.mul_add, Nat.mul_one, Nat.add_sub_cancel]

theorem buddy_aligned {o k : Nat} (aligned : 2 ^ k ∣ o) : 2 ^ k ∣ buddy o k := by
  unfold buddy
  split
  · exact Nat.dvd_add aligned (dvd_refl _)
  · exact Nat.dvd_sub aligned (dvd_refl _)

theorem buddy_ne {o k : Nat} (aligned : 2 ^ k ∣ o) : buddy o k ≠ o := by
  have positive := Nat.two_pow_pos k
  unfold buddy
  split
  · omega
  · rename_i half
    obtain ⟨m, rfl⟩ := odd_multiple aligned half
    omega

theorem buddy_buddy {o k : Nat} (aligned : 2 ^ k ∣ o) : buddy (buddy o k) k = o := by
  rw [← xor_eq_buddy (buddy_aligned aligned), ← xor_eq_buddy aligned, Nat.xor_xor_cancel_right]

theorem join_offset {o k : Nat} (aligned : 2 ^ k ∣ o) :
    2 ^ (k + 1) ∣ min o (buddy o k) ∧
      (o = min o (buddy o k) ∧ buddy o k = min o (buddy o k) + 2 ^ k ∨
        buddy o k = min o (buddy o k) ∧ o = min o (buddy o k) + 2 ^ k) := by
  by_cases whole : 2 ^ (k + 1) ∣ o
  · have equal : buddy o k = o + 2 ^ k := if_pos whole
    rw [equal, Nat.min_eq_left (Nat.le_add_right _ _)]
    exact ⟨whole, Or.inl ⟨rfl, rfl⟩⟩
  · obtain ⟨m, equal⟩ := odd_multiple aligned whole
    have lower : buddy o k = o - 2 ^ k := if_neg whole
    rw [lower, Nat.min_eq_right (Nat.sub_le _ _)]
    refine ⟨⟨m, by omega⟩, Or.inr ⟨rfl, by omega⟩⟩

theorem nested {b c : Block} (alignedB : b.Aligned) (alignedC : c.Aligned) (order : c.order ≤ b.order)
    {x : Nat} (inB : b.Contains x) (inC : c.Contains x) : b.offset ≤ c.offset ∧ c.stop ≤ b.stop := by
  obtain ⟨o, k⟩ := b
  obtain ⟨p, j⟩ := c
  obtain ⟨d, rfl⟩ := Nat.exists_eq_add_of_le order
  obtain ⟨m, equalO⟩ := alignedB
  obtain ⟨n, equalP⟩ := alignedC
  simp only [Block.Contains, Block.stop] at *
  subst equalO equalP
  simp only [pow_add, Nat.mul_assoc] at *
  have lower : 2 ^ d * m < n + 1 :=
    Nat.lt_of_mul_lt_mul_left (a := 2 ^ j) (by rw [Nat.mul_add]; omega)
  have upper : n < 2 ^ d * m + 2 ^ d :=
    Nat.lt_of_mul_lt_mul_left (a := 2 ^ j) (by rw [Nat.mul_add]; omega)
  have first := Nat.mul_le_mul_left (2 ^ j) (show 2 ^ d * m ≤ n by omega)
  have last := Nat.mul_le_mul_left (2 ^ j) (show n + 1 ≤ 2 ^ d * m + 2 ^ d by omega)
  rw [Nat.mul_add, Nat.mul_add] at last
  omega

/-- The blocks of `bs` cover `[0, 2 ^ K)` exactly, without gap or overlap. -/
structure Tiles (K : Nat) (bs : Set Block) : Prop where
  aligned : ∀ b ∈ bs, b.Aligned
  inside : ∀ b ∈ bs, b.stop ≤ 2 ^ K
  cover : ∀ x < 2 ^ K, ∃ b ∈ bs, b.Contains x
  disjoint : ∀ b ∈ bs, ∀ c ∈ bs, ∀ x, b.Contains x → c.Contains x → b = c

namespace Tiles

variable {K : Nat} {bs : Set Block}

theorem single (K : Nat) : Tiles K {⟨0, K⟩} where
  aligned := by simp [Block.Aligned]
  inside := by simp [Block.stop]
  cover := fun x bound => ⟨⟨0, K⟩, rfl, Nat.zero_le _, by simpa [Block.stop] using bound⟩
  disjoint := by
    rintro b rfl c rfl x _ _
    rfl

theorem order_le (tiles : Tiles K bs) {b : Block} (member : b ∈ bs) : b.order ≤ K := by
  have bound := tiles.inside b member
  unfold Block.stop at bound
  exact (Nat.pow_le_pow_iff_right (by decide : 1 < 2)).mp (by omega)

theorem start_unique (tiles : Tiles K bs) {o j k : Nat} (first : ⟨o, j⟩ ∈ bs) (second : ⟨o, k⟩ ∈ bs) :
    j = k := by
  have same := tiles.disjoint _ first _ second o (Block.contains_offset ⟨o, j⟩) (Block.contains_offset ⟨o, k⟩)
  exact congrArg Block.order same

theorem split (tiles : Tiles K bs) {o k : Nat} (member : ⟨o, k + 1⟩ ∈ bs) :
    Tiles K (insert ⟨o, k⟩ (insert ⟨o + 2 ^ k, k⟩ (bs \ {⟨o, k + 1⟩}))) := by
  have whole := tiles.aligned _ member
  have bound := tiles.inside _ member
  simp only [Block.Aligned, Block.stop, pow_succ] at whole bound
  have half : 2 ^ k ∣ o := Dvd.dvd.trans ⟨2, rfl⟩ whole
  have double : (2 : Nat) ^ (k + 1) = 2 ^ k + 2 ^ k := by rw [pow_succ]; omega
  have inner (c : Block) (inside : c = ⟨o, k⟩ ∨ c = ⟨o + 2 ^ k, k⟩) (x : Nat) (within : c.Contains x) :
      Block.Contains ⟨o, k + 1⟩ x := by
    simp only [Block.Contains, Block.stop] at *
    rcases inside with rfl | rfl <;> simp only at within <;> omega
  refine ⟨?_, ?_, ?_, ?_⟩
  · rintro b (rfl | rfl | ⟨old, -⟩)
    · exact half
    · exact Nat.dvd_add half (dvd_refl _)
    · exact tiles.aligned b old
  · rintro b (rfl | rfl | ⟨old, -⟩)
    · simp only [Block.stop]; omega
    · simp only [Block.stop]; omega
    · exact tiles.inside b old
  · intro x limit
    obtain ⟨b, old, within⟩ := tiles.cover x limit
    by_cases same : b = ⟨o, k + 1⟩
    · subst same
      simp only [Block.Contains, Block.stop] at within
      by_cases low : x < o + 2 ^ k
      · exact ⟨⟨o, k⟩, Or.inl rfl, within.1, low⟩
      · exact ⟨⟨o + 2 ^ k, k⟩, Or.inr (Or.inl rfl), by simp only; omega,
          by simp only [Block.stop]; omega⟩
    · exact ⟨b, Or.inr (Or.inr ⟨old, same⟩), within⟩
  · have apart (b : Block) (old : b ∈ bs) (other : b ≠ ⟨o, k + 1⟩) (c : Block)
        (part : c = ⟨o, k⟩ ∨ c = ⟨o + 2 ^ k, k⟩) (x : Nat) (inB : b.Contains x) (inC : c.Contains x) :
        False :=
      other (tiles.disjoint b old _ member x inB (inner c part x inC))
    have halves (x : Nat) (low : Block.Contains ⟨o, k⟩ x) (high : Block.Contains ⟨o + 2 ^ k, k⟩ x) :
        False := by
      simp only [Block.Contains, Block.stop] at low high
      omega
    rintro b (rfl | rfl | ⟨oldB, otherB⟩) c (rfl | rfl | ⟨oldC, otherC⟩) x inB inC
    · rfl
    · exact (halves x inB inC).elim
    · exact (apart c oldC otherC _ (Or.inl rfl) x inC inB).elim
    · exact (halves x inC inB).elim
    · rfl
    · exact (apart c oldC otherC _ (Or.inr rfl) x inC inB).elim
    · exact (apart b oldB otherB _ (Or.inl rfl) x inB inC).elim
    · exact (apart b oldB otherB _ (Or.inr rfl) x inB inC).elim
    · exact tiles.disjoint b oldB c oldC x inB inC

theorem merge (tiles : Tiles K bs) {o k : Nat} (left : ⟨o, k⟩ ∈ bs) (right : ⟨o + 2 ^ k, k⟩ ∈ bs)
    (aligned : 2 ^ (k + 1) ∣ o) :
    Tiles K (insert ⟨o, k + 1⟩ (bs \ {⟨o, k⟩, ⟨o + 2 ^ k, k⟩})) := by
  have bound := tiles.inside _ right
  simp only [Block.stop] at bound
  have double : (2 : Nat) ^ (k + 1) = 2 ^ k + 2 ^ k := by rw [pow_succ]; omega
  have parts (x : Nat) (within : Block.Contains ⟨o, k + 1⟩ x) :
      Block.Contains ⟨o, k⟩ x ∨ Block.Contains ⟨o + 2 ^ k, k⟩ x := by
    simp only [Block.Contains, Block.stop] at *
    omega
  have apart (b : Block) (old : b ∈ bs) (other : b ∉ ({⟨o, k⟩, ⟨o + 2 ^ k, k⟩} : Set Block)) (x : Nat)
      (inB : b.Contains x) (within : Block.Contains ⟨o, k + 1⟩ x) : False := by
    rcases parts x within with low | high
    · exact other (Or.inl (tiles.disjoint b old _ left x inB low))
    · exact other (Or.inr (tiles.disjoint b old _ right x inB high))
  refine ⟨?_, ?_, ?_, ?_⟩
  · rintro b (rfl | ⟨old, -⟩)
    · exact aligned
    · exact tiles.aligned b old
  · rintro b (rfl | ⟨old, -⟩)
    · simp only [Block.stop]; omega
    · exact tiles.inside b old
  · intro x limit
    obtain ⟨b, old, within⟩ := tiles.cover x limit
    by_cases gone : b ∈ ({⟨o, k⟩, ⟨o + 2 ^ k, k⟩} : Set Block)
    · refine ⟨⟨o, k + 1⟩, Or.inl rfl, ?_⟩
      simp only [Block.Contains, Block.stop]
      rcases gone with rfl | rfl <;> simp only [Block.Contains, Block.stop] at within <;> omega
    · exact ⟨b, Or.inr ⟨old, gone⟩, within⟩
  · rintro b (rfl | ⟨oldB, otherB⟩) c (rfl | ⟨oldC, otherC⟩) x inB inC
    · rfl
    · exact (apart c oldC otherC x inC inB).elim
    · exact (apart b oldB otherB x inB inC).elim
    · exact tiles.disjoint b oldB c oldC x inB inC

theorem buddy_bound (tiles : Tiles K bs) {o k : Nat} (member : ⟨o, k⟩ ∈ bs) (below : k < K) :
    buddy o k + 2 ^ k ≤ 2 ^ K := by
  have aligned : 2 ^ k ∣ o := tiles.aligned _ member
  have bound : o + 2 ^ k ≤ 2 ^ K := tiles.inside _ member
  unfold buddy
  split
  · rename_i whole
    have total : 2 ^ (k + 1) ∣ 2 ^ K := Nat.pow_dvd_pow 2 below
    obtain ⟨m, equal⟩ := whole
    obtain ⟨n, limit⟩ := total
    have double : (2 : Nat) ^ (k + 1) = 2 ^ k + 2 ^ k := by rw [pow_succ]; omega
    have positive := Nat.two_pow_pos k
    have less : m < n := Nat.lt_of_mul_lt_mul_left (a := 2 ^ (k + 1)) (by omega)
    have step := Nat.mul_le_mul_left (2 ^ (k + 1)) (show m + 1 ≤ n from less)
    rw [Nat.mul_add] at step
    omega
  · rename_i half
    obtain ⟨m, equal⟩ := odd_multiple aligned half
    omega

-- A buddy is whole or split, never part of a larger block: that block would
-- contain the first one too.
theorem buddy_start (tiles : Tiles K bs) {o k : Nat} (member : ⟨o, k⟩ ∈ bs) (below : k < K) :
    ∃ j ≤ k, ⟨buddy o k, j⟩ ∈ bs := by
  have aligned : 2 ^ k ∣ o := tiles.aligned _ member
  have bound := tiles.buddy_bound member below
  obtain ⟨⟨p, j⟩, old, within⟩ := tiles.cover (buddy o k)
    (by have := Nat.two_pow_pos k; omega)
  have buddyBlock : Block.Contains ⟨buddy o k, k⟩ (buddy o k) := Block.contains_offset ⟨buddy o k, k⟩
  by_cases order : j ≤ k
  · refine ⟨j, order, ?_⟩
    have inside := nested (b := ⟨buddy o k, k⟩) (c := ⟨p, j⟩) (buddy_aligned aligned)
      (tiles.aligned _ old) order buddyBlock within
    have start := within.1
    have equal : p = buddy o k := Nat.le_antisymm start inside.1
    exact equal ▸ old
  · have larger : k + 1 ≤ j := by omega
    have join := join_offset aligned
    have alignedJ := tiles.aligned _ old
    have whole := nested (b := ⟨p, j⟩) (c := ⟨min o (buddy o k), k + 1⟩) alignedJ join.1 larger
      within (by
        have positive := Nat.two_pow_pos k
        have double : (2 : Nat) ^ (k + 1) = 2 ^ k + 2 ^ k := by rw [pow_succ]; omega
        simp only [Block.Contains, Block.stop]
        omega)
    have same := tiles.disjoint _ member _ old o (Block.contains_offset ⟨o, k⟩) (by
      have positive := Nat.two_pow_pos k
      have double : (2 : Nat) ^ (k + 1) = 2 ^ k + 2 ^ k := by rw [pow_succ]; omega
      simp only [Block.Contains, Block.stop] at *
      omega)
    have orders := congrArg Block.order same
    simp only at orders
    omega

theorem coalesced (tiles : Tiles K bs)
    (alone : ∀ b ∈ bs, b.order < K → ⟨buddy b.offset b.order, b.order⟩ ∉ bs) : bs = {⟨0, K⟩} := by
  classical
  obtain ⟨first, inFirst, -⟩ := tiles.cover 0 (Nat.two_pow_pos K)
  let orders : Set Nat := {k | ∃ b ∈ bs, b.order = k}
  have nonempty : orders.Nonempty := ⟨first.order, first, inFirst, rfl⟩
  obtain ⟨⟨o, k⟩, member, least⟩ := WellFounded.min_mem wellFounded_lt orders nonempty
  have minimal (b : Block) (inside : b ∈ bs) : k ≤ b.order := by
    have bound := WellFounded.not_lt_min wellFounded_lt orders ⟨b, inside, rfl⟩
    simp only at least
    omega
  have top : k = K := by
    by_contra differs
    have below : k < K := by
      have := tiles.order_le member
      simp only at this
      omega
    obtain ⟨j, order, start⟩ := tiles.buddy_start member below
    have equal : j = k := Nat.le_antisymm order (minimal _ start)
    exact alone _ member below (equal ▸ start)
  subst top
  have origin : o = 0 := by
    have bound := tiles.inside _ member
    simp only [Block.stop] at bound
    omega
  subst origin
  ext b
  constructor
  · intro inside
    have bound := tiles.inside b inside
    have start := Block.contains_offset b
    refine tiles.disjoint b inside _ member b.offset start ⟨Nat.zero_le _, ?_⟩
    have := start.2
    simp only [Block.stop] at *
    omega
  · rintro rfl
    exact member

end Tiles

end Dyadic
