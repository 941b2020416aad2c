import PrototypeBundle.Buddy.FreeLists
import PrototypeBundle.Buddy.Size

set_option autoImplicit false

-- Both loops of the page work on one block that is neither free nor held by a
-- client; the other blocks and it tile the buffer all along.

namespace PrototypeBundle.Buddy

open Memory Dyadic

def Alone (K : Nat) (free : Set Block) : Prop :=
  ∀ b ∈ free, b.order < K → ⟨buddy b.offset b.order, b.order⟩ ∉ free

theorem Alone.subset {K : Nat} {free part : Set Block} (alone : Alone K free) (subset : part ⊆ free) :
    Alone K part :=
  fun b member below inside => alone b (subset member) below (subset inside)

theorem Alone.insert {K : Nat} {free : Set Block} {o k : Nat} (alone : Alone K free)
    (aligned : ∀ b ∈ free, b.Aligned) (start : 2 ^ k ∣ o) (other : k < K → ⟨buddy o k, k⟩ ∉ free) :
    Alone K (insert ⟨o, k⟩ free) := by
  rintro b (rfl | member) below (equal | inside)
  · simp only [Block.mk.injEq, and_true] at equal
    exact buddy_ne start equal
  · exact other below inside
  · -- an old block whose buddy is the new one is the buddy of the new one
    simp only [Block.mk.injEq] at equal
    obtain ⟨offset, order⟩ := equal
    have back := buddy_buddy (aligned b member)
    rw [offset, order] at back
    refine other (order ▸ below) ?_
    obtain ⟨p, j⟩ := b
    simp only at order back
    rw [back]
    exact order ▸ member
  · exact alone b member below inside

structure Hand (K : Nat) (p : Page) (free held : Set Block) (h order : Nat) : Prop where
  top : p.topLevel + 5 = K
  listed : Listed p free
  heads : ∀ b ∈ held, (p.buffer b.offset).free = false ∧ (p.buffer b.offset).level + 5 = b.order
  tiles : Tiles K (insert ⟨h, order⟩ (free ∪ held))
  fresh : ∀ b ∈ free ∪ held, b.offset ≠ h
  alone : Alone K free

namespace Hand

variable {K : Nat} {p : Page} {free held : Set Block} {h order : Nat}

theorem aligned (hand : Hand K p free held h order) : 2 ^ order ∣ h :=
  hand.tiles.aligned _ (Or.inl rfl)

theorem order_le (hand : Hand K p free held h order) : order ≤ K :=
  hand.tiles.order_le (Or.inl rfl)

theorem not_mem (hand : Hand K p free held h order) : (⟨h, order⟩ : Block) ∉ free ∪ held :=
  fun member => hand.fresh _ member rfl

theorem free_aligned (hand : Hand K p free held h order) (b : Block) (member : b ∈ free) : b.Aligned :=
  hand.tiles.aligned b (Or.inr (Or.inl member))

theorem outside (hand : Hand K p free held h order) {b : Block} (member : b ∈ free ∪ held) :
    ¬ (h ≤ b.offset ∧ b.offset < h + 2 ^ order) := by
  intro within
  have same := hand.tiles.disjoint _ (Or.inr member) _ (Or.inl rfl) b.offset b.contains_offset within
  exact hand.not_mem (same ▸ member)

theorem insert_free (hand : Hand K p free held h order) {level : Nat} (level_eq : order = level + 5)
    (other : level < p.topLevel → ⟨buddy h order, order⟩ ∉ free) :
    ∃ p' n, p.registerAsFree h level = some p' ∧ Listed p' (insert ⟨h, order⟩ free) ∧
      p'.topLevel = p.topLevel ∧ Alone K (insert ⟨h, order⟩ free) ∧
      p'.buffer = modifyAt p.buffer h fun _ => { userData := some n, free := true, level } := by
  subst level_eq
  have bound := hand.order_le
  have top := hand.top
  obtain ⟨p', n, done, listed, topLevel, buffer⟩ := registerAsFree_spec _ level hand.listed
    (by omega) (fun b member => hand.fresh b (Or.inl member))
  exact ⟨p', n, done, listed, topLevel,
    hand.alone.insert hand.free_aligned hand.aligned (fun below => other (by omega)), buffer⟩

theorem halve (level : Nat) (hand : Hand K p free held h (level + 1 + 5)) (low : level < 27) :
    ∃ b p', findBuddy h level = some b ∧ p.registerAsFree b level = some p' ∧
      Hand K p' (insert ⟨b, level + 5⟩ free) held h (level + 5) ∧
      p'.buffer h = p.buffer h ∧ ∀ c ∈ held, p'.buffer c.offset = p.buffer c.offset := by
  have whole : 2 ^ (level + 5 + 1) ∣ h := hand.aligned
  have half : 2 ^ (level + 5) ∣ h := Dvd.dvd.trans ⟨2, pow_succ _ _⟩ whole
  have positive := Nat.two_pow_pos (level + 5)
  have double : (2 : Nat) ^ (level + 1 + 5) = 2 ^ (level + 5) + 2 ^ (level + 5) := by
    rw [show level + 1 + 5 = level + 5 + 1 by omega, pow_succ]
    omega
  have upper : buddy h (level + 5) = h + 2 ^ (level + 5) := if_pos whole
  have bound := hand.order_le
  have top := hand.top
  have apart (b : Block) (member : b ∈ free ∪ held) : b.offset ≠ h + 2 ^ (level + 5) := by
    intro equal
    have := hand.outside member
    omega
  obtain ⟨p', n, done, listed, topLevel, buffer⟩ := registerAsFree_spec _ level hand.listed
    (by omega) (fun b member => apart b (Or.inl member))
  have headH : p'.buffer h = p.buffer h := by
    rw [buffer, modifyAt_other _ _ _ (by omega)]
  have headC (c : Block) (member : c ∈ held) : p'.buffer c.offset = p.buffer c.offset := by
    rw [buffer, modifyAt_other _ _ _ (apart c (Or.inr member))]
  refine ⟨h + 2 ^ (level + 5), p', ?_, done, ⟨?_, listed, ?_, ?_, ?_, ?_⟩, headH, headC⟩
  · rw [findBuddy_eq low, xor_eq_buddy half, upper]
  · rw [topLevel, top]
  · intro b member
    rw [headC b member]
    exact hand.heads b member
  · have split := hand.tiles.split (o := h) (k := level + 5) (Or.inl rfl)
    rwa [Set.insert_sdiff_of_mem _ (Set.mem_singleton _), Set.sdiff_singleton_eq_self hand.not_mem,
      ← Set.insert_union] at split
  · rintro b ((rfl | member) | member)
    · simp only
      omega
    · exact hand.fresh b (Or.inl member)
    · exact hand.fresh b (Or.inr member)
  · refine hand.alone.insert hand.free_aligned (Nat.dvd_add half (dvd_refl _)) ?_
    intro _ inside
    have back : buddy (h + 2 ^ (level + 5)) (level + 5) = h := by
      rw [← upper, buddy_buddy half]
    exact hand.fresh _ (Or.inl inside) back

theorem split_spec {expected : Nat} (rest : Nat) (low : expected + rest ≤ 27 ∨ rest = 0)
    (hand : Hand K p free held h (expected + rest + 5)) :
    ∃ p' free', p.split h expected rest = some p' ∧ Hand K p' free' held h (expected + 5) ∧
      p'.buffer h = p.buffer h ∧ ∀ c ∈ held, p'.buffer c.offset = p.buffer c.offset := by
  induction rest generalizing p free with
  | zero => exact ⟨p, free, rfl, hand, rfl, fun _ _ => rfl⟩
  | succ rest ih =>
      have bound : expected + rest < 27 := by omega
      obtain ⟨b, p₁, found, done, hand₁, head₁, heads₁⟩ :=
        Hand.halve (expected + rest) (by simpa only [Nat.add_assoc] using hand) bound
      obtain ⟨p', free', finish, hand', head', heads'⟩ := ih (Or.inl (by omega)) hand₁
      refine ⟨p', free', ?_, hand', head'.trans head₁, fun c member => (heads' c member).trans (heads₁ c member)⟩
      simp only [Page.split, found, done, finish, Option.bind_eq_bind, Option.bind_some]

theorem buddy_free_iff {level : Nat} (hand : Hand K p free held h (level + 5)) (below : level < p.topLevel) :
    ((p.buffer (buddy h (level + 5))).free = true ∧ (p.buffer (buddy h (level + 5))).level = level) ↔
      ⟨buddy h (level + 5), level + 5⟩ ∈ free := by
  have top := hand.top
  constructor
  · rintro ⟨isFree, isLevel⟩
    obtain ⟨j, order, start⟩ := hand.tiles.buddy_start (Or.inl rfl) (by omega : level + 5 < K)
    rcases start with equal | inFree | inHeld
    · simp only [Block.mk.injEq] at equal
      exact absurd equal.1 (buddy_ne hand.aligned)
    · obtain ⟨l, _, shape⟩ := hand.listed.order inFree
      simp only [Block.mk.injEq, true_and] at shape
      subst shape
      obtain ⟨-, n, header⟩ := hand.listed.header inFree
      rw [header] at isLevel
      simp only at isLevel
      exact isLevel ▸ inFree
    · have busy := (hand.heads _ inHeld).1
      simp only at busy
      rw [isFree] at busy
      exact absurd busy (by simp)
  · intro inFree
    obtain ⟨-, n, header⟩ := hand.listed.header inFree
    simp [header]

theorem join {level : Nat} (hand : Hand K p free held h (level + 5))
    (inFree : ⟨buddy h (level + 5), level + 5⟩ ∈ free) :
    ∃ p', p.registerAsUsed (buddy h (level + 5)) level = some p' ∧
      Hand K p' (free \ {⟨buddy h (level + 5), level + 5⟩}) held
        (if buddy h (level + 5) < h then buddy h (level + 5) else h) (level + 1 + 5) ∧
      p'.topLevel = p.topLevel ∧ ∀ c ∈ held, p'.buffer c.offset = p.buffer c.offset := by
  have aligned := hand.aligned
  obtain ⟨whole, place⟩ := join_offset aligned
  have lower : (if buddy h (level + 5) < h then buddy h (level + 5) else h) = min h (buddy h (level + 5)) := by
    split <;> omega
  obtain ⟨p', done, listed, topLevel, buffer⟩ := registerAsUsed_spec level hand.listed inFree
  have apart (c : Block) (member : c ∈ held) : c.offset ≠ buddy h (level + 5) := by
    intro equal
    have busy := (hand.heads c member).1
    obtain ⟨-, n, header⟩ := hand.listed.header inFree
    rw [equal, header] at busy
    simp at busy
  have heads (c : Block) (member : c ∈ held) : p'.buffer c.offset = p.buffer c.offset := by
    rw [buffer, headerWrite, modifyAt_other _ _ _ (apart c member)]
  have startsOnce (b : Block) (member : b ∈ free ∪ held) (start : b.offset = buddy h (level + 5)) :
      b = ⟨buddy h (level + 5), level + 5⟩ := by
    obtain ⟨o, k⟩ := b
    simp only at start
    subst start
    rw [hand.tiles.start_unique (Or.inr member) (Or.inr (Or.inl inFree))]
  rw [lower]
  refine ⟨p', done, ⟨?_, listed, ?_, ?_, ?_, ?_⟩, topLevel, heads⟩
  · rw [topLevel, hand.top]
  · intro b member
    rw [heads b member]
    exact hand.heads b member
  · have remaining : insert ⟨h, level + 5⟩ (free ∪ held) \
        {⟨h, level + 5⟩, ⟨buddy h (level + 5), level + 5⟩} =
        free \ {⟨buddy h (level + 5), level + 5⟩} ∪ held := by
      ext b
      constructor
      · rintro ⟨rfl | inF | inH, other⟩
        · exact absurd (Or.inl rfl) other
        · exact Or.inl ⟨inF, fun equal => other (Or.inr equal)⟩
        · exact Or.inr inH
      · rintro (⟨inF, other⟩ | inH)
        · refine ⟨Or.inr (Or.inl inF), ?_⟩
          rintro (equal | equal)
          · exact hand.not_mem (equal ▸ Or.inl inF)
          · exact other equal
        · refine ⟨Or.inr (Or.inr inH), ?_⟩
          rintro (equal | equal)
          · exact hand.not_mem (equal ▸ Or.inr inH)
          · exact apart b inH (congrArg Block.offset equal)
    have inHand : (⟨h, level + 5⟩ : Block) ∈ insert ⟨h, level + 5⟩ (free ∪ held) := Or.inl rfl
    have inRest : (⟨buddy h (level + 5), level + 5⟩ : Block) ∈ insert ⟨h, level + 5⟩ (free ∪ held) :=
      Or.inr (Or.inl inFree)
    rw [show level + 1 + 5 = level + 5 + 1 by omega, ← remaining]
    rcases place with ⟨first, second⟩ | ⟨first, second⟩
    · rw [← first] at whole second ⊢
      rw [second]
      exact hand.tiles.merge inHand (second ▸ inRest) whole
    · rw [← first] at whole second ⊢
      have merged := hand.tiles.merge inRest (second ▸ inHand) whole
      rw [← second, Set.pair_comm] at merged
      exact merged
  · rintro b member equal
    have inOld : b ∈ free ∪ held := member.imp (fun inF => inF.1) id
    rcases Nat.le_total h (buddy h (level + 5)) with order | order
    · rw [Nat.min_eq_left order] at equal
      exact hand.fresh b inOld equal
    · rw [Nat.min_eq_right order] at equal
      have same := startsOnce b inOld equal
      rcases member with inF | inH
      · exact inF.2 same
      · exact apart b inH equal
  · exact hand.alone.subset Set.sdiff_subset

theorem coalesce_spec {level : Nat} (rest : Nat) (height : level + rest = p.topLevel)
    (low : p.topLevel ≤ 27 ∨ rest = 0) (hand : Hand K p free held h (level + 5)) :
    ∃ p' h' level' free', p.coalesce h level rest = some (p', h', level') ∧
      Hand K p' free' held h' (level' + 5) ∧
      (level' < p'.topLevel → ⟨buddy h' (level' + 5), level' + 5⟩ ∉ free') ∧
      ∀ c ∈ held, p'.buffer c.offset = p.buffer c.offset := by
  induction rest generalizing p free h level with
  | zero =>
      exact ⟨p, h, level, free, rfl, hand, fun below => by omega, fun _ _ => rfl⟩
  | succ rest ih =>
      have below : level < p.topLevel := by omega
      have found : findBuddy h level = some (buddy h (level + 5)) := by
        rw [findBuddy_eq (by omega), xor_eq_buddy hand.aligned]
      by_cases inFree : ⟨buddy h (level + 5), level + 5⟩ ∈ free
      · obtain ⟨p₁, done, hand₁, top₁, heads₁⟩ := hand.join inFree
        obtain ⟨p', h', level', free', finish, hand', other, heads'⟩ :=
          ih (by omega) (Or.inl (by omega)) hand₁
        refine ⟨p', h', level', free', ?_, hand', other, fun c member =>
          (heads' c member).trans (heads₁ c member)⟩
        simp only [Page.coalesce, found, Option.bind_eq_bind, Option.bind_some]
        rw [if_pos ((hand.buddy_free_iff below).mpr inFree), done]
        simpa using finish
      · refine ⟨p, h, level, free, ?_, hand, fun _ => inFree, fun _ _ => rfl⟩
        simp only [Page.coalesce, found, Option.bind_eq_bind, Option.bind_some]
        rw [if_neg (fun test => inFree ((hand.buddy_free_iff below).mp test))]

end Hand

end PrototypeBundle.Buddy
