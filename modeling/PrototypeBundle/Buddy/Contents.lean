import PrototypeBundle.Buddy.Runs

set_option autoImplicit false

namespace PrototypeBundle.Buddy

open Memory Dyadic

section Writes

variable {p p' : Page} {h level : Nat}

theorem registerAsUsed_frame (done : p.registerAsUsed h level = some p') {x : Nat} (other : x ≠ h) :
    p'.buffer x = p.buffer x := by
  simp only [Page.registerAsUsed, Option.bind_eq_bind, Option.bind_eq_some_iff] at done
  obtain ⟨freeNode, -, done⟩ := done
  split at done
  · cases done
  · obtain rfl := Option.some.inj done
    simp [headerWrite, modifyAt, other]

theorem registerAsFree_frame (done : p.registerAsFree h level = some p') {x : Nat} (other : x ≠ h) :
    p'.buffer x = p.buffer x := by
  simp only [Page.registerAsFree, Option.bind_eq_bind, Option.bind_eq_some_iff] at done
  obtain ⟨⟨freeNode, availableNodes⟩, -, done⟩ := done
  split at done
  · cases done
  · obtain rfl := Option.some.inj done
    simp [Page.link, Page.prependFree, modifyAt, other]

theorem registerAsFree_head (done : p.registerAsFree h level = some p') :
    level ≤ p'.topLevel ∧ ∃ node, p'.freeLevels level = some node ∧ (p'.availableNodes.nodes node).val = some h := by
  simp only [Page.registerAsFree, Option.bind_eq_bind, Option.bind_eq_some_iff] at done
  obtain ⟨⟨freeNode, availableNodes⟩, -, done⟩ := done
  split at done
  · cases done
  · rename_i inTable
    obtain rfl := Option.some.inj done
    exact ⟨Nat.le_of_not_lt inTable, freeNode, Function.update_self .., by simp [Page.link]⟩

theorem coalesce_frame (rest : Nat) (low : level + rest ≤ 27 ∨ rest = 0) (aligned : 2 ^ (level + 5) ∣ h)
    {h' level' : Nat} (done : p.coalesce h level rest = some (p', h', level')) :
    (∀ x, Block.Contains ⟨h, level + 5⟩ x → Block.Contains ⟨h', level' + 5⟩ x) ∧
      ∀ x, ¬ Block.Contains ⟨h', level' + 5⟩ x → p'.buffer x = p.buffer x := by
  induction rest generalizing p h level with
  | zero =>
      obtain ⟨rfl, rfl, rfl⟩ : p = p' ∧ h = h' ∧ level = level' := by simpa [Page.coalesce] using done
      exact ⟨fun _ within => within, fun _ _ => rfl⟩
  | succ rest ih =>
      simp only [Page.coalesce, Option.bind_eq_bind, Option.bind_eq_some_iff] at done
      obtain ⟨b, found, done⟩ := done
      split at done
      · obtain ⟨p₁, registered, done⟩ := Option.bind_eq_some_iff.mp done
        rw [findBuddy_eq (by omega), xor_eq_buddy aligned] at found
        obtain rfl := Option.some.inj found
        obtain ⟨whole, place⟩ := join_offset aligned
        have lower : (if buddy h (level + 5) < h then buddy h (level + 5) else h) = min h (buddy h (level + 5)) := by
          split <;> omega
        rw [lower] at done
        have double : (2 : Nat) ^ (level + 1 + 5) = 2 ^ (level + 5) + 2 ^ (level + 5) := by
          rw [show level + 1 + 5 = level + 5 + 1 by omega, pow_succ]
          omega
        have positive := Nat.two_pow_pos (level + 5)
        obtain ⟨larger, frame⟩ := ih (Or.inl (by omega)) (by rwa [show level + 1 + 5 = level + 5 + 1 by omega]) done
        have halves (x : Nat) (within : Block.Contains ⟨h, level + 5⟩ x ∨ x = buddy h (level + 5)) :
            Block.Contains ⟨h', level' + 5⟩ x := by
          refine larger x ?_
          simp only [Block.Contains, Block.stop] at within ⊢
          omega
        refine ⟨fun x within => halves x (Or.inl within), fun x outside => (frame x outside).trans ?_⟩
        exact registerAsUsed_frame registered fun same => outside (halves x (Or.inr same))
      · obtain ⟨rfl, rfl, rfl⟩ : p = p' ∧ h = h' ∧ level = level' := by simpa using done
        exact ⟨fun _ within => within, fun _ _ => rfl⟩

end Writes

variable {K : Nat} {s : PageRun} {free : Set Block}

theorem Inv.disjoint (inv : Inv K s free) {b c : Block} (isFree : b ∈ free) (isHeld : c ∈ s.held) {x : Nat}
    (within : c.Contains x) : ¬ b.Contains x := fun inside =>
  inv.apart isFree isHeld (congrArg Block.offset (inv.tiles.disjoint b (Or.inl isFree) c (Or.inr isHeld) x inside within))

theorem free_frame (inv : Inv K s free) {h : Nat} (owned : s.owns h) {p' : Page} (done : s.page.free h = some p')
    {c : Block} (isHeld : c ∈ s.held) (other : c.offset ≠ h) {x : Nat} (within : c.Contains x) :
    p'.buffer x = s.page.buffer x := by
  obtain ⟨p'', free', done', inv', heads⟩ := free_inv inv owned
  obtain rfl := Option.some.inj (done'.symm.trans done)
  have still : c ∈ PageRun.held { page := p'', live := s.live.filter (fun block => block.1 ≠ h) } := by
    obtain ⟨owns, order⟩ := isHeld
    obtain ⟨block, live, same⟩ := List.mem_map.mp owns
    refine ⟨List.mem_map.mpr ⟨block, List.mem_filter.mpr ⟨live, by simpa [same] using other⟩, same⟩, ?_⟩
    rw [order, heads c.offset owns other]
  simp only [Page.free, Option.bind_eq_bind, Option.bind_eq_some_iff] at done
  obtain ⟨⟨p₁, h', level'⟩, merged, registered⟩ := done
  obtain ⟨inTable, node, head, val⟩ := registerAsFree_head registered
  obtain ⟨o, val', isFree⟩ := inv'.listed.head inTable head
  obtain rfl := Option.some.inj (val.symm.trans val')
  have outside := inv'.disjoint isFree still within
  have mine : (⟨h, (s.page.buffer h).level + 5⟩ : Block) ∈ s.held := ⟨owned, rfl⟩
  have order := inv.tiles.order_le (Or.inr mine)
  have top := inv.top
  have low : (s.page.buffer h).level + (s.page.topLevel - (s.page.buffer h).level) ≤ 27 ∨
      s.page.topLevel - (s.page.buffer h).level = 0 := by
    rcases inv.whole with small | whole
    · left
      simp only at order
      omega
    · right
      have whole := whole _ mine
      simp only at whole
      omega
  obtain ⟨-, frame⟩ := coalesce_frame _ low (inv.tiles.aligned _ (Or.inr mine)) merged
  refine (registerAsFree_frame registered fun same => outside ?_).trans (frame x outside)
  rw [same]
  exact Block.contains_offset ⟨h', level' + 5⟩

end PrototypeBundle.Buddy
