import Mathlib.Logic.Relation
import Mathlib.Data.Finset.Card
import Mathlib.Logic.Function.Basic

set_option autoImplicit false

/-!
# Marking a graph in waves

A node is marked when its wave is processed, not when it is queued, so that a
wave may hold duplicates and nodes that are marked already.
-/

namespace Waves

variable {α : Type} [DecidableEq α]

def visit (succ : α → List α) (state : (α → Bool) × List α) (node : α) : (α → Bool) × List α :=
  let marked := Function.update state.1 node true
  (marked, state.2 ++ (succ node).filter fun target => !marked target)

def wave (succ : α → List α) (marked : α → Bool) (black : List α) : (α → Bool) × List α :=
  black.foldl (visit succ) (marked, [])

def waves (succ : α → List α) : Nat → (α → Bool) → List α → Option (α → Bool)
  | 0, marked, black => if black = [] then some marked else none
  | fuel + 1, marked, black =>
      if black = [] then some marked
      else waves succ fuel (wave succ marked black).1 (wave succ marked black).2

section Wave

variable (succ : α → List α)

theorem foldl_visit_marked (black : List α) (marked : α → Bool) (gray : List α) (x : α) :
    (black.foldl (visit succ) (marked, gray)).1 x = true ↔ marked x = true ∨ x ∈ black := by
  induction black generalizing marked gray with
  | nil => simp
  | cons b black ih =>
      simp only [List.foldl_cons, visit, ih, List.mem_cons]
      by_cases same : x = b
      · simp [same]
      · simp [same]

theorem foldl_visit_gray (black : List α) (marked : α → Bool) (gray : List α) (x : α)
    (member : x ∈ (black.foldl (visit succ) (marked, gray)).2) :
    x ∈ gray ∨ marked x = false ∧ ∃ b ∈ black, x ∈ succ b := by
  induction black generalizing marked gray with
  | nil => exact Or.inl member
  | cons b black ih =>
      rcases ih _ _ member with queued | ⟨unmarked, b', inside, edge⟩
      · rcases List.mem_append.mp queued with old | new
        · exact Or.inl old
        · right
          obtain ⟨edge, unmarked⟩ := List.mem_filter.mp new
          refine ⟨?_, b, by simp, edge⟩
          by_cases same : x = b <;> simp_all
      · right
        refine ⟨?_, b', List.mem_cons_of_mem _ inside, edge⟩
        by_cases same : x = b <;> simp_all

theorem gray_kept (black : List α) (marked : α → Bool) (gray : List α) (x : α) (member : x ∈ gray) :
    x ∈ (black.foldl (visit succ) (marked, gray)).2 := by
  induction black generalizing marked gray with
  | nil => exact member
  | cons b black ih => exact ih _ _ (List.mem_append_left _ member)

theorem foldl_visit_complete (black : List α) (marked : α → Bool) (gray : List α) (b x : α)
    (inside : b ∈ black) (edge : x ∈ succ b) :
    (black.foldl (visit succ) (marked, gray)).1 x = true ∨
      x ∈ (black.foldl (visit succ) (marked, gray)).2 := by
  induction black generalizing marked gray with
  | nil => simp at inside
  | cons c black ih =>
      rcases List.mem_cons.mp inside with same | rest
      · subst same
        by_cases already : Function.update marked b true x = true
        · left
          rw [List.foldl_cons]
          exact (foldl_visit_marked succ black _ _ x).mpr (Or.inl already)
        · right
          rw [List.foldl_cons]
          apply gray_kept
          apply List.mem_append_right
          exact List.mem_filter.mpr ⟨edge, by simpa using already⟩
      · exact ih _ _ rest

theorem wave_marked (marked : α → Bool) (black : List α) (x : α) :
    (wave succ marked black).1 x = true ↔ marked x = true ∨ x ∈ black :=
  foldl_visit_marked succ black marked [] x

theorem wave_gray (marked : α → Bool) (black : List α) (x : α) (member : x ∈ (wave succ marked black).2) :
    marked x = false ∧ ∃ b ∈ black, x ∈ succ b := by
  rcases foldl_visit_gray succ black marked [] x member with nothing | found
  · simp at nothing
  · exact found

theorem wave_complete (marked : α → Bool) (black : List α) (b x : α) (inside : b ∈ black)
    (edge : x ∈ succ b) : (wave succ marked black).1 x = true ∨ x ∈ (wave succ marked black).2 :=
  foldl_visit_complete succ black marked [] b x inside edge

end Wave

section Graph

variable (succ : α → List α) (V : Finset α) (root : α)

structure Between (marked : α → Bool) (black : List α) : Prop where
  root_marked : marked root = true
  reached : ∀ x ∈ V, marked x = true → Relation.ReflTransGen (fun a b => b ∈ succ a) root x
  queued : ∀ x ∈ black, x ∈ V ∧ Relation.ReflTransGen (fun a b => b ∈ succ a) root x
  closed : ∀ a ∈ V, marked a = true → ∀ x ∈ succ a, marked x = true ∨ x ∈ black

variable {succ V root} {marked : α → Bool} {black : List α}
variable (edges : ∀ a ∈ V, ∀ x ∈ succ a, x ∈ V)

include edges

theorem Between.wave (between : Between succ V root marked black) :
    Between succ V root (Waves.wave succ marked black).1 (Waves.wave succ marked black).2 where
  root_marked := (wave_marked succ marked black root).mpr (Or.inl between.root_marked)
  reached := by
    intro x inside isMarked
    rcases (wave_marked succ marked black x).mp isMarked with before | now
    · exact between.reached x inside before
    · exact (between.queued x now).2
  queued := by
    intro x member
    obtain ⟨_, b, inside, edge⟩ := wave_gray succ marked black x member
    obtain ⟨known, path⟩ := between.queued b inside
    exact ⟨edges b known x edge, path.tail edge⟩
  closed := by
    intro a inside isMarked x edge
    rcases (wave_marked succ marked black a).mp isMarked with before | now
    · left
      exact (wave_marked succ marked black x).mpr (between.closed a inside before x edge)
    · exact wave_complete succ marked black a x now edge

omit edges in
theorem Between.wave_nil (between : Between succ V root marked black)
    (stale : ∀ b ∈ black, marked b = true) : (Waves.wave succ marked black).2 = [] := by
  rw [List.eq_nil_iff_forall_not_mem]
  intro x member
  obtain ⟨unmarked, b, inside, edge⟩ := wave_gray succ marked black x member
  rcases between.closed b (between.queued b inside).1 (stale b inside) x edge with isMarked | again
  · rw [isMarked] at unmarked
    simp at unmarked
  · rw [stale x again] at unmarked
    simp at unmarked

omit [DecidableEq α] in
theorem Between.done (between : Between succ V root marked []) (rootIn : root ∈ V) (x : α) (inside : x ∈ V) :
    marked x = true ↔ Relation.ReflTransGen (fun a b => b ∈ succ a) root x := by
  refine ⟨between.reached x inside, fun path => ?_⟩
  have along : x ∈ V ∧ marked x = true := by
    clear inside
    induction path with
    | refl => exact ⟨rootIn, between.root_marked⟩
    | tail _ edge known =>
        refine ⟨edges _ known.1 _ edge, ?_⟩
        simpa using between.closed _ known.1 known.2 _ edge
  exact along.2

-- The number of waves is bounded by the number of nodes still unmarked.
theorem Between.waves (fuel : Nat) (between : Between succ V root marked black)
    (enough : (V.filter fun x => marked x = false).card < fuel) :
    ∃ marked', Waves.waves succ fuel marked black = some marked' ∧ Between succ V root marked' [] ∧
      ∀ x, x ∉ V → marked' x = marked x := by
  induction fuel generalizing marked black with
  | zero => omega
  | succ fuel ih =>
      have next := between.wave edges
      by_cases empty : black = []
      · subst empty
        exact ⟨marked, by simp [Waves.waves], between, fun _ _ => rfl⟩
      · have outside (x : α) (away : x ∉ V) : (Waves.wave succ marked black).1 x = marked x := by
          rw [Bool.eq_iff_iff, wave_marked]
          simp only [or_iff_left_iff_imp]
          exact fun member => absurd (between.queued x member).1 away
        by_cases stale : ∀ b ∈ black, marked b = true
        · have nothing := between.wave_nil stale
          rw [nothing] at next
          refine ⟨_, ?_, next, outside⟩
          cases fuel <;> simp [Waves.waves, empty, nothing]
        · -- some node of this wave is new, so fewer are unmarked after it
          obtain ⟨b, inside, unmarked⟩ : ∃ b ∈ black, marked b = false := by
            simpa using stale
          have fewer : (V.filter fun x => (Waves.wave succ marked black).1 x = false).card <
              (V.filter fun x => marked x = false).card := by
            apply Finset.card_lt_card
            rw [Finset.ssubset_iff_of_subset]
            · refine ⟨b, by simp [unmarked, (between.queued b inside).1], ?_⟩
              simp [(wave_marked succ marked black b).mpr (Or.inr inside)]
            · intro x member
              obtain ⟨known, after⟩ := Finset.mem_filter.mp member
              refine Finset.mem_filter.mpr ⟨known, ?_⟩
              by_contra before
              rw [(wave_marked succ marked black x).mpr (Or.inl (by simpa using before))] at after
              simp at after
          obtain ⟨marked', run, final, frame⟩ := ih next (by omega)
          refine ⟨marked', by simp [Waves.waves, empty, run], final, ?_⟩
          intro x away
          rw [frame x away, outside x away]

/-- From the root alone, with nothing else marked, the waves end with exactly the
reachable nodes marked. -/
theorem waves_reachable (rootIn : root ∈ V) (initial : ∀ x ∈ V, marked x = true → x = root) (fuel : Nat)
    (enough : V.card < fuel) :
    ∃ marked', Waves.waves succ (fuel + 1) marked [root] = some marked' ∧
      (∀ x ∈ V, marked' x = true ↔ Relation.ReflTransGen (fun a b => b ∈ succ a) root x) ∧
      ∀ x, x ∉ V → marked' x = marked x := by
  have first : Between succ V root (Waves.wave succ marked [root]).1 (Waves.wave succ marked [root]).2 := by
    refine ⟨(wave_marked succ marked [root] root).mpr (Or.inr (by simp)), ?_, ?_, ?_⟩
    · intro x inside isMarked
      have same : x = root := by
        rcases (wave_marked succ marked [root] x).mp isMarked with before | now
        · exact initial x inside before
        · simpa using now
      subst same
      exact Relation.ReflTransGen.refl
    · intro x member
      obtain ⟨_, b, isRoot, edge⟩ := wave_gray succ marked [root] x member
      have same : b = root := by simpa using isRoot
      subst same
      exact ⟨edges b rootIn x edge, Relation.ReflTransGen.single edge⟩
    · intro a inside isMarked x edge
      have isRoot : a ∈ [root] := by
        rcases (wave_marked succ marked [root] a).mp isMarked with before | now
        · simp [initial a inside before]
        · exact now
      exact wave_complete succ marked [root] a x isRoot edge
  have few : (V.filter fun x => (Waves.wave succ marked [root]).1 x = false).card < fuel :=
    Nat.lt_of_le_of_lt (Finset.card_filter_le _ _) enough
  obtain ⟨marked', run, final, frame⟩ := first.waves edges fuel few
  refine ⟨marked', by simpa [Waves.waves] using run, fun x inside => final.done edges rootIn x inside, ?_⟩
  intro x away
  have different : x ≠ root := fun same => away (same ▸ rootIn)
  rw [frame x away, Bool.eq_iff_iff, wave_marked]
  simp [different]

end Graph

end Waves
