import Mathlib.Data.List.Basic
import Mathlib.Logic.Function.Basic

set_option autoImplicit false

/-!
# Intrusive lists

Items carry their own links. A chain is the list of items met by following
`next` from a head pointer until null; in a linked list every item also points
back at the item before it.
-/

namespace Intrusive

variable {α : Type}

def Chain (next : α → Option α) : Option α → List α → Prop
  | head, [] => head = none
  | head, x :: xs => head = some x ∧ Chain next (next x) xs

@[simp] theorem chain_nil (next : α → Option α) (head : Option α) :
    Chain next head [] ↔ head = none := Iff.rfl

@[simp] theorem chain_cons (next : α → Option α) (head : Option α) (x : α) (xs : List α) :
    Chain next head (x :: xs) ↔ head = some x ∧ Chain next (next x) xs := Iff.rfl

instance Chain.decidable [DecidableEq α] (next : α → Option α) :
    (head : Option α) → (xs : List α) → Decidable (Chain next head xs)
  | head, [] => inferInstanceAs (Decidable (head = none))
  | head, x :: xs =>
      have := Chain.decidable next (next x) xs
      inferInstanceAs (Decidable (head = some x ∧ Chain next (next x) xs))

def follow (next : α → Option α) : Nat → Option α → List α
  | 0, _ => []
  | _ + 1, none => []
  | count + 1, some x => x :: follow next count (next x)

theorem Chain.follow_prefix {next : α → Option α} {head : Option α} {xs : List α} (chain : Chain next head xs) (count : Nat) :
    follow next count head <+: xs := by
  induction count generalizing head xs with
  | zero => exact List.nil_prefix
  | succ count ih =>
      cases xs with
      | nil =>
          obtain rfl : head = none := chain
          exact List.nil_prefix
      | cons x xs =>
          obtain ⟨rfl, rest⟩ := chain
          exact (List.prefix_cons_inj x).mpr (ih rest)

theorem Chain.congr {next next' : α → Option α} {head : Option α} {xs : List α}
    (same : ∀ x ∈ xs, next' x = next x) (chain : Chain next head xs) :
    Chain next' head xs := by
  induction xs generalizing head with
  | nil => exact chain
  | cons x xs ih =>
      refine ⟨chain.1, ?_⟩
      rw [same x (by simp)]
      exact ih (fun y member => same y (List.mem_cons_of_mem _ member)) chain.2

theorem Chain.unique {next : α → Option α} {head : Option α} {xs ys : List α}
    (left : Chain next head xs) (right : Chain next head ys) : xs = ys := by
  induction xs generalizing head ys with
  | nil =>
      cases ys with
      | nil => rfl
      | cons y ys => simp_all
  | cons x xs ih =>
      cases ys with
      | nil => simp_all
      | cons y ys =>
          obtain ⟨headLeft, restLeft⟩ := left
          obtain ⟨headRight, restRight⟩ := right
          have same : x = y := Option.some.inj (headLeft.symm.trans headRight)
          subst same
          rw [ih restLeft restRight]

theorem Chain.suffix {next : α → Option α} {head : Option α} {xs ys : List α} {y : α}
    (chain : Chain next head (xs ++ y :: ys)) : Chain next (some y) (y :: ys) := by
  induction xs generalizing head with
  | nil => exact ⟨rfl, chain.2⟩
  | cons x xs ih => exact ih chain.2

-- A chain that ends never meets an item twice: the second visit would start
-- the same walk again.
theorem Chain.nodup {next : α → Option α} {head : Option α} {xs : List α}
    (chain : Chain next head xs) : xs.Nodup := by
  induction xs generalizing head with
  | nil => exact List.nodup_nil
  | cons x xs ih =>
      refine List.nodup_cons.mpr ⟨?_, ih chain.2⟩
      intro member
      obtain ⟨before, after, split⟩ := List.append_of_mem member
      have restart : Chain next (some x) (x :: after) := by
        have tail := chain.2
        rw [split] at tail
        exact tail.suffix
      have whole : Chain next (some x) (x :: xs) := ⟨rfl, chain.2⟩
      have equal := congrArg List.length (whole.unique restart)
      simp [split] at equal
      omega

theorem Chain.next_mem {next : α → Option α} {head : Option α} {xs : List α} {x y : α}
    (chain : Chain next head xs) (member : x ∈ xs) (link : next x = some y) : y ∈ xs := by
  induction xs generalizing head with
  | nil => simp at member
  | cons z zs ih =>
      rcases List.mem_cons.mp member with same | later
      · subst same
        have tail := chain.2
        rw [link] at tail
        cases zs with
        | nil => simp at tail
        | cons w ws => simp [Option.some.inj tail.1]
      · exact List.mem_cons_of_mem _ (ih chain.2 later)

theorem Chain.head_mem {next : α → Option α} {head : Option α} {xs : List α} {x : α}
    (chain : Chain next head xs) (first : head = some x) : x ∈ xs := by
  cases xs with
  | nil => simp_all
  | cons y ys => simp [Option.some.inj (first.symm.trans chain.1)]

theorem Chain.head_none_iff {next : α → Option α} {head : Option α} {xs : List α}
    (chain : Chain next head xs) : head = none ↔ xs = [] := by
  cases xs with
  | nil => simpa using chain
  | cons x xs => simp [chain.1]

theorem Chain.push {next next' : α → Option α} {head : Option α} {xs : List α} {x : α}
    (chain : Chain next head xs) (link : next' x = head)
    (same : ∀ y ∈ xs, next' y = next y) : Chain next' (some x) (x :: xs) :=
  ⟨rfl, by rw [link]; exact chain.congr same⟩

theorem Chain.tail {next : α → Option α} {x : α} {head : Option α} {xs : List α}
    (chain : Chain next head xs) (first : head = some x) :
    ∃ rest, xs = x :: rest ∧ Chain next (next x) rest := by
  cases xs with
  | nil => simp_all
  | cons y ys =>
      have same : y = x := Option.some.inj (chain.1.symm.trans first)
      subst same
      exact ⟨ys, rfl, chain.2⟩

theorem Chain.reaches {next next' : α → Option α} {head : Option α} {before after xs : List α} {x : α}
    (chain : Chain next head (before ++ x :: after)) (same : ∀ y ∈ before, next' y = next y)
    (other : Chain next' head xs) : x ∈ xs := by
  induction before generalizing head xs with
  | nil => exact other.head_mem chain.1
  | cons y before ih =>
      obtain ⟨rest, rfl, tail⟩ := other.tail chain.1
      rw [same y (by simp)] at tail
      exact List.mem_cons_of_mem _ (ih chain.2 (fun z member => same z (List.mem_cons_of_mem _ member)) tail)

theorem Chain.head_eq_of_perm {next : α → Option α} {head head' : Option α} {xs ys : List α}
    (chain : Chain next head xs) (chain' : Chain next head' ys) (same : ys.Perm xs) : head' = head := by
  cases ys with
  | nil =>
      rw [same.symm.eq_nil] at chain
      exact chain'.trans chain.symm
  | cons y ys =>
      obtain ⟨before, after, rfl⟩ := List.append_of_mem (same.subset List.mem_cons_self)
      have restart : y :: ys = y :: after := (chain'.1 ▸ chain').unique chain.suffix
      have lengths := same.length_eq
      rw [restart, List.length_append] at lengths
      have first : before = [] := List.length_eq_zero_iff.mp (by omega)
      subst first
      exact chain'.1.trans chain.1.symm

/-- Each item leads to the one after it; where the last one leads is left open. -/
def Segment (next : α → Option α) (xs : List α) : Prop := xs.IsChain fun x y => next x = some y

instance Segment.decidable [DecidableEq α] (next : α → Option α) (xs : List α) : Decidable (Segment next xs) :=
  inferInstanceAs (Decidable (xs.IsChain fun x y => next x = some y))

theorem Segment.congr {next next' : α → Option α} {xs : List α} (same : ∀ x ∈ xs.dropLast, next' x = next x)
    (segment : Segment next xs) : Segment next' xs := by
  induction xs with
  | nil => exact .nil
  | cons x xs ih =>
      cases xs with
      | nil => exact .singleton x
      | cons y ys =>
          obtain ⟨link, rest⟩ := List.isChain_cons_cons.mp segment
          refine List.isChain_cons_cons.mpr ⟨(same x (by simp)).trans link, ih (fun z member => ?_) rest⟩
          exact same z (by rw [List.dropLast_cons_cons]; exact List.mem_cons_of_mem _ member)

theorem Chain.prepend {next : α → Option α} {head : Option α} {xs ys : List α} {last : α} (segment : Segment next xs)
    (end' : xs.getLast? = some last) (link : next last = head) (chain : Chain next head ys) :
    Chain next xs.head? (xs ++ ys) := by
  induction xs with
  | nil => simp at end'
  | cons x xs ih =>
      cases xs with
      | nil =>
          obtain rfl : x = last := by simpa using end'
          exact ⟨rfl, link ▸ chain⟩
      | cons y ys =>
          obtain ⟨forward, rest⟩ := List.isChain_cons_cons.mp segment
          refine ⟨rfl, ?_⟩
          rw [forward]
          exact ih rest (by simpa using end')

/-- `Linked prev next back head xs`: `head` starts a list of `xs` in which every
item points back at its predecessor, the first one at `back`. -/
def Linked (prev next : α → Option α) : Option α → Option α → List α → Prop
  | _, head, [] => head = none
  | back, head, x :: xs => head = some x ∧ prev x = back ∧ Linked prev next (some x) (next x) xs

instance Linked.decidable [DecidableEq α] (prev next : α → Option α) :
    (back head : Option α) → (xs : List α) → Decidable (Linked prev next back head xs)
  | _, head, [] => inferInstanceAs (Decidable (head = none))
  | back, head, x :: xs =>
      have := Linked.decidable prev next (some x) (next x) xs
      inferInstanceAs (Decidable (head = some x ∧ prev x = back ∧ Linked prev next (some x) (next x) xs))

theorem Linked.chain {prev next : α → Option α} {back head : Option α} {xs : List α}
    (linked : Linked prev next back head xs) : Chain next head xs := by
  induction xs generalizing back head with
  | nil => exact linked
  | cons x xs ih => exact ⟨linked.1, ih linked.2.2⟩

theorem Linked.congr {prev next prev' next' : α → Option α} {back head : Option α}
    {xs : List α} (samePrev : ∀ x ∈ xs, prev' x = prev x)
    (sameNext : ∀ x ∈ xs, next' x = next x)
    (linked : Linked prev next back head xs) : Linked prev' next' back head xs := by
  induction xs generalizing back head with
  | nil => exact linked
  | cons x xs ih =>
      refine ⟨linked.1, (samePrev x (by simp)).trans linked.2.1, ?_⟩
      rw [sameNext x (by simp)]
      exact ih (fun y member => samePrev y (List.mem_cons_of_mem _ member))
        (fun y member => sameNext y (List.mem_cons_of_mem _ member)) linked.2.2

theorem Linked.nodup {prev next : α → Option α} {back head : Option α} {xs : List α}
    (linked : Linked prev next back head xs) : xs.Nodup := linked.chain.nodup

theorem Linked.prev_cases {prev next : α → Option α} {back head : Option α} {xs : List α} {x : α}
    (linked : Linked prev next back head xs) (member : x ∈ xs) :
    (head = some x ∧ prev x = back) ∨ ∃ y ∈ xs, prev x = some y ∧ next y = some x := by
  induction xs generalizing back head with
  | nil => simp at member
  | cons z zs ih =>
      rcases List.mem_cons.mp member with same | later
      · subst same
        exact Or.inl ⟨linked.1, linked.2.1⟩
      · rcases ih linked.2.2 later with ⟨first, link⟩ | ⟨y, inside, link, forward⟩
        · exact Or.inr ⟨z, by simp, link, first⟩
        · exact Or.inr ⟨y, List.mem_cons_of_mem _ inside, link, forward⟩

theorem Linked.prev_head {prev next : α → Option α} {back head : Option α} {xs : List α} {x : α}
    (linked : Linked prev next back head xs) (first : head = some x) : prev x = back := by
  cases xs with
  | nil => simp_all [Linked]
  | cons y ys =>
      have same : y = x := Option.some.inj (linked.1.symm.trans first)
      subst same
      exact linked.2.1

theorem Linked.prepend [DecidableEq α] {prev next prev' next' : α → Option α} {head : Option α} {xs : List α} {x : α}
    (linked : Linked prev next none head xs)
    (front : prev' x = none) (link : next' x = head)
    (back : ∀ y ∈ xs, prev' y = if head = some y then some x else prev y)
    (same : ∀ y ∈ xs, next' y = next y) :
    Linked prev' next' none (some x) (x :: xs) := by
  refine ⟨rfl, front, ?_⟩
  rw [link]
  cases xs with
  | nil => exact linked
  | cons y ys =>
      have first := linked.1
      have fresh := (List.nodup_cons.mp linked.nodup).1
      refine ⟨first, by simp [back y (by simp), first], ?_⟩
      rw [same y (by simp)]
      refine linked.2.2.congr ?_ (fun z member => same z (List.mem_cons_of_mem _ member))
      intro z member
      rw [back z (List.mem_cons_of_mem _ member), if_neg]
      rw [first, Option.some.injEq]
      rintro rfl
      exact fresh member

theorem Linked.remove [DecidableEq α] {prev next prev' next' : α → Option α}
    {back head : Option α} {xs : List α} {x : α}
    (linked : Linked prev next back head xs) (member : x ∈ xs)
    (outside : ∀ b, back = some b → b ∉ xs)
    (samePrev : ∀ y ∈ xs, y ≠ x → prev' y = if next x = some y then prev x else prev y)
    (sameNext : ∀ y ∈ xs, y ≠ x → next' y = if prev x = some y then next x else next y) :
    Linked prev' next' back (if head = some x then next x else head) (xs.erase x) := by
  induction xs generalizing back head with
  | nil => simp at member
  | cons y ys ih =>
      obtain ⟨first, link, rest⟩ := linked
      have nodup := (Linked.nodup ⟨first, link, rest⟩ : (y :: ys).Nodup)
      have fresh := (List.nodup_cons.mp nodup).1
      by_cases same : y = x
      · subst same
        simp only [List.erase_cons_head, first, if_true]
        cases ys with
        | nil => exact rest
        | cons z zs =>
            have different : z ≠ y := fun equal => fresh (by simp [equal])
            have inner := (List.nodup_cons.mp (List.nodup_cons.mp nodup).2).1
            refine ⟨rest.1, ?_, ?_⟩
            · rw [samePrev z (by simp) different, if_pos rest.1, link]
            · have skip (w : α) (inside : w ∈ z :: zs) : prev y ≠ some w := by
                rw [link]
                intro equal
                exact outside w equal (List.mem_cons_of_mem _ inside)
              rw [sameNext z (by simp) different, if_neg (skip z (by simp))]
              refine rest.2.2.congr ?_ ?_
              · intro w inside
                have apart : w ≠ y := fun equal => fresh (by simp [← equal, inside])
                rw [samePrev w (by simp [inside]) apart, if_neg]
                rw [rest.1, Option.some.injEq]
                rintro rfl
                exact inner inside
              · intro w inside
                have apart : w ≠ y := fun equal => fresh (by simp [← equal, inside])
                rw [sameNext w (by simp [inside]) apart, if_neg (skip w (by simp [inside]))]
      · have later : x ∈ ys := (List.mem_cons.mp member).resolve_left (fun equal => same equal.symm)
        have notFirst : head ≠ some x := by
          rw [first]
          exact fun equal => same (Option.some.inj equal)
        rw [if_neg notFirst, List.erase_cons_tail (by simpa using same)]
        refine ⟨first, ?_, ?_⟩
        · rw [samePrev y (by simp) same, if_neg, link]
          intro forward
          exact fresh (rest.chain.next_mem later forward)
        · have tail := ih rest later
            (by intro b equal; exact Option.some.inj equal ▸ fresh)
            (fun w inside => samePrev w (List.mem_cons_of_mem _ inside))
            (fun w inside => sameNext w (List.mem_cons_of_mem _ inside))
          have neighbour : prev x = some y ↔ next y = some x := by
            constructor
            · intro backward
              rcases rest.prev_cases later with ⟨head', _⟩ | ⟨w, inside, backward', _⟩
              · exact head'
              · rw [backward] at backward'
                exact absurd (Option.some.inj backward' ▸ inside) fresh
            · intro forward
              exact rest.prev_head forward
          rw [sameNext y (by simp) same]
          by_cases adjacent : prev x = some y
          · rw [if_pos adjacent]
            rw [if_pos (neighbour.mp adjacent)] at tail
            exact tail
          · rw [if_neg adjacent]
            rw [if_neg (fun forward => adjacent (neighbour.mpr forward))] at tail
            exact tail

end Intrusive
