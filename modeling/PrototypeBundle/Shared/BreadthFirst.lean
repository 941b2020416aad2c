import PrototypeBundle.Shared.Waves
import Mathlib.Data.List.Count
import Mathlib.Data.List.Perm.Subperm
import Mathlib.Algebra.BigOperators.Group.Finset.Basic
import Mathlib.Algebra.Order.BigOperators.Group.Finset

set_option autoImplicit false

/-!
# Waves as a queue

Marking in waves serves one queue, into which a node comes once for every edge that is seen before it is served
itself. Breadth-first search queues a node once.
-/

namespace Waves

variable {α : Type} [DecidableEq α]

/-- A queue of which `next` says what serving its first node appends. -/
def serve (next : List α → α → List α → List α) : Nat → List α → List α → List α × List α
  | 0, served, queue => (served, queue)
  | _ + 1, served, [] => (served, [])
  | steps + 1, served, node :: rest => serve next steps (served ++ [node]) (rest ++ next served node rest)

def unserved (succ : α → List α) (served : List α) (node : α) (_ : List α) : List α :=
  (succ node).filter fun target => target ∉ served ++ [node]

def discover : List α → List α → List α
  | _, [] => []
  | seen, target :: rest =>
      if target ∈ seen then discover seen rest else target :: discover (target :: seen) rest

def undiscovered (succ : α → List α) (served : List α) (node : α) (rest : List α) : List α :=
  discover (served ++ node :: rest) (succ node)

/-- The nodes in breadth-first order from `root`, if there are no more than `size`. -/
def breadthFirst (succ : α → List α) (size : Nat) (root : α) : List α :=
  (serve (undiscovered succ) size [] [root]).1

/-- No node of `order` has two edges into it from nodes before it. -/
def SingleEntry (succ : α → List α) (order : List α) : Prop :=
  ∀ before node after, order = before ++ node :: after → (before.flatMap succ).count node ≤ 1

section Discover

theorem mem_discover {seen targets : List α} {x : α} : x ∈ discover seen targets ↔ x ∈ targets ∧ x ∉ seen := by
  induction targets generalizing seen with
  | nil => simp [discover]
  | cons target rest ih =>
      rw [discover]
      by_cases known : target ∈ seen
      · rw [if_pos known, ih, List.mem_cons]
        constructor
        · rintro ⟨inside, new⟩
          exact ⟨Or.inr inside, new⟩
        · rintro ⟨rfl | inside, new⟩
          · exact absurd known new
          · exact ⟨inside, new⟩
      · rw [if_neg known, List.mem_cons, ih]
        by_cases same : x = target
        · subst same
          simp [known]
        · simp [same]

theorem discover_nodup (seen targets : List α) : (discover seen targets).Nodup := by
  induction targets generalizing seen with
  | nil => exact List.nodup_nil
  | cons target rest ih =>
      rw [discover]
      split
      · exact ih seen
      · refine List.nodup_cons.mpr ⟨fun again => ?_, ih _⟩
        exact (mem_discover.mp again).2 (by simp)

theorem discover_eq_filter {served seen targets : List α} (subset : ∀ x ∈ served, x ∈ seen)
    (new : ∀ x ∈ targets, x ∉ served → x ∉ seen) (nodup : (targets.filter (· ∉ served)).Nodup) :
    discover seen targets = targets.filter (· ∉ served) := by
  induction targets generalizing seen with
  | nil => rfl
  | cons target rest ih =>
      by_cases known : target ∈ served
      · rw [discover, if_pos (subset target known), List.filter_cons_of_neg (by simpa using known)] at *
        exact ih subset (fun x inside => new x (List.mem_cons_of_mem _ inside)) nodup
      · rw [List.filter_cons_of_pos (by simpa using known)] at nodup ⊢
        obtain ⟨fresh, nodup⟩ := List.nodup_cons.mp nodup
        rw [discover, if_neg (new target (by simp) known)]
        congr 1
        refine ih (fun x inside => List.mem_cons_of_mem _ (subset x inside)) (fun x inside outside => ?_) nodup
        rw [List.mem_cons, not_or]
        refine ⟨?_, new x (List.mem_cons_of_mem _ inside) outside⟩
        rintro rfl
        exact fresh (List.mem_filter.mpr ⟨inside, by simpa using outside⟩)

end Discover

section Serve

variable {next : List α → α → List α → List α}

omit [DecidableEq α] in
theorem serve_append (steps : Nat) {served queue served' queue' : List α}
    (run : serve next steps served queue = (served', queue')) : ∃ later, served' ++ queue' = served ++ queue ++ later := by
  induction steps generalizing served queue with
  | zero =>
      obtain ⟨rfl, rfl⟩ := Prod.mk.inj run
      exact ⟨[], by simp⟩
  | succ steps ih =>
      cases queue with
      | nil =>
          obtain ⟨rfl, rfl⟩ := Prod.mk.inj run
          exact ⟨[], by simp⟩
      | cons node rest =>
          obtain ⟨later, shape⟩ := ih run
          exact ⟨next served node rest ++ later, by rw [shape]; simp⟩

omit [DecidableEq α] in
theorem serve_add (first second : Nat) (served queue : List α) :
    serve next (first + second) served queue =
      serve next second (serve next first served queue).1 (serve next first served queue).2 := by
  induction first generalizing served queue with
  | zero => rw [Nat.zero_add, serve]
  | succ first ih =>
      rw [Nat.add_right_comm]
      cases queue with
      | nil =>
          rw [serve, serve]
          cases second <;> rfl
      | cons node rest => exact ih _ _

omit [DecidableEq α] in
theorem serve_done {first second : Nat} {served queue order order' : List α}
    (run : serve next first served queue = (order, [])) (run' : serve next second served queue = (order', [])) :
    order = order' := by
  have stable (more : Nat) : serve next more order [] = (order, []) := by cases more <;> rfl
  have stable' (more : Nat) : serve next more order' [] = (order', []) := by cases more <;> rfl
  have left : serve next (first + second) served queue = _ := serve_add first second served queue
  have right : serve next (second + first) served queue = _ := serve_add second first served queue
  rw [run, stable] at left
  rw [run', stable'] at right
  rw [Nat.add_comm, left] at right
  exact (Prod.mk.inj right).1

end Serve

section Queue

variable {succ : α → List α} {root : α} {served queue : List α}

structure Pending (succ : α → List α) (root : α) (served queue : List α) : Prop where
  begun : served = [] ∧ queue = [root] ∨ root ∈ served
  counts : ∀ x, x ∉ served → x ≠ root → queue.count x = (served.flatMap succ).count x

theorem Pending.start : Pending succ root [] [root] where
  begun := Or.inl ⟨rfl, rfl⟩
  counts := fun x _ different => by simp [List.count_eq_zero.mpr, different]

theorem Pending.next {node : α} {rest : List α} (pending : Pending succ root served (node :: rest)) :
    Pending succ root (served ++ [node]) (rest ++ unserved succ served node rest) where
  begun := by
    rcases pending.begun with ⟨-, first⟩ | inside
    · exact Or.inr (by simp [(List.cons.inj first).1])
    · exact Or.inr (List.mem_append_left _ inside)
  counts := by
    intro x outside different
    have old : x ∉ served := fun inside => outside (List.mem_append_left _ inside)
    have other : node ≠ x := fun same => outside (by simp [same])
    have counts := pending.counts x old different
    rw [List.count_cons_of_ne other] at counts
    rw [List.flatMap_append, List.count_append, List.count_append, counts, unserved,
      List.count_filter (by simpa using outside)]
    simp

theorem Pending.count_le (pending : Pending succ root served queue) (nodup : (served ++ queue).Nodup) {x : α}
    (outside : x ∉ served) : (served.flatMap succ).count x ≤ 1 := by
  by_cases same : x = root
  · rcases pending.begun with ⟨empty, -⟩ | inside
    · simp [empty]
    · exact absurd (same ▸ inside) outside
  · rw [← pending.counts x outside same]
    exact List.nodup_iff_count_le_one.mp nodup.of_append_right x

theorem undiscovered_eq {node : α} {rest : List α}
    (nodup : (served ++ node :: rest ++ unserved succ served node rest).Nodup) :
    undiscovered succ served node rest = unserved succ served node rest := by
  have apart := List.disjoint_of_nodup_append nodup
  refine discover_eq_filter ?_ ?_ nodup.of_append_right
  · intro x inside
    rcases List.mem_append.mp inside with old | same
    · simp [old]
    · simp [List.mem_singleton.mp same]
  · intro x target outside seen
    exact apart seen (List.mem_filter.mpr ⟨target, by simpa using outside⟩)

/-- If no node is served twice then each was queued once, and served in breadth-first order. -/
theorem serve_undiscovered {steps : Nat} {order : List α}
    (run : serve (unserved succ) steps served queue = (order, [])) (nodup : order.Nodup) :
    serve (undiscovered succ) steps served queue = (order, []) := by
  induction steps generalizing served queue with
  | zero => exact run
  | succ steps ih =>
      cases queue with
      | nil => exact run
      | cons node rest =>
          rw [serve] at run ⊢
          obtain ⟨later, shape⟩ := serve_append steps run
          have whole : (served ++ node :: rest ++ unserved succ served node rest ++ later).Nodup := by
            rw [List.append_nil] at shape
            simpa [shape] using nodup
          rw [undiscovered_eq whole.of_append_left]
          exact ih run

theorem single_of_nodup {steps : Nat} {order : List α} (pending : Pending succ root served queue)
    (run : serve (unserved succ) steps served queue = (order, [])) (nodup : order.Nodup)
    (before : List α) (x : α) (after : List α) (split : order = before ++ x :: after)
    (long : served.length ≤ before.length) : (before.flatMap succ).count x ≤ 1 := by
  induction steps generalizing served queue with
  | zero =>
      obtain ⟨rfl, -⟩ := Prod.mk.inj run
      have := congrArg List.length split
      simp at this
      omega
  | succ steps ih =>
      cases queue with
      | nil =>
          obtain ⟨rfl, -⟩ := Prod.mk.inj run
          have := congrArg List.length split
          simp at this
          omega
      | cons node rest =>
          obtain ⟨later, shape⟩ := serve_append (steps + 1) run
          rw [List.append_nil] at shape
          rw [serve] at run
          by_cases now : served.length = before.length
          · have same : served = before ∧ (node :: rest) ++ later = x :: after := by
              refine List.append_inj ?_ now
              rw [← split, shape, List.append_assoc]
            obtain ⟨rfl, heads⟩ := same
            have nodup' : (served ++ node :: rest).Nodup := by
              rw [shape] at nodup
              exact nodup.of_append_left
            refine pending.count_le nodup' fun inside => ?_
            rw [split] at nodup
            exact List.disjoint_of_nodup_append nodup inside (by simp)
          · exact ih pending.next run (by simp; omega)

theorem undiscovered_nodup {node : α} {rest : List α} (nodup : (served ++ node :: rest).Nodup) :
    (served ++ [node] ++ (rest ++ undiscovered succ served node rest)).Nodup := by
  have shape : served ++ [node] ++ (rest ++ undiscovered succ served node rest) =
      served ++ node :: rest ++ undiscovered succ served node rest := by simp
  rw [shape]
  refine List.Nodup.append nodup (discover_nodup _ _) fun x seen new => ?_
  exact (mem_discover.mp new).2 seen

theorem serve_undiscovered_nodup {steps : Nat} {order left : List α} (nodup : (served ++ queue).Nodup)
    (run : serve (undiscovered succ) steps served queue = (order, left)) : (order ++ left).Nodup := by
  induction steps generalizing served queue with
  | zero =>
      obtain ⟨rfl, rfl⟩ := Prod.mk.inj run
      exact nodup
  | succ steps ih =>
      cases queue with
      | nil =>
          obtain ⟨rfl, rfl⟩ := Prod.mk.inj run
          exact nodup
      | cons node rest => exact ih (undiscovered_nodup nodup) run

theorem serve_undiscovered_ends {V : Finset α} (edges : ∀ a ∈ V, ∀ x ∈ succ a, x ∈ V) {steps : Nat}
    (nodup : (served ++ queue).Nodup) (inside : ∀ x ∈ served ++ queue, x ∈ V) (enough : V.card ≤ served.length + steps) :
    ∃ order, serve (undiscovered succ) steps served queue = (order, []) := by
  induction steps generalizing served queue with
  | zero =>
      have part : (served ++ queue).toFinset ⊆ V := fun x member => inside x (List.mem_toFinset.mp member)
      have card := Finset.card_le_card part
      rw [List.toFinset_card_of_nodup nodup, List.length_append] at card
      have empty : queue = [] := List.eq_nil_of_length_eq_zero (by omega)
      exact ⟨served, by rw [serve, empty]⟩
  | succ steps ih =>
      cases queue with
      | nil => exact ⟨served, rfl⟩
      | cons node rest =>
          refine ih (undiscovered_nodup nodup) (fun x member => ?_) (by simp; omega)
          have known : x ∈ served ++ node :: rest ∨ x ∈ undiscovered succ served node rest := by
            simp only [List.mem_append, List.mem_cons, List.not_mem_nil, or_false] at member ⊢
            tauto
          rcases known with old | new
          · exact inside x old
          · exact edges node (inside node (by simp)) x (mem_discover.mp new).1

theorem serve_unserved {steps : Nat} {order : List α} (pending : Pending succ root served queue)
    (nodup : (served ++ queue).Nodup) (run : serve (undiscovered succ) steps served queue = (order, []))
    (single : SingleEntry succ order) : serve (unserved succ) steps served queue = (order, []) := by
  induction steps generalizing served queue with
  | zero => exact run
  | succ steps ih =>
      cases queue with
      | nil => exact run
      | cons node rest =>
          have pending' := pending.next
          rw [serve] at run ⊢
          have same : undiscovered succ served node rest = unserved succ served node rest := by
            refine undiscovered_eq (List.nodup_iff_count_le_one.mpr fun x => ?_)
            have split : served ++ node :: rest ++ unserved succ served node rest =
                (served ++ [node]) ++ (rest ++ unserved succ served node rest) := by simp
            by_cases outside : x ∈ served ++ [node]
            · have none : (unserved succ served node rest).count x = 0 :=
                List.count_eq_zero.mpr fun inside => by
                  have := (List.mem_filter.mp inside).2
                  simp [outside] at this
              rw [List.count_append, none]
              exact List.nodup_iff_count_le_one.mp nodup x
            · rw [split, List.count_append, List.count_eq_zero.mpr outside, Nat.zero_add]
              by_cases waits : x ∈ rest ++ undiscovered succ served node rest
              · -- the search is going to serve it, and what is before it holds all these edges
                obtain ⟨first, second, shape⟩ := List.append_of_mem waits
                obtain ⟨later, whole⟩ := serve_append steps run
                have bound := single (served ++ [node] ++ first) x (second ++ later) (by
                  rw [List.append_nil, shape] at whole
                  simp [whole])
                rw [List.flatMap_append, List.count_append] at bound
                have different : x ≠ root := by
                  rintro rfl
                  rcases pending'.begun with ⟨empty, -⟩ | inside
                  · simp at empty
                  · exact outside inside
                rw [pending'.counts x outside different]
                omega
              · rw [List.mem_append, not_or] at waits
                refine (List.count_eq_zero.mpr fun inside => ?_).le.trans (Nat.zero_le 1)
                rcases List.mem_append.mp inside with old | new
                · exact waits.1 old
                · refine waits.2 (mem_discover.mpr ⟨(List.mem_filter.mp new).1, ?_⟩)
                  simp only [List.mem_append, List.mem_cons, List.not_mem_nil, or_false, not_or] at outside ⊢
                  exact ⟨outside.1, outside.2, waits.1⟩
          rw [same] at run
          exact ih pending' (same ▸ undiscovered_nodup nodup) run

theorem serve_unserved_edges {steps : Nat} {order left : List α}
    (run : serve (unserved succ) steps served queue = (order, left)) :
    order.length + left.length + (served.flatMap succ).length ≤
      served.length + queue.length + (order.flatMap succ).length := by
  induction steps generalizing served queue with
  | zero =>
      obtain ⟨rfl, rfl⟩ := Prod.mk.inj run
      omega
  | succ steps ih =>
      cases queue with
      | nil =>
          obtain ⟨rfl, rfl⟩ := Prod.mk.inj run
          omega
      | cons node rest =>
          have later := ih run
          have few : (unserved succ served node rest).length ≤ (succ node).length := List.length_filter_le _ _
          simp only [List.flatMap_append, List.length_append, List.length_cons, List.flatMap_cons, List.flatMap_nil,
            List.length_nil, Nat.add_zero] at later ⊢
          omega

end Queue

def log (succ : α → List α) : Nat → (α → Bool) → List α → List α × List α
  | 0, _, _ => ([], [])
  | fuel + 1, marked, black =>
      if black = [] then ([], [])
      else
        let (marked, gray) := wave succ marked black
        let (visited, queued) := log succ fuel marked gray
        (black ++ visited, gray ++ queued)

section Log

variable {succ : α → List α} {V : Finset α} {root : α} {marked : α → Bool} {black : List α}

theorem log_visited {fuel : Nat} {marked' : α → Bool} (run : waves succ fuel marked black = some marked') :
    (log succ fuel marked black).1 = black ++ (log succ fuel marked black).2 := by
  induction fuel generalizing marked black with
  | zero =>
      rw [waves] at run
      split at run
      · rename_i empty
        rw [empty]
        rfl
      · cases run
  | succ fuel ih =>
      rw [waves] at run
      rw [log]
      by_cases empty : black = []
      · rw [if_pos empty, empty]
        rfl
      · rw [if_neg empty] at run ⊢
        exact congrArg (black ++ ·) (ih run)

variable (edges : ∀ a ∈ V, ∀ x ∈ succ a, x ∈ V)

include edges

theorem serve_unserved_inside {steps : Nat} {served queue order left : List α} (inside : ∀ x ∈ served ++ queue, x ∈ V)
    (run : serve (unserved succ) steps served queue = (order, left)) : ∀ x ∈ order ++ left, x ∈ V := by
  induction steps generalizing served queue with
  | zero =>
      obtain ⟨rfl, rfl⟩ := Prod.mk.inj run
      exact inside
  | succ steps ih =>
      cases queue with
      | nil =>
          obtain ⟨rfl, rfl⟩ := Prod.mk.inj run
          exact inside
      | cons node rest =>
          refine ih (fun x member => ?_) run
          have known : x ∈ served ++ node :: rest ∨ x ∈ unserved succ served node rest := by
            simp only [List.mem_append, List.mem_cons, List.not_mem_nil, or_false] at member ⊢
            tauto
          rcases known with old | new
          · exact inside x old
          · exact edges node (inside node (by simp)) x (List.mem_filter.mp new).1

theorem visit_serve {served : List α} (gray : List α) {node : α} (inside : node ∈ V)
    (agree : ∀ x ∈ V, marked x = true ↔ x ∈ served) :
    (visit succ (marked, gray) node).2 = gray ++ unserved succ served node gray ∧
      ∀ x ∈ V, (visit succ (marked, gray) node).1 x = true ↔ x ∈ served ++ [node] := by
  have after (x : α) (known : x ∈ V) : (visit succ (marked, gray) node).1 x = true ↔ x ∈ served ++ [node] := by
    by_cases same : x = node
    · simp [visit, same]
    · simp [visit, same, agree x known]
  refine ⟨?_, after⟩
  simp only [visit, unserved, List.append_cancel_left_eq]
  refine List.filter_congr fun x target => ?_
  have known := after x (edges node inside x target)
  simp only [visit] at known
  rw [Bool.eq_iff_iff, decide_eq_true_iff, ← known]
  simp

theorem foldl_visit_serve {served : List α} (gray : List α) (inside : ∀ x ∈ black, x ∈ V)
    (agree : ∀ x ∈ V, marked x = true ↔ x ∈ served) :
    serve (unserved succ) black.length served (black ++ gray) =
        (served ++ black, (black.foldl (visit succ) (marked, gray)).2) ∧
      ∀ x ∈ V, (black.foldl (visit succ) (marked, gray)).1 x = true ↔ x ∈ served ++ black := by
  induction black generalizing marked served gray with
  | nil => simpa [serve] using agree
  | cons node rest ih =>
      obtain ⟨gray', agree'⟩ := visit_serve edges gray (inside node (by simp)) agree
      obtain ⟨served', agree''⟩ := ih (gray ++ unserved succ served node gray)
        (fun x member => inside x (List.mem_cons_of_mem _ member)) agree'
      have state : visit succ (marked, gray) node =
          ((visit succ (marked, gray) node).1, gray ++ unserved succ served node gray) := by rw [← gray']
      rw [List.foldl_cons, state]
      refine ⟨?_, by simpa using agree''⟩
      have shape : rest ++ (gray ++ unserved succ served node gray) = rest ++ gray ++ unserved succ served node (rest ++ gray) := by
        rw [List.append_assoc]
        rfl
      rw [shape] at served'
      simpa [serve] using served'

theorem log_serve {fuel : Nat} {served : List α} {marked' : α → Bool} (inside : ∀ x ∈ black, x ∈ V)
    (agree : ∀ x ∈ V, marked x = true ↔ x ∈ served) (run : waves succ fuel marked black = some marked') :
    ∃ steps, serve (unserved succ) steps served black = (served ++ (log succ fuel marked black).1, []) := by
  induction fuel generalizing marked black served with
  | zero =>
      rw [waves] at run
      split at run
      · rename_i empty
        exact ⟨0, by simp [serve, log, empty]⟩
      · cases run
  | succ fuel ih =>
      rw [waves] at run
      by_cases empty : black = []
      · exact ⟨0, by simp [serve, log, empty]⟩
      · rw [if_neg empty] at run
        obtain ⟨first, agree'⟩ := foldl_visit_serve edges [] inside agree
        have next (x : α) (member : x ∈ (wave succ marked black).2) : x ∈ V := by
          obtain ⟨-, b, known, edge⟩ := wave_gray succ marked black x member
          exact edges b (inside b known) x edge
        obtain ⟨steps, rest⟩ := ih next agree' run
        refine ⟨black.length + steps, ?_⟩
        rw [List.append_nil] at first
        rw [serve_add, first, log, if_neg empty]
        rw [List.append_assoc] at rest
        exact rest

/-- From the root, each node is visited once exactly if no node has two edges into it from nodes before it in
breadth-first order, and then no more nodes are queued than there are edges. -/
theorem log_nodup_iff (rootIn : root ∈ V) (initial : ∀ x ∈ V, marked x = true → x = root) {fuel : Nat}
    (enough : V.card < fuel) :
    ((log succ (fuel + 1) marked [root]).1.Nodup ↔ SingleEntry succ (breadthFirst succ V.card root)) ∧
      ((log succ (fuel + 1) marked [root]).1.Nodup →
        (log succ (fuel + 1) marked [root]).2.length ≤ ∑ a ∈ V, (succ a).length) := by
  obtain ⟨marked', run, -⟩ := waves_reachable edges rootIn initial fuel enough
  have visited := log_visited run
  obtain ⟨order, search⟩ : ∃ order, serve (undiscovered succ) V.card [] [root] = (order, []) :=
    serve_undiscovered_ends edges (by simp) (by simpa using rootIn) (by simp)
  have searched : breadthFirst succ V.card root = order := by rw [breadthFirst, search]
  have first (x : α) (known : x ∈ V) : Function.update marked root true x = true ↔ x ∈ [root] := by
    by_cases same : x = root
    · simp [same]
    · simpa [same] using fun isMarked => same (initial x known isMarked)
  obtain ⟨steps, served⟩ : ∃ steps, serve (unserved succ) steps [] [root] =
      ((log succ (fuel + 1) marked [root]).1, []) := by
    have gray : (wave succ marked [root]).2 = unserved succ [] root [] :=
      List.filter_congr fun x target => by
        rw [Bool.eq_iff_iff, decide_eq_true_iff, List.nil_append, ← first x (edges root rootIn x target)]
        simp
    have next (x : α) (member : x ∈ (wave succ marked [root]).2) : x ∈ V := by
      rw [gray] at member
      exact edges root rootIn x (List.mem_filter.mp member).1
    rw [waves, if_neg (List.cons_ne_nil _ _)] at run
    obtain ⟨steps, rest⟩ := log_serve edges next first run
    refine ⟨steps + 1, ?_⟩
    rw [serve, List.nil_append, List.nil_append, ← gray, rest]
    rfl
  refine ⟨⟨fun nodup => ?_, fun single => ?_⟩, fun nodup => ?_⟩
  · have same := serve_done (serve_undiscovered served nodup) search
    rw [searched, ← same]
    exact fun before x after split => single_of_nodup .start served nodup before x after split (Nat.zero_le _)
  · rw [searched] at single
    have same := serve_done served (serve_unserved .start (by simp) search single)
    have distinct := serve_undiscovered_nodup (by simp) search
    rw [List.append_nil] at distinct
    rwa [same]
  · have counted := serve_unserved_edges served
    have part : (log succ (fuel + 1) marked [root]).1.toFinset ⊆ V := fun x member =>
      serve_unserved_inside edges (by simpa using rootIn) served x (by simpa using member)
    have sum : ((log succ (fuel + 1) marked [root]).1.flatMap succ).length ≤ ∑ a ∈ V, (succ a).length := by
      rw [List.length_flatMap, ← List.sum_toFinset _ nodup]
      exact Finset.sum_le_sum_of_subset part
    rw [visited] at counted sum
    simp only [List.length_append, List.length_cons, List.length_nil, List.flatMap_nil] at counted
    omega

end Log

end Waves
