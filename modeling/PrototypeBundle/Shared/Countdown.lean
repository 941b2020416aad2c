import Mathlib.Algebra.Order.Group.Multiset
import Mathlib.Data.List.Induction
import Mathlib.Tactic.Abel
import PrototypeBundle.Shared.Run

set_option autoImplicit false

/-!
# Batches of work under counters

A batch of items is handed over together with a counter. Each item is started
once, and the counter goes down by one when an item is finished.
-/

namespace Countdown

variable {α : Type}

/-- The counter starts no lower than the number of items. -/
structure Batch (α : Type) where
  count : Nat
  items : List α
  enough : items.length ≤ count

structure Item (α : Type) where
  batch : Nat
  index : Nat
  content : α
deriving DecidableEq

inductive Event (α : Type) where
  | issue (batch : Batch α)
  | start (item : Item α)
  | finish (item : Item α)

structure Board (α : Type) where
  issued : List (Batch α)
  waiting : Multiset (Item α)
  running : Multiset (Item α)
  started : List (Item α)
  finished : List (Item α)

def Board.empty : Board α := ⟨[], 0, 0, [], []⟩

def Batch.entries (batch : Batch α) (number : Nat) : List (Item α) :=
  batch.items.mapIdx fun index content => ⟨number, index, content⟩

def entries (issued : List (Batch α)) : List (Item α) :=
  (issued.mapIdx fun number batch => batch.entries number).flatten

def Board.step [DecidableEq α] (board : Board α) : Event α → Option (Board α)
  | .issue batch =>
      some { board with
        issued := board.issued ++ [batch]
        waiting := board.waiting + batch.entries board.issued.length }
  | .start item =>
      if item ∈ board.waiting then
        some { board with
          waiting := board.waiting.erase item
          running := item ::ₘ board.running
          started := board.started ++ [item] }
      else none
  | .finish item =>
      if item ∈ board.running then
        some { board with
          running := board.running.erase item
          finished := board.finished ++ [item] }
      else none

def Board.ended (board : Board α) (number : Nat) : Nat := board.finished.countP (·.batch = number)

def Board.left (board : Board α) (number : Nat) (batch : Batch α) : Nat := batch.count - board.ended number

theorem Batch.entries_batch {batch : Batch α} {number : Nat} {item : Item α}
    (member : item ∈ batch.entries number) : item.batch = number := by
  obtain ⟨index, bound, rfl⟩ := List.mem_mapIdx.mp member
  rfl

theorem Batch.entries_nodup (batch : Batch α) (number : Nat) : (batch.entries number).Nodup := by
  apply List.Nodup.of_map Item.index
  have indices : (batch.entries number).map Item.index = List.range batch.items.length := by
    apply List.ext_getElem
    · simp [entries]
    · intro index _ _
      simp [entries]
  rw [indices]
  exact List.nodup_range

theorem Batch.entries_content (batch : Batch α) (number : Nat) :
    (batch.entries number).map Item.content = batch.items := by
  apply List.ext_getElem
  · simp [entries]
  · intro index _ _
    simp [entries]

theorem Batch.entries_length (batch : Batch α) (number : Nat) :
    (batch.entries number).length = batch.items.length := by
  simp [entries]

theorem entries_concat (issued : List (Batch α)) (batch : Batch α) :
    entries (issued ++ [batch]) = entries issued ++ batch.entries issued.length := by
  simp [entries]

theorem entries_bound {issued : List (Batch α)} {item : Item α} (member : item ∈ entries issued) :
    item.batch < issued.length := by
  obtain ⟨list, among, inside⟩ := List.mem_flatten.mp member
  obtain ⟨number, bound, rfl⟩ := List.mem_mapIdx.mp among
  rwa [Batch.entries_batch inside]

theorem entries_nodup (issued : List (Batch α)) : (entries issued).Nodup := by
  induction issued using List.reverseRecOn with
  | nil => exact List.nodup_nil
  | append_singleton issued batch ih =>
      rw [entries_concat]
      refine List.Nodup.append ih (batch.entries_nodup _) fun item earlier later => ?_
      have bound := entries_bound earlier
      rw [Batch.entries_batch later] at bound
      exact Nat.lt_irrefl _ bound

theorem entries_filter {issued : List (Batch α)} {number : Nat} {batch : Batch α}
    (found : issued[number]? = some batch) :
    (entries issued).filter (·.batch = number) = batch.entries number := by
  have own (other : Batch α) : (other.entries number).filter (·.batch = number) = other.entries number :=
    List.filter_eq_self.mpr fun item member => by simp [Batch.entries_batch member]
  have foreign (list : List (Item α)) (apart : ∀ item ∈ list, item.batch ≠ number) :
      list.filter (·.batch = number) = [] :=
    List.filter_eq_nil_iff.mpr fun item member => by simp [apart item member]
  induction issued using List.reverseRecOn with
  | nil => simp at found
  | append_singleton issued last ih =>
      rw [entries_concat, List.filter_append]
      by_cases inside : number < issued.length
      · rw [List.getElem?_append_left inside] at found
        have later := foreign (last.entries issued.length) fun item member => by
          rw [Batch.entries_batch member]; omega
        rw [ih found, later, List.append_nil]
      · have bound := (List.getElem?_eq_some_iff.mp found).1
        have same : number = issued.length := by simp at bound; omega
        subst same
        have earlier := foreign (entries issued) fun item member => Nat.ne_of_lt (entries_bound member)
        simp only [List.getElem?_concat_length, Option.some.injEq] at found
        rw [earlier, own, found, List.nil_append]

/-- Every item that was handed over is at exactly one place. -/
structure Board.Inv (board : Board α) : Prop where
  placed : board.waiting + board.running + board.finished = entries board.issued
  begun : (board.started : Multiset (Item α)) = board.running + board.finished

theorem Board.empty_inv : (Board.empty : Board α).Inv := ⟨rfl, rfl⟩

theorem Board.Inv.step_inv [DecidableEq α] {board : Board α} (inv : board.Inv) {event : Event α} {next : Board α}
    (taken : board.step event = some next) : next.Inv := by
  cases event with
  | issue batch =>
      obtain rfl := Option.some.inj taken
      constructor
      · simp only [entries_concat, ← Multiset.coe_add, ← inv.placed]
        abel
      · exact inv.begun
  | start item =>
      simp only [step, Option.ite_none_right_eq_some, Option.some.injEq] at taken
      obtain ⟨member, rfl⟩ := taken
      constructor
      · rw [← inv.placed, ← Multiset.cons_erase member]
        simp [Multiset.cons_add, Multiset.add_cons]
      · rw [← Multiset.coe_add, inv.begun, Multiset.coe_singleton, Multiset.cons_add, ← Multiset.singleton_add,
          add_comm]
  | finish item =>
      simp only [step, Option.ite_none_right_eq_some, Option.some.injEq] at taken
      obtain ⟨member, rfl⟩ := taken
      -- the finished item leaves `running` and joins `finished`
      have moved : board.running.erase item + ((board.finished ++ [item] : List (Item α)) : Multiset (Item α)) =
          board.running + board.finished := by
        conv_rhs => rw [← Multiset.cons_erase member]
        rw [← Multiset.coe_add, Multiset.coe_singleton, ← Multiset.singleton_add]
        abel
      constructor
      · simp only [add_assoc, moved]
        rw [← add_assoc, inv.placed]
      · rw [moved]
        exact inv.begun

section Inv

variable {board : Board α}

theorem Board.Inv.started_nodup (inv : board.Inv) : board.started.Nodup := by
  rw [← Multiset.coe_nodup, inv.begun]
  refine Multiset.nodup_of_le ?_ (Multiset.coe_nodup.mpr (entries_nodup board.issued))
  rw [← inv.placed, add_assoc]
  exact Multiset.le_add_left _ _

theorem Board.Inv.ended_fresh (inv : board.Inv) : board.ended board.issued.length = 0 := by
  refine List.countP_eq_zero.mpr fun item member => ?_
  have among : item ∈ (entries board.issued : Multiset (Item α)) := by
    rw [← inv.placed]
    simp [member]
  have bound := entries_bound (Multiset.mem_coe.mp among)
  simp only [decide_eq_true_eq]
  omega

theorem entries_mem {issued : List (Batch α)} {item : Item α} (member : item ∈ entries issued) :
    ∃ batch, issued[item.batch]? = some batch ∧ item ∈ batch.entries item.batch := by
  obtain ⟨list, among, inside⟩ := List.mem_flatten.mp member
  obtain ⟨number, bound, rfl⟩ := List.mem_mapIdx.mp among
  obtain rfl := Batch.entries_batch inside
  exact ⟨_, List.getElem?_eq_getElem bound, inside⟩

theorem mem_entries {issued : List (Batch α)} {number : Nat} {batch : Batch α} {item : Item α}
    (found : issued[number]? = some batch) (member : item ∈ batch.entries number) : item ∈ entries issued := by
  rw [← entries_filter found] at member
  exact (List.mem_filter.mp member).1

theorem Board.Inv.started_issued (inv : board.Inv) {item : Item α} (member : item ∈ board.started) :
    ∃ batch, board.issued[item.batch]? = some batch ∧ item ∈ batch.entries item.batch := by
  apply entries_mem
  rw [← Multiset.mem_coe, inv.begun] at member
  rw [← Multiset.mem_coe, ← inv.placed, add_assoc]
  exact Multiset.mem_add.mpr (.inr member)

theorem Board.Inv.waiting_or_started (inv : board.Inv) {number : Nat} {batch : Batch α} {item : Item α}
    (found : board.issued[number]? = some batch) (member : item ∈ batch.entries number) :
    item ∈ board.waiting ∨ item ∈ board.started := by
  have placed := mem_entries found member
  rw [← Multiset.mem_coe, ← inv.placed, add_assoc, ← inv.begun] at placed
  exact (Multiset.mem_add.mp placed).imp_right Multiset.mem_coe.mp

theorem Board.Inv.placed_filter (inv : board.Inv) {number : Nat} {batch : Batch α}
    (found : board.issued[number]? = some batch) :
    board.waiting.filter (·.batch = number) + board.running.filter (·.batch = number) +
      (board.finished.filter (·.batch = number) : List (Item α)) = (batch.entries number : Multiset (Item α)) := by
  rw [← entries_filter found, ← Multiset.filter_coe, ← Multiset.filter_coe, ← inv.placed, Multiset.filter_add,
    Multiset.filter_add]

theorem Board.Inv.ended_add (inv : board.Inv) {number : Nat} {batch : Batch α}
    (found : board.issued[number]? = some batch) :
    (board.waiting.filter (·.batch = number)).card + (board.running.filter (·.batch = number)).card +
      board.ended number = batch.items.length := by
  have total := congrArg Multiset.card (inv.placed_filter found)
  simpa [Board.ended, List.countP_eq_length_filter, Batch.entries_length] using total

theorem Board.Inv.ended_all (inv : board.Inv) {number : Nat} {batch : Batch α}
    (found : board.issued[number]? = some batch) (all : ∀ item ∈ batch.entries number, item ∈ board.finished) :
    board.ended number = batch.items.length := by
  have total := inv.ended_add found
  have subset : batch.entries number ⊆ board.finished.filter (·.batch = number) := fun item member =>
    List.mem_filter.mpr ⟨all item member, by simp [Batch.entries_batch member]⟩
  have fits := (List.subperm_of_subset (batch.entries_nodup number) subset).length_le
  rw [Batch.entries_length, ← List.countP_eq_length_filter] at fits
  change _ ≤ board.ended number at fits
  omega

theorem Board.Inv.ended_le (inv : board.Inv) {number : Nat} {batch : Batch α}
    (found : board.issued[number]? = some batch) : board.ended number ≤ batch.count := by
  have total := inv.ended_add found
  have enough := batch.enough
  omega

theorem Board.Inv.ended_lt (inv : board.Inv) {item : Item α} {batch : Batch α}
    (member : item ∈ board.running) (found : board.issued[item.batch]? = some batch) :
    board.ended item.batch < batch.count := by
  have total := inv.ended_add found
  have enough := batch.enough
  have some : 0 < (board.running.filter (·.batch = item.batch)).card :=
    Multiset.card_pos_iff_exists_mem.mpr ⟨item, Multiset.mem_filter.mpr ⟨member, by simp⟩⟩
  omega

theorem Board.Inv.all_ended (inv : board.Inv) {number : Nat} {batch : Batch α}
    (found : board.issued[number]? = some batch) (used : board.ended number = batch.count) :
    (batch.entries number).Perm (board.finished.filter (·.batch = number)) ∧
      (batch.entries number).Perm (board.started.filter (·.batch = number)) := by
  have total := inv.ended_add found
  have enough := batch.enough
  have noneWaiting : board.waiting.filter (·.batch = number) = 0 := Multiset.card_eq_zero.mp (by omega)
  have noneRunning : board.running.filter (·.batch = number) = 0 := Multiset.card_eq_zero.mp (by omega)
  have finished : (batch.entries number : Multiset (Item α)) = (board.finished.filter (·.batch = number) : List (Item α)) := by
    rw [← inv.placed_filter found, noneWaiting, noneRunning, zero_add, zero_add]
  refine ⟨Multiset.coe_eq_coe.mp finished, Multiset.coe_eq_coe.mp ?_⟩
  rw [finished, ← Multiset.filter_coe, ← Multiset.filter_coe, inv.begun, Multiset.filter_add, noneRunning, zero_add]

end Inv

theorem Board.step_start [DecidableEq α] {board : Board α} {item : Item α} (member : item ∈ board.waiting) :
    board.step (.start item) = some { board with
      waiting := board.waiting.erase item
      running := item ::ₘ board.running
      started := board.started ++ [item] } := if_pos member

theorem Board.step_finish [DecidableEq α] {board : Board α} {item : Item α} (member : item ∈ board.running) :
    board.step (.finish item) = some { board with
      running := board.running.erase item
      finished := board.finished ++ [item] } := if_pos member

theorem countP_concat (finished : List (Item α)) (item : Item α) (number : Nat) :
    (finished ++ [item]).countP (·.batch = number) =
      finished.countP (·.batch = number) + if item.batch = number then 1 else 0 := by
  rw [List.countP_append, List.countP_singleton]
  simp

theorem flatMap_set {α β : Type} (f : α → List β) {list : List α} {i : Nat} {old : α} (found : list[i]? = some old) :
    ∃ others : Multiset β, (list.flatMap f : Multiset β) = f old + others ∧
      ∀ new, ((list.set i new).flatMap f : Multiset β) = f new + others := by
  obtain ⟨bound, rfl⟩ := List.getElem?_eq_some_iff.mp found
  refine ⟨(list.take i).flatMap f + (list.drop (i + 1)).flatMap f, ?_, fun new => ?_⟩
  · conv_lhs => rw [← List.take_append_drop i list, List.drop_eq_getElem_cons bound]
    simp only [List.flatMap_append, List.flatMap_cons, ← Multiset.coe_add]
    abel
  · rw [List.set_eq_take_append_cons_drop, if_pos bound]
    simp only [List.flatMap_append, List.flatMap_cons, ← Multiset.coe_add]
    abel

def issued (history : List (Event α)) : List (Batch α) :=
  history.filterMap fun
    | .issue batch => some batch
    | _ => none

def started (history : List (Event α)) : List (Item α) :=
  history.filterMap fun
    | .start item => some item
    | _ => none

def finished (history : List (Event α)) : List (Item α) :=
  history.filterMap fun
    | .finish item => some item
    | _ => none

theorem Board.exec_history [DecidableEq α] {board final : Board α} {history : List (Event α)}
    (run : Runs.exec Board.step board history = some final) :
    final.issued = board.issued ++ Countdown.issued history ∧
      final.started = board.started ++ Countdown.started history ∧
      final.finished = board.finished ++ Countdown.finished history := by
  induction history generalizing board with
  | nil =>
      obtain rfl := Option.some.inj run
      simp [Countdown.issued, Countdown.started, Countdown.finished]
  | cons event rest ih =>
      obtain ⟨next, taken, run⟩ := Runs.exec_cons.mp run
      obtain ⟨issuedRest, startedRest, finishedRest⟩ := ih run
      cases event with
      | issue batch =>
          obtain rfl := Option.some.inj taken
          simp_all [Countdown.issued, Countdown.started, Countdown.finished]
      | start item =>
          simp only [step, Option.ite_none_right_eq_some, Option.some.injEq] at taken
          obtain ⟨_, rfl⟩ := taken
          simp_all [Countdown.issued, Countdown.started, Countdown.finished]
      | finish item =>
          simp only [step, Option.ite_none_right_eq_some, Option.some.injEq] at taken
          obtain ⟨_, rfl⟩ := taken
          simp_all [Countdown.issued, Countdown.started, Countdown.finished]

end Countdown
