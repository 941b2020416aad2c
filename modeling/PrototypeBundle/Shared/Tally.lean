import PrototypeBundle.Shared.Countdown

set_option autoImplicit false

/-!
# What a program knows of its batches

A program has the items it holds and the counters. An item may be lost: it was started, but its
counter never goes down for it.
-/

namespace Countdown

variable {α : Type}

def Batch.bare (count : Nat) : Batch α := ⟨count, [], Nat.zero_le _⟩

structure Tally (α : Type) where
  waiting : Multiset (Item α)
  running : Multiset (Item α)
  unresolved : List UInt64

inductive Entry (α : Type) where
  | event (event : Event α)
  | lose (item : Item α)

structure Ledger (α : Type) where
  board : Board α
  lost : List (Item α)

def Ledger.empty : Ledger α := ⟨.empty, []⟩

def Ledger.step [DecidableEq α] (ledger : Ledger α) : Entry α → Option (Ledger α)
  | .event event => (ledger.board.step event).map fun board => { ledger with board }
  | .lose item => some { ledger with lost := ledger.lost ++ [item] }

def events (entries : List (Entry α)) : List (Event α) :=
  entries.filterMap fun
    | .event event => some event
    | .lose _ => none

def losses (entries : List (Entry α)) : List (Item α) :=
  entries.filterMap fun
    | .event _ => none
    | .lose item => some item

/-- What one step of a program may do to its items and counters. -/
inductive Effect : Tally α → Tally α → List (Entry α) → Prop where
  | quiet (tally : Tally α) : Effect tally tally []
  | issue (tally : Tally α) (batch : Batch α) (fits : batch.count < 2 ^ 64) :
      Effect tally
        { tally with
          waiting := tally.waiting + (batch.entries tally.unresolved.length : Multiset (Item α))
          unresolved := tally.unresolved ++ [UInt64.ofNat batch.count] }
        [.event (.issue batch)]
  | start (item : Item α) (waiting running : Multiset (Item α)) (unresolved : List UInt64) :
      Effect ⟨item ::ₘ waiting, running, unresolved⟩ ⟨waiting, item ::ₘ running, unresolved⟩ [.event (.start item)]
  | finish (item : Item α) (waiting running : Multiset (Item α)) (unresolved : List UInt64) :
      Effect ⟨waiting, item ::ₘ running, unresolved⟩ ⟨waiting, running, unresolved.modify item.batch (· - 1)⟩
        [.event (.finish item)]
  | lose (item : Item α) (waiting running : Multiset (Item α)) (unresolved : List UInt64) :
      Effect ⟨waiting, item ::ₘ running, unresolved⟩ ⟨waiting, running, unresolved⟩ [.lose item]

theorem Effect.frame {tally after : Tally α} {entries : List (Entry α)} (effect : Effect tally after entries)
    (waiting running : Multiset (Item α)) :
    Effect ⟨tally.waiting + waiting, tally.running + running, tally.unresolved⟩
      ⟨after.waiting + waiting, after.running + running, after.unresolved⟩ entries := by
  cases effect with
  | quiet => exact .quiet _
  | issue _ batch fits =>
      rw [add_right_comm]
      exact .issue ⟨tally.waiting + waiting, tally.running + running, tally.unresolved⟩ batch fits
  | start item =>
      simp only [Multiset.cons_add]
      exact .start ..
  | finish item =>
      simp only [Multiset.cons_add]
      exact .finish ..
  | lose item =>
      simp only [Multiset.cons_add]
      exact .lose ..

structure Tally.Matches (tally : Tally α) (ledger : Ledger α) : Prop where
  inv : ledger.board.Inv
  waiting : ledger.board.waiting = tally.waiting
  running : ledger.board.running = tally.running + (ledger.lost : Multiset (Item α))
  tokens : tally.unresolved.length = ledger.board.issued.length
  counters : ∀ number batch unresolved, ledger.board.issued[number]? = some batch →
    tally.unresolved[number]? = some unresolved → unresolved.toNat = ledger.board.left number batch

section Matches

variable {tally after : Tally α} {ledger : Ledger α}

theorem Tally.Matches.issue (related : tally.Matches ledger) (batch : Batch α) (fits : batch.count < 2 ^ 64)
    [DecidableEq α] :
    ∃ board, ledger.board.step (.issue batch) = some board ∧
      Tally.Matches
        { tally with
          waiting := tally.waiting + (batch.entries tally.unresolved.length : Multiset (Item α))
          unresolved := tally.unresolved ++ [UInt64.ofNat batch.count] }
        { ledger with board } := by
  refine ⟨_, rfl, ?_⟩
  constructor
  · exact related.inv.step_inv (show ledger.board.step (.issue batch) = _ from rfl)
  · simp only [related.waiting, related.tokens]
  · exact related.running
  · simp only [List.length_append, List.length_singleton, related.tokens]
  · intro number other unresolved issued counter
    simp only at issued counter
    by_cases old : number < ledger.board.issued.length
    · rw [List.getElem?_append_left old] at issued
      rw [List.getElem?_append_left (related.tokens ▸ old)] at counter
      exact related.counters number other unresolved issued counter
    · have last := (List.getElem?_eq_some_iff.mp issued).1
      have same : number = ledger.board.issued.length := by
        rw [List.length_append, List.length_singleton] at last
        omega
      subst same
      rw [← related.tokens] at counter
      simp only [List.getElem?_concat_length, Option.some.injEq] at issued counter
      subst issued counter
      rw [UInt64.toNat_ofNat_of_lt' fits]
      exact (congrArg (batch.count - ·) related.inv.ended_fresh).symm

theorem Tally.Matches.start [DecidableEq α] {item : Item α} {waiting running : Multiset (Item α)}
    {unresolved : List UInt64} (related : Tally.Matches ⟨item ::ₘ waiting, running, unresolved⟩ ledger) :
    ∃ board, ledger.board.step (.start item) = some board ∧
      Tally.Matches ⟨waiting, item ::ₘ running, unresolved⟩ { ledger with board } := by
  have member : item ∈ ledger.board.waiting := by
    rw [related.waiting]
    exact Multiset.mem_cons_self ..
  refine ⟨_, Board.step_start member, ?_⟩
  constructor
  · exact related.inv.step_inv (Board.step_start member)
  · change ledger.board.waiting.erase item = waiting
    rw [related.waiting, Multiset.erase_cons_head]
  · change item ::ₘ ledger.board.running = _
    rw [related.running, Multiset.cons_add]
  · exact related.tokens
  · exact related.counters

theorem Tally.Matches.finish [DecidableEq α] {item : Item α} {waiting running : Multiset (Item α)}
    {unresolved : List UInt64} (related : Tally.Matches ⟨waiting, item ::ₘ running, unresolved⟩ ledger) :
    ∃ board, ledger.board.step (.finish item) = some board ∧
      Tally.Matches ⟨waiting, running, unresolved.modify item.batch (· - 1)⟩ { ledger with board } := by
  have member : item ∈ ledger.board.running := by
    rw [related.running, Multiset.cons_add]
    exact Multiset.mem_cons_self ..
  refine ⟨_, Board.step_finish member, ?_⟩
  constructor
  · exact related.inv.step_inv (Board.step_finish member)
  · exact related.waiting
  · change ledger.board.running.erase item = _
    rw [related.running, Multiset.cons_add, Multiset.erase_cons_head]
  · exact (List.length_modify ..).trans related.tokens
  · intro number batch left issued counter
    change (unresolved.modify item.batch (· - 1))[number]? = some left at counter
    change left.toNat = batch.count - (ledger.board.finished ++ [item]).countP (·.batch = number)
    rw [countP_concat]
    change left.toNat = batch.count - (ledger.board.ended number + _)
    by_cases same : item.batch = number
    · -- the item is still running, so that its counter is not zero yet
      subst same
      have room := related.inv.ended_lt member issued
      rw [List.getElem?_modify_eq, Option.map_eq_map, Option.map_eq_some_iff] at counter
      obtain ⟨old, counter, rfl⟩ := counter
      have value := related.counters item.batch batch old issued counter
      have positive : (1 : UInt64) ≤ old := by
        rw [UInt64.le_iff_toNat_le, value]
        change 1 ≤ batch.count - ledger.board.ended item.batch
        omega
      rw [UInt64.toNat_sub_of_le _ _ positive, value, Board.left, if_pos rfl]
      change _ - 1 = _
      omega
    · rw [List.getElem?_modify_ne (· - 1) unresolved same] at counter
      rw [if_neg same, Nat.add_zero]
      exact related.counters number batch left issued counter

theorem Effect.matched [DecidableEq α] {entries : List (Entry α)} (effect : Effect tally after entries)
    (related : tally.Matches ledger) :
    ∃ ledger', Runs.exec Ledger.step ledger entries = some ledger' ∧ after.Matches ledger' := by
  have one {event : Event α} {reached : Tally α}
      (stepped : ∃ board, ledger.board.step event = some board ∧ reached.Matches { ledger with board }) :
      ∃ ledger', Runs.exec Ledger.step ledger [.event event] = some ledger' ∧ reached.Matches ledger' := by
    obtain ⟨board, taken, related⟩ := stepped
    exact ⟨_, by simp [Runs.exec, Ledger.step, taken], related⟩
  cases effect with
  | quiet => exact ⟨ledger, rfl, related⟩
  | issue _ batch fits => exact one (related.issue batch fits)
  | start item waiting running unresolved => exact one related.start
  | finish item waiting running unresolved => exact one related.finish
  | lose item =>
      refine ⟨_, rfl, ?_⟩
      constructor
      · exact related.inv
      · exact related.waiting
      · change ledger.board.running = _ + ↑(ledger.lost ++ [item])
        rw [related.running, ← Multiset.coe_add, Multiset.coe_singleton, Multiset.cons_add, ← Multiset.singleton_add]
        abel
      · exact related.tokens
      · exact related.counters

end Matches

theorem Ledger.exec_events [DecidableEq α] {ledger final : Ledger α} {history : List (Entry α)}
    (run : Runs.exec Ledger.step ledger history = some final) :
    Runs.exec Board.step ledger.board (events history) = some final.board ∧ final.lost = ledger.lost ++ losses history := by
  induction history generalizing ledger with
  | nil =>
      obtain rfl := Option.some.inj run
      exact ⟨rfl, (List.append_nil _).symm⟩
  | cons entry rest ih =>
      obtain ⟨next, taken, run⟩ := Runs.exec_cons.mp run
      obtain ⟨later, lost⟩ := ih run
      cases entry with
      | event event =>
          obtain ⟨board, stepped, rfl⟩ := Option.map_eq_some_iff.mp taken
          exact ⟨Runs.exec_cons.mpr ⟨board, stepped, later⟩, lost⟩
      | lose item =>
          obtain rfl := Option.some.inj taken
          exact ⟨later, by rw [lost, List.append_assoc]; rfl⟩

/-- The counters, and what happened to the items, at the end of a history. -/
theorem Tally.Matches.accounted [DecidableEq α] {tally : Tally α} {final : Ledger α} {history : List (Entry α)}
    (run : Runs.exec Ledger.step .empty history = some final) (related : tally.Matches final) :
    (started (events history)).Nodup ∧
      ∀ number batch, (issued (events history))[number]? = some batch → ∃ unresolved,
        tally.unresolved[number]? = some unresolved ∧
          unresolved.toNat + (finished (events history)).countP (·.batch = number) = batch.count ∧
          (unresolved = 0 → (batch.entries number).Perm ((finished (events history)).filter (·.batch = number)) ∧
            (batch.entries number).Perm ((started (events history)).filter (·.batch = number))) ∧
          ∀ item ∈ losses history, item.batch = number → unresolved ≠ 0 := by
  obtain ⟨driven, lost⟩ := Ledger.exec_events run
  obtain ⟨issued, started, finished⟩ := Board.exec_history driven
  simp only [Ledger.empty, Board.empty, List.nil_append] at issued started finished lost
  refine ⟨started ▸ related.inv.started_nodup, fun number batch found => ?_⟩
  rw [← issued] at found
  rw [← started, ← finished, ← lost]
  have bound := (List.getElem?_eq_some_iff.mp found).1
  rw [← related.tokens] at bound
  have value := related.counters number batch _ found (List.getElem?_eq_getElem bound)
  have below := related.inv.ended_le found
  refine ⟨_, List.getElem?_eq_getElem bound, ?_, ?_, ?_⟩
  · rw [value]
    exact Nat.sub_add_cancel below
  · intro zero
    refine related.inv.all_ended found ?_
    rw [zero] at value
    have none : (0 : UInt64).toNat = 0 := rfl
    rw [none, Board.left] at value
    omega
  · rintro item member rfl zero
    have running : item ∈ final.board.running := by
      rw [related.running]
      exact Multiset.mem_add.mpr (.inr (Multiset.mem_coe.mpr member))
    have room := related.inv.ended_lt running found
    rw [zero] at value
    have none : (0 : UInt64).toNat = 0 := rfl
    rw [none, Board.left] at value
    omega

theorem Tally.Matches.held [DecidableEq α] {tally : Tally α} {final : Ledger α} {history : List (Entry α)}
    (run : Runs.exec Ledger.step .empty history = some final) (related : tally.Matches final) {number : Nat}
    {batch : Batch α} (found : (issued (events history))[number]? = some batch) {unresolved : UInt64}
    (counter : tally.unresolved[number]? = some unresolved) :
    unresolved.toNat = batch.count - batch.items.length + (tally.waiting.countP (·.batch = number) +
      tally.running.countP (·.batch = number) + (losses history).countP (·.batch = number)) := by
  obtain ⟨driven, lost⟩ := Ledger.exec_events run
  obtain ⟨known, -⟩ := Board.exec_history driven
  simp only [Ledger.empty, Board.empty, List.nil_append] at known lost
  rw [← known] at found
  have value := related.counters number batch unresolved found counter
  have total := related.inv.ended_add found
  have enough := batch.enough
  rw [related.waiting, related.running, lost, Multiset.filter_add, Multiset.card_add, ← Multiset.countP_eq_card_filter,
    ← Multiset.countP_eq_card_filter, ← Multiset.countP_eq_card_filter, Multiset.coe_countP] at total
  rw [value, Board.left]
  omega

end Countdown
