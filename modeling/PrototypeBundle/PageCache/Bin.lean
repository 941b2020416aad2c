import PrototypeBundle.PageCache.Pages
import PrototypeBundle.Shared.Recency

set_option autoImplicit false

-- Each call holds the mutex of the bin.

namespace PrototypeBundle.PageCache

open Intrusive
open Recency (Call)

def Store.binCall (s : Store) (bin : Nat) : Call Page → Option (Store × Option Page)
  | .push p => (s.binPush bin p).map (·, none)
  | .pop => s.binPop bin
  | .detach p => (s.detach p).map (·, none)

def binStep (bin : Nat) (s : Store) (call : Call Page) : Option Store := (s.binCall bin call).map Prod.fst

def binEmit (bin : Nat) (s : Store) (call : Call Page) : List (Call Page × Option Page) :=
  ((s.binCall bin call).map fun result => (call, result.2)).toList

/-- The nodes from `head` on, in the order of `next`. -/
def Store.forward (s : Store) (bin fuel : Nat) : Option (List Node) := walk s.nextNode (.tail bin) fuel (.head bin)

/-- The nodes from `tail` on, in the order of `prev`. -/
def Store.backward (s : Store) (bin fuel : Nat) : Option (List Node) := walk s.prevNode (.head bin) fuel (.tail bin)

variable {s : Store} {bin : Nat} {list : List Page}

theorem BinList.traversals (strung : BinList s bin list) {fuel : Nat} (enough : list.length < fuel) :
    s.forward bin fuel = some (list.map .page) ∧ s.backward bin fuel = some (list.map .page).reverse := by
  have enough' : (list.map Node.page).length < fuel := by rwa [List.length_map]
  exact ⟨Strung.walk_forward strung (by simp) enough', Strung.walk_backward strung (by simp) enough'⟩

theorem BinList.call (strung : BinList s bin list) (distinct : list.Nodup) {call : Call Page}
    (allowed : Recency.Allowed list call) :
    ∃ next, s.binCall bin call = some (next, Recency.answer list call) ∧ BinList next bin (Recency.rest list call) := by
  cases call with
  | push p =>
      obtain ⟨next, run, strung', -⟩ := binPush_spec strung distinct allowed
      exact ⟨next, by rw [Store.binCall, run]; rfl, strung'⟩
  | pop =>
      cases list with
      | nil => exact ⟨s, binPop_nil strung, strung⟩
      | cons p list =>
          obtain ⟨next, run, strung', -⟩ := binPop_cons strung distinct
          exact ⟨next, run, strung'⟩
  | detach p =>
      obtain ⟨before, after, rfl⟩ := List.append_of_mem allowed
      obtain ⟨next, run, strung', -⟩ := detach_spec strung distinct
      have erased : (before ++ p :: after).erase p = before ++ after := by
        have first : p ∉ before := fun early => (List.nodup_append.mp distinct).2.2 p early p (by simp) rfl
        rw [List.erase_append_right _ first, List.erase_cons_head]
      refine ⟨next, by rw [Store.binCall, run]; rfl, ?_⟩
      rw [Recency.rest, erased]
      exact strung'

/-- A bin that was empty answers as a stack with removals, and its links lead through the pages of that stack. -/
theorem page_cache_bin_runs (empty : BinList s bin []) (calls : List (Call Page))
    (allowed : Runs.Along Recency.step Recency.Allowed [] calls) :
    Runs.trace (binStep bin) (binEmit bin) s calls = Runs.trace Recency.step Recency.emit [] calls ∧
      ∃ final list, Runs.exec (binStep bin) s calls = some final ∧ Runs.exec Recency.step [] calls = some list ∧
        list.Nodup ∧ (final.binPop bin).map Prod.snd = some list.head? ∧
        ∀ fuel, list.length < fuel →
          final.forward bin fuel = some (list.map .page) ∧ final.backward bin fuel = some (list.map .page).reverse := by
  have matched : ∀ s list call, BinList s bin list ∧ list.Nodup → Recency.Allowed list call →
      ∃ next next', binStep bin s call = some next ∧ Recency.step list call = some next' ∧
        (BinList next bin next' ∧ next'.Nodup) ∧ binEmit bin s call = Recency.emit list call := by
    rintro s list call ⟨strung, distinct⟩ holds
    obtain ⟨next, run, strung'⟩ := strung.call distinct holds
    refine ⟨next, _, by rw [binStep, run]; rfl, rfl, ⟨strung', Recency.rest_nodup distinct holds⟩, ?_⟩
    rw [binEmit, run]
    rfl
  obtain ⟨events, final, list, run, run', strung, distinct⟩ := allowed.refines _ matched ⟨empty, List.nodup_nil⟩
  refine ⟨events, final, list, run, run', distinct, ?_, fun fuel enough => strung.traversals enough⟩
  have allowed : Recency.Allowed list .pop := trivial
  obtain ⟨next, popped, -⟩ := strung.call distinct allowed
  have popped : final.binPop bin = some (next, list.head?) := popped
  rw [popped, Option.map_some]

-- A page is detached from between two others, and is pushed again with its old links.
def pushedAgain : List (Call Page) :=
  [.push ⟨0, 0⟩, .push ⟨0, 1⟩, .push ⟨0, 2⟩, .detach ⟨0, 1⟩, .pop, .push ⟨0, 1⟩, .detach ⟨0, 0⟩, .pop, .pop]

theorem page_cache_bin_runs_pushedAgain :
    Runs.trace (binStep 0) (binEmit 0) start pushedAgain = Runs.trace Recency.step Recency.emit [] pushedAgain ∧
      ∃ final list, Runs.exec (binStep 0) start pushedAgain = some final ∧
        Runs.exec Recency.step [] pushedAgain = some list ∧ list.Nodup ∧
        (final.binPop 0).map Prod.snd = some list.head? ∧
        ∀ fuel, list.length < fuel →
          final.forward 0 fuel = some (list.map .page) ∧ final.backward 0 fuel = some (list.map .page).reverse :=
  page_cache_bin_runs (start_empty 0) pushedAgain (.of_check (by decide))

end PrototypeBundle.PageCache
