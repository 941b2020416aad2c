import PrototypeBundle.PageCache.Clusters
import PrototypeBundle.Shared.Strung

set_option autoImplicit false

/-!
# `sgc2::page_meta` and `sgc2::page_cache`

A dereference of null, and what the sentinels cannot stand for, has no result.
-/

namespace PrototypeBundle.PageCache

open BinAlloc (Config)

variable (cfg : Config)

def Store.setNext (s : Store) (n : Node) (next : Option Node) : Store := s.setPage n { s.pages n with next }

def Store.setPrev (s : Store) (n : Node) (prev : Option Node) : Store := s.setPage n { s.pages n with prev }

-- `page_cache_bin::push`
def Store.binPush (s : Store) (bin : Nat) (p : Page) : Option Store := do
  let s := (s.setNext (.page p) (s.pages (.head bin)).next).setPrev (.page p) (some (.head bin))
  let s := s.setPrev (← (s.pages (.page p)).next) (some (.page p))
  return s.setNext (← (s.pages (.page p)).prev) (some (.page p))

-- `page_cache_bin::pop`
def Store.binPop (s : Store) (bin : Nat) : Option (Store × Option Page) := do
  let first ← (s.pages (.head bin)).next
  if first = .tail bin then
    return (s, none)
  else
    match first with
    | .page p =>
        let s := s.setNext (.head bin) (s.pages (.page p)).next
        let s := s.setPrev (← (s.pages (.page p)).next) (some (.head bin))
        return (s, some p)
    | _ => none

-- `page_cache_bin::detach`; the page keeps its own links.
def Store.detach (s : Store) (p : Page) : Option Store := do
  let s := s.setNext (← (s.pages (.page p)).prev) (s.pages (.page p)).next
  return s.setPrev (← (s.pages (.page p)).next) (s.pages (.page p)).prev

def Store.pageFormat (s : Store) (p : Page) (bin : Nat) : Store :=
  let count := cfg.pageSize / cfg.binIndexMaxSize bin
  { s.setPage (.page p) { freeList := formattedHead (Block.mk p) count, binIndex := bin } with
    links := fun b => if b.page = p ∧ b.index < count then formatted (Block.mk p) count b.index else s.links b }

-- `page_meta::make`, which throws `std::invalid_argument` for a bin that does not exist
def Store.pageMake (s : Store) (p : Page) (bin : Nat) : Option Store :=
  if cfg.binCount ≤ bin then none else some (s.pageFormat cfg p bin)

-- `page_meta::transfer_to`, with the new value of `head`
def Store.transferTo (s : Store) (p : Page) : Store × Option Block :=
  let pmeta := s.pages (.page p)
  (s.setPage (.page p)
    { pmeta with
      freeList := none
      used := cfg.binObjectCount pmeta.binIndex % 2 ^ 16
      isTethered := false },
    pmeta.freeList)

-- What `page_meta::free` does before it looks at the place of the page.
def Store.pagePush (s : Store) (p : Page) (b : Block) : Store :=
  let pmeta := s.pages (.page p)
  { s.setPage (.page p) { pmeta with freeList := some b, used := decrement pmeta.used } with
    links := Function.update s.links b pmeta.freeList }

-- `page_cache_return`, and the flag after it
def Store.pageReturn (s : Store) (p : Page) : Option Store := do
  let s ← s.binPush (s.pages (.page p)).binIndex p
  return s.setPage (.page p) { s.pages (.page p) with isTethered := true }

-- `page_cache_release`
def Store.pageRelease (s : Store) (p : Page) : Option Store := do
  return (← s.detach p).clusterFree p

-- The last part of `page_meta::free`, and whether it called `page_cache_release`
def Store.pageSettle (s : Store) (p : Page) : Option (Store × Bool) :=
  if (s.pages (.page p)).used = 0 then (s.pageRelease p).map (·, true) else some (s, false)

-- `page_meta::free`
def Store.pageFree (s : Store) (p : Page) (b : Block) : Option (Store × Bool) :=
  let s := s.pagePush p b
  (if (s.pages (.page p)).isTethered then some s else s.pageReturn p).bind (·.pageSettle p)

open Intrusive

def binNodes (bin : Nat) (list : List Page) : List Node := .head bin :: (list.map .page ++ [.tail bin])

def BinList (s : Store) (bin : Nat) (list : List Page) : Prop := Strung s.prevNode s.nextNode (binNodes bin list)

structure Relinked (s s' : Store) (nodes : List Node) : Prop where
  links : s'.links = s.links
  pageFreeList : s'.pageFreeList = s.pageFreeList
  clusters : s'.clusters = s.clusters
  clusterFreeList : s'.clusterFreeList = s.clusterFreeList
  reserved : s'.reserved = s.reserved
  fields : ∀ n, ∃ next prev, s'.pages n = { s.pages n with next, prev }
  others : ∀ n, n ∉ nodes → s'.pages n = s.pages n

section Lists

variable {s : Store} {bin : Nat} {list : List Page} {p : Page}

theorem binNodes_nodup (bin : Nat) (distinct : list.Nodup) : (binNodes bin list).Nodup := by
  have pages : (list.map Node.page).Nodup := distinct.map (fun p q equal => Node.page.inj equal)
  simp only [binNodes, List.nodup_cons, List.mem_append, List.mem_map, List.mem_singleton, reduceCtorEq, and_false,
    exists_false, or_self, not_false_eq_true, true_and]
  exact List.nodup_append.mpr ⟨pages, by simp, by simp⟩

theorem mem_binNodes {n : Node} : n ∈ binNodes bin list ↔ n = .head bin ∨ (∃ p ∈ list, n = .page p) ∨ n = .tail bin := by
  simp [binNodes, eq_comm]

theorem page_mem_binNodes : Node.page p ∈ binNodes bin list ↔ p ∈ list := by
  simp [mem_binNodes]

theorem BinList.congr {s' : Store} (strung : BinList s bin list) (same : ∀ n ∈ binNodes bin list,
    (s'.pages n).next = (s.pages n).next ∧ (s'.pages n).prev = (s.pages n).prev) : BinList s' bin list :=
  Strung.congr strung (fun n member => (same n member).2) (fun n member => (same n member).1)

theorem start_empty (bin : Nat) : BinList start bin [] :=
  List.isChain_cons_cons.mpr ⟨⟨rfl, rfl⟩, List.isChain_singleton _⟩

theorem binNodes_unique {next prev : Node → Option Node} {bin : Nat} (from' : Node) {left right : List Page}
    (first : Strung prev next (from' :: (left.map .page ++ [.tail bin])))
    (second : Strung prev next (from' :: (right.map .page ++ [.tail bin]))) : left = right := by
  induction left generalizing from' right with
  | nil =>
      cases right with
      | nil => rfl
      | cons q right =>
          have one := (List.isChain_cons_cons.mp first).1.1
          have two := (List.isChain_cons_cons.mp second).1.1
          simp [one] at two
  | cons p left ih =>
      cases right with
      | nil =>
          have one := (List.isChain_cons_cons.mp first).1.1
          have two := (List.isChain_cons_cons.mp second).1.1
          simp [one] at two
      | cons q right =>
          have one := (List.isChain_cons_cons.mp first).1.1
          have two := (List.isChain_cons_cons.mp second).1.1
          have same : p = q := by simpa [one] using two
          subst same
          rw [ih (.page p) (List.isChain_cons_cons.mp first).2 (List.isChain_cons_cons.mp second).2]

theorem Relinked.field {s' : Store} {nodes : List Node} (relinked : Relinked s s' nodes) (n : Node) :
    (s'.pages n).freeList = (s.pages n).freeList ∧ (s'.pages n).used = (s.pages n).used ∧
      (s'.pages n).binIndex = (s.pages n).binIndex ∧ (s'.pages n).isTethered = (s.pages n).isTethered := by
  obtain ⟨next, prev, equal⟩ := relinked.fields n
  simp [equal]

theorem setNext_relinked (n : Node) (next : Option Node) {nodes : List Node} (member : n ∈ nodes) :
    Relinked s (s.setNext n next) nodes where
  links := rfl
  pageFreeList := rfl
  clusters := rfl
  clusterFreeList := rfl
  reserved := rfl
  fields := by
    intro n'
    by_cases same : n' = n
    · exact ⟨next, (s.pages n).prev, by simp [Store.setNext, same]⟩
    · exact ⟨(s.pages n').next, (s.pages n').prev, by simp [Store.setNext, Function.update_of_ne same]⟩
  others := by
    intro n' out
    have other : n' ≠ n := fun same => out (same ▸ member)
    simp [Store.setNext, Function.update_of_ne other]

theorem setPrev_relinked (n : Node) (prev : Option Node) {nodes : List Node} (member : n ∈ nodes) :
    Relinked s (s.setPrev n prev) nodes where
  links := rfl
  pageFreeList := rfl
  clusters := rfl
  clusterFreeList := rfl
  reserved := rfl
  fields := by
    intro n'
    by_cases same : n' = n
    · exact ⟨(s.pages n).next, prev, by simp [Store.setPrev, same]⟩
    · exact ⟨(s.pages n').next, (s.pages n').prev, by simp [Store.setPrev, Function.update_of_ne same]⟩
  others := by
    intro n' out
    have other : n' ≠ n := fun same => out (same ▸ member)
    simp [Store.setPrev, Function.update_of_ne other]

theorem Relinked.trans {s' s'' : Store} {nodes : List Node} (first : Relinked s s' nodes)
    (second : Relinked s' s'' nodes) : Relinked s s'' nodes where
  links := second.links.trans first.links
  pageFreeList := second.pageFreeList.trans first.pageFreeList
  clusters := second.clusters.trans first.clusters
  clusterFreeList := second.clusterFreeList.trans first.clusterFreeList
  reserved := second.reserved.trans first.reserved
  fields := by
    intro n
    obtain ⟨_, _, left⟩ := first.fields n
    obtain ⟨next, prev, right⟩ := second.fields n
    exact ⟨next, prev, by rw [right, left]⟩
  others := fun n out => (second.others n out).trans (first.others n out)

@[simp] theorem setNext_pages (n m : Node) (next : Option Node) :
    (s.setNext n next).pages m = if m = n then { s.pages n with next } else s.pages m := by
  simp [Store.setNext, Function.update_apply]

@[simp] theorem setPrev_pages (n m : Node) (prev : Option Node) :
    (s.setPrev n prev).pages m = if m = n then { s.pages n with prev } else s.pages m := by
  simp [Store.setPrev, Function.update_apply]

def firstNode (bin : Nat) (list : List Page) : Node := (list.map Node.page ++ [Node.tail bin]).head (by simp)

theorem binNodes_eq (bin : Nat) (list : List Page) : ∃ rest, binNodes bin list = [] ++ .head bin :: firstNode bin list :: rest := by
  cases list with
  | nil => exact ⟨[], rfl⟩
  | cons p rest => exact ⟨rest.map Node.page ++ [.tail bin], rfl⟩

theorem binPush_spec (strung : BinList s bin list) (distinct : list.Nodup) (out : p ∉ list) :
    ∃ s', s.binPush bin p = some s' ∧ BinList s' bin (p :: list) ∧ Relinked s s' (binNodes bin (p :: list)) := by
  obtain ⟨rest, nodes⟩ := binNodes_eq bin list
  have link : (s.pages (.head bin)).next = some (firstNode bin list) := by
    unfold BinList at strung
    rw [nodes] at strung
    exact strung.neighbours.1
  have member : firstNode bin list ∈ binNodes bin list := by simp [nodes]
  have notPage : firstNode bin list ≠ .page p := fun same => out (page_mem_binNodes.mp (same ▸ member))
  have nodup := binNodes_nodup bin distinct
  have notHead : firstNode bin list ≠ .head bin := by
    rw [nodes] at nodup
    intro same
    simp [same] at nodup
  refine ⟨(((s.setNext (.page p) (some (firstNode bin list))).setPrev (.page p) (some (.head bin))).setPrev
    (firstNode bin list) (some (.page p))).setNext (.head bin) (some (.page p)), ?_, ?_, ?_⟩
  · simp [Store.binPush, link, notPage.symm]
  · unfold BinList at strung ⊢
    have shape : binNodes bin (p :: list) = [] ++ .head bin :: .page p :: firstNode bin list :: rest := by
      have tail : list.map Node.page ++ [.tail bin] = firstNode bin list :: rest := by simpa [binNodes] using nodes
      simp [binNodes, tail]
    rw [shape]
    rw [nodes] at strung nodup
    refine strung.insert nodup ?_ ?_ ?_ ?_
    · simp [Store.nextNode, Store.prevNode, notPage.symm]
    · simp [Store.nextNode, Store.prevNode, notPage.symm, notHead]
    · intro n inside other
      have apart : n ≠ .page p := by
        rintro rfl
        rw [← nodes] at inside
        exact out (page_mem_binNodes.mp inside)
      simp only [Store.prevNode, setNext_pages, setPrev_pages, apart, other, if_false]
      split <;> simp_all
    · intro n inside other
      have apart : n ≠ .page p := by
        rintro rfl
        rw [← nodes] at inside
        exact out (page_mem_binNodes.mp inside)
      simp only [Store.nextNode, setNext_pages, setPrev_pages, apart, other, if_false]
      split <;> simp_all
  · have first : firstNode bin list ∈ binNodes bin (p :: list) := by
      rcases mem_binNodes.mp member with head | page | tail
      · exact absurd head notHead
      · obtain ⟨q, inside, same⟩ := page
        exact mem_binNodes.mpr (Or.inr (Or.inl ⟨q, List.mem_cons_of_mem _ inside, same⟩))
      · exact mem_binNodes.mpr (Or.inr (Or.inr tail))
    refine (((setNext_relinked _ _ ?_).trans (setPrev_relinked _ _ ?_)).trans (setPrev_relinked _ _ first)).trans
      (setNext_relinked _ _ ?_)
    · simp [binNodes]
    · simp [binNodes]
    · simp [binNodes]

theorem unlink_spec (before : List Page) {after : List Page} (strung : BinList s bin (before ++ p :: after))
    (distinct : (before ++ p :: after).Nodup) :
    ∃ x y, (s.pages (.page p)).prev = some x ∧ (s.pages (.page p)).next = some y ∧ x ≠ .page p ∧ y ≠ .page p ∧
      BinList ((s.setNext x (some y)).setPrev y (some x)) bin (before ++ after) ∧
      Relinked s ((s.setNext x (some y)).setPrev y (some x)) (binNodes bin (before ++ after)) := by
  obtain ⟨front, x, left⟩ : ∃ front x, Node.head bin :: before.map Node.page = front ++ [x] :=
    ⟨_, _, (List.dropLast_append_getLast (List.cons_ne_nil _ _)).symm⟩
  obtain ⟨y, back, right⟩ : ∃ y back, after.map Node.page ++ [Node.tail bin] = y :: back := by
    cases after with
    | nil => exact ⟨_, _, rfl⟩
    | cons q rest => exact ⟨_, _, rfl⟩
  have whole : binNodes bin (before ++ p :: after) = front ++ x :: .page p :: y :: back := by
    have split : binNodes bin (before ++ p :: after) =
        (Node.head bin :: before.map Node.page) ++ .page p :: (after.map Node.page ++ [Node.tail bin]) := by
      simp [binNodes]
    rw [split, left, right]
    simp
  have rest : binNodes bin (before ++ after) = front ++ x :: y :: back := by
    have split : binNodes bin (before ++ after) =
        (Node.head bin :: before.map Node.page) ++ (after.map Node.page ++ [Node.tail bin]) := by
      simp [binNodes]
    rw [split, left, right]
    simp
  have nodup := binNodes_nodup bin distinct
  unfold BinList at strung ⊢
  rw [whole] at strung nodup
  have first := strung.neighbours
  have shifted : Strung s.prevNode s.nextNode ((front ++ [x]) ++ .page p :: y :: back) := by simpa using strung
  have second := shifted.neighbours
  have parts := (List.nodup_append.mp nodup).2.1
  have notFirst : x ≠ .page p := by
    rintro rfl
    simp at parts
  have notSecond : y ≠ .page p := by
    rintro rfl
    simp at parts
  have apart : x ≠ y := by
    rintro rfl
    simp at parts
  refine ⟨x, y, first.2, second.1, notFirst, notSecond, ?_, ?_⟩
  · rw [rest]
    refine strung.remove nodup ?_ ?_ ?_
    · simp [Store.nextNode, Store.prevNode, apart]
    · intro n _ other
      simp only [Store.prevNode, setNext_pages, setPrev_pages, other, if_false]
      split <;> simp_all
    · intro n _ other
      simp only [Store.nextNode, setNext_pages, setPrev_pages, other, if_false]
      split <;> simp_all
  · exact (setNext_relinked _ _ (by simp [rest])).trans (setPrev_relinked _ _ (by simp [rest]))

theorem detach_spec {before after : List Page} (strung : BinList s bin (before ++ p :: after))
    (distinct : (before ++ p :: after).Nodup) :
    ∃ s', s.detach p = some s' ∧ BinList s' bin (before ++ after) ∧ Relinked s s' (binNodes bin (before ++ after)) := by
  obtain ⟨x, y, prev, next, notFirst, _, strung', relinked⟩ := unlink_spec before strung distinct
  refine ⟨_, ?_, strung', relinked⟩
  simp [Store.detach, prev, next, notFirst.symm]

theorem binPop_nil (strung : BinList s bin []) : s.binPop bin = some (s, none) := by
  have link : (s.pages (.head bin)).next = some (.tail bin) := by
    have pair : Strung s.prevNode s.nextNode ([] ++ .head bin :: .tail bin :: []) := strung
    exact pair.neighbours.1
  simp [Store.binPop, link]

theorem binPop_cons (strung : BinList s bin (p :: list)) (distinct : (p :: list).Nodup) :
    ∃ s', s.binPop bin = some (s', some p) ∧ BinList s' bin list ∧ Relinked s s' (binNodes bin list) := by
  have front : Strung s.prevNode s.nextNode ([] ++ .head bin :: .page p :: (list.map Node.page ++ [.tail bin])) := strung
  obtain ⟨x, y, prev, next, _, notSecond, strung', relinked⟩ := unlink_spec [] strung distinct
  have head : x = .head bin := Option.some.inj (prev.symm.trans front.neighbours.2)
  subst head
  have first : (s.pages (.head bin)).next = some (.page p) := front.neighbours.1
  refine ⟨_, ?_, strung', relinked⟩
  simp [Store.binPop, first, next]

end Lists

end PrototypeBundle.PageCache
