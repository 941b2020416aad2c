import PrototypeBundle.Shared.Chain
import PrototypeBundle.Shared.Run
import Mathlib.Data.List.Nodup
import Mathlib.Data.List.Perm.Basic

set_option autoImplicit false

/-!
# `atomic_push` and `atomic_pop`

One head, any number of threads. A thread owns the nodes that it has popped and
has not pushed again.
-/

namespace PrototypeBundle.BinAlloc.AtomicStack

open Intrusive Runs

-- The next access of `atomic_push`; `node_ptr->next` is the expected value of its exchange.
inductive Stage where
  | load
  | store (value : Option Nat)
  | read
  | compareAndSwap (expected : Option Nat)
  deriving DecidableEq, Repr

-- The next access of a thread. The optimistic exchange and those of the loop behind it are the same access.
inductive Thread where
  | idle
  | push (node : Nat) (stage : Stage)
  | loadHead
  | readNext (oldHead : Nat)
  | swapHead (oldHead : Nat) (next : Option Nat)
  deriving DecidableEq, Repr

inductive Event where
  | pushed (node : Nat)
  | popped (node : Nat)
  deriving DecidableEq, Repr

def Event.node : Event → Nat
  | pushed node => node
  | popped node => node

structure State where
  head : Option Nat
  next : Nat → Option Nat
  threads : Nat → Thread
  -- threads and nodes that they own
  owned : List (Nat × Nat)
  -- the exchanges that have succeeded, the latest first
  log : List Event

inductive Action where
  | push (node : Nat)
  | pop
  -- An exchange may fail spuriously.
  | access (fails : Bool)
  deriving DecidableEq, Repr

def State.put (s : State) (t : Nat) (thread : Thread) : State :=
  { s with threads := Function.update s.threads t thread }

-- `atomic_pop` with the head that it has loaded or that a failed exchange has found.
def withHead : Option Nat → Thread
  | none => .idle
  | some oldHead => .readNext oldHead

def State.access (s : State) (t : Nat) (fails : Bool) : Thread → Option State
  | .idle => none
  | .push node .load => some (s.put t (.push node (.store s.head)))
  | .push node (.store value) =>
      some ({ s with next := Function.update s.next node value }.put t (.push node .read))
  | .push node .read => some (s.put t (.push node (.compareAndSwap (s.next node))))
  | .push node (.compareAndSwap expected) =>
      if s.head = expected ∧ fails = false then
        some ({ s with
          head := some node, owned := s.owned.erase (t, node), log := .pushed node :: s.log }.put t .idle)
      else some (s.put t (.push node (.store s.head)))
  | .loadHead => some (s.put t (withHead s.head))
  | .readNext oldHead => some (s.put t (.swapHead oldHead (s.next oldHead)))
  | .swapHead oldHead next =>
      if s.head = some oldHead ∧ fails = false then
        some ({ s with
          head := next, owned := (t, oldHead) :: s.owned, log := .popped oldHead :: s.log }.put t .idle)
      else some (s.put t (withHead s.head))

-- A thread pushes a node that it owns.
def State.step (s : State) : Nat × Action → Option State
  | (t, .push node) =>
      if s.threads t = .idle ∧ (t, node) ∈ s.owned then some (s.put t (.push node .load)) else none
  | (t, .pop) => if s.threads t = .idle then some (s.put t .loadHead) else none
  | (t, .access fails) => s.access t fails (s.threads t)

def start (next : Nat → Option Nat) (owned : List (Nat × Nat)) : State where
  head := none
  next
  threads := fun _ => .idle
  owned
  log := []

def State.Accounted (nodes : List Nat) (s : State) : Prop :=
  ∃ linked, Chain s.next s.head linked ∧ (linked ++ s.owned.map Prod.snd).Perm nodes

/-- No node is returned by two pops without a push in between. -/
def Alternating : List Event → Prop
  | [] => True
  | .pushed _ :: earlier => Alternating earlier
  | .popped node :: earlier =>
      earlier.find? (fun e => e.node = node) ≠ some (.popped node) ∧ Alternating earlier

def State.Sound (nodes : List Nat) (s : State) : Prop := s.Accounted nodes ∧ Alternating s.log

/-- When a pop succeeds the node at the head still has the next node that the pop has read. -/
def Current (s : State) : Nat × Action → Prop
  | (t, .access fails) =>
      ∀ oldHead next, s.threads t = .swapHead oldHead next → s.head = some oldHead → fails = false →
        s.next oldHead = next
  | _ => True

section Invariant

variable {nodes : List Nat} {s : State} {t : Nat}

structure State.Consistent (nodes : List Nat) (s : State) : Prop where
  accounted : s.Accounted nodes
  pushing : ∀ t node stage, s.threads t = .push node stage →
    (t, node) ∈ s.owned ∧ ∀ expected, stage = .compareAndSwap expected → s.next node = expected
  recent : ∀ node, s.log.find? (fun e => e.node = node) = some (.popped node) → node ∈ s.owned.map Prod.snd
  alternating : Alternating s.log

theorem start_consistent (next : Nat → Option Nat) (owned : List (Nat × Nat)) :
    (start next owned).Consistent (owned.map Prod.snd) where
  accounted := ⟨[], rfl, .refl _⟩
  pushing := fun _ _ _ impossible => Thread.noConfusion impossible
  recent := fun _ impossible => by simp [start] at impossible
  alternating := True.intro

theorem State.Consistent.moves (consistent : s.Consistent nodes) {thread : Thread}
    (own : ∀ node stage, thread = .push node stage →
      (t, node) ∈ s.owned ∧ ∀ expected, stage = .compareAndSwap expected → s.next node = expected) :
    (s.put t thread).Consistent nodes := by
  refine ⟨consistent.accounted, fun u node stage phase => ?_, consistent.recent, consistent.alternating⟩
  by_cases same : u = t
  · subst same
    exact own node stage ((Function.update_self ..).symm.trans phase)
  · exact consistent.pushing u node stage ((Function.update_of_ne same ..).symm.trans phase)

theorem withHead_ne_push (head : Option Nat) (node : Nat) (stage : Stage) : withHead head ≠ .push node stage := by
  cases head with
  | none => exact Thread.noConfusion
  | some oldHead => exact Thread.noConfusion

theorem State.Consistent.pushes (consistent : s.Consistent nodes) {node : Nat} {expected : Option Nat}
    (phase : s.threads t = .push node (.compareAndSwap expected)) (found : s.head = expected) :
    (({ s with head := some node, owned := s.owned.erase (t, node), log := .pushed node :: s.log } : State).put t
      .idle).Consistent nodes := by
  obtain ⟨linked, chain, whole⟩ := consistent.accounted
  obtain ⟨owner, link⟩ := consistent.pushing t node _ phase
  have next : s.next node = s.head := (link expected rfl).trans found.symm
  refine ⟨⟨node :: linked, chain.push next fun _ _ => rfl, ?_⟩, ?_, ?_, consistent.alternating⟩
  · have moved := ((List.perm_cons_erase owner).map Prod.snd).append_left linked
    exact List.perm_middle.symm.trans (moved.symm.trans whole)
  · intro u node' stage phase'
    by_cases same : u = t
    · subst same
      exact Thread.noConfusion ((Function.update_self ..).symm.trans phase')
    · obtain ⟨owner', linked'⟩ := consistent.pushing u node' stage ((Function.update_of_ne same ..).symm.trans phase')
      exact ⟨(List.mem_erase_of_ne fun equal => same (congrArg Prod.fst equal)).mpr owner', linked'⟩
  · intro other latest
    by_cases same : node = other
    · simp [State.put, Event.node, same] at latest
    · have before : s.log.find? (fun e => e.node = other) = some (.popped other) := by
        simpa [State.put, Event.node, same] using latest
      obtain ⟨pair, member, rfl⟩ := List.mem_map.mp (consistent.recent other before)
      refine List.mem_map_of_mem ((List.mem_erase_of_ne ?_).mpr member)
      rintro rfl
      exact same rfl

/-- A pop that succeeds with another next node than that of the head loses nodes, or
keeps some that it does not own. -/
theorem stale_pop_breaks (consistent : s.Consistent nodes) {a : Nat × Action} (stale : ¬ Current s a) :
    ∃ next, s.step a = some next ∧ ¬ next.Accounted nodes := by
  obtain ⟨t, action⟩ := a
  cases action with
  | push node => exact absurd True.intro stale
  | pop => exact absurd True.intro stale
  | access fails =>
      simp only [Current, Classical.not_forall] at stale
      obtain ⟨oldHead, next, phase, found, succeeds, changed⟩ := stale
      refine ⟨_, by rw [State.step, phase, State.access, if_pos ⟨found, succeeds⟩], fun accounted => changed ?_⟩
      obtain ⟨linked, chain, whole⟩ := consistent.accounted
      obtain ⟨rest, rfl, tail⟩ := chain.tail found
      obtain ⟨linked', chain', whole'⟩ := accounted
      have same : linked'.Perm rest := by
        have front : (linked' ++ oldHead :: s.owned.map Prod.snd).Perm (oldHead :: (linked' ++ s.owned.map Prod.snd)) :=
          List.perm_middle
        have both := front.symm.trans (whole'.trans whole.symm)
        exact (List.perm_append_right_iff _).mp both.cons_inv
      exact (tail.head_eq_of_perm chain' same).symm

variable (distinct : nodes.Nodup)

include distinct

theorem apart {linked : List Nat} (whole : (linked ++ s.owned.map Prod.snd).Perm nodes) {node : Nat}
    (owner : (t, node) ∈ s.owned) : node ∉ linked ∧ ∀ u, (u, node) ∈ s.owned → u = t := by
  have nodup := whole.nodup_iff.mpr distinct
  obtain ⟨-, single, disjoint⟩ := List.nodup_append.mp nodup
  refine ⟨fun member => disjoint node member node (List.mem_map_of_mem owner) rfl, fun u other => ?_⟩
  exact congrArg Prod.fst (List.inj_on_of_nodup_map single other owner rfl)

theorem State.Consistent.store (consistent : s.Consistent nodes) {node : Nat} {value : Option Nat}
    (phase : s.threads t = .push node (.store value)) :
    (({ s with next := Function.update s.next node value } : State).put t (.push node .read)).Consistent nodes := by
  obtain ⟨linked, chain, whole⟩ := consistent.accounted
  obtain ⟨owner, -⟩ := consistent.pushing t node _ phase
  obtain ⟨outside, single⟩ := apart distinct whole owner
  refine ⟨⟨linked, chain.congr fun x member => ?_, whole⟩, ?_, consistent.recent, consistent.alternating⟩
  · have different : x ≠ node := fun same => outside (same ▸ member)
    exact Function.update_of_ne different ..
  · intro u node' stage phase'
    by_cases same : u = t
    · subst same
      have now : Thread.push node .read = .push node' stage := (Function.update_self ..).symm.trans phase'
      injection now with sameNode sameStage
      subst sameNode sameStage
      exact ⟨owner, fun expected impossible => Stage.noConfusion impossible⟩
    · obtain ⟨owner', linked'⟩ := consistent.pushing u node' stage ((Function.update_of_ne same ..).symm.trans phase')
      refine ⟨owner', fun expected last => ?_⟩
      have different : node' ≠ node := by
        rintro rfl
        exact same (single u owner')
      exact (Function.update_of_ne different ..).trans (linked' expected last)

theorem State.Consistent.pops (consistent : s.Consistent nodes) {oldHead : Nat} (found : s.head = some oldHead) :
    (({ s with
      head := s.next oldHead, owned := (t, oldHead) :: s.owned, log := .popped oldHead :: s.log } : State).put t
        .idle).Consistent nodes := by
  obtain ⟨linked, chain, whole⟩ := consistent.accounted
  obtain ⟨rest, rfl, tail⟩ := chain.tail found
  refine ⟨⟨rest, tail, List.perm_middle.trans whole⟩, ?_, ?_, ?_, consistent.alternating⟩
  · intro u node stage phase
    by_cases same : u = t
    · subst same
      exact Thread.noConfusion ((Function.update_self ..).symm.trans phase)
    · obtain ⟨owner, link⟩ := consistent.pushing u node stage ((Function.update_of_ne same ..).symm.trans phase)
      exact ⟨List.mem_cons_of_mem _ owner, link⟩
  · intro other latest
    by_cases same : oldHead = other
    · simp [State.put, same]
    · have before : s.log.find? (fun e => e.node = other) = some (.popped other) := by
        simpa [State.put, Event.node, same] using latest
      exact List.mem_cons_of_mem _ (consistent.recent other before)
  · -- the node was in the stack, so the last to move it was a push
    intro latest
    obtain ⟨pair, owner, same⟩ := List.mem_map.mp (consistent.recent oldHead latest)
    subst same
    exact (apart distinct whole owner).1 List.mem_cons_self

theorem State.Consistent.step (consistent : s.Consistent nodes) {a : Nat × Action} {next : State}
    (current : Current s a) (taken : s.step a = some next) : next.Consistent nodes := by
  obtain ⟨t, action⟩ := a
  cases action with
  | push node =>
      rw [State.step, Option.ite_none_right_eq_some] at taken
      obtain ⟨⟨-, owner⟩, same⟩ := taken
      obtain rfl := Option.some.inj same
      refine consistent.moves fun node' stage now => ?_
      injection now with sameNode sameStage
      subst sameNode sameStage
      exact ⟨owner, fun _ impossible => Stage.noConfusion impossible⟩
  | pop =>
      rw [State.step, Option.ite_none_right_eq_some] at taken
      obtain ⟨-, same⟩ := taken
      obtain rfl := Option.some.inj same
      exact consistent.moves fun _ _ impossible => Thread.noConfusion impossible
  | access fails =>
      -- a push goes on to another access of its own
      have goesOn {node : Nat} {stage stage' : Stage} (phase : s.threads t = .push node stage)
          (ready : ∀ expected, stage' = .compareAndSwap expected → s.next node = expected) :
          (s.put t (.push node stage')).Consistent nodes := by
        refine consistent.moves fun node' stage'' now => ?_
        injection now with sameNode sameStage
        subst sameNode sameStage
        exact ⟨(consistent.pushing t node stage phase).1, ready⟩
      have popsOn : (s.put t (withHead s.head)).Consistent nodes :=
        consistent.moves fun node stage impossible => absurd impossible (withHead_ne_push s.head node stage)
      rw [State.step] at taken
      cases phase : s.threads t with
      | idle =>
          rw [phase] at taken
          simp [State.access] at taken
      | push node stage =>
          rw [phase] at taken
          cases stage with
          | load =>
              obtain rfl := Option.some.inj taken
              exact goesOn phase fun _ impossible => Stage.noConfusion impossible
          | store value =>
              obtain rfl := Option.some.inj taken
              exact consistent.store distinct phase
          | read =>
              obtain rfl := Option.some.inj taken
              exact goesOn phase fun _ same => Stage.compareAndSwap.inj same
          | compareAndSwap expected =>
              rw [State.access] at taken
              split at taken
              case isTrue found =>
                obtain rfl := Option.some.inj taken
                exact consistent.pushes phase found.1
              case isFalse =>
                obtain rfl := Option.some.inj taken
                exact goesOn phase fun _ impossible => Stage.noConfusion impossible
      | loadHead =>
          rw [phase] at taken
          obtain rfl := Option.some.inj taken
          exact popsOn
      | readNext oldHead =>
          rw [phase] at taken
          obtain rfl := Option.some.inj taken
          exact consistent.moves fun _ _ impossible => Thread.noConfusion impossible
      | swapHead oldHead next' =>
          rw [phase, State.access] at taken
          split at taken
          case isTrue found =>
            obtain rfl := Option.some.inj taken
            have same := current oldHead next' phase found.1 found.2
            subst same
            exact consistent.pops distinct found.1
          case isFalse =>
            obtain rfl := Option.some.inj taken
            exact popsOn

end Invariant

/-- In a run of any number of threads every node stays in the stack once or with one owner, and is
not returned twice, exactly if no pop succeeds with a next node that has changed since it was read. -/
theorem stack_runs_sound (next : Nat → Option Nat) {owned : List (Nat × Nat)} (distinct : (owned.map Prod.snd).Nodup)
    (actions : List (Nat × Action)) :
    Through State.step (State.Sound (owned.map Prod.snd)) (start next owned) actions ↔
      Along State.step Current (start next owned) actions := by
  refine Along.through_iff (State.Consistent (owned.map Prod.snd)) ?_ ?_ ?_ (Along.trivial _ _ _)
    (start_consistent next owned)
  · exact fun s consistent => ⟨consistent.accounted, consistent.alternating⟩
  · exact fun s a next' consistent _ current taken => consistent.step distinct current taken
  · intro s a consistent _ stale
    obtain ⟨next', taken, lost⟩ := stale_pop_breaks consistent stale
    exact ⟨next', taken, fun sound => lost sound.1⟩

def pushRun (t node : Nat) : List (Nat × Action) :=
  [(t, .push node), (t, .access false), (t, .access false), (t, .access false), (t, .access false)]

def popRun (t : Nat) : List (Nat × Action) := [(t, .pop), (t, .access false), (t, .access false), (t, .access false)]

instance (s : State) : (a : Nat × Action) → Decidable (Current s a)
  | (_, .push _) => inferInstanceAs (Decidable True)
  | (_, .pop) => inferInstanceAs (Decidable True)
  | (t, .access fails) =>
      match phase : s.threads t with
      | .swapHead oldHead next =>
          decidable_of_iff (s.head = some oldHead → fails = false → s.next oldHead = next) (by
            simp only [Current, phase, Thread.swapHead.injEq]
            constructor
            · rintro holds _ _ ⟨rfl, rfl⟩
              exact holds
            · exact fun holds => holds _ _ ⟨rfl, rfl⟩)
      | .idle => isTrue fun _ _ impossible => by simp [phase] at impossible
      | .push _ _ => isTrue fun _ _ impossible => by simp [phase] at impossible
      | .loadHead => isTrue fun _ _ impossible => by simp [phase] at impossible
      | .readNext _ => isTrue fun _ _ impossible => by simp [phase] at impossible

def given : List (Nat × Nat) := [(0, 7), (0, 8)]

def handover : List (Nat × Action) := pushRun 0 7 ++ pushRun 0 8 ++ popRun 1 ++ pushRun 1 8 ++ popRun 0

theorem stack_runs_sound_handover :
    Through State.step (State.Sound (given.map Prod.snd)) (start (fun _ => none) given) handover := by
  have current : check State.step Current (start (fun _ => none) given) handover = true := by decide
  exact (stack_runs_sound (fun _ => none) (by decide) handover).mpr (Along.of_check current)

/-- Thread 1 has read the next node 7 of node 8 when thread 0 pops both and pushes 8 again: the
exchange of thread 1 makes the head of 7, which thread 0 owns. -/
theorem reused_head_popped :
    ∃ s, exec State.step (start (fun _ => none) given)
        (pushRun 0 7 ++ pushRun 0 8 ++ [(1, .pop), (1, .access false), (1, .access false)] ++ popRun 0 ++ popRun 0 ++
          pushRun 0 8 ++ [(1, .access false)]) = some s ∧
      s.head = some 7 ∧ (0, 7) ∈ s.owned ∧ ¬ s.Sound (given.map Prod.snd) := by
  refine ⟨_, rfl, rfl, by decide, fun sound => ?_⟩
  obtain ⟨linked, chain, whole⟩ := sound.1
  have listed : 7 ∈ linked := chain.head_mem rfl
  have nodup := (List.nodup_append.mp (whole.nodup_iff.mpr (by decide))).2.2
  exact nodup 7 listed 7 (by decide) rfl

end PrototypeBundle.BinAlloc.AtomicStack
