import PrototypeBundle.BinAlloc.AtomicStack
import PrototypeBundle.Shared.Atomic

set_option autoImplicit false

/-!
# `atomic_insert_at_head` and `atomic_detach`

Any number of heads and threads, and no `atomic_pop`. A node is in one list or held by one thread, which
may write its link.
-/

namespace PrototypeBundle.BinAlloc.SharedLists

open Intrusive Runs
open AtomicStack (Stage)

-- `nodes` leads from `first` to `last`; the code has only these two.
inductive Op where
  | insert (h first last : Nat) (nodes : List Nat)
  | detach (h : Nat)
  deriving DecidableEq

-- `atomic_push` does what `atomic_insert_at_head` does with one node as the first and the last one.
def atomicPush (h node : Nat) : Op := .insert h node node [node]

inductive Thread where
  | idle
  | insert (h first last : Nat) (nodes : List Nat) (stage : Stage)
  | detach (h : Nat)
  | returning (r : Option Nat)
  deriving DecidableEq

inductive Place where
  | list (h : Nat)
  | held (t : Nat)
  deriving DecidableEq

structure State where
  heads : Nat → Option Nat
  next : Nat → Option Nat
  threads : Nat → Thread
  -- where each node is; no step of the code depends on it
  place : Nat → Place

inductive Action where
  | call (o : Op)
  -- an exchange may fail spuriously
  | access (fails : Bool)
  -- a store to the link of a node that the thread holds
  | write (node : Nat) (value : Option Nat)

def State.put (s : State) (t : Nat) (thread : Thread) : State :=
  { s with threads := Function.update s.threads t thread }

/-- The thread holds what it inserts. -/
def State.Ready (s : State) (t : Nat) : Op → Prop
  | .insert _ first last nodes =>
      nodes.head? = some first ∧ nodes.getLast? = some last ∧ nodes.Nodup ∧ (∀ n ∈ nodes, s.place n = .held t) ∧
        Segment s.next nodes
  | .detach _ => True

instance (s : State) (t : Nat) : (o : Op) → Decidable (s.Ready t o)
  | .insert _ _ _ _ => inferInstanceAs (Decidable (_ ∧ _))
  | .detach _ => inferInstanceAs (Decidable True)

def enter : Op → Thread
  | .insert h first last nodes => .insert h first last nodes .load
  | .detach h => .detach h

def State.access (s : State) (t : Nat) (fails : Bool) : Thread → Option State
  | .idle => none
  | .insert h first last nodes .load => some (s.put t (.insert h first last nodes (.store (s.heads h))))
  | .insert h first last nodes (.store value) =>
      some ({ s with next := Function.update s.next last value }.put t (.insert h first last nodes .read))
  | .insert h first last nodes .read => some (s.put t (.insert h first last nodes (.compareAndSwap (s.next last))))
  | .insert h first last nodes (.compareAndSwap expected) =>
      if s.heads h = expected ∧ fails = false then
        some ({ s with
          heads := Function.update s.heads h (some first)
          place := fun n => if n ∈ nodes then Place.list h else s.place n }.put t (.returning none))
      -- a failed exchange stores the head that it has found
      else some (s.put t (.insert h first last nodes (.store (s.heads h))))
  | .detach h =>
      some ({ s with
        heads := Function.update s.heads h none
        place := fun n => if s.place n = Place.list h then .held t else s.place n }.put t (.returning (s.heads h)))
  | .returning _ => some (s.put t .idle)

def State.step (s : State) : Nat × Action → Option State
  | (t, .call o) => if s.threads t = .idle ∧ s.Ready t o then some (s.put t (enter o)) else none
  | (t, .access fails) => s.access t fails (s.threads t)
  | (t, .write node value) =>
      if s.threads t = .idle ∧ s.place node = .held t then some { s with next := Function.update s.next node value } else none

def Thread.events (s : State) (t : Nat) (fails : Bool) : Thread → List (Atomic.Event Op (Option Nat))
  | .insert h _ _ _ (.compareAndSwap expected) => if s.heads h = expected ∧ fails = false then [.commit t] else []
  | .detach _ => [.commit t]
  | .returning r => [.respond t r]
  | _ => []

def State.emit (s : State) : Nat × Action → List (Atomic.Event Op (Option Nat))
  | (t, .call o) => [.call t o]
  | (t, .access fails) => (s.threads t).events s t fails
  | (_, .write _ _) => []

def start (next : Nat → Option Nat) (holder : Nat → Nat) : State :=
  ⟨fun _ => none, next, fun _ => .idle, fun n => .held (holder n)⟩

def apply (lists : Nat → List Nat) : Op → (Nat → List Nat) × Option Nat
  | .insert h _ _ nodes => (Function.update lists h (nodes ++ lists h), none)
  | .detach h => (Function.update lists h [], (lists h).head?)

def Thread.status : Thread → Atomic.Status Op (Option Nat)
  | .idle => .idle
  | .insert h first last nodes _ => .called (.insert h first last nodes)
  | .detach h => .called (.detach h)
  | .returning r => .done r

structure Related (s : State) (x : Atomic.Object (Nat → List Nat) Op (Option Nat)) : Prop where
  chains : ∀ h, Chain s.next (s.heads h) (x.state h)
  places : ∀ h n, n ∈ x.state h ↔ s.place n = .list h
  status : ∀ t, x.status t = (s.threads t).status
  inserting : ∀ t h first last nodes stage, s.threads t = .insert h first last nodes stage →
    s.Ready t (.insert h first last nodes) ∧ ∀ expected, stage = .compareAndSwap expected → s.next last = expected

section Steps

variable {s s' : State} {x : Atomic.Object (Nat → List Nat) Op (Option Nat)} {t : Nat}

theorem put_self (thread : Thread) : (s.put t thread).threads t = thread := Function.update_self ..

theorem put_other {u : Nat} (other : u ≠ t) (thread : Thread) : (s.put t thread).threads u = s.threads u :=
  Function.update_of_ne other ..

theorem Related.advance (related : Related s x) {x' : Atomic.Object (Nat → List Nat) Op (Option Nat)} {thread : Thread}
    (threads : s'.threads = Function.update s.threads t thread)
    (status : x'.status = Function.update x.status t thread.status)
    (chains : ∀ h, Chain s'.next (s'.heads h) (x'.state h)) (places : ∀ h n, n ∈ x'.state h ↔ s'.place n = .list h)
    (own : ∀ h first last nodes stage, thread = .insert h first last nodes stage →
      s'.Ready t (.insert h first last nodes) ∧ ∀ expected, stage = .compareAndSwap expected → s'.next last = expected)
    (others : ∀ u n, u ≠ t → s.place n = .held u → s'.place n = .held u ∧ s'.next n = s.next n) : Related s' x' := by
  refine ⟨chains, places, fun u => ?_, fun u h first last nodes stage at' => ?_⟩
  · rw [status, threads]
    by_cases same : u = t
    · rw [same, Function.update_self, Function.update_self]
    · rw [Function.update_of_ne same, Function.update_of_ne same, related.status]
  · by_cases same : u = t
    · subst same
      rw [threads, Function.update_self] at at'
      exact own h first last nodes stage at'
    · rw [threads, Function.update_of_ne same] at at'
      obtain ⟨⟨head, end', nodup, held, segment⟩, link⟩ := related.inserting u h first last nodes stage at'
      have kept (n : Nat) (member : n ∈ nodes) := others u n same (held n member)
      refine ⟨⟨head, end', nodup, fun n member => (kept n member).1, ?_⟩, fun expected reading => ?_⟩
      · exact segment.congr fun n member => (kept n (nodes.dropLast_subset member)).2
      · exact (kept last (List.mem_of_getLast? end')).2.trans (link expected reading)

theorem Related.moves (related : Related s x) {thread : Thread} (same : thread.status = (s.threads t).status)
    (own : ∀ h first last nodes stage, thread = .insert h first last nodes stage →
      s.Ready t (.insert h first last nodes) ∧ ∀ expected, stage = .compareAndSwap expected → s.next last = expected) :
    Related (s.put t thread) x := by
  refine related.advance rfl ?_ related.chains related.places own fun _ _ _ held => ⟨held, rfl⟩
  rw [same, ← related.status, Function.update_eq_self]

theorem Related.links (related : Related s x) {node : Nat} (held : s.place node = .held t) (value : Option Nat) (h : Nat) :
    Chain (Function.update s.next node value) (s.heads h) (x.state h) := by
  refine (related.chains h).congr fun n member => Function.update_of_ne ?_ ..
  rintro rfl
  exact Place.noConfusion (held.symm.trans ((related.places h n).mp member))

theorem update_others {node : Nat} (held : s.place node = .held t) (value : Option Nat) {u n : Nat} (other : u ≠ t)
    (held' : s.place n = .held u) : s.place n = .held u ∧ Function.update s.next node value n = s.next n := by
  refine ⟨held', Function.update_of_ne ?_ ..⟩
  rintro rfl
  exact other (Place.held.inj (held'.symm.trans held))

theorem Related.write (related : Related s x) {node : Nat} (idle : s.threads t = .idle) (held : s.place node = .held t)
    (value : Option Nat) : Related { s with next := Function.update s.next node value } x := by
  have threads : s.threads = Function.update s.threads t .idle := by rw [← idle, Function.update_eq_self]
  refine related.advance threads ?_ (related.links held value) related.places nofun fun u n => update_others held value
  rw [← idle, ← related.status, Function.update_eq_self]

theorem Related.store (related : Related s x) {h first last : Nat} {nodes : List Nat} {value : Option Nat}
    (at' : s.threads t = .insert h first last nodes (.store value)) :
    Related ({ s with next := Function.update s.next last value }.put t (.insert h first last nodes .read)) x := by
  obtain ⟨⟨head, end', nodup, held, segment⟩, -⟩ := related.inserting t h first last nodes _ at'
  have mine := held last (List.mem_of_getLast? end')
  refine related.advance rfl ?_ (related.links mine value) related.places ?_ fun u n => update_others mine value
  · have called : x.status t = (Thread.insert h first last nodes .read).status := by
      rw [related.status, at']
      rfl
    rw [← called, Function.update_eq_self]
  · rintro _ _ _ _ _ ⟨⟩
    refine ⟨⟨head, end', nodup, held, segment.congr fun n member => Function.update_of_ne ?_ ..⟩, nofun⟩
    -- the last node is not among those before it
    rintro rfl
    obtain ⟨front, rfl⟩ := List.getLast?_eq_some_iff.mp end'
    rw [List.dropLast_concat] at member
    exact (List.nodup_append.mp nodup).2.2 n member n (by simp) rfl

theorem Related.insert (related : Related s x) {h first last : Nat} {nodes : List Nat} {expected : Option Nat}
    (at' : s.threads t = .insert h first last nodes (.compareAndSwap expected)) (found : s.heads h = expected) :
    ∃ x', exec (Atomic.Object.step apply) x [.commit t] = some x' ∧
      Related ({ s with
        heads := Function.update s.heads h (some first)
        place := fun n => if n ∈ nodes then Place.list h else s.place n }.put t (.returning none)) x' := by
  obtain ⟨⟨head, end', nodup, held, segment⟩, link⟩ := related.inserting t h first last nodes _ at'
  have called : x.status t = .called (.insert h first last nodes) := by rw [related.status, at', Thread.status]
  refine ⟨_, exec_cons.mpr ⟨_, Atomic.Object.step_commit called, rfl⟩, related.advance rfl rfl ?_ ?_ nofun ?_⟩
  · intro h'
    change Chain s.next (Function.update s.heads h (some first) h') (Function.update x.state h (nodes ++ x.state h) h')
    by_cases same : h' = h
    · rw [same, Function.update_self, Function.update_self, ← head]
      exact (related.chains h).prepend segment end' ((link expected rfl).trans found.symm)
    · rw [Function.update_of_ne same, Function.update_of_ne same]
      exact related.chains h'
  · intro h' n
    change n ∈ Function.update x.state h (nodes ++ x.state h) h' ↔ (if n ∈ nodes then Place.list h else s.place n) = .list h'
    by_cases inside : n ∈ nodes
    · have outside (h : Nat) : n ∉ x.state h := fun member =>
        Place.noConfusion ((held n inside).symm.trans ((related.places h n).mp member))
      by_cases same : h' = h
      · simp [same, inside]
      · simp [same, Ne.symm same, inside, outside]
    · by_cases same : h' = h
      · simp [same, inside, related.places]
      · simp [same, inside, related.places]
  · intro u n other held'
    refine ⟨(if_neg fun inside => ?_).trans held', rfl⟩
    exact other (Place.held.inj (held'.symm.trans (held n inside)))

theorem Related.detach (related : Related s x) {h : Nat} (at' : s.threads t = .detach h) :
    ∃ x', exec (Atomic.Object.step apply) x [.commit t] = some x' ∧
      Related ({ s with
        heads := Function.update s.heads h none
        place := fun n => if s.place n = Place.list h then .held t else s.place n }.put t (.returning (s.heads h))) x' := by
  have called : x.status t = .called (.detach h) := by rw [related.status, at', Thread.status]
  have answer : (x.state h).head? = s.heads h := by
    have chain := related.chains h
    cases known : x.state h with
    | nil => simpa [known, eq_comm] using chain
    | cons n rest => rw [known] at chain; exact chain.1.symm
  refine ⟨_, exec_cons.mpr ⟨_, Atomic.Object.step_commit called, rfl⟩, related.advance rfl ?_ ?_ ?_ nofun ?_⟩
  · rw [Thread.status, ← answer]
    rfl
  · intro h'
    change Chain s.next (Function.update s.heads h none h') (Function.update x.state h [] h')
    by_cases same : h' = h
    · rw [same, Function.update_self, Function.update_self]
      rfl
    · rw [Function.update_of_ne same, Function.update_of_ne same]
      exact related.chains h'
  · intro h' n
    change n ∈ Function.update x.state h [] h' ↔ (if s.place n = Place.list h then Place.held t else s.place n) = .list h'
    by_cases same : h' = h
    · by_cases inside : s.place n = .list h
      · simp [same, inside]
      · simp [same, inside]
    · rw [Function.update_of_ne same, related.places]
      by_cases inside : s.place n = .list h
      · simp [inside, Ne.symm same]
      · simp [inside]
  · intro u n other held
    exact ⟨(if_neg (by rw [held]; exact Place.noConfusion)).trans held, rfl⟩

theorem Related.step (related : Related s x) {a : Nat × Action} (taken : s.step a = some s') :
    ∃ x', exec (Atomic.Object.step apply) x (s.emit a) = some x' ∧ Related s' x' := by
  obtain ⟨t, action⟩ := a
  cases action with
  | call o =>
      obtain ⟨⟨idle, ready⟩, taken⟩ := Option.ite_none_right_eq_some.mp taken
      obtain rfl := Option.some.inj taken
      have free : x.status t = .idle := by rw [related.status, idle, Thread.status]
      refine ⟨_, exec_cons.mpr ⟨_, Atomic.Object.step_call o free, rfl⟩, related.advance rfl ?_ related.chains related.places ?_
        fun _ _ _ held => ⟨held, rfl⟩⟩
      · cases o <;> rfl
      · intro h first last nodes stage at'
        cases o with
        | insert =>
            cases at'
            exact ⟨ready, nofun⟩
        | detach => cases at'
  | write node value =>
      obtain ⟨⟨idle, held⟩, taken⟩ := Option.ite_none_right_eq_some.mp taken
      obtain rfl := Option.some.inj taken
      exact ⟨x, rfl, related.write idle held value⟩
  | access fails =>
      rw [State.step] at taken
      rw [State.emit]
      -- an insertion goes on with its own nodes
      have goesOn {h first last : Nat} {nodes : List Nat} {stage stage' : Stage}
          (at' : s.threads t = .insert h first last nodes stage)
          (link : ∀ expected, stage' = .compareAndSwap expected → s.next last = expected) :
          Related (s.put t (.insert h first last nodes stage')) x := by
        refine related.moves (by rw [at', Thread.status, Thread.status]) ?_
        rintro _ _ _ _ _ ⟨⟩
        exact ⟨(related.inserting t h first last nodes stage at').1, link⟩
      cases at' : s.threads t with
      | idle =>
          rw [at'] at taken
          cases taken
      | insert h first last nodes stage =>
          rw [at'] at taken
          cases stage with
          | load =>
              obtain rfl := Option.some.inj taken
              exact ⟨x, rfl, goesOn at' nofun⟩
          | store value =>
              obtain rfl := Option.some.inj taken
              exact ⟨x, rfl, related.store at'⟩
          | read =>
              obtain rfl := Option.some.inj taken
              exact ⟨x, rfl, goesOn at' fun _ same => Stage.compareAndSwap.inj same⟩
          | compareAndSwap expected =>
              rw [State.access] at taken
              rw [Thread.events]
              split at taken
              case isTrue found =>
                obtain rfl := Option.some.inj taken
                rw [if_pos found]
                exact related.insert at' found.1
              case isFalse failed =>
                obtain rfl := Option.some.inj taken
                rw [if_neg failed]
                exact ⟨x, rfl, goesOn at' nofun⟩
      | detach h =>
          rw [at'] at taken
          obtain rfl := Option.some.inj taken
          exact related.detach at'
      | returning r =>
          rw [at'] at taken
          obtain rfl := Option.some.inj taken
          have done : x.status t = .done r := by rw [related.status, at', Thread.status]
          exact ⟨_, exec_cons.mpr ⟨_, Atomic.Object.step_respond done, rfl⟩,
            related.advance rfl rfl related.chains related.places nofun fun _ _ _ held => ⟨held, rfl⟩⟩

end Steps

theorem start_related (next : Nat → Option Nat) (holder : Nat → Nat) :
    Related (start next holder) (Atomic.Object.initial fun _ => []) where
  chains _ := rfl
  places h n := by simp [start, Atomic.Object.initial]
  status _ := rfl
  inserting := nofun

/-- What has been inserted at `h` since it was detached last, by a log with the latest call first -/
def inserted (h : Nat) : List (Nat × Op × Option Nat) → List Nat
  | [] => []
  | (_, .insert h' _ _ nodes, _) :: earlier => if h' = h then nodes ++ inserted h earlier else inserted h earlier
  | (_, .detach h', _) :: earlier => if h' = h then [] else inserted h earlier

theorem legal_inserted {log : List (Nat × Op × Option Nat)} {lists : Nat → List Nat}
    (legal : Atomic.Legal apply (fun _ => []) log lists) (h : Nat) : lists h = inserted h log := by
  induction log generalizing lists with
  | nil =>
      obtain rfl := legal
      rfl
  | cons entry log ih =>
      obtain ⟨t, o, r⟩ := entry
      obtain ⟨before, legal, applied⟩ := legal
      obtain rfl := congrArg Prod.fst applied
      have earlier := ih legal
      cases o with
      | insert h' first last nodes =>
          by_cases same : h' = h
          · subst same
            simp [apply, inserted, earlier]
          · simp [apply, inserted, same, Ne.symm same, earlier]
      | detach h' =>
          by_cases same : h' = h
          · subst same
            simp [apply, inserted]
          · simp [apply, inserted, same, Ne.symm same, earlier]

/-- Without `atomic_pop` nothing depends on what a head was before: every list is what was inserted since it was
detached last, no node is in two places, and a detached list is that of the insertions before it. -/
theorem lists_linearizable (next : Nat → Option Nat) (holder : Nat → Nat) {actions : List (Nat × Action)} {s : State}
    (run : exec State.step (start next holder) actions = some s) :
    ∃ x, exec (Atomic.Object.step apply) (Atomic.Object.initial fun _ => [])
        (trace State.step State.emit (start next holder) actions) = some x ∧
      (∀ h, Chain s.next (s.heads h) (inserted h x.log)) ∧ (∀ h n, n ∈ inserted h x.log ↔ s.place n = .list h) ∧
      x.responses.Subperm (x.log.map fun entry => (entry.1, entry.2.2)) ∧
      ∀ later t h r earlier, x.log = later ++ (t, .detach h, r) :: earlier → r = (inserted h earlier).head? := by
  obtain ⟨x, abstract, related⟩ := (Along.trivial _ _ actions).simulation Related
    (fun _ _ _ _ related _ taken => related.step taken) (start_related next holder) run
  have ok := Atomic.Object.run_ok abstract
  have same := legal_inserted ok.legal
  refine ⟨x, abstract, fun h => same h ▸ related.chains h, fun h n => same h ▸ related.places h n, ok.responses_subperm, ?_⟩
  intro later t h r earlier split
  obtain ⟨lists, legal, answer⟩ := (split ▸ ok.legal).answer
  rw [answer, ← legal_inserted legal h]
  rfl

-- Thread 1 inserts node 3 while thread 0 inserts nodes 1 and 2, and detaches all of them.
def overlapping : List (Nat × Action) :=
  [(0, .write 1 (some 2)), (0, .call (.insert 0 1 2 [1, 2])), (1, .call (atomicPush 0 3)), (0, .access false), (1, .access false),
    (1, .access false), (1, .access false), (1, .access false), (0, .access false), (0, .access false), (0, .access false),
    (0, .access false), (0, .access false), (0, .access false), (1, .access false), (1, .call (.detach 0)), (1, .access false),
    (1, .access false)]

theorem lists_linearizable_overlapping : ∃ s x,
    exec State.step (start (fun _ => none) fun n => if n = 3 then 1 else 0) overlapping = some s ∧ s.next 2 = some 3 ∧
      exec (Atomic.Object.step apply) (Atomic.Object.initial fun _ => [])
        (trace State.step State.emit (start (fun _ => none) fun n => if n = 3 then 1 else 0) overlapping) = some x ∧
      ∀ later t h r earlier, x.log = later ++ (t, .detach h, r) :: earlier → r = (inserted h earlier).head? := by
  obtain ⟨s, run, link⟩ : ∃ s, exec State.step (start (fun _ => none) fun n => if n = 3 then 1 else 0) overlapping = some s ∧
      s.next 2 = some 3 := ⟨_, rfl, rfl⟩
  obtain ⟨x, abstract, -, -, -, detached⟩ := lists_linearizable _ _ run
  exact ⟨s, x, run, link, abstract, detached⟩

end PrototypeBundle.BinAlloc.SharedLists
