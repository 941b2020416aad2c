import PrototypeBundle.LockFree.Safety
import PrototypeBundle.Shared.Atomic

set_option autoImplicit false

namespace PrototypeBundle.LockFree

open Memory Intrusive

/-- The sequential stack, with the values that were cleared. -/
structure Lifo (V : Type) where
  stack : List V
  detached : List V

variable {V : Type}

def Lifo.apply (x : Lifo V) : Call V → Lifo V × Result V
  | .push value => ({ x with stack := value :: x.stack }, .pushed)
  | .pop =>
      match x.stack with
      | [] => (x, .popped none)
      | value :: rest => ({ x with stack := rest }, .popped (some value))
  | .clear => ({ stack := [], detached := x.stack ++ x.detached }, .cleared)

abbrev Log (V : Type) := List (Nat × Call V × Result V)

def pushedValues (log : Log V) : List V :=
  log.filterMap fun (_, call, _) =>
    match call with
    | .push value => some value
    | _ => none

def Result.value : Result V → Option V
  | popped value => value
  | _ => none

def poppedValues (results : List (Nat × Result V)) : List V := results.filterMap fun (_, result) => result.value

def results (log : Log V) : List (Nat × Result V) := log.map fun (t, _, result) => (t, result)

theorem lifo_values (log : Log V) : ∀ x : Lifo V, Atomic.Legal Lifo.apply { stack := [], detached := [] } log x →
    (pushedValues log).Perm (poppedValues (results log) ++ x.detached ++ x.stack) := by
  induction log with
  | nil =>
      rintro x rfl
      exact .refl _
  | cons entry log ih =>
      obtain ⟨t, call, result⟩ := entry
      rintro x ⟨before, legal, applied⟩
      have earlier := ih before legal
      cases call with
      | push value =>
          obtain ⟨rfl, rfl⟩ : { before with stack := value :: before.stack } = x ∧ Result.pushed = result := by
            simpa [Lifo.apply] using applied
          exact (earlier.cons value).trans List.perm_middle.symm
      | pop =>
          cases held : before.stack with
          | nil =>
              obtain ⟨rfl, rfl⟩ : before = x ∧ Result.popped none = result := by simpa [Lifo.apply, held] using applied
              exact earlier
          | cons value rest =>
              obtain ⟨rfl, rfl⟩ : { before with stack := rest } = x ∧ Result.popped (some value) = result := by
                simpa [Lifo.apply, held] using applied
              rw [held] at earlier
              exact earlier.trans List.perm_middle
      | clear =>
          obtain ⟨rfl, rfl⟩ : { stack := [], detached := before.stack ++ before.detached } = x ∧ Result.cleared = result := by
            simpa [Lifo.apply] using applied
          refine earlier.trans ?_
          simp only [List.append_nil, List.append_assoc]
          exact (List.perm_append_comm).append_left _

theorem poppedValues_subperm {xs ys : List (Nat × Result V)} (sub : xs.Subperm ys) :
    (poppedValues xs).Subperm (poppedValues ys) := by
  obtain ⟨zs, perm, sublist⟩ := sub
  exact ⟨poppedValues zs, perm.filterMap _, sublist.filterMap _⟩

/-- What a step shows of the calls: they take effect at the successful exchanges and, for an empty stack, where
the null head is loaded. -/
def emit (s : State V) : Nat × Action V → List (Atomic.Event (Call V) (Result V))
  | (t, .call call) => [.call t call]
  | (_, .allocate _) => []
  | (t, .access fails) =>
      match s.clients t with
      | .link _ (.compareAndSwap expected) => if s.head = expected ∧ fails = false then [.commit t] else []
      | .countUp => [.respond t .pushed]
      | .loadHead => if s.head = none then [.commit t] else []
      | .swapHead oldHead _ =>
          if (s.head = some oldHead ∧ fails = false) ∨ s.head = none then [.commit t] else []
      | .detach => [.commit t]
      | .leave result => [.respond t result]
      | _ => []

abbrev Abstract (V : Type) := Atomic.Object (Lifo V) (Call V) (Result V)

def Promise (s : State V) : Client V → Atomic.Status (Call V) (Result V) → Prop
  | .idle, status => status = .idle
  | .allocate value, status => status = .called (.push value)
  | .construct _ value, status => status = .called (.push value)
  | .link node _, status => ∃ value, (s.nodes node).storage = some value ∧ status = .called (.push value)
  | .countUp, status => status = .done .pushed
  | .enterPop, status => status = .called .pop
  | .countDown, status => status = .called .pop
  | .loadHead, status => status = .called .pop
  | .readNext _, status => status = .called .pop
  | .swapHead _ _, status => status = .called .pop
  | .moveData unhooked, status =>
      ∃ value, (s.nodes unhooked).storage = some value ∧ status = .done (.popped (some value))
  | .destroyData _ value, status => status = .done (.popped value)
  | .enterClear, status => status = .called .clear
  | .detach, status => status = .called .clear
  | .findTail _ _, status => status = .done .cleared
  | .retire _ _ _ result, status => status = .done result
  | .loadCollection result, status => status = .done result
  | .loadCritical _ result, status => status = .done result
  | .swapCollection _ result, status => status = .done result
  | .readCollectable _ result, status => status = .done result
  | .delete _ _ result, status => status = .done result
  | .leave result, status => status = .done result

def Stores (s : State V) (L : List Nat) (stack : List V) : Prop :=
  L.map (fun a => (s.nodes a).storage) = stack.map some

structure Related (s : State V) (place : Nat → Place) (L D : List Nat) (G : Finset Nat) (x : Abstract V) : Prop where
  inv : Inv s place L D G
  stores : Stores s L x.state.stack
  promise : ∀ t, Promise s (s.clients t) (x.status t)

variable {s s' : State V} {place : Nat → Place} {L D : List Nat} {G : Finset Nat} {t : Nat} {x x' : Abstract V}

theorem Client.Holds.promise {next : Nat → Option Nat} {c : Client V} {xs : List Nat} {status : Atomic.Status (Call V) (Result V)}
    (holds : c.Holds next xs) (same : ∀ a ∈ xs, s'.nodes a = s.nodes a) (promise : Promise s c status) :
    Promise s' c status := by
  cases c with
  | link node stage =>
      obtain ⟨rfl, _⟩ := holds
      simpa [Promise, same node (by simp)] using promise
  | moveData unhooked =>
      obtain rfl : xs = [unhooked] := holds
      simpa [Promise, same unhooked (by simp)] using promise
  | _ => exact promise

theorem Related.advance (related : Related s place L D G x) (advances : Advances t s s' place)
    (status : ∀ u, u ≠ t → x'.status u = x.status u) (promise : Promise s' (s'.clients t) (x'.status t))
    (stores : ∀ L', Chain s'.next s'.head L' → (∀ a ∈ L, s'.nodes a = s.nodes a) → Stores s' L' x'.state.stack) :
    ∃ place' L' D' G', Related s' place' L' D' G' x' := by
  obtain ⟨place', L', D', G', inv', step⟩ := advances
  refine ⟨place', L', D', G', inv', ?_, ?_⟩
  · refine stores L' inv'.head fun a member => ?_
    have atHead := (related.inv.linked a).mpr member
    exact step.nodes a (by simp [atHead]) (by simp [atHead])
  · intro u
    by_cases same : u = t
    · rw [same]
      exact promise
    · rw [status u same, step.clients u same]
      obtain ⟨⟨xs, holds, owns⟩, _⟩ := related.inv.client u
      refine holds.promise (fun a member => ?_) (related.promise u)
      have owner := (owns a _).mpr ⟨rfl, member⟩
      exact step.nodes a (by simp [owner, same]) (by simp [owner])

theorem Related.quiet (related : Related s place L D G x) (advances : Advances t s s' place)
    (status : ∀ u, u ≠ t → x'.status u = x.status u) (promise : Promise s' (s'.clients t) (x'.status t))
    (head : s'.head = s.head) (state : x'.state = x.state) : ∃ place' L' D' G', Related s' place' L' D' G' x' := by
  refine related.advance advances status promise fun L' chain same => ?_
  have before : Chain s'.next s'.head L := by
    rw [head]
    exact related.inv.head.congr fun a member => by simp only [State.next, same a member]
  obtain rfl := chain.unique before
  rw [state]
  exact (List.map_congr_left fun a member => by rw [same a member]).trans related.stores

variable [DecidableEq V]

abbrev abstractStep : Abstract V → Atomic.Event (Call V) (Result V) → Option (Abstract V) := Atomic.Object.step Lifo.apply

def Matched (s s' : State V) (x : Abstract V) (action : Nat × Action V) : Prop :=
  ∃ x', Runs.exec abstractStep x (emit s action) = some x' ∧ ∃ place L D G, Related s' place L D G x'

theorem Related.stay (related : Related s place L D G x) {action : Nat × Action V} (advances : Advances t s s' place)
    (emitted : emit s action = []) (head : s'.head = s.head) (promise : Promise s' (s'.clients t) (x.status t)) :
    Matched s s' x action :=
  ⟨x, by rw [emitted]; rfl, related.quiet advances (fun _ _ => rfl) promise head rfl⟩

theorem Related.respond (related : Related s place L D G x) {action : Nat × Action V} (advances : Advances t s s' place)
    {result : Result V} (emitted : emit s action = [.respond t result]) (head : s'.head = s.head)
    (done : x.status t = .done result) (idle : s'.clients t = .idle) : Matched s s' x action := by
  let x₁ : Abstract V :=
    { x with status := Function.update x.status t .idle, responses := (t, result) :: x.responses }
  refine ⟨x₁, ?_, related.quiet advances (fun u other => Function.update_of_ne other ..) ?_ head rfl⟩
  · rw [emitted]
    exact Runs.exec_cons.mpr ⟨x₁, Atomic.Object.step_respond done, rfl⟩
  · rw [idle]
    exact Function.update_self ..

theorem Related.commit (related : Related s place L D G x) {action : Nat × Action V} (advances : Advances t s s' place)
    {call : Call V} (emitted : emit s action = [.commit t]) (called : x.status t = .called call)
    (promise : Promise s' (s'.clients t) (.done (Lifo.apply x.state call).2))
    (stores : ∀ L', Chain s'.next s'.head L' → (∀ a ∈ L, s'.nodes a = s.nodes a) →
      Stores s' L' (Lifo.apply x.state call).1.stack) : Matched s s' x action := by
  let x₁ : Abstract V := { x with
    state := (Lifo.apply x.state call).1
    status := Function.update x.status t (.done (Lifo.apply x.state call).2)
    log := (t, call, (Lifo.apply x.state call).2) :: x.log }
  have now : x₁.status t = .done (Lifo.apply x.state call).2 := Function.update_self ..
  refine ⟨x₁, ?_, related.advance advances (fun u other => Function.update_of_ne other ..) (now ▸ promise) stores⟩
  rw [emitted]
  exact Runs.exec_cons.mpr ⟨x₁, Atomic.Object.step_commit called, rfl⟩

omit [DecidableEq V] in
theorem Related.empty (related : Related s place L D G x) (null : s.head = none) : L = [] ∧ x.state.stack = [] := by
  obtain rfl := related.inv.head.head_none_iff.mp null
  exact ⟨rfl, List.map_eq_nil_iff.mp related.stores.symm⟩

theorem Related.link (related : Related s place L D G x) {fails : Bool} {node : Nat} {expected : Option Nat}
    (client : s.clients t = .link node (.compareAndSwap expected)) (hit : s.head = expected ∧ fails = false)
    (advances : Advances t s (({ s with head := some node } : State V).put t .countUp) place) :
    Matched s (({ s with head := some node } : State V).put t .countUp) x (t, .access fails) := by
  have promise := related.promise t
  rw [client] at promise
  obtain ⟨value, storage, called⟩ := promise
  obtain ⟨⟨xs, holds, _⟩, _⟩ := related.inv.client t
  rw [client] at holds
  refine related.commit advances (by simp [emit, client, hit]) called (by simp [State.put, Promise, Lifo.apply]) ?_
  intro L' chain _
  obtain ⟨rest, rfl, tail⟩ := chain.tail rfl
  have next : s.next node = s.head := by
    rw [hit.1]
    exact holds.2.symm
  obtain rfl := tail.unique (next ▸ related.inv.head)
  have stores := related.stores
  simp only [Stores, Lifo.apply, List.map_cons, State.put] at stores ⊢
  rw [storage, stores]

theorem Related.unlink (related : Related s place L D G x) {fails : Bool} {oldHead : Nat} {next : Option Nat}
    (client : s.clients t = .swapHead oldHead next) (hit : s.head = some oldHead ∧ fails = false)
    (advances : Advances t s (({ s with head := next } : State V).put t (.moveData oldHead)) place) :
    Matched s (({ s with head := next } : State V).put t (.moveData oldHead)) x (t, .access fails) := by
  have called := related.promise t
  rw [client] at called
  obtain ⟨rest, rfl, tail⟩ := related.inv.head.tail hit.1
  have atHead : place oldHead = .linked := (related.inv.linked oldHead).mpr (by simp)
  obtain rfl := (related.inv.client t).current oldHead next client atHead
  have stores := related.stores
  cases held : x.state.stack with
  | nil => simp [Stores, held] at stores
  | cons value values =>
      obtain ⟨storage, others⟩ : (s.nodes oldHead).storage = some value ∧
          rest.map (fun a => (s.nodes a).storage) = values.map some := by simpa [Stores, held] using stores
      refine related.commit advances (by simp [emit, client, hit]) called ?_ ?_
      · simp only [State.put, Function.update_self, Lifo.apply, held]
        exact ⟨value, storage, rfl⟩
      · intro L' chain _
        obtain rfl := chain.unique tail
        simp only [Lifo.apply, held]
        exact others

theorem Related.detach (related : Related s place L D G x) {fails : Bool} {first : Nat}
    (client : s.clients t = .detach)
    (advances : Advances t s (({ s with head := none } : State V).put t (.findTail first first)) place) :
    Matched s (({ s with head := none } : State V).put t (.findTail first first)) x (t, .access fails) := by
  have called := related.promise t
  rw [client] at called
  refine related.commit advances (by simp [emit, client]) called (by simp [State.put, Promise, Lifo.apply]) ?_
  intro L' chain _
  obtain rfl := chain.head_none_iff.mp rfl
  rfl

theorem Related.load (related : Related s place L D G x) {action : Nat × Action V}
    (advances : Advances t s (s.put t (withHead s.head)) place)
    (emitted : emit s action = if s.head = none then [.commit t] else []) (called : x.status t = .called .pop) :
    Matched s (s.put t (withHead s.head)) x action := by
  cases head : s.head with
  | none =>
      rw [head] at advances emitted
      obtain ⟨rfl, empty⟩ := related.empty head
      refine related.commit advances emitted called ?_ ?_
      · simp [State.put, withHead, Promise, Lifo.apply, empty]
      · intro L' chain _
        obtain rfl := chain.head_none_iff.mp head
        simp [Lifo.apply, empty, Stores]
  | some oldHead =>
      rw [head] at advances emitted
      exact related.stay advances (by simpa using emitted) rfl (by simpa [State.put, withHead, Promise] using called)

theorem Related.access (related : Related s place L D G x) {fails : Bool} (ok : Admissible s (t, .access fails))
    (taken : s.access t fails (s.clients t) = some s') : Matched s s' x (t, .access fails) := by
  have advances := related.inv.access ok taken
  have promise := related.promise t
  cases client : s.clients t with
  | idle => simp [client, State.access] at taken
  | allocate value => simp [client, State.access] at taken
  | construct node value =>
      rw [client] at promise
      rw [client, State.access, Option.some.injEq] at taken
      subst taken
      refine related.stay advances (by simp [emit, client]) rfl ?_
      simp only [State.put, Function.update_self]
      exact ⟨value, by simp [modifyAt], promise⟩
  | link node stage =>
      rw [client] at promise
      rw [client, State.access] at taken
      split at taken
      case h_1 nodes stage' found =>
        rw [Option.some.injEq] at taken
        subst taken
        obtain ⟨value, storage, called⟩ := promise
        have kept := ((pushAccess_next found).2.1 node).2
        refine related.stay advances ?_ rfl ?_
        · cases stage with
          | compareAndSwap expected =>
              by_cases hit : s.head = expected ∧ fails = false
              · simp [pushAccess, hit] at found
              · simp [emit, client, hit]
          | _ => simp [emit, client]
        · simp only [State.put, Function.update_self]
          exact ⟨value, kept.trans storage, called⟩
      case h_2 nodes found =>
        rw [Option.some.injEq] at taken
        subst taken
        obtain ⟨rfl, rfl, real⟩ := pushAccess_done found
        exact related.link client ⟨rfl, real⟩ advances
  | countUp =>
      rw [client] at promise
      rw [client, State.access, Option.some.injEq] at taken
      subst taken
      exact related.respond advances (by simp [emit, client]) rfl promise (Function.update_self ..)
  | loadHead =>
      rw [client] at promise
      rw [client, State.access, Option.some.injEq] at taken
      subst taken
      exact related.load advances (by simp [emit, client]) promise
  | swapHead oldHead next =>
      rw [client] at promise
      rw [client, State.access] at taken
      by_cases hit : s.head = some oldHead ∧ fails = false
      · rw [if_pos hit, Option.some.injEq] at taken
        subst taken
        exact related.unlink client hit advances
      · rw [if_neg hit, Option.some.injEq] at taken
        subst taken
        exact related.load advances (by simp only [emit, client, hit, false_or]) promise
  | moveData unhooked =>
      rw [client] at promise
      rw [client, State.access, Option.some.injEq] at taken
      subst taken
      obtain ⟨value, storage, done⟩ := promise
      refine related.stay advances (by simp [emit, client]) rfl ?_
      simpa [State.put, Promise, storage] using done
  | detach =>
      rw [client] at promise
      rw [client, State.access] at taken
      split at taken
      case h_1 null =>
        rw [Option.some.injEq] at taken
        subst taken
        obtain ⟨rfl, empty⟩ := related.empty null
        refine related.commit advances (by simp [emit, client]) promise (by simp [State.put, Promise, Lifo.apply]) ?_
        intro L' chain _
        obtain rfl := chain.head_none_iff.mp null
        rfl
      case h_2 first found =>
        rw [Option.some.injEq] at taken
        subst taken
        exact related.detach client advances
  | findTail first tail =>
      rw [client] at promise
      rw [client, State.access] at taken
      split at taken
      all_goals
        rw [Option.some.injEq] at taken
        subst taken
        exact related.stay advances (by simp [emit, client]) rfl (by simpa [State.put, Promise] using promise)
  | retire first last stage result =>
      rw [client] at promise
      rw [client, State.access] at taken
      split at taken
      all_goals
        rw [Option.some.injEq] at taken
        subst taken
        exact related.stay advances (by simp [emit, client]) rfl (by simpa [State.put, Promise] using promise)
  | loadCritical collectable result =>
      rw [client] at promise
      rw [client, State.access] at taken
      split at taken
      all_goals
        rw [Option.some.injEq] at taken
        subst taken
        exact related.stay advances (by simp [emit, client]) rfl (by simpa [State.put, Promise] using promise)
  | swapCollection collectable result =>
      rw [client] at promise
      rw [client, State.access] at taken
      split at taken
      · rw [Option.some.injEq] at taken
        subst taken
        refine related.stay advances (by simp [emit, client]) rfl ?_
        cases collectable <;> simpa [State.put, collectFrom, Promise] using promise
      · rw [Option.some.injEq] at taken
        subst taken
        exact related.stay advances (by simp [emit, client]) rfl (by simpa [State.put, Promise] using promise)
  | delete collectable next result =>
      rw [client] at promise
      rw [client, State.access, Option.some.injEq] at taken
      subst taken
      refine related.stay advances (by simp [emit, client]) rfl ?_
      cases next <;> simpa [State.put, collectFrom, Promise] using promise
  | leave result =>
      rw [client] at promise
      rw [client, State.access, Option.some.injEq] at taken
      subst taken
      exact related.respond advances (by simp [emit, client]) rfl promise (Function.update_self ..)
  | _ =>
      -- an access that leaves the status of the call alone
      rw [client] at promise
      rw [client, State.access, Option.some.injEq] at taken
      subst taken
      exact related.stay advances (by simp [emit, client]) rfl (by simpa [State.put, Promise] using promise)

theorem Related.step (related : Related s place L D G x) {action : Action V} (ok : Admissible s (t, action))
    (taken : s.step (t, action) = some s') : Matched s s' x (t, action) := by
  have advances := related.inv.advance ok taken
  have promise := related.promise t
  cases action with
  | call call =>
      simp only [State.step] at taken
      split at taken
      case h_1 idle =>
        rw [idle] at promise
        rw [Option.some.injEq] at taken
        subst taken
        let x₁ : Abstract V := { x with status := Function.update x.status t (.called call) }
        have now : x₁.status t = .called call := Function.update_self ..
        refine ⟨x₁, ?_, related.quiet advances (fun u other => Function.update_of_ne other ..) ?_ rfl rfl⟩
        · exact Runs.exec_cons.mpr ⟨x₁, Atomic.Object.step_call call promise, rfl⟩
        · rw [now]
          cases call <;> simp [State.put, begin, Promise]
      case h_2 => simp at taken
  | allocate node =>
      simp only [State.step] at taken
      split at taken
      case h_1 value client =>
        rw [client] at promise
        split at taken
        case isTrue => simp at taken
        case isFalse =>
          rw [Option.some.injEq] at taken
          subst taken
          exact related.stay advances rfl rfl (by simpa [State.put, Promise] using promise)
      case h_2 => simp at taken
  | access fails => exact related.access ok taken

omit [DecidableEq V] in
theorem start_related : Related (start : State V) (fun _ => .free) [] [] ∅
    (Atomic.Object.initial { stack := [], detached := [] }) where
  inv := start_inv
  stores := rfl
  promise := fun _ => rfl

/-- The calls, their effects at the exchanges, and their responses are a run of the sequential stack. -/
theorem run_linearizable {actions : List (Nat × Action V)} (ok : Runs.Along State.step Admissible start actions)
    (run : Runs.exec State.step start actions = some s) :
    ∃ x : Abstract V,
      Runs.exec abstractStep (Atomic.Object.initial { stack := [], detached := [] })
        (Runs.trace State.step emit start actions) = some x ∧
      (∃ L, Chain s.next s.head L ∧ Stores s L x.state.stack) ∧
      (pushedValues x.log).Perm (poppedValues (results x.log) ++ x.state.detached ++ x.state.stack) ∧
      (poppedValues x.responses).Subperm (poppedValues (results x.log)) := by
  obtain ⟨x, shown, place, L, D, G, related⟩ :=
    ok.simulation (fun s x => ∃ place L D G, Related s place L D G x)
      (by
        rintro s ⟨t, action⟩ next x ⟨place, L, D, G, related⟩ ok taken
        exact related.step ok taken)
      ⟨_, _, _, _, start_related⟩ run
  have legal := Atomic.Object.run_ok shown
  exact ⟨x, shown, ⟨L, related.inv.head, related.stores⟩, lifo_values x.log x.state legal.legal,
    poppedValues_subperm legal.responses_subperm⟩

theorem run_linearizable_reused :
    ∃ s, Runs.exec State.step start (deleting ++ reused ++ accesses 3 14) = some s ∧ ∃ x : Abstract Nat,
      Runs.exec abstractStep (Atomic.Object.initial { stack := [], detached := [] })
        (Runs.trace State.step emit start (deleting ++ reused ++ accesses 3 14)) = some x ∧
      (∃ L, Chain s.next s.head L ∧ Stores s L x.state.stack) ∧
      (pushedValues x.log).Perm (poppedValues (results x.log) ++ x.state.detached ++ x.state.stack) ∧
      (poppedValues x.responses).Subperm (poppedValues (results x.log)) ∧ poppedValues x.responses = [11, 10] := by
  obtain ⟨s, run⟩ : ∃ s, Runs.exec State.step start (deleting ++ reused ++ accesses 3 14) = some s := ⟨_, rfl⟩
  obtain ⟨x, shown, chain, values, responses⟩ :=
    run_linearizable (admissible_of_check (by decide) (by decide +kernel)) run
  have answers : ((Runs.exec abstractStep (Atomic.Object.initial { stack := [], detached := [] })
      (Runs.trace State.step emit start (deleting ++ reused ++ accesses 3 14))).map fun x => poppedValues x.responses) =
      some [11, 10] := by decide +kernel
  rw [shown] at answers
  exact ⟨s, run, x, shown, chain, values, responses, Option.some.inj answers⟩

-- The node at the head is deleted and pushed again while client 3 is about to replace it by the node it has
-- read below, which client 4 has popped in the meantime. Clients 4 and 5 get the same value.
def poppedTwice : List (Nat × Action Nat) :=
  pushed 0 7 10 ++
  (1, .call .pop) :: accesses 1 13 ++
  (2, .call .pop) :: accesses 2 4 ++ accesses 1 4 ++ accesses 2 1 ++
  pushed 0 8 20 ++ pushed 0 7 11 ++
  (3, .call .pop) :: accesses 3 4 ++
  (4, .call .pop) :: accesses 4 14 ++
  -- client 2 deletes the node 7 that client 3 holds
  accesses 2 4 ++
  (4, .call .pop) :: accesses 4 6 ++
  pushed 0 7 12 ++
  accesses 3 1 ++
  (5, .call .pop) :: accesses 5 14 ++ accesses 4 8

theorem popped_twice_not_linearizable :
    ¬ ∀ (actions : List (Nat × Action Nat)) s, Runs.exec State.step start actions = some s →
      ∃ x : Abstract Nat,
        Runs.exec abstractStep (Atomic.Object.initial { stack := [], detached := [] })
          (Runs.trace State.step emit start actions) = some x := by
  intro linearizable
  obtain ⟨s, run⟩ : ∃ s, Runs.exec State.step start poppedTwice = some s :=
    Option.isSome_iff_exists.mp (by decide +kernel)
  obtain ⟨x, shown⟩ := linearizable poppedTwice s run
  have refused : (Runs.exec abstractStep (Atomic.Object.initial { stack := [], detached := [] })
      (Runs.trace State.step emit start poppedTwice)).isSome = false := by decide +kernel
  simp [shown] at refused

end PrototypeBundle.LockFree
