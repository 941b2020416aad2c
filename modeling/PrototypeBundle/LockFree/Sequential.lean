import PrototypeBundle.LockFree.Linearization
import Mathlib.Order.Interval.Finset.Nat

set_option autoImplicit false

-- `pop` counts down before it knows whether there is a value, and `clear` does not count at all.

namespace PrototypeBundle.LockFree

open Memory Intrusive

variable {V : Type}

/-- A call starts when all others have returned. The allocator returns an address of 64 bits. -/
def Sequential (s : State V) : Nat × Action V → Prop
  | (_, .call _) => ∀ u, s.clients u = .idle
  | (_, .allocate node) => 0 < node ∧ node < 2 ^ 64
  | (_, .access _) => True

/-- Only a stack that is not empty is popped, and only an empty one is cleared. -/
def Counts (s : State V) : Nat × Action V → Prop
  | (_, .call .pop) => s.head ≠ none
  | (_, .call .clear) => s.head = none
  | _ => True

def State.empty (s : State V) : Bool := s.head.isNone

def State.Contains (s : State V) (values : List V) : Prop := ∃ L, Chain s.next s.head L ∧ Stores s L values

structure Counted (s : State V) : Prop where
  size : ∃ values, s.Contains values ∧ s.size.toNat = values.length
  empty : s.empty = true ↔ s.size = 0

def Client.owes : Client V → Nat
  | countUp => 1
  | loadHead => 1
  | readNext _ => 1
  | swapHead _ _ => 1
  | _ => 0

def Client.Found (head : Option Nat) : Client V → Prop
  | enterPop => head ≠ none
  | countDown => head ≠ none
  | loadHead => head ≠ none
  | readNext _ => head ≠ none
  | swapHead _ _ => head ≠ none
  | enterClear => head = none
  | detach => head = none
  | _ => True

structure Accounts (s : State V) (x : Abstract V) (t : Nat) : Prop where
  others : ∀ u, u ≠ t → s.clients u = .idle
  size : s.size + BitVec.ofNat 64 (s.clients t).owes = BitVec.ofNat 64 x.state.stack.length
  found : (s.clients t).Found s.head
  addresses : ∀ a, (s.nodes a).alive = true → 0 < a ∧ a < 2 ^ 64

variable {s s' : State V} {place : Nat → Place} {L D : List Nat} {G : Finset Nat} {t : Nat} {x x' : Abstract V}

@[simp] theorem Client.owes_collectFrom (result : Result V) (head : Option Nat) : (collectFrom result head).owes = 0 := by
  cases head <;> rfl

@[simp] theorem Client.found_collectFrom (result : Result V) (first head : Option Nat) :
    (collectFrom result first).Found head := by
  cases first <;> trivial

theorem Accounts.active (accounts : Accounts s x t) {u : Nat} (busy : s.clients u ≠ .idle) : u = t := by
  by_contra other
  exact busy (accounts.others u other)

theorem Accounts.admissible (accounts : Accounts s x t) (inv : Inv s place L D G) {action : Nat × Action V}
    (taken : s.step action = some s') : Admissible s action := by
  obtain ⟨u, action⟩ := action
  cases action with
  | call call => trivial
  | allocate node =>
      intro v
      by_cases busy : s.clients v = .idle
      · simp [busy, Client.snapshot]
      · -- the client in the call is the one that allocates
        obtain rfl := accounts.active busy
        cases client : s.clients u with
        | allocate value =>
            obtain rfl := accounts.active (u := u) (by simp [client])
            simp [client, Client.snapshot]
        | _ => simp [State.step, client] at taken
  | access fails =>
      have single : s.clients u ≠ .idle → (s.clients u).guarded = false → G = ∅ := by
        intro busy outside
        obtain rfl := accounts.active busy
        refine Finset.eq_empty_of_forall_notMem fun v member => ?_
        have guarded := (inv.guards v).mp member
        by_cases same : v = u
        · rw [same, outside] at guarded
          simp at guarded
        · simp [accounts.others v same, Client.guarded] at guarded
      have room : G = ∅ → s.criticalClients.toNat + 1 < 2 ^ 32 := by
        rintro rfl
        simp [inv.count]
      cases client : s.clients u with
      | enterPop => simpa [Admissible, client] using room (single (by simp [client]) (by simp [client, Client.guarded]))
      | enterClear => simpa [Admissible, client] using room (single (by simp [client]) (by simp [client, Client.guarded]))
      | _ => simp [Admissible, client]

theorem Related.length (related : Related s place L D G x) : L.length = x.state.stack.length := by
  simpa using congrArg List.length related.stores

theorem Related.stack_nil (related : Related s place L D G x) : s.head = none ↔ x.state.stack = [] := by
  rw [← List.length_eq_zero_iff, ← related.length, List.length_eq_zero_iff]
  constructor
  · exact fun null => related.inv.head.head_none_iff.mp null
  · rintro rfl
    exact related.inv.head

theorem pushAccess_alive {head : Option Nat} {last : Nat} {fails : Bool} {nodes nodes' : Nat → Node V} {stage : Stage}
    {stage' : Option Stage} (taken : pushAccess head last fails nodes stage = (nodes', stage')) (a : Nat) :
    (nodes' a).alive = (nodes a).alive := by
  cases stage' with
  | none =>
      obtain ⟨rfl, -⟩ := pushAccess_done taken
      rfl
  | some stage' => exact ((pushAccess_next taken).2.1 a).1

theorem access_alive {c : Client V} {fails : Bool} (taken : s.access t fails c = some s') (a : Nat)
    (alive : (s'.nodes a).alive = true) : (s.nodes a).alive = true := by
  have modified {nodes : Nat → Node V} {b : Nat} {change : Node V → Node V}
      (kept : ∀ n, (change n).alive = true → n.alive = true) (alive : (modifyAt nodes b change a).alive = true) :
      (nodes a).alive = true := by
    by_cases same : a = b
    · subst same
      rw [modifyAt_same] at alive
      exact kept _ alive
    · rwa [modifyAt_other _ _ _ same] at alive
  cases c with
  | construct node value =>
      obtain rfl := Option.some.inj taken
      refine modified ?_ alive
      exact fun _ kept => kept
  | destroyData unhooked value =>
      obtain rfl := Option.some.inj taken
      refine modified ?_ alive
      exact fun _ kept => kept
  | delete collectable next result =>
      obtain rfl := Option.some.inj taken
      exact modified (fun _ kept => by simp at kept) alive
  | link node stage =>
      rw [State.access] at taken
      split at taken
      all_goals
        next found =>
          obtain rfl := Option.some.inj taken
          exact (pushAccess_alive found a).symm.trans alive
  | retire first last stage result =>
      rw [State.access] at taken
      split at taken
      all_goals
        next found =>
          obtain rfl := Option.some.inj taken
          exact (pushAccess_alive found a).symm.trans alive
  | idle => simp [State.access] at taken
  | allocate value => simp [State.access] at taken
  | _ =>
      -- the nodes stay as they are
      simp only [State.access] at taken
      repeat' split at taken
      all_goals
        obtain rfl := Option.some.inj taken
        exact alive

variable [DecidableEq V]

theorem shown_quiet (shown : Runs.exec abstractStep x [] = some x') : x'.state = x.state := by
  obtain rfl := Option.some.inj shown
  rfl

theorem shown_respond {result : Result V} (shown : Runs.exec abstractStep x [.respond t result] = some x') :
    x'.state = x.state := by
  obtain ⟨x₁, responded, rest⟩ := Runs.exec_cons.mp shown
  obtain rfl := Option.some.inj rest
  simp only [abstractStep, Atomic.Object.step] at responded
  repeat' split at responded
  all_goals simp at responded
  rw [← responded]

theorem shown_commit {call : Call V} (called : x.status t = .called call)
    (shown : Runs.exec abstractStep x [.commit t] = some x') : x'.state = (Lifo.apply x.state call).1 := by
  obtain ⟨x₁, committed, rest⟩ := Runs.exec_cons.mp shown
  obtain rfl := Option.some.inj rest
  rw [abstractStep, Atomic.Object.step_commit called, Option.some.injEq] at committed
  rw [← committed]

def Balanced (s' : State V) (t count : Nat) : Prop :=
  s'.size + BitVec.ofNat 64 (s'.clients t).owes = BitVec.ofNat 64 count ∧ (s'.clients t).Found s'.head

omit [DecidableEq V] in
theorem Accounts.balanced (accounts : Accounts s x t) : Balanced s t x.state.stack.length :=
  ⟨accounts.size, accounts.found⟩

omit [DecidableEq V] in
theorem Accounts.load (accounts : Accounts s x t) (owes : (s.clients t).owes = 1) (nonempty : s.head ≠ none) :
    Balanced (s.put t (withHead s.head)) t x.state.stack.length := by
  obtain ⟨first, head⟩ := Option.ne_none_iff_exists'.mp nonempty
  have size := accounts.size
  rw [owes] at size
  simp only [Balanced, State.put, Function.update_self, head]
  exact ⟨size, by simp [withHead, Client.Found]⟩

theorem Accounts.access (accounts : Accounts s x t) (related : Related s place L D G x) {fails : Bool}
    (taken : s.access t fails (s.clients t) = some s')
    (shown : Runs.exec abstractStep x (emit s (t, .access fails)) = some x') :
    Balanced s' t x'.state.stack.length := by
  have promise := related.promise t
  have size := accounts.size
  have found := accounts.found
  cases client : s.clients t with
  | idle => simp [client, State.access] at taken
  | allocate value => simp [client, State.access] at taken
  | link node stage =>
      rw [client] at promise size
      obtain ⟨value, -, called⟩ := promise
      rw [client, State.access] at taken
      split at taken
      case h_1 nodes stage' pushing =>
        rw [Option.some.injEq] at taken
        subst taken
        have silent : emit s (t, .access fails) = [] := by
          cases stage with
          | compareAndSwap expected =>
              by_cases hit : s.head = expected ∧ fails = false
              · simp [pushAccess, hit] at pushing
              · simp [emit, client, hit]
          | _ => simp [emit, client]
        rw [shown_quiet (silent ▸ shown)]
        simpa [Balanced, State.put, Client.owes, Client.Found] using size
      case h_2 nodes pushing =>
        rw [Option.some.injEq] at taken
        subst taken
        obtain ⟨-, rfl, real⟩ := pushAccess_done pushing
        rw [shown_commit called (by simpa [emit, client, real] using shown)]
        have counted : s.size = BitVec.ofNat 64 x.state.stack.length := by simpa [Client.owes] using size
        simp [Balanced, State.put, Client.owes, Client.Found, Lifo.apply, counted, BitVec.ofNat_add]
  | countUp =>
      rw [client] at size
      rw [client, State.access, Option.some.injEq] at taken
      subst taken
      rw [shown_respond (by simpa [emit, client] using shown)]
      simpa [Balanced, State.put, Client.owes, Client.Found] using size
  | countDown =>
      rw [client] at size found
      rw [client, State.access, Option.some.injEq] at taken
      subst taken
      rw [shown_quiet (by simpa [emit, client] using shown)]
      refine ⟨?_, by simpa [State.put, Client.Found] using found⟩
      have counted : s.size = BitVec.ofNat 64 x.state.stack.length := by simpa [Client.owes] using size
      simp [State.put, Client.owes, counted]
  | loadHead =>
      rw [client] at found
      rw [client, State.access, Option.some.injEq] at taken
      subst taken
      rw [shown_quiet (by simpa [emit, client, show s.head ≠ none from found] using shown)]
      exact accounts.load (by simp [client, Client.owes]) found
  | swapHead oldHead next =>
      rw [client] at promise size found
      rw [client, State.access] at taken
      by_cases hit : s.head = some oldHead ∧ fails = false
      · rw [if_pos hit, Option.some.injEq] at taken
        subst taken
        rw [shown_commit promise (by simpa [emit, client, hit] using shown)]
        cases held : x.state.stack with
        | nil => exact absurd (related.stack_nil.mpr held) found
        | cons value rest =>
            -- what the counter was ahead of the list
            have counted : s.size + 1 = BitVec.ofNat 64 rest.length + 1 := by
              simpa [Client.owes, held, BitVec.ofNat_add] using size
            simp [Balanced, State.put, Client.owes, Client.Found, Lifo.apply, held, add_right_cancel counted]
      · rw [if_neg hit, Option.some.injEq] at taken
        subst taken
        rw [shown_quiet (by simpa [emit, client, hit, show s.head ≠ none from found] using shown)]
        exact accounts.load (by simp [client, Client.owes]) found
  | detach =>
      rw [client] at promise size found
      rw [client, State.access, show s.head = none from found, Option.some.injEq] at taken
      subst taken
      rw [shown_commit promise (by simpa [emit, client] using shown)]
      have empty := related.stack_nil.mp found
      simpa [Balanced, State.put, Client.owes, Client.Found, Lifo.apply, empty] using size
  | leave result =>
      rw [client] at size
      rw [client, State.access, Option.some.injEq] at taken
      subst taken
      rw [shown_respond (by simpa [emit, client] using shown)]
      simpa [Balanced, State.put, Client.owes, Client.Found] using size
  | swapCollection collectable result =>
      rw [client] at size
      rw [client, State.access] at taken
      rw [shown_quiet (by simpa [emit, client] using shown)]
      have counted : s.size = BitVec.ofNat 64 x.state.stack.length := by simpa [Client.owes] using size
      split at taken
      case isTrue =>
        obtain rfl := Option.some.inj taken
        simp [Balanced, State.put, counted]
      case isFalse =>
        obtain rfl := Option.some.inj taken
        simp [Balanced, State.put, counted, Client.owes, Client.Found]
  | delete collectable next result =>
      rw [client] at size
      rw [client, State.access, Option.some.injEq] at taken
      subst taken
      rw [shown_quiet (by simpa [emit, client] using shown)]
      have counted : s.size = BitVec.ofNat 64 x.state.stack.length := by simpa [Client.owes] using size
      simp [Balanced, State.put, counted]
  | _ =>
      rw [client] at size found
      simp only [client, State.access] at taken
      rw [shown_quiet (by simpa [emit, client] using shown)]
      repeat' split at taken
      all_goals
        obtain rfl := Option.some.inj taken
        simpa [Balanced, State.put, Client.owes, Client.Found] using And.intro size found

omit [DecidableEq V] in
theorem access_clients {c : Client V} {fails : Bool} (taken : s.access t fails c = some s') {u : Nat} (other : u ≠ t) :
    s'.clients u = s.clients u := by
  cases c with
  | idle => simp [State.access] at taken
  | allocate value => simp [State.access] at taken
  | _ =>
      simp only [State.access] at taken
      repeat' split at taken
      all_goals
        obtain rfl := Option.some.inj taken
        exact Function.update_of_ne other ..

theorem Accounts.step (accounts : Accounts s x t) (related : Related s place L D G x) {action : Nat × Action V}
    (sequential : Sequential s action) (counts : Counts s action) (taken : s.step action = some s')
    (shown : Runs.exec abstractStep x (emit s action) = some x') : ∃ t', Accounts s' x' t' := by
  obtain ⟨u, action⟩ := action
  cases action with
  | call call =>
      refine ⟨u, ?_⟩
      simp only [State.step, sequential u, Option.some.injEq] at taken
      subst taken
      have state : x'.state = x.state := by
        obtain ⟨x₁, called, rest⟩ := Runs.exec_cons.mp shown
        obtain rfl := Option.some.inj rest
        simp only [abstractStep, Atomic.Object.step] at called
        split at called
        case h_1 =>
          rw [Option.some.injEq] at called
          rw [← called]
        case h_2 => simp at called
      have size := accounts.size
      rw [sequential t] at size
      constructor
      case others => exact fun v other => (Function.update_of_ne other ..).trans (sequential v)
      case size =>
        rw [state]
        cases call <;> simpa [State.put, begin, Client.owes] using size
      case found =>
        cases call with
        | push value => simp [State.put, begin, Client.Found]
        | pop => simpa [State.put, begin, Client.Found, Counts] using counts
        | clear => simpa [State.put, begin, Client.Found, Counts] using counts
      case addresses => exact accounts.addresses
  | allocate node =>
      simp only [State.step] at taken
      split at taken
      case h_1 value client =>
        obtain rfl := accounts.active (u := u) (by simp [client])
        split at taken
        case isTrue => simp at taken
        case isFalse =>
          rw [Option.some.injEq] at taken
          subst taken
          have size := accounts.size
          rw [client] at size
          refine ⟨u, ?_⟩
          constructor
          case others => exact fun v other => (Function.update_of_ne other ..).trans (accounts.others v other)
          case size =>
            rw [shown_quiet (by simpa [emit] using shown)]
            simpa [State.put, Client.owes] using size
          case found => simp [State.put, Client.Found]
          case addresses =>
            intro a alive
            by_cases same : a = node
            · rw [same]
              exact sequential
            · exact accounts.addresses a (by simpa [State.put, modifyAt, same] using alive)
      case h_2 => simp at taken
  | access fails =>
      have busy : s.clients u ≠ .idle := by
        intro idle
        simp [State.step, State.access, idle] at taken
      obtain rfl := accounts.active busy
      obtain ⟨size, found⟩ := accounts.access related taken shown
      exact ⟨u, fun v other => (access_clients taken other).trans (accounts.others v other), size, found,
        fun a alive => accounts.addresses a (access_alive taken a alive)⟩

omit [DecidableEq V] in
theorem Accounts.counted (accounts : Accounts s x t) (related : Related s place L D G x)
    (idle : ∀ u, s.clients u = .idle) : Counted s := by
  have few : L.length < 2 ^ 64 := by
    have inside : ∀ a ∈ L, a ∈ Finset.Ico 1 (2 ^ 64) := by
      intro a member
      have alive := (related.inv.alive a).mpr (by simp [(related.inv.linked a).mpr member])
      obtain ⟨positive, below⟩ := accounts.addresses a alive
      exact Finset.mem_Ico.mpr ⟨positive, below⟩
    have bound := Finset.card_le_card fun a member => inside a (List.mem_toFinset.mp member)
    rw [List.toFinset_card_of_nodup related.inv.head.nodup, Nat.card_Ico] at bound
    omega
  have size : s.size = BitVec.ofNat 64 L.length := by
    rw [related.length]
    simpa [idle t, Client.owes] using accounts.size
  constructor
  case size =>
    refine ⟨x.state.stack, ⟨L, related.inv.head, related.stores⟩, ?_⟩
    rw [size, BitVec.toNat_ofNat, Nat.mod_eq_of_lt few, related.length]
  case empty =>
    rw [State.empty, Option.isNone_iff_eq_none, related.stack_nil, ← List.length_eq_zero_iff, ← related.length, size]
    constructor
    · intro none'
      rw [none']
      rfl
    · intro zero
      have value := congrArg BitVec.toNat zero
      rw [BitVec.toNat_ofNat, Nat.mod_eq_of_lt few] at value
      exact value

omit [DecidableEq V] in
/-- What holds after every operation of a sequential run in which `pop` and `clear` have nothing to correct. -/
theorem sequential_size {actions : List (Nat × Action V)} (sequential : Runs.Along State.step Sequential start actions)
    (counts : Runs.Along State.step Counts start actions) (run : Runs.exec State.step start actions = some s)
    (idle : ∀ u, s.clients u = .idle) : Counted s := by
  classical
  obtain ⟨x, t, place, L, D, G, related, accounts⟩ := (sequential.and counts).invariant
    (fun s => ∃ (x : Abstract V) (t : Nat) (place : Nat → Place) (L D : List Nat) (G : Finset Nat),
      Related s place L D G x ∧ Accounts s x t)
    (by
      rintro s ⟨u, action⟩ next ⟨x, t, place, L, D, G, related, accounts⟩ ⟨sequential, counts⟩ taken
      obtain ⟨x', shown, place', L', D', G', related'⟩ := related.step (accounts.admissible related.inv taken) taken
      obtain ⟨t', accounts'⟩ := accounts.step related sequential counts taken shown
      exact ⟨x', t', place', L', D', G', related', accounts'⟩)
    ⟨_, 0, _, _, _, _, start_related, fun _ _ => rfl, rfl, trivial, by simp [start]⟩ run
  exact accounts.counted related idle

section Single

omit [DecidableEq V]

theorem step_clients {action : Action V} (taken : s.step (t, action) = some s') {u : Nat} (other : u ≠ t) :
    s'.clients u = s.clients u := by
  cases action with
  | access fails => exact access_clients taken other
  | call call =>
      simp only [State.step] at taken
      split at taken
      · obtain rfl := Option.some.inj taken
        exact Function.update_of_ne other ..
      · simp at taken
  | allocate node =>
      simp only [State.step] at taken
      repeat' split at taken
      all_goals simp at taken
      subst taken
      exact Function.update_of_ne other ..

theorem sequential_of_single {actions : List (Nat × Action V)} (single : ∀ a ∈ actions, a.1 = t)
    (addresses : ∀ node, (t, .allocate node) ∈ actions → 0 < node ∧ node < 2 ^ 64)
    (others : ∀ u, u ≠ t → s.clients u = .idle) (run : Runs.exec State.step s actions = some s') :
    Runs.Along State.step Sequential s actions ∧ ∀ u, u ≠ t → s'.clients u = .idle := by
  induction actions generalizing s with
  | nil =>
      obtain rfl := Option.some.inj run
      exact ⟨trivial, others⟩
  | cons first rest ih =>
      obtain ⟨u, action⟩ := first
      obtain rfl : u = t := single _ (List.mem_cons_self ..)
      obtain ⟨next, taken, run⟩ := Runs.exec_cons.mp run
      obtain ⟨later, last⟩ := ih (fun a member => single a (List.mem_cons_of_mem _ member))
        (fun node member => addresses node (List.mem_cons_of_mem _ member))
        (fun v other => (step_clients taken other).trans (others v other)) run
      refine ⟨.cons ?_ taken later, last⟩
      cases action with
      | call call =>
          intro v
          by_cases same : v = u
          · rw [same]
            simp only [State.step] at taken
            split at taken
            · assumption
            · simp at taken
          · exact others v same
      | allocate node => exact addresses node (List.mem_cons_self ..)
      | access fails => trivial

theorem all_idle {actions : List (Nat × Action V)} (single : ∀ a ∈ actions, a.1 = 0)
    (addresses : ∀ node, (0, .allocate node) ∈ actions → 0 < node ∧ node < 2 ^ 64)
    (run : Runs.exec State.step start actions = some s) (returned : s.clients 0 = .idle) :
    Runs.Along State.step Sequential start actions ∧ ∀ u, s.clients u = .idle := by
  obtain ⟨sequential, others⟩ := sequential_of_single single addresses (fun _ _ => rfl) run
  refine ⟨sequential, fun u => ?_⟩
  by_cases same : u = 0
  · rw [same, returned]
  · exact others u same

end Single

instance (s : State V) : (action : Nat × Action V) → Decidable (Counts s action)
  | (_, .call .pop) => inferInstanceAs (Decidable (s.head ≠ none))
  | (_, .call .clear) => inferInstanceAs (Decidable (s.head = none))
  | (_, .call (.push _)) => isTrue trivial
  | (_, .allocate _) => isTrue trivial
  | (_, .access _) => isTrue trivial

def pushTwicePopClear : List (Nat × Action Nat) :=
  pushed 0 7 10 ++ pushed 0 8 11 ++
  (0, .call .pop) :: accesses 0 17 ++
  (0, .call .pop) :: accesses 0 17 ++
  (0, .call .clear) :: accesses 0 6

theorem pushTwicePopClear_single : (∀ a ∈ pushTwicePopClear, a.1 = 0) ∧
    ∀ node, (0, .allocate node) ∈ pushTwicePopClear → 0 < node ∧ node < 2 ^ 64 := by
  constructor
  · decide
  · intro node member
    obtain rfl | rfl : node = 7 ∨ node = 8 := by simpa [pushTwicePopClear, pushed, accesses] using member
    all_goals decide

theorem sequential_size_pushTwicePopClear :
    ∃ s, Runs.exec State.step start pushTwicePopClear = some s ∧ Counted s := by
  obtain ⟨s, run, returned⟩ : ∃ s, Runs.exec State.step start pushTwicePopClear = some s ∧ s.clients 0 = .idle :=
    ⟨_, rfl, rfl⟩
  obtain ⟨single, addresses⟩ := pushTwicePopClear_single
  obtain ⟨sequential, idle⟩ := all_idle single addresses run returned
  exact ⟨s, run, sequential_size sequential (.of_check (by decide +kernel)) run idle⟩

theorem pop_empty_uncounted :
    ¬ ∀ (actions : List (Nat × Action Nat)) s, Runs.Along State.step Sequential start actions →
      Runs.exec State.step start actions = some s → (∀ u, s.clients u = .idle) → Counted s := by
  intro counted
  let actions : List (Nat × Action Nat) := (0, .call .pop) :: accesses 0 7
  obtain ⟨s, run, returned, empty, size⟩ : ∃ s, Runs.exec State.step start actions = some s ∧ s.clients 0 = .idle ∧
      s.empty = true ∧ s.size = BitVec.ofNat 64 (2 ^ 64 - 1) := ⟨_, rfl, rfl, rfl, rfl⟩
  obtain ⟨sequential, idle⟩ := all_idle (by decide) (by simp [actions, accesses]) run returned
  have zero := (counted actions s sequential run idle).empty.mp empty
  rw [size] at zero
  exact absurd zero (by decide)

end PrototypeBundle.LockFree
