import PrototypeBundle.LockFree.Lifecycle
import Mathlib.Logic.Relation

set_option autoImplicit false

namespace PrototypeBundle.LockFree

open Memory Intrusive

variable {V : Type} {s s' : State V} {place : Nat → Place} {L D : List Nat} {G : Finset Nat} {t : Nat}

/-- The counter of critical clients does not overflow, and the allocator does not return an address that a
client expects at the head of the collection. -/
def Admissible (s : State V) : Nat × Action V → Prop
  | (_, .call _) => True
  | (_, .allocate node) => ∀ u, (s.clients u).snapshot ≠ some node
  | (t, .access _) =>
      match s.clients t with
      | .enterPop => s.criticalClients.toNat + 1 < 2 ^ 32
      | .enterClear => s.criticalClients.toNat + 1 < 2 ^ 32
      | _ => True

def Advances (t : Nat) (s s' : State V) (place : Nat → Place) : Prop :=
  ∃ place' L' D' G', Inv s' place' L' D' G' ∧ Step t s s' place place'

theorem Inv.call (inv : Inv s place L D G) (client : s.clients t = .idle) (call : Call V) :
    Advances t s (s.put t (begin call)) place := by
  have observed := inv.observe client (begin call) (fun xs holds => holds) (by cases call <;> rfl) s.size
    s.criticalClients (by cases call <;> simp [begin, Client.hazard]) (by cases call <;> simp [begin])
    (by cases call <;> simp [begin, Client.snapshot]) (inv.guards_same client (by cases call <;> rfl)) inv.count
    (by cases call <;> simp [begin])
  exact ⟨_, _, _, _, observed⟩

theorem Inv.look (inv : Inv s place L D G) {c : Client V} (client : s.clients t = c) (c' : Client V)
    (bare : ∀ xs, c.Holds s.next xs → xs = []) (bare' : c'.Holds s.next []) (size : BitVec 64)
    (guarded : c'.guarded = c.guarded)
    (hazard : ∀ h, c'.hazard = some h → c.hazard = some h ∨ s.head = some h)
    (current : ∀ oldHead next, c' = .swapHead oldHead next → next = s.next oldHead)
    (snapshot : ∀ a, c'.snapshot = some a → c.snapshot = some a ∨ s.collectionHead = some a)
    (permitted : ∀ a result, c' = .swapCollection (some a) result → ∀ u, u ≠ t → (s.clients u).hazard = none) :
    Advances t s (({ s with size } : State V).put t c') place :=
  ⟨_, _, _, _, inv.observe client c' bare bare' size s.criticalClients hazard current snapshot
    (inv.guards_same client guarded) inv.count permitted⟩

theorem Inv.lookHead (inv : Inv s place L D G) {c : Client V} (client : s.clients t = c)
    (bare : ∀ xs, c.Holds s.next xs → xs = []) (guarded : c.guarded = true) :
    Advances t s (s.put t (withHead s.head)) place := by
  refine inv.look client (withHead s.head) bare (Client.withHead_holds ..) s.size
    ((Client.withHead_guarded _).trans guarded.symm) ?_ (Client.withHead_ne_swapHead _) (by simp)
    (Client.withHead_ne_swapCollection _)
  intro h found
  exact Or.inr (by simpa using found)

theorem Inv.turn (inv : Inv s place L D G) {c : Client V} (client : s.clients t = c) (c' : Client V)
    (bare : ∀ xs, c.Holds s.next xs → xs = []) (bare' : c'.Holds s.next []) (size : BitVec 64)
    (guarded : c'.guarded = c.guarded) (hazard : c'.hazard = none) (snapshot : c'.snapshot = none) :
    Advances t s (({ s with size } : State V).put t c') place :=
  inv.look client c' bare bare' size guarded (by simp [hazard])
    (fun oldHead next shape => absurd shape (Client.not_swapHead_of_hazard hazard oldHead next)) (by simp [snapshot])
    (fun a result shape => absurd shape (Client.not_swapCollection_of_snapshot snapshot a result))

theorem pushAccess_next {head : Option Nat} {last : Nat} {fails : Bool} {nodes nodes' : Nat → Node V}
    {stage stage' : Stage} (taken : pushAccess head last fails nodes stage = (nodes', some stage')) :
    (∀ a, a ≠ last → nodes' a = nodes a) ∧
      (∀ a, (nodes' a).alive = (nodes a).alive ∧ (nodes' a).storage = (nodes a).storage) ∧
      stage'.Expects (nodes' last).next := by
  cases stage with
  | load =>
      obtain ⟨rfl, rfl⟩ : nodes = nodes' ∧ Stage.store head = stage' := by simpa [pushAccess] using taken
      exact ⟨fun _ _ => rfl, fun _ => ⟨rfl, rfl⟩, trivial⟩
  | store value =>
      obtain ⟨rfl, rfl⟩ : (modifyAt nodes last fun n => { n with next := value }) = nodes' ∧ Stage.read = stage' := by
        simpa [pushAccess] using taken
      refine ⟨fun a different => modifyAt_other _ _ _ different, fun a => ?_, trivial⟩
      by_cases same : a = last <;> simp [modifyAt, same]
  | read =>
      obtain ⟨rfl, rfl⟩ : nodes = nodes' ∧ Stage.compareAndSwap (nodes last).next = stage' := by
        simpa [pushAccess] using taken
      exact ⟨fun _ _ => rfl, fun _ => ⟨rfl, rfl⟩, rfl⟩
  | compareAndSwap expected =>
      by_cases hit : head = expected ∧ fails = false
      · simp [pushAccess, hit] at taken
      · rw [pushAccess, if_neg hit, Prod.mk.injEq, Option.some.injEq] at taken
        obtain ⟨rfl, rfl⟩ := taken
        exact ⟨fun _ _ => rfl, fun _ => ⟨rfl, rfl⟩, trivial⟩

theorem pushAccess_done {head : Option Nat} {last : Nat} {fails : Bool} {nodes nodes' : Nat → Node V}
    {stage : Stage} (taken : pushAccess head last fails nodes stage = (nodes', none)) :
    nodes' = nodes ∧ stage = .compareAndSwap head ∧ fails = false := by
  cases stage with
  | load => simp [pushAccess] at taken
  | store value => simp [pushAccess] at taken
  | read => simp [pushAccess] at taken
  | compareAndSwap expected =>
      by_cases hit : head = expected ∧ fails = false
      · rw [pushAccess, if_pos hit, Prod.mk.injEq] at taken
        exact ⟨taken.1.symm, by rw [hit.1], hit.2⟩
      · simp [pushAccess, hit] at taken

theorem Inv.touch (inv : Inv s place L D G) {c : Client V} (client : s.clients t = c) (c' : Client V)
    (nodes : Nat → Node V) (own : Nat) (mine : ∀ xs, c.Holds s.next xs → own ∈ xs)
    (same : ∀ a, a ≠ own → nodes a = s.nodes a) (alive : ∀ a, (nodes a).alive = (s.nodes a).alive)
    (holds' : ∀ xs, c.Holds s.next xs → c'.Holds (fun a => (nodes a).next) xs) (kind : c'.kind = c.kind)
    (hazard : c'.hazard = none) (snapshot : c'.snapshot = none) (guarded : c'.guarded = c.guarded) :
    Advances t s (({ s with nodes } : State V).put t c') place := by
  obtain ⟨⟨xs, holds, owns⟩, _⟩ := inv.client t
  rw [client] at holds owns
  have foreign (a : Nat) (notMine : ∀ kind, place a ≠ .owned kind t) : nodes a = s.nodes a := by
    apply same a
    rintro rfl
    exact notMine c.kind ((owns a c.kind).mpr ⟨rfl, mine xs holds⟩)
  exact ⟨_, _, _, _, inv.work client c' nodes foreign alive holds' kind hazard snapshot guarded⟩

theorem Inv.access (inv : Inv s place L D G) {fails : Bool} (ok : Admissible s (t, .access fails))
    (taken : s.access t fails (s.clients t) = some s') : Advances t s s' place := by
  cases client : s.clients t with
  | idle => simp [client, State.access] at taken
  | allocate value => simp [client, State.access] at taken
  | construct node value =>
      rw [client, State.access, Option.some.injEq] at taken
      subst taken
      refine inv.touch client _ _ node (fun xs holds => by simp [show xs = [node] from holds])
        (fun a different => modifyAt_other _ _ _ different) ?_ ?_ rfl rfl rfl rfl
      · intro a
        by_cases same : a = node <;> simp [modifyAt, same]
      · exact fun xs holds => ⟨holds, trivial⟩
  | link node stage =>
      rw [client, State.access] at taken
      split at taken
      case h_1 nodes stage' found =>
        rw [Option.some.injEq] at taken
        subst taken
        obtain ⟨same, alive, expects⟩ := pushAccess_next found
        refine inv.touch client _ _ node (fun xs holds => by simp [holds.1]) same (fun a => (alive a).1) ?_ rfl rfl rfl rfl
        exact fun xs holds => ⟨holds.1, expects⟩
      case h_2 nodes found =>
        rw [Option.some.injEq] at taken
        subst taken
        obtain ⟨rfl, rfl, _⟩ := pushAccess_done found
        exact ⟨_, _, _, _, inv.link client rfl⟩
  | countUp =>
      rw [client, State.access, Option.some.injEq] at taken
      subst taken
      exact inv.turn client .idle (fun xs holds => holds) rfl _ rfl rfl rfl
  | enterPop =>
      rw [client, State.access, Option.some.injEq] at taken
      subst taken
      have room : s.criticalClients.toNat + 1 < 2 ^ 32 := by simpa [Admissible, client] using ok
      exact ⟨_, _, _, _, inv.observe client .countDown (fun xs holds => holds) rfl s.size _ (by simp [Client.hazard]) (by simp)
        (by simp [Client.snapshot]) (inv.guards_enter rfl) (inv.count_enter client rfl room) (by simp)⟩
  | countDown =>
      rw [client, State.access, Option.some.injEq] at taken
      subst taken
      exact inv.turn client .loadHead (fun xs holds => holds) rfl _ rfl rfl rfl
  | loadHead =>
      rw [client, State.access, Option.some.injEq] at taken
      subst taken
      exact inv.lookHead client (fun xs holds => holds) rfl
  | readNext oldHead =>
      rw [client, State.access, Option.some.injEq] at taken
      subst taken
      refine inv.look client (.swapHead oldHead (s.nodes oldHead).next) (fun xs holds => holds) rfl s.size rfl (fun h found => Or.inl found) ?_ (by simp [Client.snapshot])
        (by simp)
      intro old next shape
      obtain ⟨rfl, rfl⟩ := Client.swapHead.inj shape
      rfl
  | swapHead oldHead next =>
      rw [client, State.access] at taken
      by_cases hit : s.head = some oldHead ∧ fails = false
      · rw [if_pos hit, Option.some.injEq] at taken
        subst taken
        obtain ⟨rest, _, moved⟩ := inv.unlink client hit.1
        exact ⟨_, _, _, _, moved⟩
      · rw [if_neg hit, Option.some.injEq] at taken
        subst taken
        exact inv.lookHead client (fun xs holds => holds) rfl
  | moveData unhooked =>
      rw [client, State.access, Option.some.injEq] at taken
      subst taken
      exact inv.touch client _ s.nodes unhooked (fun xs holds => by simp [show xs = [unhooked] from holds])
        (fun _ _ => rfl) (fun _ => rfl) (fun xs holds => holds) rfl rfl rfl rfl
  | destroyData unhooked value =>
      rw [client, State.access, Option.some.injEq] at taken
      subst taken
      refine inv.touch client _ _ unhooked (fun xs holds => by simp [show xs = [unhooked] from holds])
        (fun a different => modifyAt_other _ _ _ different) ?_ ?_ rfl rfl rfl rfl
      · intro a
        by_cases same : a = unhooked <;> simp [modifyAt, same]
      · intro xs holds
        obtain rfl : xs = [unhooked] := holds
        exact ⟨⟨rfl, by simp⟩, by simp, trivial⟩
  | enterClear =>
      rw [client, State.access, Option.some.injEq] at taken
      subst taken
      have room : s.criticalClients.toNat + 1 < 2 ^ 32 := by simpa [Admissible, client] using ok
      exact ⟨_, _, _, _, inv.observe client .detach (fun xs holds => holds) rfl s.size _ (by simp [Client.hazard]) (by simp)
        (by simp [Client.snapshot]) (inv.guards_enter rfl) (inv.count_enter client rfl room) (by simp)⟩
  | detach =>
      rw [client, State.access] at taken
      split at taken
      case h_1 empty =>
        rw [Option.some.injEq] at taken
        subst taken
        exact inv.turn client (.loadCollection .cleared) (fun xs holds => holds) rfl s.size rfl rfl rfl
      case h_2 first found =>
        rw [Option.some.injEq] at taken
        subst taken
        exact ⟨_, _, _, _, inv.detach client found⟩
  | findTail first tail =>
      rw [client, State.access] at taken
      split at taken
      case h_1 last =>
        rw [Option.some.injEq] at taken
        subst taken
        refine inv.touch client _ s.nodes tail (fun xs holds => holds.2) (fun _ _ => rfl) (fun _ => rfl) ?_ rfl rfl rfl rfl
        rintro xs ⟨chain, inside⟩
        have ends : Function.update s.next tail none = s.next := Function.update_eq_self_iff.mpr last.symm
        exact ⟨ends ▸ chain, inside, trivial⟩
      case h_2 next found =>
        rw [Option.some.injEq] at taken
        subst taken
        refine inv.touch client _ s.nodes tail (fun xs holds => holds.2) (fun _ _ => rfl) (fun _ => rfl) ?_ rfl rfl rfl rfl
        rintro xs ⟨chain, inside⟩
        exact ⟨chain, chain.next_mem inside found⟩
  | retire first last stage result =>
      rw [client, State.access] at taken
      split at taken
      case h_1 nodes stage' found =>
        rw [Option.some.injEq] at taken
        subst taken
        obtain ⟨same, alive, expects⟩ := pushAccess_next found
        refine inv.touch client _ nodes last (fun xs holds => holds.2.1) same (fun a => (alive a).1) ?_ rfl rfl rfl rfl
        rintro xs ⟨chain, inside, _⟩
        refine ⟨chain.congr fun a _ => ?_, inside, expects⟩
        by_cases atLast : a = last
        · simp [atLast]
        · simp [atLast, same a atLast]
      case h_2 nodes found =>
        rw [Option.some.injEq] at taken
        subst taken
        obtain ⟨rfl, rfl, _⟩ := pushAccess_done found
        obtain ⟨xs, moved⟩ := inv.retire client rfl
        exact ⟨_, _, _, _, moved⟩
  | loadCollection result =>
      rw [client, State.access, Option.some.injEq] at taken
      subst taken
      exact inv.look client (.loadCritical s.collectionHead result) (fun xs holds => holds) rfl s.size rfl (by simp [Client.hazard]) (by simp)
        (fun a found => Or.inr found) (by simp)
  | loadCritical collectable result =>
      rw [client, State.access] at taken
      by_cases single : s.criticalClients = 1
      · rw [if_pos single, Option.some.injEq] at taken
        subst taken
        refine inv.look client (.swapCollection collectable result) (fun xs holds => holds) rfl s.size rfl (by simp [Client.hazard]) (by simp)
          (fun a found => Or.inl found) ?_
        exact fun _ _ _ => inv.alone client rfl single
      · rw [if_neg single, Option.some.injEq] at taken
        subst taken
        exact inv.turn client (.leave result) (fun xs holds => holds) rfl s.size rfl rfl rfl
  | swapCollection collectable result =>
      rw [client, State.access] at taken
      by_cases hit : s.collectionHead = collectable ∧ fails = false
      · rw [if_pos hit, Option.some.injEq] at taken
        subst taken
        cases collectable with
        | none =>
            have unchanged : ({ s with collectionHead := none } : State V) = s := by rw [← hit.1]
            rw [unchanged]
            exact inv.turn client (.leave result) (fun xs holds => holds) rfl s.size rfl rfl rfl
        | some first => exact ⟨_, _, _, _, inv.collect client hit.1⟩
      · rw [if_neg hit, Option.some.injEq] at taken
        subst taken
        exact inv.turn client (.leave result) (fun xs holds => holds) rfl s.size rfl rfl rfl
  | readCollectable collectable result =>
      rw [client, State.access, Option.some.injEq] at taken
      subst taken
      refine inv.touch client _ s.nodes collectable (fun xs holds => Chain.head_mem holds rfl) (fun _ _ => rfl)
        (fun _ => rfl) ?_ rfl rfl rfl rfl
      exact fun xs holds => ⟨holds, rfl⟩
  | delete collectable next result =>
      rw [client, State.access, Option.some.injEq] at taken
      subst taken
      exact ⟨_, _, _, _, inv.delete client⟩
  | leave result =>
      rw [client, State.access, Option.some.injEq] at taken
      subst taken
      exact ⟨_, _, _, _, inv.observe client .idle (fun xs holds => holds) rfl s.size _ (by simp [Client.hazard]) (by simp)
        (by simp [Client.snapshot]) (inv.guards_leave rfl) (inv.count_leave client rfl) (by simp)⟩

theorem Inv.advance (inv : Inv s place L D G) {action : Action V} (ok : Admissible s (t, action))
    (taken : s.step (t, action) = some s') : Advances t s s' place := by
  cases action with
  | call call =>
      simp only [State.step] at taken
      split at taken
      case h_1 idle =>
        rw [Option.some.injEq] at taken
        subst taken
        exact inv.call idle call
      case h_2 => simp at taken
  | allocate node =>
      simp only [State.step] at taken
      split at taken
      case h_1 value client =>
        split at taken
        case isTrue => simp at taken
        case isFalse dead =>
          rw [Option.some.injEq] at taken
          subst taken
          exact ⟨_, _, _, _, inv.allocate client (by simpa using dead) ok⟩
      case h_2 => simp at taken
  | access fails => exact inv.access ok taken

theorem start_inv : Inv (start : State V) (fun _ => .free) [] [] ∅ where
  head := rfl
  collection := rfl
  linked := by simp
  retired := by simp
  alive := by simp [start]
  client := fun t =>
    { holds := ⟨[], rfl, by simp⟩
      hazard := by simp [start, Client.hazard]
      current := by simp [start]
      snapshot := by simp [start, Client.snapshot] }
  guards := by simp [start, Client.guarded]
  count := rfl
  cleared := by simp [start]

def Client.touched : Client V → Option Nat
  | .construct node _ => some node
  | .link node (.store _) => some node
  | .link node .read => some node
  | .readNext oldHead => some oldHead
  | .moveData unhooked => some unhooked
  | .destroyData unhooked _ => some unhooked
  | .findTail _ tail => some tail
  | .retire _ last (.store _) _ => some last
  | .retire _ last .read _ => some last
  | .readCollectable collectable _ => some collectable
  | _ => none

def Client.deleted : Client V → Option Nat
  | .delete collectable _ _ => some collectable
  | _ => none

def State.Reachable (s : State V) (a : Nat) : Prop :=
  ∃ first, s.head = some first ∧ Relation.ReflTransGen (fun a b => s.next a = some b) first a

/-- Whatever is accessed next exists; what is deleted next exists and is not reachable from the head. -/
structure Safe (s : State V) : Prop where
  touched : ∀ t a, (s.clients t).touched = some a → (s.nodes a).alive = true
  deleted : ∀ t a, (s.clients t).deleted = some a → (s.nodes a).alive = true ∧ ¬ s.Reachable a

theorem Client.Holds.touched {next : Nat → Option Nat} {c : Client V} {xs : List Nat} (holds : c.Holds next xs)
    {a : Nat} (touched : c.touched = some a) : a ∈ xs ∨ c.hazard = some a := by
  cases c with
  | readNext oldHead => exact Or.inr touched
  | construct node value =>
      obtain rfl := Option.some.inj touched
      simp [show xs = [node] from holds]
  | link node stage =>
      obtain ⟨rfl, _⟩ := holds
      cases stage <;> simp_all [Client.touched]
  | moveData unhooked =>
      obtain rfl := Option.some.inj touched
      simp [show xs = [unhooked] from holds]
  | destroyData unhooked value =>
      obtain rfl := Option.some.inj touched
      simp [show xs = [unhooked] from holds]
  | findTail first tail =>
      obtain rfl := Option.some.inj touched
      exact Or.inl holds.2
  | retire first last stage result =>
      left
      cases stage <;> simp_all [Client.touched, Client.Holds]
  | readCollectable collectable result =>
      obtain rfl := Option.some.inj touched
      exact Or.inl (Chain.head_mem holds rfl)
  | _ => simp [Client.touched] at touched

theorem Inv.reachable (inv : Inv s place L D G) {a : Nat} (reachable : s.Reachable a) : place a = .linked := by
  obtain ⟨first, head, path⟩ := reachable
  apply (inv.linked a).mpr
  induction path with
  | refl => exact inv.head.head_mem head
  | tail _ edge member => exact inv.head.next_mem member edge

theorem Inv.safe (inv : Inv s place L D G) : Safe s where
  touched := by
    intro t a touched
    obtain ⟨⟨xs, holds, owns⟩, hazard, _⟩ := inv.client t
    rw [inv.alive]
    rcases holds.touched touched with mine | loaded
    · simp [(owns a _).mpr ⟨rfl, mine⟩]
    · have retained := hazard a loaded
      intro free
      simp [free, Place.Retained] at retained
  deleted := by
    intro t a deleted
    cases client : s.clients t with
    | delete collectable next result =>
        rw [client] at deleted
        obtain rfl := Option.some.inj deleted
        obtain ⟨⟨xs, holds, owns⟩, _⟩ := inv.client t
        rw [client] at holds owns
        have mine := (owns collectable .doomed).mpr ⟨rfl, holds.1.head_mem rfl⟩
        refine ⟨by simp [inv.alive, mine], fun reachable => ?_⟩
        simp [inv.reachable reachable] at mine
    | _ => simp [client, Client.deleted] at deleted

/-- What holds of every interleaving in which no address is reused too early. -/
theorem run_safe {actions : List (Nat × Action V)} (ok : Runs.Along State.step Admissible start actions)
    (run : Runs.exec State.step start actions = some s) : Safe s := by
  obtain ⟨place, L, D, G, inv⟩ := ok.invariant (fun s => ∃ place L D G, Inv s place L D G)
    (by
      rintro s ⟨t, action⟩ next ⟨place, L, D, G, inv⟩ ok taken
      obtain ⟨place', L', D', G', inv', _⟩ := inv.advance ok taken
      exact ⟨place', L', D', G', inv'⟩)
    ⟨_, _, _, _, start_inv⟩ run
  exact inv.safe

def accesses (t count : Nat) : List (Nat × Action Nat) := List.replicate count (t, .access false)

def pushed (t node value : Nat) : List (Nat × Action Nat) :=
  (t, .call (.push value)) :: (t, .allocate node) :: accesses t 6

theorem State.access_clients {s next : State V} {t u : Nat} {fails : Bool} {client : Client V}
    (taken : s.access t fails client = some next) (other : u ≠ t) : next.clients u = s.clients u := by
  have put (s : State V) (client : Client V) : (s.put t client).clients u = s.clients u := Function.update_of_ne other _ _
  cases client <;> simp only [State.access] at taken <;> (repeat' split at taken) <;> cases taken <;> exact put _ _

theorem State.step_clients {s next : State V} {t u : Nat} {action : Action V} (taken : s.step (t, action) = some next)
    (other : u ≠ t) : next.clients u = s.clients u := by
  have put (s : State V) (client : Client V) : (s.put t client).clients u = s.clients u := Function.update_of_ne other _ _
  cases action with
  | call call =>
      simp only [State.step] at taken
      split at taken <;> cases taken
      exact put _ _
  | allocate node =>
      simp only [State.step] at taken
      split at taken
      · split at taken <;> cases taken
        exact put _ _
      · cases taken
  | access fails => exact State.access_clients taken other
-- What decides `Admissible` while no more than four clients run.
def Admits (s : State Nat) : Nat × Action Nat → Prop
  | (_, .call _) => True
  | (_, .allocate node) => ∀ u < 4, (s.clients u).snapshot ≠ some node
  | (_, .access _) => s.criticalClients.toNat + 1 < 2 ^ 32

instance (s : State Nat) : (action : Nat × Action Nat) → Decidable (Admits s action)
  | (_, .call _) => inferInstanceAs (Decidable True)
  | (_, .allocate node) => inferInstanceAs (Decidable (∀ u < 4, (s.clients u).snapshot ≠ some node))
  | (_, .access _) => inferInstanceAs (Decidable (_ < _))

theorem Admits.admissible {s : State Nat} {action : Nat × Action Nat} (admits : Admits s action)
    (idle : ∀ u, 4 ≤ u → s.clients u = .idle) : Admissible s action := by
  obtain ⟨t, action⟩ := action
  cases action with
  | call call => exact True.intro
  | allocate node =>
      intro u
      by_cases few : u < 4
      · exact admits u few
      · simp [idle u (Nat.le_of_not_lt few), Client.snapshot]
  | access fails =>
      simp only [Admissible]
      split
      · exact admits
      · exact admits
      · exact True.intro

theorem admissible_of_check {actions : List (Nat × Action Nat)} (few : ∀ action ∈ actions, action.1 < 4)
    (passes : Runs.check State.step Admits start actions = true) : Runs.Along State.step Admissible start actions := by
  refine (Runs.Along.of_check passes).implies (fun s => ∀ u, 4 ≤ u → s.clients u = .idle)
    (fun s action holds admits => admits.admissible holds) ?_ (.of_forall few) fun _ _ => rfl
  intro s action next holds below taken u above
  exact (State.step_clients taken (Nat.ne_of_gt (Nat.lt_of_lt_of_le below above))).trans (holds u above)

-- Client 2 pops and retires the node that client 1 is about to read; client 1, then alone, deletes it.
def deleting : List (Nat × Action Nat) :=
  pushed 0 7 10 ++ (1, .call .pop) :: accesses 1 3 ++ (2, .call .pop) :: accesses 2 14 ++ accesses 1 6

-- The address is pushed again, and client 3 reads its node.
def reused : List (Nat × Action Nat) := accesses 1 2 ++ pushed 0 7 11 ++ (3, .call .pop) :: accesses 3 3

theorem run_safe_reused :
    ∃ s s', Runs.exec State.step start deleting = some s ∧ (s.clients 1).deleted = some 7 ∧ Safe s ∧
      Runs.exec State.step start (deleting ++ reused) = some s' ∧ (s'.clients 3).touched = some 7 ∧ Safe s' := by
  obtain ⟨s, run, deleted⟩ : ∃ s, Runs.exec State.step start deleting = some s ∧ (s.clients 1).deleted = some 7 :=
    ⟨_, rfl, rfl⟩
  obtain ⟨s', run', touched⟩ : ∃ s', Runs.exec State.step start (deleting ++ reused) = some s' ∧
      (s'.clients 3).touched = some 7 := ⟨_, rfl, rfl⟩
  exact ⟨s, s', run, deleted, run_safe (admissible_of_check (by decide) (by decide +kernel)) run, run', touched,
    run_safe (admissible_of_check (by decide) (by decide +kernel)) run'⟩

-- A client has seen that it is alone and is overtaken by the deletion and the reuse of the node it expects
-- at the head of the collection.
def staleCollection : List (Nat × Action Nat) :=
  pushed 0 7 10 ++
  -- client 1 pops the node and is about to collect it
  (1, .call .pop) :: accesses 1 13 ++
  -- client 2 expects the node, too, and is alone once client 1 has deleted it
  (2, .call .pop) :: accesses 2 4 ++ accesses 1 4 ++ accesses 2 1 ++
  pushed 0 7 11 ++
  -- client 3 is about to read the new node, which client 4 pops and retires
  (3, .call .pop) :: accesses 3 3 ++
  (4, .call .pop) :: accesses 4 11 ++
  accesses 2 3

theorem stale_collection_unsafe :
    ¬ ∀ (actions : List (Nat × Action Nat)) s, Runs.exec State.step start actions = some s → Safe s := by
  intro safe
  obtain ⟨s, run, client, dead⟩ : ∃ s, Runs.exec State.step start staleCollection = some s ∧
      s.clients 3 = .readNext 7 ∧ (s.nodes 7).alive = false := ⟨_, rfl, rfl, rfl⟩
  have alive := (safe staleCollection s run).touched 3 7 (by rw [client]; rfl)
  simp [dead] at alive

end PrototypeBundle.LockFree
