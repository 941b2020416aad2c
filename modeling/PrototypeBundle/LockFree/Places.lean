import PrototypeBundle.LockFree.Stack
import Mathlib.Data.Finset.Card

set_option autoImplicit false

-- A node is allocated by a client that pushes it, linked, taken by a client that pops it or
-- detaches the stack, retired to the collection, and doomed by the client that deletes it.

namespace PrototypeBundle.LockFree

open Memory Intrusive

inductive Kind where
  | fresh
  | taken
  | doomed

inductive Place where
  | free
  | linked
  | retired
  | owned (kind : Kind) (t : Nat)

inductive Place.Moves (t : Nat) : Place → Place → Prop where
  | stay (place : Place) : Moves t place place
  | allocate : Moves t .free (.owned .fresh t)
  | link : Moves t (.owned .fresh t) .linked
  | unlink : Moves t .linked (.owned .taken t)
  | retire : Moves t (.owned .taken t) .retired
  | collect : Moves t .retired (.owned .doomed t)
  | delete : Moves t (.owned .doomed t) .free

def Place.Retained : Place → Prop
  | .linked => True
  | .retired => True
  | .owned .taken _ => True
  | _ => False

def Place.Spent : Place → Prop
  | .retired => True
  | .owned .doomed _ => True
  | .free => True
  | _ => False

variable {V : Type}

abbrev State.next (s : State V) (a : Nat) : Option Nat := (s.nodes a).next

def Stage.Expects (value : Option Nat) : Stage → Prop
  | .compareAndSwap expected => expected = value
  | _ => True

namespace Client

def kind : Client V → Kind
  | construct .. => .fresh
  | link .. => .fresh
  | readCollectable .. => .doomed
  | delete .. => .doomed
  | _ => .taken

def Holds (next : Nat → Option Nat) : Client V → List Nat → Prop
  | construct node _, xs => xs = [node]
  | link node stage, xs => xs = [node] ∧ stage.Expects (next node)
  | moveData unhooked, xs => xs = [unhooked]
  | destroyData unhooked _, xs => xs = [unhooked]
  | findTail first tail, xs => Chain next (some first) xs ∧ tail ∈ xs
  | retire first last stage _, xs =>
      Chain (Function.update next last none) (some first) xs ∧ last ∈ xs ∧ stage.Expects (next last)
  | readCollectable collectable _, xs => Chain next (some collectable) xs
  | delete collectable following _, xs => Chain next (some collectable) xs ∧ following = next collectable
  | _, xs => xs = []

/-- A node the client has read from the head and will access. -/
def hazard : Client V → Option Nat
  | readNext oldHead => some oldHead
  | swapHead oldHead _ => some oldHead
  | _ => none

/-- What the client has read from the head of the collection. -/
def snapshot : Client V → Option Nat
  | loadCritical collectable _ => collectable
  | swapCollection collectable _ => collectable
  | _ => none

def guarded : Client V → Bool
  | idle => false
  | allocate .. => false
  | construct .. => false
  | link .. => false
  | countUp => false
  | enterPop => false
  | enterClear => false
  | _ => true

theorem guarded_of_hazard {c : Client V} {h : Nat} (found : c.hazard = some h) : c.guarded = true := by
  cases c <;> simp_all [hazard, guarded]

@[simp] theorem collectFrom_hazard (result : Result V) (head : Option Nat) : (collectFrom result head).hazard = none := by
  cases head <;> rfl

@[simp] theorem collectFrom_snapshot (result : Result V) (head : Option Nat) :
    (collectFrom result head).snapshot = none := by
  cases head <;> rfl

@[simp] theorem collectFrom_guarded (result : Result V) (head : Option Nat) :
    (collectFrom result head).guarded = true := by
  cases head <;> rfl

@[simp] theorem withHead_hazard (head : Option Nat) : (withHead head : Client V).hazard = head := by
  cases head <;> rfl

@[simp] theorem withHead_snapshot (head : Option Nat) : (withHead head : Client V).snapshot = none := by
  cases head <;> rfl

@[simp] theorem withHead_guarded (head : Option Nat) : (withHead head : Client V).guarded = true := by
  cases head <;> rfl

theorem withHead_holds (next : Nat → Option Nat) (head : Option Nat) : (withHead head : Client V).Holds next [] := by
  cases head <;> rfl

theorem withHead_ne_swapHead (head : Option Nat) {prop : Nat → Option Nat → Prop} (oldHead : Nat) (next : Option Nat)
    (shape : (withHead head : Client V) = .swapHead oldHead next) : prop oldHead next := by
  cases head <;> simp [withHead] at shape

theorem withHead_ne_swapCollection (head : Option Nat) {prop : Prop} (a : Nat) (result : Result V)
    (shape : (withHead head : Client V) = .swapCollection (some a) result) : prop := by
  cases head <;> simp [withHead] at shape

theorem not_swapHead_of_hazard {c : Client V} (safe : c.hazard = none) (oldHead : Nat) (next : Option Nat) :
    c ≠ .swapHead oldHead next := by
  rintro rfl
  simp [hazard] at safe

theorem not_swapCollection_of_snapshot {c : Client V} (safe : c.snapshot = none) (a : Nat) (result : Result V) :
    c ≠ .swapCollection (some a) result := by
  rintro rfl
  simp [snapshot] at safe

theorem Holds.congr {next next' : Nat → Option Nat} {c : Client V} {xs : List Nat}
    (same : ∀ a ∈ xs, next' a = next a) (holds : c.Holds next xs) : c.Holds next' xs := by
  cases c with
  | link node stage =>
      obtain ⟨rfl, expects⟩ := holds
      exact ⟨rfl, by rwa [same node (by simp)]⟩
  | findTail first tail => exact ⟨holds.1.congr same, holds.2⟩
  | retire first last stage result =>
      obtain ⟨chain, inside, expects⟩ := holds
      refine ⟨chain.congr fun a member => ?_, inside, by rwa [same last inside]⟩
      by_cases atLast : a = last
      · simp [atLast]
      · simp [atLast, same a member]
  | readCollectable collectable result => exact Chain.congr same holds
  | delete collectable following result =>
      obtain ⟨chain, read⟩ := holds
      exact ⟨chain.congr same, by rwa [same collectable (chain.head_mem rfl)]⟩
  | _ => exact holds

end Client

structure ClientOk (s : State V) (place : Nat → Place) (t : Nat) (c : Client V) : Prop where
  holds : ∃ xs, c.Holds s.next xs ∧ ∀ a kind, place a = .owned kind t ↔ kind = c.kind ∧ a ∈ xs
  hazard : ∀ h, c.hazard = some h → (place h).Retained
  current : ∀ oldHead next, c = .swapHead oldHead next → place oldHead = .linked → next = s.next oldHead
  snapshot : ∀ a, c.snapshot = some a → (place a).Spent

structure Inv (s : State V) (place : Nat → Place) (L D : List Nat) (G : Finset Nat) : Prop where
  head : Chain s.next s.head L
  collection : Chain s.next s.collectionHead D
  linked : ∀ a, place a = .linked ↔ a ∈ L
  retired : ∀ a, place a = .retired ↔ a ∈ D
  alive : ∀ a, (s.nodes a).alive = true ↔ place a ≠ .free
  client : ∀ t, ClientOk s place t (s.clients t)
  guards : ∀ t, t ∈ G ↔ (s.clients t).guarded = true
  count : s.criticalClients.toNat = G.card
  -- who may collect from `c` on has seen that no other client was critical
  cleared : ∀ t c result, s.clients t = .swapCollection (some c) result → ∀ before after, D = before ++ c :: after →
    ∀ u h, u ≠ t → (s.clients u).hazard = some h → h ∉ c :: after

structure Step (t : Nat) (s s' : State V) (place place' : Nat → Place) : Prop where
  clients : ∀ u, u ≠ t → s'.clients u = s.clients u
  moves : ∀ a, (place a).Moves t (place' a)
  nodes : ∀ a, (∀ kind, place a ≠ .owned kind t) → place a ≠ .free → s'.nodes a = s.nodes a

variable {s s' : State V} {place place' : Nat → Place} {L D L' D' : List Nat} {G G' : Finset Nat} {t : Nat}

theorem Step.owned_iff (step : Step t s s' place place') {u : Nat} (other : u ≠ t) (a : Nat) (kind : Kind) :
    place' a = .owned kind u ↔ place a = .owned kind u := by
  have different : t ≠ u := Ne.symm other
  have moved := step.moves a
  generalize place a = before at moved
  generalize place' a = after at moved
  cases moved <;> simp [different]

theorem Inv.others (inv : Inv s place L D G) (step : Step t s s' place place')
    (collects : ∀ u h, u ≠ t → (s.clients u).hazard = some h → place h = .retired → place' h = .retired)
    (allocates : ∀ u a, u ≠ t → (s.clients u).snapshot = some a → place a = .free → place' a = .free)
    {u : Nat} (other : u ≠ t) : ClientOk s' place' u (s'.clients u) := by
  rw [step.clients u other]
  obtain ⟨⟨xs, holds, owns⟩, hazard, current, snapshot⟩ := inv.client u
  have mine (a : Nat) (member : a ∈ xs) : s'.nodes a = s.nodes a := by
    have owner := (owns a (s.clients u).kind).mpr ⟨rfl, member⟩
    apply step.nodes a
    · intro kind
      rw [owner]
      simp [other]
    · simp [owner]
  constructor
  case holds =>
    refine ⟨xs, holds.congr fun a member => by simp only [State.next, mine a member], ?_⟩
    intro a kind
    rw [step.owned_iff other, owns]
  case hazard =>
    intro h found
    have retained := hazard h found
    have stays := collects u h other found
    have moved := step.moves h
    generalize place h = before at *
    generalize place' h = after at *
    cases moved <;> simp_all [Place.Retained]
  case current =>
    intro oldHead next shape atHead
    have retained := hazard oldHead (by simp [shape, Client.hazard])
    have before : place oldHead = .linked := by
      have moved := step.moves oldHead
      rw [atHead] at moved
      cases found : place oldHead with
      | linked => rfl
      | owned kind v =>
          -- a new node is no hazard
          rw [found] at moved retained
          cases moved
          simp [Place.Retained] at retained
      | free =>
          rw [found] at moved
          cases moved
      | retired =>
          rw [found] at moved
          cases moved
    have same : s'.nodes oldHead = s.nodes oldHead := step.nodes oldHead (by simp [before]) (by simp [before])
    simp only [State.next, same]
    exact current oldHead next shape before
  case snapshot =>
    intro a found
    have spent := snapshot a found
    have stays := allocates u a other found
    have moved := step.moves a
    generalize place a = before at *
    generalize place' a = after at *
    cases moved <;> simp_all [Place.Spent]

end PrototypeBundle.LockFree
