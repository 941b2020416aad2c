import PrototypeBundle.LockFree.Places
import Mathlib.Data.Finset.Card

set_option autoImplicit false

namespace PrototypeBundle.LockFree

open Memory Intrusive

variable {V : Type} {s s' : State V} {place place' : Nat → Place} {L D L' D' : List Nat} {G G' : Finset Nat} {t : Nat}

theorem Inv.step (inv : Inv s place L D G) (step : Step t s s' place place')
    (head : Chain s'.next s'.head L') (collection : Chain s'.next s'.collectionHead D')
    (linked : ∀ a, place' a = .linked ↔ a ∈ L') (retired : ∀ a, place' a = .retired ↔ a ∈ D')
    (alive : ∀ a, (s'.nodes a).alive = true ↔ place' a ≠ .free)
    (collects : ∀ u h, u ≠ t → (s.clients u).hazard = some h → place h = .retired → place' h = .retired)
    (allocates : ∀ u a, u ≠ t → (s.clients u).snapshot = some a → place a = .free → place' a = .free)
    (self : ClientOk s' place' t (s'.clients t))
    (guards : ∀ u, u ∈ G' ↔ (s'.clients u).guarded = true) (count : s'.criticalClients.toNat = G'.card)
    (below : ∀ c before after, (place c).Spent → D' = before ++ c :: after → ∃ before, D = before ++ c :: after)
    (loads : ∀ h, (s'.clients t).hazard = some h → (s.clients t).hazard = some h ∨ place' h = .linked)
    (permitted : ∀ c result, s'.clients t = .swapCollection (some c) result →
      ∀ u, u ≠ t → (s.clients u).hazard = none) : Inv s' place' L' D' G' where
  head := head
  collection := collection
  linked := linked
  retired := retired
  alive := alive
  client := by
    intro u
    by_cases same : u = t
    · rw [same]
      exact self
    · exact inv.others step collects allocates same
  guards := guards
  count := count
  cleared := by
    intro v c result shape before after split u h other found inside
    by_cases same : v = t
    · rw [same] at shape other
      rw [step.clients u other, permitted c result shape u other] at found
      simp at found
    · rw [step.clients v same] at shape
      -- what lies below the snapshot has been there before
      have spent := (inv.client v).snapshot c (by simp [shape, Client.snapshot])
      obtain ⟨before', split'⟩ := below c before after spent split
      have old := inv.cleared v c result shape before' after split' u h other
      by_cases mine : u = t
      · subst mine
        rcases loads h found with earlier | atHead
        · exact old earlier inside
        · have retiredToo := (retired h).mpr (by simp [split, inside])
          rw [retiredToo] at atHead
          simp at atHead
      · rw [step.clients u mine] at found
        exact old found inside

section Guards

variable {c c' : Client V}

theorem Inv.guards_same (inv : Inv s place L D G) (client : s.clients t = c) (same : c'.guarded = c.guarded) (u : Nat) :
    u ∈ G ↔ (Function.update s.clients t c' u).guarded = true := by
  rw [inv.guards]
  by_cases equal : u = t
  · subst equal
    rw [Function.update_self, client, same]
  · rw [Function.update_of_ne equal]

theorem Inv.guards_enter (inv : Inv s place L D G) (entered : c'.guarded = true) (u : Nat) :
    u ∈ insert t G ↔ (Function.update s.clients t c' u).guarded = true := by
  rw [Finset.mem_insert, inv.guards]
  by_cases equal : u = t
  · subst equal
    simp [entered]
  · simp [equal]

theorem Inv.guards_leave (inv : Inv s place L D G) (left : c'.guarded = false) (u : Nat) :
    u ∈ G.erase t ↔ (Function.update s.clients t c' u).guarded = true := by
  rw [Finset.mem_erase, inv.guards]
  by_cases equal : u = t
  · subst equal
    simp [left]
  · simp [equal]

theorem Inv.count_enter (inv : Inv s place L D G) (client : s.clients t = c) (outside : c.guarded = false)
    (room : s.criticalClients.toNat + 1 < 2 ^ 32) :
    (s.criticalClients + 1).toNat = (insert t G).card := by
  have absent : t ∉ G := by simp [inv.guards, client, outside]
  rw [Finset.card_insert_of_notMem absent, ← inv.count]
  have one : (1 : BitVec 32).toNat = 1 := rfl
  rw [BitVec.toNat_add, one]
  omega

theorem Inv.count_leave (inv : Inv s place L D G) (client : s.clients t = c) (inside : c.guarded = true) :
    (s.criticalClients - 1).toNat = (G.erase t).card := by
  have present : t ∈ G := by simp [inv.guards, client, inside]
  have positive : 0 < G.card := Finset.card_pos.mpr ⟨t, present⟩
  rw [Finset.card_erase_of_mem present, ← inv.count]
  rw [← inv.count] at positive
  have bound := s.criticalClients.isLt
  have one : (1 : BitVec 32).toNat = 1 := rfl
  rw [BitVec.toNat_sub, one]
  omega

theorem Inv.alone (inv : Inv s place L D G) (client : s.clients t = c) (inside : c.guarded = true)
    (single : s.criticalClients = 1) (u : Nat) (other : u ≠ t) : (s.clients u).hazard = none := by
  have one : G.card = 1 := by
    rw [← inv.count, single]
    rfl
  obtain ⟨v, only⟩ := Finset.card_eq_one.mp one
  have present : t ∈ G := by simp [inv.guards, client, inside]
  cases found : (s.clients u).hazard with
  | none => rfl
  | some h =>
      have member : u ∈ G := (inv.guards u).mpr (Client.guarded_of_hazard found)
      rw [only, Finset.mem_singleton] at present member
      exact absurd (member.trans present.symm) other

end Guards

section Quiet

variable {c : Client V}

theorem Inv.observe (inv : Inv s place L D G) (client : s.clients t = c) (c' : Client V)
    (bare : ∀ xs, c.Holds s.next xs → xs = []) (bare' : c'.Holds s.next []) (size : BitVec 64) (critical : BitVec 32)
    (hazard : ∀ h, c'.hazard = some h → c.hazard = some h ∨ s.head = some h)
    (current : ∀ oldHead next, c' = .swapHead oldHead next → next = s.next oldHead)
    (snapshot : ∀ a, c'.snapshot = some a → c.snapshot = some a ∨ s.collectionHead = some a)
    (guards : ∀ u, u ∈ G' ↔ (Function.update s.clients t c' u).guarded = true) (count : critical.toNat = G'.card)
    (permitted : ∀ a result, c' = .swapCollection (some a) result → ∀ u, u ≠ t → (s.clients u).hazard = none) :
    let s' : State V := ({ s with size, criticalClients := critical } : State V).put t c'
    Inv s' place L D G' ∧ Step t s s' place place := by
  intro s'
  have self : s'.clients t = c' := Function.update_self ..
  have others (u : Nat) (other : u ≠ t) : s'.clients u = s.clients u := Function.update_of_ne other ..
  obtain ⟨⟨xs, holds, owns⟩, hazardOk, _, snapshotOk⟩ := inv.client t
  rw [client] at holds owns hazardOk snapshotOk
  have empty := bare xs holds
  have step : Step t s s' place place := ⟨others, fun a => .stay _, fun _ _ _ => rfl⟩
  refine ⟨inv.step step inv.head inv.collection inv.linked inv.retired inv.alive (fun _ _ _ _ => id) (fun _ _ _ _ => id)
    ?_ guards count ?_ ?_ ?_, step⟩
  · rw [self]
    constructor
    case holds => exact ⟨[], bare', fun a kind => by simp [owns, empty]⟩
    case hazard =>
      intro h found
      rcases hazard h found with earlier | atHead
      · exact hazardOk h earlier
      · rw [(inv.linked h).mpr (inv.head.head_mem atHead)]
        trivial
    case current => exact fun oldHead next shape _ => current oldHead next shape
    case snapshot =>
      intro a found
      rcases snapshot a found with earlier | first
      · exact snapshotOk a earlier
      · rw [(inv.retired a).mpr (inv.collection.head_mem first)]
        trivial
  · exact fun a before after _ split => ⟨before, split⟩
  · intro h found
    rw [self] at found
    rw [client]
    exact (hazard h found).imp_right fun atHead => (inv.linked h).mpr (inv.head.head_mem atHead)
  · intro a result shape
    rw [self] at shape
    exact permitted a result shape

theorem Inv.work (inv : Inv s place L D G) (client : s.clients t = c) (c' : Client V) (nodes : Nat → Node V)
    (same : ∀ a, (∀ kind, place a ≠ .owned kind t) → nodes a = s.nodes a)
    (alive : ∀ a, (nodes a).alive = (s.nodes a).alive)
    (holds' : ∀ xs, c.Holds s.next xs → c'.Holds (fun a => (nodes a).next) xs) (kind : c'.kind = c.kind)
    (hazard : c'.hazard = none) (snapshot : c'.snapshot = none) (guarded : c'.guarded = c.guarded) :
    let s' : State V := ({ s with nodes } : State V).put t c'
    Inv s' place L D G ∧ Step t s s' place place := by
  intro s'
  have self : s'.clients t = c' := Function.update_self ..
  have others (u : Nat) (other : u ≠ t) : s'.clients u = s.clients u := Function.update_of_ne other ..
  obtain ⟨⟨xs, holds, owns⟩, _⟩ := inv.client t
  rw [client] at holds owns
  have step : Step t s s' place place := ⟨others, fun a => .stay _, fun a foreign _ => same a foreign⟩
  have onList (a : Nat) (apart : ∀ kind, place a ≠ .owned kind t) : s'.next a = s.next a :=
    congrArg Node.next (same a apart)
  refine ⟨inv.step step ?_ ?_ inv.linked inv.retired ?_ (fun _ _ _ _ => id) (fun _ _ _ _ => id) ?_
    (inv.guards_same client guarded) inv.count ?_ ?_ ?_, step⟩
  · exact inv.head.congr fun a member => onList a fun kind => by simp [(inv.linked a).mpr member]
  · exact inv.collection.congr fun a member => onList a fun kind => by simp [(inv.retired a).mpr member]
  · intro a
    rw [← inv.alive a]
    exact iff_of_eq (congrArg (· = true) (alive a))
  · rw [self]
    constructor
    case holds => exact ⟨xs, holds' xs holds, fun a k => by rw [owns, kind]⟩
    case hazard => simp [hazard]
    case current =>
      intro oldHead next shape
      exact absurd shape (Client.not_swapHead_of_hazard hazard oldHead next)
    case snapshot => simp [snapshot]
  · exact fun a before after _ split => ⟨before, split⟩
  · simp [self, hazard]
  · intro a result shape
    rw [self] at shape
    exact absurd shape (Client.not_swapCollection_of_snapshot snapshot a result)

end Quiet

end PrototypeBundle.LockFree
