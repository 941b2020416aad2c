import PrototypeBundle.LockFree.Reclamation

set_option autoImplicit false

namespace PrototypeBundle.LockFree

open Memory Intrusive

variable {V : Type} {s : State V} {place : Nat → Place} {L D : List Nat} {G : Finset Nat} {t : Nat}

def relocate (place : Nat → Place) (xs : List Nat) (target : Place) : Nat → Place :=
  fun a => if a ∈ xs then target else place a

theorem relocate_moves {xs : List Nat} {source target : Place} (here : ∀ a ∈ xs, place a = source)
    (move : source.Moves t target) (a : Nat) : (place a).Moves t (relocate place xs target a) := by
  by_cases inside : a ∈ xs
  · rw [relocate, if_pos inside, here a inside]
    exact move
  · rw [relocate, if_neg inside]
    exact .stay _

theorem relocate_other {xs : List Nat} {source target other : Place} (here : ∀ a ∈ xs, place a = source)
    (notSource : other ≠ source) (notTarget : other ≠ target) (a : Nat) :
    relocate place xs target a = other ↔ place a = other := by
  by_cases inside : a ∈ xs
  · simp [relocate, inside, here a inside, Ne.symm notSource, Ne.symm notTarget]
  · simp [relocate, inside]

theorem relocate_target {xs : List Nat} {target : Place} (a : Nat) :
    relocate place xs target a = target ↔ a ∈ xs ∨ place a = target := by
  by_cases inside : a ∈ xs <;> simp [relocate, inside]

theorem relocate_source {xs : List Nat} {source target : Place} (different : source ≠ target) (a : Nat) :
    relocate place xs target a = source ↔ a ∉ xs ∧ place a = source := by
  by_cases inside : a ∈ xs <;> simp [relocate, inside, Ne.symm different]

theorem Inv.bare (inv : Inv s place L D G) {c : Client V} (client : s.clients t = c)
    (bare : ∀ xs, c.Holds s.next xs → xs = []) (a : Nat) (kind : Kind) : place a ≠ .owned kind t := by
  obtain ⟨⟨xs, holds, owns⟩, _⟩ := inv.client t
  rw [client] at holds
  simp [owns, bare xs holds]

theorem Inv.allocate (inv : Inv s place L D G) {value : V} {node : Nat} (client : s.clients t = .allocate value)
    (dead : (s.nodes node).alive = false) (unexpected : ∀ u, (s.clients u).snapshot ≠ some node) :
    let s' : State V := ({ s with
      nodes := modifyAt s.nodes node fun n => { n with storage := none, alive := true } } : State V).put t
        (.construct node value)
    let place' := relocate place [node] (.owned .fresh t)
    Inv s' place' L D G ∧ Step t s s' place place' := by
  intro s' place'
  have self : s'.clients t = .construct node value := Function.update_self ..
  have others (u : Nat) (other : u ≠ t) : s'.clients u = s.clients u := Function.update_of_ne other ..
  have free : place node = .free := by
    by_contra used
    simp [(inv.alive node).mpr used] at dead
  have elsewhere (a : Nat) (used : place a ≠ .free) : s'.nodes a = s.nodes a ∧ place' a = place a := by
    have different : a ≠ node := by
      rintro rfl
      exact used free
    exact ⟨by simp [s', State.put, modifyAt, different], by simp [place', relocate, different]⟩
  have step : Step t s s' place place' :=
    ⟨others, relocate_moves (by simp [free]) .allocate, fun a _ used => (elsewhere a used).1⟩
  have none' (a : Nat) (kind : Kind) : place a ≠ .owned kind t :=
    inv.bare client (fun xs holds => holds) a kind
  have here (a : Nat) (inside : a ∈ [node]) : place a = .free := by simpa [List.mem_singleton.mp inside] using free
  refine ⟨inv.step step ?_ ?_ ?_ ?_ ?_ ?_ ?_ ?_ (inv.guards_same client rfl) inv.count ?_ ?_ ?_, step⟩
  · refine inv.head.congr fun a member => ?_
    simp only [State.next, (elsewhere a (by simp [(inv.linked a).mpr member])).1]
  · refine inv.collection.congr fun a member => ?_
    simp only [State.next, (elsewhere a (by simp [(inv.retired a).mpr member])).1]
  · exact fun a => (relocate_other here (by simp) (by simp) a).trans (inv.linked a)
  · exact fun a => (relocate_other here (by simp) (by simp) a).trans (inv.retired a)
  · intro a
    by_cases atNode : a = node
    · subst atNode
      simp [s', State.put, place', relocate, modifyAt]
    · simpa [s', State.put, place', relocate, modifyAt, atNode] using inv.alive a
  · exact fun u h _ _ retired => (relocate_other here (by simp) (by simp) h).mpr retired
  · intro u a _ found isFree
    have different : a ≠ node := by
      rintro rfl
      exact unexpected u found
    simpa [place', relocate, different] using isFree
  · rw [self]
    constructor
    case holds =>
      refine ⟨[node], rfl, fun a kind => ?_⟩
      by_cases atNode : a = node
      · simp [place', relocate, atNode, Client.kind, eq_comm]
      · simp [place', relocate, atNode, none']
    case hazard => simp [Client.hazard]
    case current => simp
    case snapshot => simp [Client.snapshot]
  · exact fun a before after _ split => ⟨before, split⟩
  · simp [self, Client.hazard]
  · simp [self]

section Moves

variable {L' D' : List Nat} {c c' : Client V} {source target : Place} {xs : List Nat}

theorem Inv.move (inv : Inv s place L D G) (client : s.clients t = c) (here : ∀ a ∈ xs, place a = source)
    (move : source.Moves t target) (used : source ≠ .free ∧ target ≠ .free) {head' collection' : Option Nat}
    (head : Chain s.next head' L') (collection : Chain s.next collection' D')
    (linked : ∀ a, relocate place xs target a = .linked ↔ a ∈ L')
    (retired : ∀ a, relocate place xs target a = .retired ↔ a ∈ D')
    (collects : ∀ u h, u ≠ t → (s.clients u).hazard = some h → place h = .retired →
      relocate place xs target h = .retired)
    (holds : ∃ ys, c'.Holds s.next ys ∧
      ∀ a kind, relocate place xs target a = .owned kind t ↔ kind = c'.kind ∧ a ∈ ys)
    (hazard : c'.hazard = none) (snapshot : c'.snapshot = none) (guarded : c'.guarded = c.guarded)
    (below : ∀ a before after, (place a).Spent → D' = before ++ a :: after → ∃ before, D = before ++ a :: after) :
    let s' : State V := ({ s with head := head', collectionHead := collection' } : State V).put t c'
    Inv s' (relocate place xs target) L' D' G ∧ Step t s s' place (relocate place xs target) := by
  intro s'
  have self : s'.clients t = c' := Function.update_self ..
  have others (u : Nat) (other : u ≠ t) : s'.clients u = s.clients u := Function.update_of_ne other ..
  have step : Step t s s' place (relocate place xs target) := ⟨others, relocate_moves here move, fun _ _ _ => rfl⟩
  have free (a : Nat) := relocate_other here (Ne.symm used.1) (Ne.symm used.2) a
  refine ⟨inv.step step head collection linked retired ?_ collects ?_ ?_ (inv.guards_same client guarded) inv.count
    below ?_ ?_, step⟩
  · exact fun a => (inv.alive a).trans (free a).not.symm
  · exact fun _ a _ _ isFree => (free a).mpr isFree
  · rw [self]
    constructor
    case holds => exact holds
    case hazard => simp [hazard]
    case current =>
      intro oldHead next shape
      exact absurd shape (Client.not_swapHead_of_hazard hazard oldHead next)
    case snapshot => simp [snapshot]
  · simp [self, hazard]
  · intro a result shape
    rw [self] at shape
    exact absurd shape (Client.not_swapCollection_of_snapshot snapshot a result)

theorem Inv.link (inv : Inv s place L D G) {node : Nat} {expected : Option Nat}
    (client : s.clients t = .link node (.compareAndSwap expected)) (found : s.head = expected) :
    let s' : State V := ({ s with head := some node } : State V).put t .countUp
    Inv s' (relocate place [node] .linked) (node :: L) D G ∧ Step t s s' place (relocate place [node] .linked) := by
  obtain ⟨⟨xs, holds, owns⟩, _⟩ := inv.client t
  rw [client] at holds owns
  obtain ⟨rfl, expects⟩ := holds
  have here (a : Nat) (inside : a ∈ [node]) : place a = .owned .fresh t := (owns a .fresh).mpr ⟨rfl, inside⟩
  have next : s.next node = s.head := by
    rw [found]
    exact expects.symm
  refine inv.move client here .link (by simp) (inv.head.push next fun _ _ => rfl) inv.collection ?_ ?_ ?_ ?_ rfl rfl rfl
    fun a before after _ split => ⟨before, split⟩
  · intro a
    rw [relocate_target, inv.linked]
    simp
  · exact fun a => (relocate_other here (by simp) (by simp) a).trans (inv.retired a)
  · exact fun u h _ _ => (relocate_other here (by simp) (by simp) h).mpr
  · refine ⟨[], rfl, fun a kind => ?_⟩
    by_cases atNode : a = node
    · simp [relocate, atNode]
    · simp [relocate, atNode, owns]

theorem Inv.unlink (inv : Inv s place L D G) {oldHead : Nat} {next : Option Nat}
    (client : s.clients t = .swapHead oldHead next) (found : s.head = some oldHead) :
    ∃ rest, L = oldHead :: rest ∧
      let s' : State V := ({ s with head := next } : State V).put t (.moveData oldHead)
      let place' := relocate place [oldHead] (.owned .taken t)
      Inv s' place' rest D G ∧ Step t s s' place place' := by
  obtain ⟨rest, rfl, chain⟩ := inv.head.tail found
  have atHead : place oldHead = .linked := (inv.linked oldHead).mpr (by simp)
  have current := (inv.client t).current oldHead next client atHead
  have bare := inv.bare client fun xs holds => holds
  have here (a : Nat) (inside : a ∈ [oldHead]) : place a = .linked := by
    simpa [List.mem_singleton.mp inside] using atHead
  have fresh : oldHead ∉ rest := (List.nodup_cons.mp inv.head.nodup).1
  refine ⟨rest, rfl, inv.move client here .unlink (by simp) (by rwa [current]) inv.collection ?_ ?_ ?_ ?_ rfl rfl rfl
    fun a before after _ split => ⟨before, split⟩⟩
  · intro a
    rw [relocate_source (by simp), inv.linked]
    by_cases same : a = oldHead
    · simp [same, fresh]
    · simp [same]
  · exact fun a => (relocate_other here (by simp) (by simp) a).trans (inv.retired a)
  · exact fun u h _ _ => (relocate_other here (by simp) (by simp) h).mpr
  · refine ⟨[oldHead], rfl, fun a kind => ?_⟩
    by_cases same : a = oldHead
    · simp [relocate, same, Client.kind, eq_comm]
    · simp [relocate, same, bare]

theorem Inv.detach (inv : Inv s place L D G) {first : Nat} (client : s.clients t = .detach)
    (found : s.head = some first) :
    let s' : State V := ({ s with head := none } : State V).put t (.findTail first first)
    let place' := relocate place L (.owned .taken t)
    Inv s' place' [] D G ∧ Step t s s' place place' := by
  have bare := inv.bare client fun xs holds => holds
  have here (a : Nat) (inside : a ∈ L) : place a = .linked := (inv.linked a).mpr inside
  refine inv.move client here .unlink (by simp) rfl inv.collection ?_ ?_ ?_ ?_ rfl rfl rfl
    fun a before after _ split => ⟨before, split⟩
  · intro a
    rw [relocate_source (by simp), inv.linked]
    simp
  · exact fun a => (relocate_other here (by simp) (by simp) a).trans (inv.retired a)
  · exact fun u h _ _ => (relocate_other here (by simp) (by simp) h).mpr
  · refine ⟨L, ⟨found ▸ inv.head, inv.head.head_mem found⟩, fun a kind => ?_⟩
    by_cases inside : a ∈ L
    · simp [relocate, inside, Client.kind, eq_comm]
    · simp [relocate, inside, bare]

theorem chain_extend {next : Nat → Option Nat} {last : Nat} {ys : List Nat} (tail : Chain next (next last) ys) :
    ∀ {xs : List Nat} {head : Option Nat}, Chain (Function.update next last none) head xs → last ∈ xs →
      Chain next head (xs ++ ys) := by
  intro xs
  induction xs with
  | nil => simp
  | cons x xs ih =>
      rintro head ⟨rfl, chain⟩ inside
      refine ⟨rfl, ?_⟩
      by_cases same : x = last
      · subst same
        rw [Function.update_self] at chain
        obtain rfl : xs = [] := chain.head_none_iff.mp rfl
        exact tail
      · rw [Function.update_of_ne same] at chain
        exact ih chain (by simpa [Ne.symm same] using inside)

theorem Inv.retire (inv : Inv s place L D G) {first last : Nat} {expected : Option Nat} {result : Result V}
    (client : s.clients t = .retire first last (.compareAndSwap expected) result)
    (found : s.collectionHead = expected) :
    ∃ xs, let s' : State V := ({ s with collectionHead := some first } : State V).put t (.loadCollection result)
      let place' := relocate place xs .retired
      Inv s' place' L (xs ++ D) G ∧ Step t s s' place place' := by
  obtain ⟨⟨xs, holds, owns⟩, _⟩ := inv.client t
  rw [client] at holds owns
  obtain ⟨chain, inside, expects⟩ := holds
  have here (a : Nat) (member : a ∈ xs) : place a = .owned .taken t := (owns a .taken).mpr ⟨rfl, member⟩
  have next : s.next last = s.collectionHead := by
    rw [found]
    exact expects.symm
  refine ⟨xs, inv.move client here .retire (by simp) inv.head
    (chain_extend (next ▸ inv.collection) chain inside) ?_ ?_ ?_ ?_ rfl rfl rfl ?_⟩
  · exact fun a => (relocate_other here (by simp) (by simp) a).trans (inv.linked a)
  · intro a
    rw [relocate_target, inv.retired, List.mem_append]
  · exact fun u h _ _ retired => relocate_target h |>.mpr (Or.inr retired)
  · refine ⟨[], rfl, fun a kind => ?_⟩
    by_cases member : a ∈ xs
    · simp [relocate, member]
    · simp [relocate, member, owns]
  · intro a before after spent split
    -- a node that has been at the head of the collection is none of the new ones
    have old : a ∉ xs := by
      intro member
      simp [here a member, Place.Spent] at spent
    rcases List.append_eq_append_iff.mp split with ⟨ys, _, rest⟩ | ⟨ys, new, rest⟩
    · exact ⟨ys, rest⟩
    · cases ys with
      | nil => exact ⟨[], by simpa using rest.symm⟩
      | cons y ys =>
          obtain ⟨rfl, _⟩ : a = y ∧ _ := List.cons.inj rest
          simp [new] at old

theorem Inv.collect (inv : Inv s place L D G) {first : Nat} {result : Result V}
    (client : s.clients t = .swapCollection (some first) result) (found : s.collectionHead = some first) :
    let s' : State V := ({ s with collectionHead := none } : State V).put t (.readCollectable first result)
    let place' := relocate place D (.owned .doomed t)
    Inv s' place' L [] G ∧ Step t s s' place place' := by
  obtain ⟨rest, rfl, _⟩ := inv.collection.tail found
  have bare := inv.bare client fun xs holds => holds
  have here (a : Nat) (inside : a ∈ first :: rest) : place a = .retired := (inv.retired a).mpr inside
  have cleared := inv.cleared t first result client [] rest rfl
  refine inv.move client here .collect (by simp) inv.head rfl ?_ ?_ ?_ ?_ rfl rfl rfl ?_
  · exact fun a => (relocate_other here (by simp) (by simp) a).trans (inv.linked a)
  · intro a
    rw [relocate_source (by simp), inv.retired]
    simp
  · intro u h other hazard retired
    exact absurd ((inv.retired h).mp retired) (cleared u h other hazard)
  · have chain : Chain s.next (some first) (first :: rest) := found ▸ inv.collection
    refine ⟨first :: rest, chain, fun a kind => ?_⟩
    by_cases inside : a ∈ first :: rest
    · rw [relocate, if_pos inside, Place.owned.injEq]
      exact ⟨fun same => ⟨same.1.symm, inside⟩, fun same => ⟨same.1.symm, rfl⟩⟩
    · rw [relocate, if_neg inside]
      simp [bare, inside]
  · simp

end Moves

theorem Inv.delete (inv : Inv s place L D G) {node : Nat} {next : Option Nat} {result : Result V}
    (client : s.clients t = .delete node next result) :
    let s' : State V := ({ s with
      nodes := modifyAt s.nodes node fun n => { n with alive := false } } : State V).put t (collectFrom result next)
    let place' := relocate place [node] .free
    Inv s' place' L D G ∧ Step t s s' place place' := by
  intro s' place'
  have self : s'.clients t = collectFrom result next := Function.update_self ..
  have others (u : Nat) (other : u ≠ t) : s'.clients u = s.clients u := Function.update_of_ne other ..
  obtain ⟨⟨xs, holds, owns⟩, _⟩ := inv.client t
  rw [client] at holds owns
  obtain ⟨whole, rfl⟩ := holds
  obtain ⟨rest, rfl, chain⟩ := whole.tail rfl
  have mine : place node = .owned .doomed t := (owns node .doomed).mpr ⟨rfl, by simp⟩
  have here (a : Nat) (inside : a ∈ [node]) : place a = .owned .doomed t := by
    simpa [List.mem_singleton.mp inside] using mine
  have nextSame (a : Nat) : s'.next a = s.next a := by
    by_cases same : a = node <;> simp [s', State.next, State.put, modifyAt, same]
  have elsewhere (a : Nat) (foreign : ∀ kind, place a ≠ .owned kind t) : s'.nodes a = s.nodes a := by
    have different : a ≠ node := by
      rintro rfl
      exact foreign .doomed mine
    simp [s', State.put, modifyAt, different]
  have step : Step t s s' place place' := ⟨others, relocate_moves here .delete, fun a foreign _ => elsewhere a foreign⟩
  have fresh : node ∉ rest := (List.nodup_cons.mp whole.nodup).1
  refine ⟨inv.step step ?_ ?_ ?_ ?_ ?_ ?_ ?_ ?_ (inv.guards_same client ?_) inv.count ?_ ?_ ?_, step⟩
  · exact inv.head.congr fun a _ => nextSame a
  · exact inv.collection.congr fun a _ => nextSame a
  · exact fun a => (relocate_other here (by simp) (by simp) a).trans (inv.linked a)
  · exact fun a => (relocate_other here (by simp) (by simp) a).trans (inv.retired a)
  · intro a
    by_cases same : a = node
    · subst same
      simp [s', State.put, place', relocate, modifyAt]
    · simpa [s', State.put, place', relocate, modifyAt, same] using inv.alive a
  · exact fun u h _ _ => (relocate_other here (by simp) (by simp) h).mpr
  · exact fun _ a _ _ free => relocate_target a |>.mpr (Or.inr free)
  · rw [self]
    constructor
    case holds =>
      refine ⟨rest, ?_, fun a kind => ?_⟩
      · cases following : s.next node with
        | none => exact chain.head_none_iff.mp following
        | some first =>
            rw [following] at chain
            exact chain.congr fun a _ => nextSame a
      · by_cases same : a = node
        · simp [place', relocate, same, fresh]
        · cases following : s.next node with
          | none =>
              obtain rfl := chain.head_none_iff.mp following
              simp [place', relocate, same, owns]
          | some first => simp [place', relocate, same, owns, collectFrom, Client.kind]
    case hazard => simp
    case current =>
      intro oldHead next shape
      exact absurd shape (Client.not_swapHead_of_hazard (by simp) oldHead next)
    case snapshot => simp
  · exact Client.collectFrom_guarded ..
  · exact fun a before after _ split => ⟨before, split⟩
  · rw [self]
    simp
  · intro a result' shape
    rw [self] at shape
    exact absurd shape (Client.not_swapCollection_of_snapshot (by simp) a result')

end PrototypeBundle.LockFree
