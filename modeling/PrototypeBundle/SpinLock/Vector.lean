import PrototypeBundle.Shared.Guarded
import PrototypeBundle.SpinLock.Mutexes

set_option autoImplicit false

namespace PrototypeBundle.SpinLock

open Guarded Runs

variable {α : Type}

inductive Operation (α : Type) where
  | runPush (item : α)
  | runPop
  | runBrowse
  deriving DecidableEq

inductive Loc (α : Type) where
  | pushBack (item : α)
  | popEmpty
  | popBack
  | browseEmpty
  -- the range of the loop is taken before its first pass
  | browseRange
  | browseItem (i last : Nat) (seen : List α)

def enter : Operation α → Loc α
  | .runPush item => .pushBack item
  | .runPop => .popEmpty
  | .runBrowse => .browseEmpty

-- The result is what was browsed, `none` after a read past the end of the vector.
def vectorAccess : Loc α → List α → List α × (Loc α ⊕ Option (List α))
  | .pushBack item, data => (data ++ [item], .inr (some []))
  | .popEmpty, data => (data, if data.isEmpty then .inr (some []) else .inl .popBack)
  | .popBack, data => (data.dropLast, .inr (some []))
  | .browseEmpty, data => (data, if data.isEmpty then .inr (some []) else .inl .browseRange)
  | .browseRange, data => (data, .inl (.browseItem 0 data.length []))
  | .browseItem i last seen, data =>
      (data, if i = last then .inr (some seen)
        else match data[i]? with
          | some item => .inl (.browseItem (i + 1) last (seen ++ [item]))
          | none => .inr none)

def vectorApply (data : List α) : Operation α → List α × Option (List α)
  | .runPush item => (data ++ [item], some [])
  | .runPop => (data.dropLast, some [])
  | .runBrowse => (data, some data)

theorem browse_ends (data : List α) (left : Nat) (within : left ≤ data.length) :
    Finishes vectorAccess (.browseItem (data.length - left) data.length (data.take (data.length - left))) data
      (data, some data) := by
  induction left with
  | zero =>
      refine .last ?_
      rw [Nat.sub_zero, List.take_length, vectorAccess, if_pos rfl]
  | succ left ih =>
      have bound : data.length - (left + 1) < data.length := by omega
      have next : data.length - (left + 1) + 1 = data.length - left := by omega
      have later := ih (by omega)
      rw [← next, List.take_succ_eq_append_getElem bound] at later
      refine .next ?_ later
      rw [vectorAccess, if_neg (Nat.ne_of_lt bound), List.getElem?_eq_getElem bound]

theorem vector_ends (data : List α) (o : Operation α) : Finishes vectorAccess (enter o) data (vectorApply data o) := by
  cases o with
  | runPush item => exact .last rfl
  | runPop =>
      cases data with
      | nil => exact .last rfl
      | cons item rest => exact .next rfl (.last rfl)
  | runBrowse =>
      cases data with
      | nil => exact .last rfl
      | cons item rest =>
          have loop := browse_ends (item :: rest) (item :: rest).length (Nat.le_refl _)
          rw [Nat.sub_self] at loop
          exact .next rfl (.next rfl loop)

def vector (α : Type) : Guarded.Section (List α) (Loc α) (Operation α) (Option (List α)) where
  enter := enter
  access := vectorAccess
  apply := vectorApply
  ends := vector_ends

def contents (operations : List (Operation α)) : List α := operations.foldl (fun data o => (vectorApply data o).1) []

abbrev Mutex.VectorState (m : Mutex) (α : Type) :=
  Guarded.State m.implementation.Word m.implementation.Code (List α) (Loc α) (Operation α) (Option (List α))

abbrev Mutex.VectorAction (m : Mutex) (α : Type) := Nat × Guarded.Action m.implementation.Choice (Operation α)

def Mutex.vectorStart (m : Mutex) (α : Type) : m.VectorState α := Guarded.start m.implementation.mutex []

def Mutex.vectorStep (m : Mutex) : m.VectorState α → m.VectorAction α → Option (m.VectorState α) :=
  Guarded.step m.implementation.mutex (vector α)

def Mutex.vectorEmit (m : Mutex) : m.VectorState α → m.VectorAction α → List (Atomic.Event (Operation α) (Option (List α))) :=
  Guarded.emit m.implementation.mutex (vector α)

theorem legal_contents {log : List (Nat × Operation α × Option (List α))} {data : List α}
    (legal : Atomic.Legal vectorApply [] log data) : contents ((answers log).map Prod.fst) = data := by
  induction log generalizing data with
  | nil =>
      obtain rfl := legal
      rfl
  | cons entry log ih =>
      obtain ⟨t, o, r⟩ := entry
      obtain ⟨before, legal, applied⟩ := legal
      have earlier := ih legal
      simp only [contents, answers, List.reverse_cons, List.map_append, List.map_cons, List.map_nil,
        List.foldl_append, List.foldl_cons, List.foldl_nil] at earlier ⊢
      rw [earlier, applied]

theorem vector_threads [DecidableEq α] (m : Mutex) {actions : List (m.VectorAction α)} {s : m.VectorState α}
    (run : exec m.vectorStep (m.vectorStart α) actions = some s) :
    (∀ t u, Guarded.Inside s t → Guarded.Inside s u → t = u) ∧
      ∃ x, exec (Atomic.Object.step vectorApply) (Atomic.Object.initial [])
          (trace m.vectorStep m.vectorEmit (m.vectorStart α) actions) = some x ∧
        x.responses.Subperm (x.log.map fun entry => (entry.1, entry.2.2)) ∧
        ((∀ t, ¬ Guarded.Inside s t) → s.data = contents ((answers x.log).map Prod.fst)) ∧
        ∀ later t r earlier, x.log = later ++ (t, .runBrowse, r) :: earlier →
          r = some (contents ((answers earlier).map Prod.fst)) := by
  obtain ⟨⟨x, abstract, ok, related⟩, exclusive⟩ := Guarded.linearizable run
  refine ⟨exclusive, x, abstract, ok.responses_subperm, ?_, ?_⟩
  · intro quiet
    exact (related.quiet quiet).symm.trans (legal_contents ok.legal).symm
  · intro later t r earlier split
    obtain ⟨data, legal, answer⟩ := (split ▸ ok.legal).answer
    rw [answer, legal_contents legal]
    rfl

-- Thread 1 wants to browse before thread 0 has pushed, but tries the mutex after it.
def browseLate : List (Mutex.demoB.VectorAction Nat) :=
  [(1, .call .runBrowse), (0, .call (.runPush 7)), (0, .sync ()), (1, .sync ()), (0, .work), (0, .sync ()), (1, .sync ()),
    (1, .work), (1, .work), (1, .work), (1, .work), (1, .sync ())]

theorem vector_threads_late : ∃ s x, exec Mutex.demoB.vectorStep (Mutex.demoB.vectorStart Nat) browseLate = some s ∧
    exec (Atomic.Object.step vectorApply) (Atomic.Object.initial [])
      (trace Mutex.demoB.vectorStep Mutex.demoB.vectorEmit (Mutex.demoB.vectorStart Nat) browseLate) = some x ∧
    x.responses.Subperm (x.log.map fun entry => (entry.1, entry.2.2)) ∧ x.responses = [(1, some [7]), (0, some [])] ∧
    s.data = [7] ∧
    ∀ later t r earlier, x.log = later ++ (t, .runBrowse, r) :: earlier →
      r = some (contents ((answers earlier).map Prod.fst)) := by
  obtain ⟨s, run, data⟩ : ∃ s, exec Mutex.demoB.vectorStep (Mutex.demoB.vectorStart Nat) browseLate = some s ∧
      s.data = [7] := ⟨_, rfl, rfl⟩
  obtain ⟨-, x, abstract, answered, -, browsed⟩ := vector_threads Mutex.demoB run
  have results : ((exec (Atomic.Object.step vectorApply) (Atomic.Object.initial [])
      (trace Mutex.demoB.vectorStep Mutex.demoB.vectorEmit (Mutex.demoB.vectorStart Nat) browseLate)).map
        Atomic.Object.responses) = some [(1, some [7]), (0, some [])] := by decide
  rw [abstract] at results
  exact ⟨s, x, run, abstract, answered, Option.some.inj results, data, browsed⟩

end PrototypeBundle.SpinLock
