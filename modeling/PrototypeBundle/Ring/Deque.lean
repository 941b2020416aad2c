import PrototypeBundle.Ring.Storage
import PrototypeBundle.Shared.Run
import Mathlib.Data.List.Perm.Basic

set_option autoImplicit false

namespace PrototypeBundle.Ring

open Memory Runs

variable {α : Type} {capacity : Nat}

inductive Op (α : Type) where
  | pushBack (v : α)
  | pushBackMoved (v : α)
  | emplaceBack (v : α)
  | popFront
  | popBack
  | front
  | back
  deriving DecidableEq, Repr

inductive Result (α : Type) where
  | done
  | threw (what : String)
  | value (v : α)
  deriving DecidableEq, Repr

section Operations

variable (capacity : Nat) (object : Nat)

-- `v` is what the constructor makes of the arguments.
def World.emplaceBack (w : World α) (v : α) : Option (Result α × World α) :=
  let b := w.buffers object
  if b.isFull capacity then some (.threw "static ring buffer capacity exceeded", w)
  else (w.construct capacity (w.at capacity object b.count) v).map fun w =>
    (.done, w.setPosition object b.first (b.count + 1))

def World.pushBack (w : World α) (v : α) : Option (Result α × World α) := w.emplaceBack capacity object v

def World.pushBackMoved (w : World α) (v : α) : Option (Result α × World α) := w.emplaceBack capacity object v

def World.popFront (w : World α) : Option (Result α × World α) :=
  let b := w.buffers object
  if b.empty then some (.done, w)
  else (w.destroy capacity (w.at capacity object 0)).map fun w =>
    (.done, w.setPosition object (if b.first + 1 = capacity then 0 else b.first + 1) (b.count - 1))

def World.popBack (w : World α) : Option (Result α × World α) :=
  let b := w.buffers object
  if b.empty then some (.done, w)
  else (w.destroy capacity (w.at capacity object (b.count - 1))).map fun w =>
    (.done, w.setPosition object b.first (b.count - 1))

def World.front (w : World α) : Option (Result α × World α) :=
  (w.load capacity (w.at capacity object 0)).map fun v => (.value v, w)

def World.back (w : World α) : Option (Result α × World α) :=
  (w.load capacity (w.at capacity object ((w.buffers object).count - 1))).map fun v => (.value v, w)

def Op.run (w : World α) : Op α → Option (Result α × World α)
  | pushBack v => w.pushBack capacity object v
  | pushBackMoved v => w.pushBackMoved capacity object v
  | emplaceBack v => w.emplaceBack capacity object v
  | popFront => w.popFront capacity object
  | popBack => w.popBack capacity object
  | front => w.front capacity object
  | back => w.back capacity object

def bufferStep (s : World α × List (Result α)) (op : Op α) : Option (World α × List (Result α)) :=
  (op.run capacity object s.1).map fun next => (next.2, s.2 ++ [next.1])

end Operations

/-- The bounded queue: what an operation answers and leaves. `front` and `back` need an element. -/
def Op.feed (capacity : Nat) (queue : List α) : Op α → Option (Result α × List α)
  | pushBack v | pushBackMoved v | emplaceBack v =>
      if queue.length = capacity then some (.threw "static ring buffer capacity exceeded", queue)
      else some (.done, queue ++ [v])
  | popFront => some (.done, queue.tail)
  | popBack => some (.done, queue.dropLast)
  | front => queue.head?.map fun v => (.value v, queue)
  | back => queue.getLast?.map fun v => (.value v, queue)

def dequeStep (capacity : Nat) (s : List α × List (Result α)) (op : Op α) : Option (List α × List (Result α)) :=
  (op.feed capacity s.1).map fun next => (next.2, s.2 ++ [next.1])

def World.initial : World α where
  buffers := fun _ => { data := fun _ => none, first := 0, count := 0 }
  constructed := 0
  destroyed := []

/-- Each element constructed so far has been destroyed or lives in the buffer. -/
def Accounted (w : World α) (items : List (Element α)) : Prop :=
  (w.destroyed ++ items.map Element.serial).Perm (List.range w.constructed)

structure Represents (capacity object : Nat) (w : World α) (queue : List α) (items : List (Element α)) : Prop where
  holds : Holds capacity (w.buffers object) items
  values : items.map Element.value = queue
  accounted : Accounted w items

section Operations

variable {object : Nat} {w : World α} {queue : List α} {items : List (Element α)}

theorem Represents.length (rep : Represents capacity object w queue items) : items.length = queue.length := by
  rw [← rep.values, List.length_map]

theorem Represents.full_iff (rep : Represents capacity object w queue items) :
    (w.buffers object).isFull capacity ↔ queue.length = capacity := by
  rw [StaticRingBuffer.isFull, rep.holds.count, rep.length]

theorem Represents.empty_iff (rep : Represents capacity object w queue items) :
    (w.buffers object).empty ↔ queue = [] := by
  rw [StaticRingBuffer.empty, rep.holds.count, rep.length, List.length_eq_zero_iff]

theorem Represents.emplaceBack (rep : Represents capacity object w queue items) (v : α)
    (space : queue.length ≠ capacity) :
    ∃ w' items', w.emplaceBack capacity object v = some (.done, w') ∧
      Represents capacity object w' (queue ++ [v]) items' := by
  have holds := rep.holds
  have start := holds.first
  have length := rep.length
  have fits := holds.fits
  have room : items.length < capacity := by omega
  let slot := (w.buffers object).transposeIndex capacity items.length
  let made : Element α := ⟨w.constructed, v⟩
  obtain ⟨below, index⟩ := position_transpose (b := w.buffers object) start room
  have vacant : (w.buffers object).data slot = none := by
    rw [holds.data, if_pos below, index]
    simp
  have constructed : w.construct capacity (w.at capacity object (w.buffers object).count) v =
      some { w.setData object slot (some made) with constructed := w.constructed + 1 } := by
    simp only [World.at, holds.count, World.construct]
    exact if_pos ⟨below, vacant⟩
  have notFull : ¬ (w.buffers object).isFull capacity := fun full => space (rep.full_iff.mp full)
  refine ⟨_, items ++ [made], by simp only [World.emplaceBack, if_neg notFull, constructed, Option.map_some]; rfl, ?_⟩
  refine ⟨⟨?_, ?_, ?_, ?_⟩, ?_, ?_⟩
  · simpa [World.setPosition, modifyAt_same] using start
  · simp [World.setPosition, modifyAt_same, holds.count]
  · simp
    omega
  · intro other
    simp only [World.setPosition, World.setData, modifyAt_same]
    by_cases here : other = slot
    · subst here
      rw [Function.update_self, if_pos below, index]
      simp
    · rw [Function.update_of_ne here, holds.data]
      split
      case isTrue inside =>
        have apart := position_ne start inside here
        rcases Nat.lt_or_gt_of_ne apart with earlier | later
        · rw [List.getElem?_append_left earlier]
        · rw [List.getElem?_eq_none (by omega), List.getElem?_eq_none (by simp; omega)]
      case isFalse => rfl
  · simp [rep.values, made]
  · have accounted := rep.accounted
    simp only [Accounted] at accounted ⊢
    change (w.destroyed ++ (items ++ [made]).map Element.serial).Perm (List.range (w.constructed + 1))
    rw [List.range_succ, List.map_append, ← List.append_assoc]
    exact accounted.append_right _

theorem Represents.destroy (rep : Represents capacity object w queue items) {i : Nat} {e : Element α}
    (found : items[i]? = some e) :
    w.destroy capacity (w.at capacity object i) = some
      { w.setData object ((w.buffers object).transposeIndex capacity i) none with
        destroyed := w.destroyed ++ [e.serial] } := by
  have holds := rep.holds
  have fits := holds.fits
  have below : i < items.length := (List.getElem?_eq_some_iff.mp found).1
  obtain ⟨inside, -⟩ := position_transpose (b := w.buffers object) holds.first (show i < capacity by omega)
  have live := holds.at (show i < capacity by omega)
  simp [World.destroy, World.at, inside, live, found]

theorem Represents.popFront (rep : Represents capacity object w queue items) :
    ∃ w' items', w.popFront capacity object = some (.done, w') ∧ Represents capacity object w' queue.tail items' := by
  have holds := rep.holds
  have start := holds.first
  have fits := holds.fits
  cases items with
  | nil =>
      have none' : queue = [] := by simpa using rep.values.symm
      have isEmpty : (w.buffers object).empty := rep.empty_iff.mpr none'
      refine ⟨w, [], by simp only [World.popFront, if_pos isEmpty], ?_⟩
      simpa [none'] using rep
  | cons e rest =>
      simp only [List.length_cons] at fits
      have first : (w.buffers object).transposeIndex capacity 0 = (w.buffers object).first := by
        simp [StaticRingBuffer.transposeIndex, start]
      have gone := rep.destroy (i := 0) (e := e) (by simp)
      rw [first] at gone
      have notEmpty : ¬ (w.buffers object).empty := by simp [StaticRingBuffer.empty, holds.count]
      refine ⟨_, rest, by simp only [World.popFront, if_neg notEmpty, gone, Option.map_some]; rfl, ?_⟩
      refine ⟨⟨?_, ?_, by omega, ?_⟩, ?_, ?_⟩
      · simp only [World.setPosition, modifyAt_same]
        split <;> omega
      · simp [World.setPosition, modifyAt_same, holds.count]
      · intro other
        simp only [World.setPosition, World.setData, modifyAt_same]
        by_cases here : other = (w.buffers object).first
        · -- the slot of the old front is the last one now
          rw [here, Function.update_self, if_pos start, List.getElem?_eq_none]
          unfold position
          split_ifs <;> omega
        · rw [Function.update_of_ne here, holds.data]
          split
          case isTrue inside =>
            have shift : position capacity (w.buffers object).first other =
                position capacity (if (w.buffers object).first + 1 = capacity then 0
                  else (w.buffers object).first + 1) other + 1 := by
              unfold position
              split_ifs <;> omega
            rw [shift, List.getElem?_cons_succ]
          case isFalse => rfl
      · rw [← rep.values, List.map_cons, List.tail_cons]
      · have accounted := rep.accounted
        simp only [Accounted, List.map_cons] at accounted
        change (w.destroyed ++ [e.serial] ++ rest.map Element.serial).Perm (List.range w.constructed)
        simpa using accounted

theorem Represents.popBack (rep : Represents capacity object w queue items) :
    ∃ w' items', w.popBack capacity object = some (.done, w') ∧ Represents capacity object w' queue.dropLast items' := by
  have holds := rep.holds
  have start := holds.first
  have fits := holds.fits
  rcases List.eq_nil_or_concat items with none' | ⟨rest, e, split'⟩
  · subst none'
    have none' : queue = [] := by simpa using rep.values.symm
    have isEmpty : (w.buffers object).empty := rep.empty_iff.mpr none'
    refine ⟨w, [], by simp only [World.popBack, if_pos isEmpty], ?_⟩
    simpa [none'] using rep
  · rw [List.concat_eq_append] at split'
    subst split'
    simp only [List.length_append, List.length_singleton] at fits
    have last : (w.buffers object).count - 1 = rest.length := by simp [holds.count]
    obtain ⟨below, index⟩ := position_transpose (b := w.buffers object) start (show rest.length < capacity by omega)
    have gone := rep.destroy (i := rest.length) (e := e) (by simp)
    have notEmpty : ¬ (w.buffers object).empty := by simp [StaticRingBuffer.empty, holds.count]
    refine ⟨_, rest, by simp only [World.popBack, if_neg notEmpty, last, gone, Option.map_some]; rfl, ?_⟩
    refine ⟨⟨?_, ?_, by omega, ?_⟩, ?_, ?_⟩
    · simpa [World.setPosition, modifyAt_same] using start
    · simp [World.setPosition, modifyAt_same]
    · intro other
      simp only [World.setPosition, World.setData, modifyAt_same]
      by_cases here : other = (w.buffers object).transposeIndex capacity rest.length
      · rw [here, Function.update_self, if_pos below, index]
        simp
      · rw [Function.update_of_ne here, holds.data]
        split
        case isTrue inside =>
          have apart := position_ne start inside here
          rcases Nat.lt_or_gt_of_ne apart with earlier | later
          · rw [List.getElem?_append_left earlier]
          · rw [List.getElem?_eq_none (by simp; omega), List.getElem?_eq_none (by omega)]
        case isFalse => rfl
    · rw [← rep.values, List.map_append, List.map_singleton, List.dropLast_concat]
    · have accounted := rep.accounted
      simp only [Accounted, List.map_append, List.map_singleton] at accounted
      change (w.destroyed ++ [e.serial] ++ rest.map Element.serial).Perm (List.range w.constructed)
      refine List.Perm.trans ?_ accounted
      rw [List.append_assoc]
      exact List.perm_append_comm.append_left _

theorem Represents.load (rep : Represents capacity object w queue items) {i : Nat} {v : α}
    (found : queue[i]? = some v) : w.load capacity (w.at capacity object i) = some v := by
  have holds := rep.holds
  have fits := holds.fits
  have length := rep.length
  have below : i < queue.length := (List.getElem?_eq_some_iff.mp found).1
  obtain ⟨inside, -⟩ := position_transpose (b := w.buffers object) holds.first (show i < capacity by omega)
  have live := holds.at (show i < capacity by omega)
  rw [← rep.values, List.getElem?_map] at found
  simp [World.load, World.at, inside, live, found]

theorem Represents.run (rep : Represents capacity object w queue items) {op : Op α} {result : Result α} {queue' : List α}
    (fed : op.feed capacity queue = some (result, queue')) :
    ∃ w' items', op.run capacity object w = some (result, w') ∧ Represents capacity object w' queue' items' := by
  have push (v : α) (fed : (Op.emplaceBack v).feed capacity queue = some (result, queue')) :
      ∃ w' items', w.emplaceBack capacity object v = some (result, w') ∧
        Represents capacity object w' queue' items' := by
    simp only [Op.feed] at fed
    split at fed
    case isTrue full =>
      cases fed
      exact ⟨w, items, if_pos (rep.full_iff.mpr full), rep⟩
    case isFalse space =>
      cases fed
      exact rep.emplaceBack v space
  cases op with
  | pushBack v => exact push v fed
  | pushBackMoved v => exact push v fed
  | emplaceBack v => exact push v fed
  | popFront =>
      cases fed
      exact rep.popFront
  | popBack =>
      cases fed
      exact rep.popBack
  | front =>
      simp only [Op.feed, Option.map_eq_some_iff] at fed
      obtain ⟨v, first, same⟩ := fed
      cases same
      have found : queue[0]? = some v := by rw [← List.head?_eq_getElem?, first]
      exact ⟨w, items, by simp only [Op.run, World.front, rep.load found, Option.map_some], rep⟩
  | back =>
      simp only [Op.feed, Option.map_eq_some_iff] at fed
      obtain ⟨v, last, same⟩ := fed
      cases same
      have found : queue[(w.buffers object).count - 1]? = some v := by
        rw [rep.holds.count, rep.length, ← List.getLast?_eq_getElem?, last]
      exact ⟨w, items, by simp only [Op.run, World.back, rep.load found, Option.map_some], rep⟩

theorem Represents.throws (rep : Represents capacity object w queue items) {v : α} {op : Op α}
    (pushes : op ∈ [Op.pushBack v, .pushBackMoved v, .emplaceBack v]) :
    ((∃ what w', op.run capacity object w = some (.threw what, w')) ↔ queue.length = capacity) ∧
      (queue.length = capacity →
        op.run capacity object w = some (.threw "static ring buffer capacity exceeded", w)) := by
  have same : op.run capacity object w = w.emplaceBack capacity object v := by
    simp only [List.mem_cons, List.not_mem_nil, or_false] at pushes
    rcases pushes with rfl | rfl | rfl <;> rfl
  have full (isFull : queue.length = capacity) :
      op.run capacity object w = some (.threw "static ring buffer capacity exceeded", w) := by
    rw [same]
    exact if_pos (rep.full_iff.mpr isFull)
  refine ⟨⟨?_, fun isFull => ⟨_, _, full isFull⟩⟩, full⟩
  intro threw
  obtain ⟨what, w', threw⟩ := threw
  by_contra space
  obtain ⟨w'', items', done, -⟩ := rep.emplaceBack v space
  rw [same, done] at threw
  simp at threw

end Operations

theorem World.initial_represents (positive : 0 < capacity) :
    Represents capacity 0 (World.initial : World α) [] [] :=
  ⟨⟨positive, rfl, Nat.zero_le _, fun slot => by simp [World.initial]⟩, rfl, by simp [Accounted, World.initial]⟩

theorem run_represents (positive : 0 < capacity) {ops : List (Op α)} {queue : List α} {results : List (Result α)}
    (fed : exec (dequeStep capacity) ([], []) ops = some (queue, results)) :
    ∃ w items, exec (bufferStep capacity 0) (World.initial, []) ops = some (w, results) ∧
      Represents capacity 0 w queue items := by
  let related (s : List α × List (Result α)) (t : World α × List (Result α)) : Prop :=
    t.2 = s.2 ∧ ∃ items, Represents capacity 0 t.1 s.1 items
  have matched (s : List α × List (Result α)) (op : Op α) (next : List α × List (Result α))
      (t : World α × List (Result α)) (relation : related s t) (taken : dequeStep capacity s op = some next) :
      ∃ t', bufferStep capacity 0 t op = some t' ∧ related next t' := by
    obtain ⟨same, items, rep⟩ := relation
    simp only [dequeStep, Option.map_eq_some_iff] at taken
    obtain ⟨⟨result, queue'⟩, fed, rfl⟩ := taken
    obtain ⟨w', items', ran, rep'⟩ := rep.run fed
    refine ⟨(w', t.2 ++ [result]), ?_, by simp [same], items', rep'⟩
    simp [bufferStep, ran]
  obtain ⟨⟨w, results'⟩, run, same, items, rep⟩ :=
    exec_matched related matched (t := (World.initial, [])) ⟨rfl, [], World.initial_represents positive⟩ fed
  exact ⟨w, items, by rw [run, show results' = results from same], rep⟩

theorem buffer_refines_deque (positive : 0 < capacity) (ops : List (Op α)) {queue : List α} {results : List (Result α)}
    (fed : exec (dequeStep capacity) ([], []) ops = some (queue, results)) :
    ∃ w, exec (bufferStep capacity 0) (World.initial, []) ops = some (w, results) ∧
      (w.buffers 0).contents capacity = queue.map some ∧
      (∀ v, ∀ op ∈ [Op.pushBack v, .pushBackMoved v, .emplaceBack v],
        ((∃ what w', op.run capacity 0 w = some (.threw what, w')) ↔ queue.length = capacity) ∧
          (queue.length = capacity →
            op.run capacity 0 w = some (.threw "static ring buffer capacity exceeded", w))) ∧
      (∀ slot, ((w.buffers 0).data slot).isSome = true ↔
        ∃ i < (w.buffers 0).count, (w.buffers 0).transposeIndex capacity i = slot) ∧
      ∃ (w' : World α) (items : List (Element α)), w.destruct capacity 0 = some w' ∧ (w.buffers 0).elements capacity = items.map some ∧
        w'.destroyed = w.destroyed ++ items.map Element.serial ∧ (∀ slot, (w'.buffers 0).data slot = none) ∧
        w'.destroyed.Perm (List.range w'.constructed) := by
  obtain ⟨w, items, run, rep⟩ := run_represents positive fed
  have contents : (w.buffers 0).contents capacity = queue.map some := by
    rw [rep.holds.contents, ← rep.values, List.map_map]
    rfl
  have emptied : ∀ slot, ((w.mapData 0 fun _ _ => none).buffers 0).data slot = none := by
    simp [World.mapData, modifyAt_same]
  exact ⟨w, run, contents, fun v op pushes => rep.throws pushes, rep.holds.occupied,
    _, items, rep.holds.destroyed, rep.holds.elements, rfl, emptied, rep.accounted⟩

theorem buffer_refines_deque_wrapped :
    ∃ w, exec (bufferStep 2 0) (World.initial, [])
        [.pushBack 1, .emplaceBack 2, .popFront, .pushBack 3, .pushBack 4, .front, .back] =
          some (w, [.done, .done, .done, .done, .threw "static ring buffer capacity exceeded", .value 2, .value 3]) ∧
      (w.buffers 0).contents 2 = [some 2, some 3] := by
  have fed : exec (dequeStep 2) ([], [])
      [.pushBack 1, .emplaceBack 2, .popFront, .pushBack 3, .pushBack 4, .front, .back] =
        some ([2, 3], [.done, .done, .done, .done, .threw "static ring buffer capacity exceeded", .value 2, .value 3]) := rfl
  obtain ⟨w, run, contents, -⟩ := buffer_refines_deque (by decide) _ fed
  exact ⟨w, run, contents⟩

end PrototypeBundle.Ring
