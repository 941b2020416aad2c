import PrototypeBundle.Ring.Buffer

set_option autoImplicit false

-- The elements are a list; slot `j` holds the one whose index is the distance from
-- `first` to `j`, going around.

namespace PrototypeBundle.Ring

open Memory

variable {α : Type} {capacity : Nat}

def position (capacity first slot : Nat) : Nat :=
  if first ≤ slot then slot - first else slot + capacity - first

structure Holds (capacity : Nat) (b : StaticRingBuffer α) (items : List (Element α)) : Prop where
  first : b.first < capacity
  count : b.count = items.length
  fits : items.length ≤ capacity
  data : ∀ slot, b.data slot = if slot < capacity then items[position capacity b.first slot]? else none

theorem position_transpose {b : StaticRingBuffer α} {i : Nat} (first : b.first < capacity) (inside : i < capacity) :
    b.transposeIndex capacity i < capacity ∧ position capacity b.first (b.transposeIndex capacity i) = i := by
  unfold StaticRingBuffer.transposeIndex position
  simp only
  split_ifs <;> omega

theorem transpose_position {b : StaticRingBuffer α} {slot : Nat} (first : b.first < capacity) (inside : slot < capacity) :
    position capacity b.first slot < capacity ∧ b.transposeIndex capacity (position capacity b.first slot) = slot := by
  unfold StaticRingBuffer.transposeIndex position
  simp only
  split_ifs <;> omega

theorem position_ne {b : StaticRingBuffer α} {slot i : Nat} (first : b.first < capacity) (inside : slot < capacity)
    (apart : slot ≠ b.transposeIndex capacity i) : position capacity b.first slot ≠ i := by
  rintro rfl
  exact apart (transpose_position first inside).2.symm

theorem Holds.at {b : StaticRingBuffer α} {items : List (Element α)} (holds : Holds capacity b items) {i : Nat}
    (inside : i < capacity) : b.data (b.transposeIndex capacity i) = items[i]? := by
  obtain ⟨below, index⟩ := position_transpose holds.first inside
  rw [holds.data, if_pos below, index]

def StaticRingBuffer.elements (capacity : Nat) (b : StaticRingBuffer α) : List (Option (Element α)) :=
  (List.range b.count).map fun i => b.data (b.transposeIndex capacity i)

def StaticRingBuffer.contents (capacity : Nat) (b : StaticRingBuffer α) : List (Option α) :=
  (b.elements capacity).map (Option.map Element.value)

theorem Holds.elements {b : StaticRingBuffer α} {items : List (Element α)} (holds : Holds capacity b items) :
    b.elements capacity = items.map some := by
  apply List.ext_getElem
  · simp [StaticRingBuffer.elements, holds.count]
  · intro i left right
    simp only [StaticRingBuffer.elements, List.length_map, List.length_range, holds.count] at left
    have fits := holds.fits
    simp [StaticRingBuffer.elements, holds.at (Nat.lt_of_lt_of_le left fits), left]

theorem Holds.contents {b : StaticRingBuffer α} {items : List (Element α)} (holds : Holds capacity b items) :
    b.contents capacity = items.map fun element => some element.value := by
  simp [StaticRingBuffer.contents, holds.elements]

theorem Holds.unique {b : StaticRingBuffer α} {items items' : List (Element α)} (holds : Holds capacity b items)
    (holds' : Holds capacity b items') : items = items' :=
  List.map_injective_iff.mpr (fun _ _ => Option.some.inj) (holds.elements.symm.trans holds'.elements)

theorem Holds.occupied {b : StaticRingBuffer α} {items : List (Element α)} (holds : Holds capacity b items) (slot : Nat) :
    (b.data slot).isSome = true ↔ ∃ i < b.count, b.transposeIndex capacity i = slot := by
  have fits := holds.fits
  constructor
  · intro occupied
    rw [holds.data] at occupied
    split at occupied
    case isTrue inside =>
      obtain ⟨-, back⟩ := transpose_position holds.first inside
      refine ⟨position capacity b.first slot, ?_, back⟩
      rw [holds.count]
      exact by simpa using occupied
    case isFalse =>
      simp at occupied
  · rintro ⟨i, below, same⟩
    rw [holds.count] at below
    rw [← same, holds.at (Nat.lt_of_lt_of_le below fits)]
    simp [below]

def World.mapData (w : World α) (object : Nat)
    (change : (Nat → Option (Element α)) → Nat → Option (Element α)) : World α :=
  { w with buffers := modifyAt w.buffers object fun b => { b with data := change b.data } }

section MapData

variable (w : World α) (object : Nat) (change change' : (Nat → Option (Element α)) → Nat → Option (Element α))

theorem mapData_data : ((w.mapData object change).buffers object).data = change (w.buffers object).data := by
  simp [World.mapData, modifyAt_same]

theorem mapData_other {other : Nat} (different : other ≠ object) :
    (w.mapData object change).buffers other = w.buffers other := by
  simp [World.mapData, modifyAt_other _ _ _ different]

@[simp] theorem mapData_first (other : Nat) :
    ((w.mapData object change).buffers other).first = (w.buffers other).first := by
  by_cases same : other = object <;> simp [World.mapData, modifyAt, same]

@[simp] theorem mapData_count (other : Nat) :
    ((w.mapData object change).buffers other).count = (w.buffers other).count := by
  by_cases same : other = object <;> simp [World.mapData, modifyAt, same]

theorem mapData_mapData : (w.mapData object change).mapData object change' =
    w.mapData object fun data => change' (change data) := by
  simp only [World.mapData, World.mk.injEq, and_true]
  funext other
  by_cases same : other = object
  · simp [modifyAt, same]
  · simp [modifyAt_other _ _ _ same]

variable {w object change} in
theorem mapData_congr (same : change (w.buffers object).data = change' (w.buffers object).data) :
    w.mapData object change = w.mapData object change' := by
  simp only [World.mapData, World.mk.injEq, and_true]
  funext other
  by_cases here : other = object
  · subst here
    simp [modifyAt_same, same]
  · simp [modifyAt_other _ _ _ here]

theorem mapData_id : w.mapData object (fun data => data) = w := by
  have same : modifyAt w.buffers object (fun b => { b with data := b.data }) = w.buffers := by
    funext other
    simp only [modifyAt, ite_self]
  simp only [World.mapData, same]

theorem setPosition_data (first count : Nat) :
    ((w.setPosition object first count).buffers object).data = (w.buffers object).data := by
  simp [World.setPosition, modifyAt_same]

theorem setPosition_other (first count : Nat) {other : Nat} (different : other ≠ object) :
    (w.setPosition object first count).buffers other = w.buffers other := by
  simp [World.setPosition, modifyAt_other _ _ _ different]

theorem setData_eq (index : Nat) (element : Option (Element α)) : w.setData object index element =
    w.mapData object fun data => Function.update data index element := rfl

end MapData

section Ranges

variable {object origin : Nat}

def clear (i n : Nat) (data : Nat → Option (Element α)) : Nat → Option (Element α) :=
  fun slot => if i ≤ slot ∧ slot < i + n then none else data slot

theorem destroyFrom_eq (es : List (Element α)) (w : World α) (i : Nat) (inside : i + es.length ≤ capacity)
    (live : ∀ k < es.length, (w.buffers object).data (i + k) = es[k]?) :
    w.destroyFrom capacity (.slot object i) es.length =
      some { w.mapData object (clear i es.length) with destroyed := w.destroyed ++ es.map Element.serial } := by
  induction es generalizing w i with
  | nil =>
      have same : w.mapData object (clear i 0) = w := by
        refine (mapData_congr _ ?_).trans (mapData_id w object)
        funext slot
        exact if_neg (by omega)
      simp [World.destroyFrom, same]
  | cons e rest ih =>
      rw [List.length_cons] at inside
      have head : (w.buffers object).data i = some e := by simpa using live 0 (by simp)
      let w' : World α := { w.setData object i none with destroyed := w.destroyed ++ [e.serial] }
      have first : w.destroy capacity (.slot object i) = some w' := by
        simp [World.destroy, head, w', show i < capacity by omega]
      have live' (k : Nat) (below : k < rest.length) : (w'.buffers object).data (i + 1 + k) = rest[k]? := by
        have later := live (k + 1) (by simpa using below)
        rw [show w'.buffers = (w.setData object i none).buffers from rfl, setData_eq, mapData_data]
        rw [Function.update_of_ne (by omega), show i + 1 + k = i + (k + 1) by omega, later]
        simp
      have whole : (w.setData object i none).mapData object (clear (i + 1) rest.length) =
          w.mapData object (clear i (rest.length + 1)) := by
        rw [setData_eq, mapData_mapData]
        congr 1
        funext data slot
        by_cases here : slot = i
        · simp [clear, here]
        · have bounds : i + 1 ≤ slot ∧ slot < i + 1 + rest.length ↔ i ≤ slot ∧ slot < i + (rest.length + 1) := by
            omega
          simp only [clear, bounds, Function.update_of_ne here]
      rw [List.length_cons, World.destroyFrom, first, Option.bind_some, AlignedPtr.add,
        ih w' (i + 1) (by omega) live', ← whole]
      simp [w', World.mapData]

def copies (n : Nat) (es : List (Element α)) : List (Element α) := es.mapIdx fun k e => ⟨n + k, e.value⟩

theorem copies_cons (n : Nat) (e : Element α) (es : List (Element α)) :
    copies n (e :: es) = ⟨n, e.value⟩ :: copies (n + 1) es := by
  simp only [copies, List.mapIdx_cons, Nat.add_zero, List.cons.injEq, true_and]
  congr 1
  funext k e
  rw [Nat.add_right_comm, Nat.add_assoc]

@[simp] theorem copies_length (n : Nat) (es : List (Element α)) : (copies n es).length = es.length := by
  simp [copies]

theorem copies_values (n : Nat) (es : List (Element α)) :
    (copies n es).map Element.value = es.map Element.value := by
  induction es generalizing n with
  | nil => rfl
  | cons e rest ih => simp [copies_cons, ih]

def fill (i : Nat) (es : List (Element α)) (data : Nat → Option (Element α)) : Nat → Option (Element α) :=
  fun slot => if i ≤ slot ∧ slot < i + es.length then es[slot - i]? else data slot

theorem uninitCopyFrom_eq (apart : origin ≠ object) (es : List (Element α)) (w : World α) (i j : Nat)
    (inside : i + es.length ≤ capacity) (inside' : j + es.length ≤ capacity)
    (live : ∀ k < es.length, (w.buffers origin).data (i + k) = es[k]?)
    (free : ∀ k < es.length, (w.buffers object).data (j + k) = none) :
    w.uninitCopyFrom capacity (.slot origin i) (.slot object j) es.length =
      some { w.mapData object (fill j (copies w.constructed es)) with constructed := w.constructed + es.length } := by
  induction es generalizing w i j with
  | nil =>
      have same : w.mapData object (fill j []) = w := by
        refine (mapData_congr _ ?_).trans (mapData_id w object)
        funext slot
        exact if_neg fun range => by simp at range; omega
      simp [World.uninitCopyFrom, copies, same]
  | cons e rest ih =>
      rw [List.length_cons] at inside inside'
      have head : (w.buffers origin).data i = some e := by simpa using live 0 (by simp)
      have vacant : (w.buffers object).data j = none := by simpa using free 0 (by simp)
      let made : Element α := ⟨w.constructed, e.value⟩
      let w' : World α := { w.setData object j (some made) with constructed := w.constructed + 1 }
      have loaded : w.load capacity (.slot origin i) = some e.value := by
        simp [World.load, head, show i < capacity by omega]
      have first : w.construct capacity (.slot object j) e.value = some w' := by
        simp [World.construct, vacant, w', made, show j < capacity by omega]
      have live' (k : Nat) (below : k < rest.length) : (w'.buffers origin).data (i + 1 + k) = rest[k]? := by
        have later := live (k + 1) (by simpa using below)
        rw [show w'.buffers = (w.setData object j (some made)).buffers from rfl, setData_eq, mapData_other _ _ _ apart]
        rw [show i + 1 + k = i + (k + 1) by omega, later]
        simp
      have free' (k : Nat) (below : k < rest.length) : (w'.buffers object).data (j + 1 + k) = none := by
        have later := free (k + 1) (by simpa using below)
        rw [show w'.buffers = (w.setData object j (some made)).buffers from rfl, setData_eq, mapData_data]
        rw [Function.update_of_ne (by omega), show j + 1 + k = j + (k + 1) by omega, later]
      have whole : (w.setData object j (some made)).mapData object (fill (j + 1) (copies (w.constructed + 1) rest)) =
          w.mapData object (fill j (copies w.constructed (e :: rest))) := by
        rw [setData_eq, mapData_mapData, copies_cons]
        congr 1
        funext data slot
        by_cases here : slot = j
        · simp [fill, here, made]
        · by_cases range : j + 1 ≤ slot ∧ slot < j + 1 + rest.length
          · have index : slot - j = slot - (j + 1) + 1 := by omega
            simp only [fill, copies_length, List.length_cons]
            rw [if_pos range, if_pos (by omega), index, List.getElem?_cons_succ]
          · simp only [fill, copies_length, List.length_cons]
            rw [if_neg range, if_neg (by omega), Function.update_of_ne here]
      rw [List.length_cons, World.uninitCopyFrom, loaded, Option.bind_some, first, Option.bind_some, AlignedPtr.add,
        AlignedPtr.add, ih w' (i + 1) (j + 1) (by omega) (by omega) live' free', ← whole]
      simp [w', World.mapData, Nat.add_assoc, Nat.add_comm 1]

theorem uninitCopyFrom_null {b : AlignedPtr} {n : Nat} (w : World α) (positive : 0 < n) :
    w.uninitCopyFrom capacity b .null n = none := by
  obtain ⟨n, rfl⟩ := Nat.exists_eq_add_one.mpr positive
  rw [World.uninitCopyFrom]
  cases w.load capacity b <;> simp [World.construct]

theorem uninitCopyFrom_dead {i n : Nat} {d : AlignedPtr} (w : World α) (positive : 0 < n)
    (dead : (w.buffers origin).data i = none) : w.uninitCopyFrom capacity (.slot origin i) d n = none := by
  obtain ⟨n, rfl⟩ := Nat.exists_eq_add_one.mpr positive
  simp [World.uninitCopyFrom, World.load, dead]

theorem uninitCopyFrom_beyond {b : AlignedPtr} {j n : Nat} (w : World α) (start : j ≤ capacity)
    (beyond : capacity < j + n) : w.uninitCopyFrom capacity b (.slot object j) n = none := by
  induction n generalizing w b j with
  | zero => omega
  | succ n ih =>
      rw [World.uninitCopyFrom, Option.bind_eq_none_iff]
      intro value _
      rw [Option.bind_eq_none_iff]
      intro w' made
      simp only [World.construct] at made
      split at made
      case isTrue inside => exact ih w' (by omega) (by omega)
      case isFalse => simp at made

end Ranges

section Apply

variable {object : Nat} {w : World α} {items : List (Element α)}

theorem at_front (start : (w.buffers object).first < capacity) :
    w.at capacity object 0 = .slot object (w.buffers object).first := by
  simp [World.at, StaticRingBuffer.transposeIndex, start]

theorem at_back {n : Nat} (count : (w.buffers object).count = n) : w.at capacity object (w.buffers object).count =
    .slot object (if capacity ≤ (w.buffers object).first + n then (w.buffers object).first + n - capacity
      else (w.buffers object).first + n) := by
  simp [World.at, StaticRingBuffer.transposeIndex, count]

theorem applyRange_flat {δ : Type} {n : Nat} (start : (w.buffers object).first < capacity)
    (count : (w.buffers object).count = n) (flat : (w.buffers object).first + n < capacity)
    (func : World α → AlignedPtr → AlignedPtr → δ → Option (World α)) (forward : δ → δ × δ) (args : δ) :
    w.applyRange capacity object func forward args =
      func w (.slot object (w.buffers object).first) (.slot object ((w.buffers object).first + n)) (forward args).1 := by
  have notFolded : ¬ (w.buffers object).isFolded capacity := by
    unfold StaticRingBuffer.isFolded
    omega
  rw [World.applyRange, if_neg notFolded, at_front start, at_back count, if_neg (by omega)]

theorem applyRange_folded {δ : Type} {n : Nat} (start : (w.buffers object).first < capacity)
    (count : (w.buffers object).count = n) (folded : capacity ≤ (w.buffers object).first + n)
    (func : World α → AlignedPtr → AlignedPtr → δ → Option (World α)) (forward : δ → δ × δ) (args : δ) :
    w.applyRange capacity object func forward args =
      (func w (.slot object (w.buffers object).first) (.slot object capacity) (forward args).1).bind fun w =>
        func w (.slot object 0) (w.at capacity object (w.buffers object).count) (forward (forward args).2).1 := by
  have isFolded : (w.buffers object).isFolded capacity := by
    unfold StaticRingBuffer.isFolded
    omega
  rw [World.applyRange, if_pos isFolded, at_front start]
  rfl

theorem Holds.front {b : StaticRingBuffer α} (holds : Holds capacity b items) {k : Nat} (below : b.first + k < capacity) :
    b.data (b.first + k) = items[k]? := by
  rw [holds.data, if_pos below]
  congr 1
  unfold position
  rw [if_pos (by omega)]
  omega

theorem Holds.wrapped {b : StaticRingBuffer α} (holds : Holds capacity b items) {k : Nat} (below : k < b.first) :
    b.data k = items[capacity - b.first + k]? := by
  have first := holds.first
  rw [holds.data, if_pos (by omega)]
  congr 1
  unfold position
  rw [if_neg (by omega)]
  omega

theorem Holds.vacant {b : StaticRingBuffer α} (holds : Holds capacity b items) {slot : Nat}
    (notFront : slot < capacity → b.first ≤ slot → b.first + items.length ≤ slot) (notWrapped : b.first + items.length ≤ slot + capacity) :
    b.data slot = none := by
  rw [holds.data]
  split
  case isTrue inside =>
    have far := notFront inside
    refine List.getElem?_eq_none ?_
    unfold position
    split <;> omega
  case isFalse => rfl

theorem destroyRange_eq (w : World α) {i n j : Nat} (es : List (Element α)) (length : n = es.length)
    (range : j = i + n) (inside : i + es.length ≤ capacity)
    (live : ∀ k < es.length, (w.buffers object).data (i + k) = es[k]?) :
    w.destroyRange capacity (.slot object i) (.slot object j) () =
      some { w.mapData object (clear i n) with destroyed := w.destroyed ++ es.map Element.serial } := by
  subst length range
  have steps : AlignedPtr.distance (.slot object i) (.slot object (i + es.length)) = es.length := by
    simp [AlignedPtr.distance]
  rw [World.destroyRange, steps]
  exact destroyFrom_eq es w i inside live

theorem Holds.destroyed (holds : Holds capacity (w.buffers object) items) :
    w.destruct capacity object =
      some { w.mapData object (fun _ _ => none) with destroyed := w.destroyed ++ items.map Element.serial } := by
  have first := holds.first
  have fits := holds.fits
  have forward (change : (Nat → Option (Element α)) → Nat → Option (Element α))
      (empties : ∀ slot, change (w.buffers object).data slot = none) :
      w.mapData object change = w.mapData object (fun _ _ => none) :=
    mapData_congr _ (funext empties)
  by_cases flat : (w.buffers object).first + items.length < capacity
  · have live (k : Nat) (below : k < items.length) :
        (w.buffers object).data ((w.buffers object).first + k) = items[k]? := holds.front (by omega)
    rw [World.destruct, applyRange_flat holds.first holds.count flat, destroyRange_eq w items rfl rfl (by omega) live, forward]
    intro slot
    unfold clear
    split
    case isTrue => rfl
    case isFalse outside => exact holds.vacant (by omega) (by omega)
  · let cut := capacity - (w.buffers object).first
    let w₁ : World α :=
      { w.mapData object (clear (w.buffers object).first cut) with
        destroyed := w.destroyed ++ (items.take cut).map Element.serial }
    have cutLength : (items.take cut).length = cut := List.length_take_of_le (by omega)
    have firstPiece : w.destroyRange capacity (.slot object (w.buffers object).first) (.slot object capacity) () = some w₁ := by
      refine destroyRange_eq w (items.take cut) cutLength.symm (by omega) (by omega) fun k below => ?_
      rw [cutLength] at below
      rw [holds.front (by omega), List.getElem?_take_of_lt below]
    have end₁ : w₁.at capacity object (w₁.buffers object).count =
        .slot object ((w.buffers object).first + items.length - capacity) := by
      have count : (w₁.buffers object).count = items.length := by
        rw [← holds.count]
        exact mapData_count w object _ object
      have start : (w₁.buffers object).first = (w.buffers object).first := mapData_first w object _ object
      rw [at_back count, start, if_pos (Nat.le_of_not_lt flat)]
    have secondLength : (w.buffers object).first + items.length - capacity = (items.drop cut).length := by
      rw [List.length_drop]
      omega
    have secondPiece : w₁.destroyRange capacity (.slot object 0)
        (.slot object ((w.buffers object).first + items.length - capacity)) () = some
          { w₁.mapData object (clear 0 (items.drop cut).length) with
            destroyed := w₁.destroyed ++ (items.drop cut).map Element.serial } := by
      refine destroyRange_eq w₁ (items.drop cut) rfl (by omega) (by omega) fun k below => ?_
      have data : (w₁.buffers object).data = clear (w.buffers object).first cut (w.buffers object).data :=
        mapData_data w object _
      rw [data, clear, if_neg (by omega), Nat.zero_add, holds.wrapped (by omega), List.getElem?_drop]
    rw [World.destruct, applyRange_folded holds.first holds.count (by omega), firstPiece, Option.bind_some, end₁, secondPiece]
    have whole : w₁.mapData object (clear 0 (items.drop cut).length) =
        { w.mapData object (fun _ _ => none) with
          destroyed := w.destroyed ++ (items.take cut).map Element.serial } := by
      have both := (mapData_mapData w object (clear (w.buffers object).first cut)
        (clear 0 (items.drop cut).length)).trans (forward _ ?_)
      · simpa [w₁, World.mapData] using both
      · intro slot
        unfold clear
        split
        case isTrue => rfl
        case isFalse outside =>
          split
          case isTrue => rfl
          case isFalse outside' => exact holds.vacant (by omega) (by omega)
    rw [whole]
    simp only [w₁, List.append_assoc, ← List.map_append, List.take_append_drop]

end Apply

end PrototypeBundle.Ring
