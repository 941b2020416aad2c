import PrototypeBundle.Ring.Deque

set_option autoImplicit false

namespace PrototypeBundle.Ring

open Memory Runs

variable {α : Type} {capacity : Nat}

/-- What `a = b` is for: `a` has the sequence `b` had, its former elements are
destroyed once each, and no other buffer changes. -/
structure Assigned (capacity : Nat) (w : World α) (object origin : Nat) (former : List (Element α))
    (w' : World α) : Prop where
  sequence : (w'.buffers object).contents capacity = (w.buffers origin).contents capacity
  others : ∀ other, other ≠ object → w'.buffers other = w.buffers other
  destroyed : w'.destroyed.Perm (w.destroyed ++ former.map Element.serial)

/-- `b` has no element, or its elements lie in one piece and go to the start of `a`'s storage. -/
def Copyable (capacity : Nat) (w : World α) (object origin : Nat) : Prop :=
  (w.buffers origin).count = 0 ∨
    object ≠ origin ∧ (w.buffers object).first = 0 ∧
      (w.buffers origin).first + (w.buffers origin).count ≤ capacity

instance (w : World α) (object origin : Nat) : Decidable (Copyable capacity w object origin) :=
  inferInstanceAs (Decidable (_ ∨ _))

section Copy

variable {w : World α} {object origin : Nat} {former items : List (Element α)}

def World.cleared (w : World α) (object : Nat) (former : List (Element α)) : World α :=
  { w.mapData object (fun _ _ => none) with destroyed := w.destroyed ++ former.map Element.serial }

@[simp] theorem cleared_first (other : Nat) :
    ((w.cleared object former).buffers other).first = (w.buffers other).first :=
  mapData_first w object (fun _ _ => none) other

@[simp] theorem cleared_count (other : Nat) :
    ((w.cleared object former).buffers other).count = (w.buffers other).count :=
  mapData_count w object (fun _ _ => none) other

theorem cleared_data (slot : Nat) : ((w.cleared object former).buffers object).data slot = none :=
  congrFun (mapData_data w object fun _ _ => none) slot

theorem cleared_other {other : Nat} (different : other ≠ object) :
    (w.cleared object former).buffers other = w.buffers other :=
  mapData_other w object (fun _ _ => none) different

theorem assign_eq (holds : Holds capacity (w.buffers object) former) : w.assign capacity object origin =
    ((w.cleared object former).applyRange capacity origin (World.uninitCopyRange capacity) AlignedPtr.move
      (.slot object (w.buffers object).first)).map fun w => w.setPosition object 0 (w.buffers origin).count := by
  have destroyed : w.applyRange capacity object (World.destroyRange capacity) (fun args => (args, args)) () =
      some (w.cleared object former) := holds.destroyed
  have front : (w.cleared object former).at capacity object 0 = .slot object (w.buffers object).first := by
    rw [at_front (by simpa using holds.first), cleared_first]
  simp only [World.assign, destroyed, Option.bind_eq_bind, Option.bind_some, front]
  cases (w.cleared object former).applyRange capacity origin (World.uninitCopyRange capacity) AlignedPtr.move
      (.slot object (w.buffers object).first) <;> rfl

theorem uninitCopyFrom_position {b d : AlignedPtr} {n : Nat} {w w' : World α}
    (copied : w.uninitCopyFrom capacity b d n = some w') (other : Nat) :
    (w'.buffers other).first = (w.buffers other).first ∧ (w'.buffers other).count = (w.buffers other).count := by
  induction n generalizing b d w with
  | zero =>
      cases copied
      exact ⟨rfl, rfl⟩
  | succ n ih =>
      simp only [World.uninitCopyFrom, Option.bind_eq_some_iff] at copied
      obtain ⟨value, -, middle, made, rest⟩ := copied
      obtain ⟨first, count⟩ := ih rest
      rw [first, count]
      cases d with
      | null => simp [World.construct] at made
      | slot target index =>
          simp only [World.construct] at made
          split at made
          case isTrue =>
            cases made
            let change := fun data : Nat → Option (Element α) => Function.update data index (some ⟨w.constructed, value⟩)
            exact ⟨mapData_first w target change other, mapData_count w target change other⟩
          case isFalse => simp at made

-- The first piece is copied to `d`; of the second one, if it has elements, the first
-- is constructed at null, since forwarding the pointer has emptied it.
theorem copy_eq {n : Nat} (start : (w.buffers origin).first < capacity) (count : (w.buffers origin).count = n)
    (d : AlignedPtr) : w.applyRange capacity origin (World.uninitCopyRange capacity) AlignedPtr.move d =
      if (w.buffers origin).first + n ≤ capacity then
        w.uninitCopyFrom capacity (.slot origin (w.buffers origin).first) d n
      else none := by
  by_cases flat : (w.buffers origin).first + n < capacity
  · rw [applyRange_flat start count flat, if_pos (by omega)]
    simp [World.uninitCopyRange, AlignedPtr.distance, AlignedPtr.move]
  · have last (w' : World α) (copied : w.uninitCopyRange capacity (.slot origin (w.buffers origin).first)
        (.slot origin capacity) d = some w') : w'.at capacity origin (w'.buffers origin).count =
          .slot origin ((w.buffers origin).first + n - capacity) := by
      obtain ⟨first, count'⟩ := uninitCopyFrom_position copied origin
      rw [at_back (count'.trans count), first, if_pos (Nat.le_of_not_lt flat)]
    rw [applyRange_folded start count (by omega)]
    by_cases exact' : (w.buffers origin).first + n = capacity
    · -- the second piece is empty
      have steps : capacity - (w.buffers origin).first = n := by omega
      rw [if_pos (by omega), ← steps]
      change (w.uninitCopyRange capacity (.slot origin (w.buffers origin).first) (.slot origin capacity) d).bind _ =
        w.uninitCopyRange capacity (.slot origin (w.buffers origin).first) (.slot origin capacity) d
      cases copied : w.uninitCopyRange capacity (.slot origin (w.buffers origin).first) (.slot origin capacity) d with
      | none => rfl
      | some w' =>
          rw [Option.bind_some, last w' copied, exact', Nat.sub_self]
          rfl
    · rw [if_neg (by omega), Option.bind_eq_none_iff]
      intro w' copied
      rw [last w' copied]
      exact uninitCopyFrom_null w' (by simp [AlignedPtr.distance]; omega)

theorem assign_cases (holds : Holds capacity (w.buffers object) former)
    (holds' : Holds capacity (w.buffers origin) items) : w.assign capacity object origin =
      if (w.buffers origin).first + items.length ≤ capacity then
        ((w.cleared object former).uninitCopyFrom capacity (.slot origin (w.buffers origin).first)
          (.slot object (w.buffers object).first) items.length).map fun w => w.setPosition object 0 items.length
      else none := by
  have start : ((w.cleared object former).buffers origin).first < capacity := by simpa using holds'.first
  have count : ((w.cleared object former).buffers origin).count = items.length := by simp [holds'.count]
  rw [assign_eq holds, copy_eq start count, cleared_first]
  split
  case isFalse => rfl
  case isTrue =>
    cases copied : (w.cleared object former).uninitCopyFrom capacity (.slot origin (w.buffers origin).first)
        (.slot object (w.buffers object).first) items.length with
    | none => rfl
    | some w' =>
        have kept := (uninitCopyFrom_position copied origin).2
        rw [Option.map_some, Option.map_some, kept, count]

theorem assign_copied (apart : object ≠ origin) (holds : Holds capacity (w.buffers object) former)
    (holds' : Holds capacity (w.buffers origin) items) (start : (w.buffers object).first = 0)
    (flat : (w.buffers origin).first + items.length ≤ capacity) :
    ∃ w', w.assign capacity object origin = some w' ∧
      Holds capacity (w'.buffers object) (copies w.constructed items) ∧
      Assigned capacity w object origin former w' := by
  have fits := holds'.fits
  have live (k : Nat) (below : k < items.length) : ((w.cleared object former).buffers origin).data
      ((w.buffers origin).first + k) = items[k]? := by
    rw [cleared_other apart.symm]
    exact holds'.front (by omega)
  have copied := uninitCopyFrom_eq apart.symm items (w.cleared object former)
    (w.buffers origin).first 0 flat ((Nat.zero_add _).trans_le fits) live (fun k _ => cleared_data (0 + k))
  let filled := (w.cleared object former).mapData object (fill 0 (copies w.constructed items))
  have run : w.assign capacity object origin = some
      ({ filled with constructed := w.constructed + items.length }.setPosition object 0 items.length) := by
    rw [assign_cases holds holds', if_pos flat, start, copied, Option.map_some]
    rfl
  have result : Holds capacity
      (({ filled with constructed := w.constructed + items.length }.setPosition object 0 items.length).buffers object)
        (copies w.constructed items) := by
    have first := holds.first
    refine ⟨?_, ?_, ?_, ?_⟩
    · simp [World.setPosition, modifyAt_same]
      omega
    · simp [World.setPosition, modifyAt_same]
    · simpa using fits
    · intro slot
      simp only [World.setPosition, modifyAt_same]
      rw [show filled.buffers = ((w.cleared object former).mapData object (fill 0 (copies w.constructed items))).buffers
        from rfl, mapData_data, fill, cleared_data]
      simp only [copies_length, Nat.zero_le, true_and, Nat.zero_add, position, if_true, Nat.sub_zero]
      by_cases inside : slot < items.length
      · rw [if_pos inside, if_pos (by omega)]
      · rw [if_neg inside]
        split
        · rw [List.getElem?_eq_none (by simpa using inside)]
        · rfl
  refine ⟨_, run, result, ?_, ?_, .refl _⟩
  · rw [result.contents, holds'.contents]
    have values := congrArg (List.map some) (copies_values w.constructed items)
    rwa [List.map_map, List.map_map] at values
  · intro other different
    rw [setPosition_other _ _ _ _ different]
    exact (mapData_other _ object _ different).trans (cleared_other different)

theorem assign_empty (holds : Holds capacity (w.buffers object) former) (holds' : Holds capacity (w.buffers origin) []) :
    ∃ w', w.assign capacity object origin = some w' ∧ Assigned capacity w object origin former w' := by
  have first := holds'.first
  refine ⟨(w.cleared object former).setPosition object 0 0, ?_, ?_, ?_, .refl _⟩
  · rw [assign_cases holds holds', if_pos (by simp; omega)]
    rfl
  · rw [holds'.contents]
    simp [StaticRingBuffer.contents, StaticRingBuffer.elements, World.setPosition, modifyAt_same]
  · intro other different
    rw [setPosition_other _ _ _ _ different, cleared_other different]

theorem assign_not_copyable (holds : Holds capacity (w.buffers object) former)
    (holds' : Holds capacity (w.buffers origin) items) (not : ¬ Copyable capacity w object origin) {w' : World α}
    (run : w.assign capacity object origin = some w') : ¬ Assigned capacity w object origin former w' := by
  obtain ⟨nonempty, wrong⟩ := not_or.mp not
  rw [holds'.count] at nonempty wrong
  have positive : 0 < items.length := Nat.pos_of_ne_zero nonempty
  rw [assign_cases holds holds'] at run
  split at run
  case isFalse => simp at run
  case isTrue flat =>
    by_cases same : object = origin
    · subst same
      rw [uninitCopyFrom_dead _ positive (cleared_data _)] at run
      simp at run
    · have late : 0 < (w.buffers object).first := by
        by_contra start
        exact wrong ⟨same, by omega, flat⟩
      have start := holds.first
      by_cases beyond : capacity < (w.buffers object).first + items.length
      · rw [uninitCopyFrom_beyond _ (by omega) beyond] at run
        simp at run
      · have live (k : Nat) (below : k < items.length) : ((w.cleared object former).buffers origin).data
            ((w.buffers origin).first + k) = items[k]? := by
          rw [cleared_other (Ne.symm same)]
          exact holds'.front (by omega)
        rw [uninitCopyFrom_eq (Ne.symm same) items _ _ _ (by omega) (by omega) live fun k _ => cleared_data _,
          Option.map_some, Option.some.injEq] at run
        intro assigned
        have sequence := congrArg List.head? assigned.sequence
        -- nothing has been constructed in slot 0
        have hole : (w'.buffers object).data 0 = none := by
          rw [← run, setPosition_data]
          refine (congrFun (mapData_data _ object _) 0).trans ?_
          rw [fill, if_neg (by omega), cleared_data]
        obtain ⟨item, rest, list⟩ := List.exists_cons_of_length_pos positive
        rw [holds'.contents, list] at sequence
        have front : ((w'.buffers object).contents capacity).head? = some none := by
          have count : (w'.buffers object).count = rest.length + 1 := by
            rw [← run]
            simp [World.setPosition, modifyAt_same, list]
          have first : (w'.buffers object).first = 0 := by
            rw [← run]
            simp [World.setPosition, modifyAt_same]
          have slot : (w'.buffers object).transposeIndex capacity 0 = 0 := by
            simp [StaticRingBuffer.transposeIndex, first]
          simp [StaticRingBuffer.contents, StaticRingBuffer.elements, count, List.range_succ_eq_map, slot, hole]
        rw [front] at sequence
        simp at sequence

theorem assign_iff (holds : Holds capacity (w.buffers object) former) (holds' : Holds capacity (w.buffers origin) items) :
    (∃ w', w.assign capacity object origin = some w' ∧ Assigned capacity w object origin former w') ↔
      Copyable capacity w object origin := by
  constructor
  · intro assigned
    obtain ⟨w', run, result⟩ := assigned
    by_contra not
    exact assign_not_copyable holds holds' not run result
  · intro copyable
    rcases copyable with empty | ⟨apart, start, flat⟩
    · have none' : items = [] := List.length_eq_zero_iff.mp (holds'.count.symm.trans empty)
      subst none'
      exact assign_empty holds holds'
    · rw [holds'.count] at flat
      obtain ⟨w', run, -, assigned⟩ := assign_copied apart holds holds' start flat
      exact ⟨w', run, assigned⟩

theorem World.fresh_other (w : World α) {target other : Nat} (different : other ≠ target) :
    (w.fresh target).buffers other = w.buffers other := Function.update_of_ne different _ _

theorem copyConstruct_iff (holds' : Holds capacity (w.buffers origin) items) {target : Nat} (apart : target ≠ origin) :
    (∃ w', w.copyConstruct capacity target origin = some w' ∧ Assigned capacity w target origin [] w') ↔
      (w.buffers origin).first + (w.buffers origin).count ≤ capacity := by
  have start := holds'.first
  have raw : Holds capacity ((w.fresh target).buffers target) [] := by
    simp only [World.fresh, Function.update_self]
    exact ⟨by simp only; omega, rfl, Nat.zero_le _, fun slot => by simp⟩
  have source : (w.fresh target).buffers origin = w.buffers origin := w.fresh_other apart.symm
  have assigned := assign_iff raw (source ▸ holds')
  have same (w' : World α) :
      Assigned capacity (w.fresh target) target origin [] w' ↔ Assigned capacity w target origin [] w' := by
    constructor
    · intro result
      refine ⟨result.sequence.trans (by rw [source]), fun other different => ?_, result.destroyed⟩
      exact (result.others other different).trans (w.fresh_other different)
    · intro result
      refine ⟨result.sequence.trans (by rw [source]), fun other different => ?_, result.destroyed⟩
      exact (result.others other different).trans (w.fresh_other different).symm
  simp only [same] at assigned
  have first : ((w.fresh target).buffers target).first = 0 := by simp [World.fresh]
  rw [World.copyConstruct, assigned, Copyable, source, first]
  constructor
  · intro copyable
    rcases copyable with empty | ⟨-, -, flat⟩
    · omega
    · exact flat
  · exact fun flat => Or.inr ⟨apart, rfl, flat⟩

end Copy

theorem copies_exact {w : World α} {object origin : Nat} {former items : List (Element α)}
    (holds : Holds capacity (w.buffers object) former) (holds' : Holds capacity (w.buffers origin) items) :
    ((∃ w', w.assign capacity object origin = some w' ∧ Assigned capacity w object origin former w') ↔
        Copyable capacity w object origin) ∧
      ∀ target, target ≠ origin →
        ((∃ w', w.copyConstruct capacity target origin = some w' ∧ Assigned capacity w target origin [] w') ↔
          (w.buffers origin).first + (w.buffers origin).count ≤ capacity) :=
  ⟨assign_iff holds holds', fun _ apart => copyConstruct_iff holds' apart⟩

def occupied : World Nat :=
  { (World.initial.setData 0 0 (some ⟨0, 8⟩)).setPosition 0 0 1 with constructed := 1 }

-- Buffer 1 holds its elements in slots 1 and 2; assigning it to buffer 0 destroys the element there.
theorem copies_exact_offset :
    ∃ w results, exec (bufferStep 3 1) (occupied, []) [.pushBack 1, .pushBack 2, .popFront, .pushBack 3] =
        some (w, results) ∧
      (w.buffers 1).contents 3 = [some 2, some 3] ∧ (w.buffers 1).first = 1 ∧ w.destroyed = [1] ∧
      (∃ w', w.assign 3 0 1 = some w' ∧ Assigned 3 w 0 1 [⟨0, 8⟩] w') ∧
      ∃ w', w.copyConstruct 3 2 1 = some w' ∧ Assigned 3 w 2 1 [] w' := by
  obtain ⟨w, results, run, contents, first, destroyed, copyable, flat, target, source⟩ :
      ∃ w results, exec (bufferStep 3 1) (occupied, []) [.pushBack 1, .pushBack 2, .popFront, .pushBack 3] =
          some (w, results) ∧
        (w.buffers 1).contents 3 = [some 2, some 3] ∧ (w.buffers 1).first = 1 ∧ w.destroyed = [1] ∧
        Copyable 3 w 0 1 ∧ (w.buffers 1).first + (w.buffers 1).count ≤ 3 ∧
        Holds 3 (w.buffers 0) [⟨0, 8⟩] ∧ Holds 3 (w.buffers 1) [⟨2, 2⟩, ⟨3, 3⟩] :=
    ⟨_, _, rfl, rfl, rfl, rfl, by decide, by decide,
      ⟨by decide, rfl, by decide, fun slot => match slot with | 0 | 1 | 2 | _ + 3 => rfl⟩,
      ⟨by decide, rfl, by decide, fun slot => match slot with | 0 | 1 | 2 | _ + 3 => rfl⟩⟩
  obtain ⟨assigned, copied⟩ := copies_exact target source
  exact ⟨w, results, run, contents, first, destroyed, assigned.mpr copyable, (copied 2 (by decide)).mpr flat⟩

/-- Buffer 1 holds its elements in slots 1 and 0. -/
theorem wrapped_not_copied :
    ∃ w results, exec (bufferStep 2 1) (World.initial, []) [.pushBack 1, .popFront, .pushBack 2, .pushBack 3] =
        some (w, results) ∧
      w.assign 2 0 1 = none ∧ w.copyConstruct 2 2 1 = none :=
  ⟨_, _, rfl, rfl, rfl⟩

end PrototypeBundle.Ring
