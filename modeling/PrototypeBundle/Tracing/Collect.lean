import PrototypeBundle.Tracing.Invariant

set_option autoImplicit false

namespace PrototypeBundle.Tracing

open Memory Intrusive

variable {w : World} {L : List Nat} {R : Nat → List Nat}

theorem modifyAt_self {γ : Type} (store : Nat → γ) (place : Nat) (change : γ → γ)
    (same : change (store place) = store place) : modifyAt store place change = store := by
  funext other
  by_cases equal : other = place
  · subst equal
    rw [modifyAt_same, same]
  · exact modifyAt_other _ _ _ equal

theorem listCollectRefs_empty {t : Tracker} {o : Nat} (live : (t.objs o).live = true) (empty : (t.objs o).refHead = none)
    (checkState : Bool) (fuel : Nat) : t.listCollectRefs checkState o fuel = some t := by
  rw [Tracker.listCollectRefs, Tracker.setObj_live live, Option.bind_eq_bind, Option.bind_some, empty, modifyAt_self]
  · cases fuel <;> rfl
  · rw [← empty]

structure Released (w w' : World) (o payload : Nat) : Prop where
  others : ∀ x, x ≠ o → w'.tracker.objs x = w.tracker.objs x
  payloads : ∀ x, (w'.tracker.objs x).payload = (w.tracker.objs x).payload
  owned : (w.tracker.objs o).payload = some payload
  dead : (w'.tracker.objs o).live = false
  objects : w'.tracker.objects = w.tracker.objects
  destroyed : w'.destroyed = payload :: w.destroyed
  refs : ∀ r, (w'.tracker.refs r).target = (w.tracker.refs r).target ∧
    ((w'.tracker.refs r).state = .active → (w.tracker.refs r).state = .active)

theorem Core.refHead_none (core : Core w L R) {o : Nat} (inside : o ∈ L) : (w.tracker.objs o).refHead = none := by
  have chain := core.store.chain o (List.mem_cons_of_mem _ inside)
  rwa [core.alone o inside] at chain

theorem release_spec (core : Core w L R) (housed : w.Housed) {o : Nat} {L' : List Nat} (inside : o ∈ L)
    (unaimed : ∀ r ∈ R objectStackRoot, (w.tracker.refs r).state = .active → (w.tracker.refs r).target ≠ some o)
    (rest : ∀ x, x ∈ L' ↔ x ∈ L ∧ x ≠ o) (fuel : Nat) :
    ∃ w' payload, w.release fuel o = some w' ∧ Core w' L' R ∧ w'.Housed ∧ Released w w' o payload := by
  obtain ⟨payload, members, shape, known⟩ := core.payload o inside
  have live : (w.tracker.objs o).live = true :=
    (core.store.objLive o).mpr (List.mem_cons_of_mem _ inside)
  have noRefs := core.refHead_none inside
  -- no reference is registered with `o`, its list is empty
  have detached := listCollectRefs_empty live noRefs false fuel
  obtain ⟨refs', destroyed, core', changed⟩ := core.destroy members (core.members payload members known).1
    (housed payload members known)
  have unaimed' (r : Nat) (member : r ∈ R objectStackRoot) (state : (refs' r).state = .active) :
      (refs' r).target ≠ some o := by
    rw [congrArg Reference.target (changed r).1]
    exact unaimed r member ((changed r).2 state)
  have final := core'.dropObject inside shape known unaimed' rest
  refine ⟨_, payload, ?_, final, ?_, ?_⟩
  · rw [World.release, detached, Option.bind_eq_bind, Option.bind_some, shape]
    simp only [World.dctor, known, destroyed, Option.bind_eq_bind, Option.bind_some, Option.pure_def]
    rw [Tracker.setObj_live (by exact live)]
    rfl
  · intro a others found m member
    have apart : a ≠ payload := by
      rintro rfl
      simp at found
    have found' : w.payloads a = some others := (Function.update_of_ne apart _ _).symm.trans found
    have outside : m ∉ members := fun shared => apart (core.memberOnce a payload others members m found' known member shared)
    simp only [if_neg outside]
    exact housed a others found' m member
  · refine ⟨?_, ?_, shape, ?_, rfl, rfl, ?_⟩
    · intro x different
      simp [modifyAt, different]
    · intro x
      by_cases same : x = o <;> simp [modifyAt, same]
    · simp [modifyAt]
    · intro r
      change (refs' r).target = (w.tracker.refs r).target ∧
        ((refs' r).state = .active → (w.tracker.refs r).state = .active)
      obtain ⟨shape', active⟩ := changed r
      exact ⟨by rw [shape'], active⟩

structure Swept (w w' : World) (done xs : List Nat) : Prop where
  released : ∀ o ∈ xs, o ∉ done → (w'.tracker.objs o).live = false ∧
    ∀ payload, (w.tracker.objs o).payload = some payload → payload ∈ w'.destroyed
  frame : ∀ x, x ∉ xs → w'.tracker.objs x = w.tracker.objs x
  payloads : ∀ x, (w'.tracker.objs x).payload = (w.tracker.objs x).payload
  destroyed : ∀ payload ∈ w.destroyed, payload ∈ w'.destroyed

theorem collectObjects_spec (done : List Nat) (length : Nat) (xs : List Nat) :
    ∀ (w : World) (ys : List Nat) (cursor : Option Nat) (fuel : Nat), xs.length ≤ fuel →
      Core w (xs ++ ys) R → w.Housed → (xs ++ ys).Nodup →
      Chain (fun o => (w.tracker.objs o).next) cursor xs →
      Chain (fun o => (w.tracker.objs o).next) w.tracker.objects ys →
      (∀ o ∈ xs, (w.tracker.objs o).state = if o ∈ done then .active else .unreachable) →
      (∀ r ∈ R objectStackRoot, (w.tracker.refs r).state = .active →
        ∀ o, (w.tracker.refs r).target = some o → o ∈ done) →
      ∃ w', w.collectObjects length fuel cursor = some w' ∧
        Inv w' ((xs.filter (· ∈ done)).reverse ++ ys) R ∧ Swept w w' done xs := by
  induction xs with
  | nil =>
      intro w ys cursor fuel _ core housed _ chain back _ _
      have last : cursor = none := chain
      subst last
      refine ⟨w, by cases fuel <;> rfl, { core with housed, list := back }, ?_⟩
      exact ⟨by simp, fun _ _ => rfl, fun _ => rfl, fun _ member => member⟩
  | cons o xs ih =>
      intro w ys cursor fuel enough core housed nodup chain back states aimed
      obtain ⟨head, rest⟩ : cursor = some o ∧ Chain (fun o => (w.tracker.objs o).next) (w.tracker.objs o).next xs := chain
      subst head
      obtain ⟨fuel, rfl⟩ : ∃ n, fuel = n + 1 := Nat.exists_eq_add_one.mpr (by simp at enough; omega)
      obtain ⟨fresh, nodup'⟩ := List.nodup_cons.mp nodup
      have outside : o ∉ xs ∧ o ∉ ys := by simpa using fresh
      have live : (w.tracker.objs o).live = true := (core.store.objLive o).mpr (by simp)
      have apart (x : Nat) (member : x ∈ xs ∨ x ∈ ys) : x ≠ o := by
        rintro rfl
        rcases member with inXs | inYs
        · exact outside.1 inXs
        · exact outside.2 inYs
      by_cases keep : o ∈ done
      · -- the object is pushed back on the list
        have state : (w.tracker.objs o).state = .active := by rw [states o (by simp), if_pos keep]
        let w₁ : World := { w with
          tracker := { w.tracker with
            objs := modifyAt w.tracker.objs o fun obj => { obj with next := w.tracker.objects }
            objects := some o } }
        have others (x : Nat) (different : x ≠ o) : w₁.tracker.objs x = w.tracker.objs x := by
          simp [w₁, modifyAt, different]
        have core₁ : Core w₁ (xs ++ o :: ys) R := by
          have same (x : Nat) : x ∈ xs ++ o :: ys ↔ x ∈ o :: xs ++ ys := by
            simp only [List.cons_append, List.mem_append, List.mem_cons]
            tauto
          exact (core.congr same).relink o w.tracker.objects (some o)
        have next : (w₁.tracker.objs o).next = w.tracker.objects := by simp [w₁, modifyAt]
        have back₁ : Chain (fun x => (w₁.tracker.objs x).next) w₁.tracker.objects (o :: ys) := by
          refine ⟨rfl, ?_⟩
          simp only [next]
          exact Chain.congr (fun x member => by rw [others x (apart x (Or.inr member))]) back
        obtain ⟨w', run, inv, swept⟩ := ih w₁ (o :: ys) (w.tracker.objs o).next fuel
          (by simpa using enough) core₁ housed ((List.perm_middle.nodup_iff).mpr nodup)
          (Chain.congr (fun x member => by rw [others x (apart x (Or.inl member))]) rest) back₁
          (fun x member => by rw [others x (apart x (Or.inl member))]; exact states x (by simp [member])) aimed
        refine ⟨w', ?_, by simpa [keep] using inv, ?_, ?_, ?_, swept.destroyed⟩
        · have notReleased : (w.tracker.objs o).state ≠ .unreachable := by simp [state]
          rw [World.collectObjects, if_pos live]
          simp only [if_neg notReleased, if_pos state, Tracker.setObj_live live]
          exact run
        · intro x member gone
          have inXs : x ∈ xs := by
            rcases List.mem_cons.mp member with rfl | inXs
            · exact absurd keep gone
            · exact inXs
          rw [← others x (apart x (Or.inl inXs))]
          exact swept.released x inXs gone
        · intro x away
          rw [List.mem_cons, not_or] at away
          rw [swept.frame x away.2, others x away.1]
        · intro x
          rw [swept.payloads x]
          by_cases same : x = o <;> simp [w₁, modifyAt, same]
      · -- the object is released
        have state : (w.tracker.objs o).state = .unreachable := by rw [states o (by simp), if_neg keep]
        have unaimed (r : Nat) (member : r ∈ R objectStackRoot) (active : (w.tracker.refs r).state = .active) :
            (w.tracker.refs r).target ≠ some o := fun target => keep (aimed r member active o target)
        obtain ⟨w₁, payload, freed, core₁, housed₁, effect⟩ :=
          release_spec core housed (by simp) unaimed (mem_rest_iff fresh) length
        obtain ⟨w', run, inv, swept⟩ := ih w₁ ys (w.tracker.objs o).next fuel
          (by simpa using enough) core₁ housed₁ nodup'
          (Chain.congr (fun x member => by rw [effect.others x (apart x (Or.inl member))]) rest)
          (by
            rw [effect.objects]
            exact Chain.congr (fun x member => by rw [effect.others x (apart x (Or.inr member))]) back)
          (fun x member => by
            rw [effect.others x (apart x (Or.inl member))]
            exact states x (by simp [member]))
          (fun r member active x target => by
            rw [(effect.refs r).1] at target
            exact aimed r member ((effect.refs r).2 active) x target)
        refine ⟨w', ?_, by simpa [keep] using inv, ?_, ?_, ?_, ?_⟩
        · rw [World.collectObjects, if_pos live]
          simp only [if_pos state, freed]
          exact run
        · intro x member gone
          rcases List.mem_cons.mp member with rfl | inXs
          · rw [swept.frame x outside.1]
            refine ⟨effect.dead, ?_⟩
            intro payload' shape
            obtain rfl := Option.some.inj (effect.owned.symm.trans shape)
            exact swept.destroyed payload (by simp [effect.destroyed])
          · rw [← effect.others x (apart x (Or.inl inXs))]
            exact swept.released x inXs gone
        · intro x away
          rw [List.mem_cons, not_or] at away
          rw [swept.frame x away.2, effect.others x away.1]
        · intro x
          rw [swept.payloads x, effect.payloads x]
        · intro payload' member
          exact swept.destroyed payload' (by simp [effect.destroyed, member])

theorem Core.survey {t' : Tracker} {done : List Nat} (core : Core w L R) (surveyed : Surveyed w.tracker t' L R done)
    (objects : Option Nat) :
    Core { w with tracker := { t' with objects } } L (remaining w.tracker R done) := by
  have rootDone : objectStackRoot ∈ done := (surveyed.reach _ (by simp)).mpr Relation.ReflTransGen.refl
  have store := surveyed.heap.toStore
  constructor
  case store => exact { store with }
  case alone =>
    intro o inside
    simp [remaining, core.alone o inside]
  case head =>
    rw [surveyed.fields.2.1]
    exact core.head
  case rootMark => exact surveyed.rootMark
  case objBelow =>
    simp only [surveyed.fields.2.2]
    exact core.objBelow
  case refBelow =>
    simp only [surveyed.fields.2.2]
    exact fun r member => core.refBelow r (mem_remaining member)
  case pointer =>
    intro p g found
    obtain ⟨member, active⟩ := core.pointer p g found
    -- the record of an existing pointer is active, so that the root keeps it
    have isKept : kept true w.tracker.refs g.ref = true := by simp [kept, active]
    refine ⟨?_, (surveyed.refs g.ref).2.trans active⟩
    simp [remaining, rootDone, member, isKept]
  case once => exact core.once
  case owned =>
    intro r member active
    rw [(surveyed.refs r).2] at active
    exact core.owned r (mem_remaining member) active
  case target =>
    intro p g found
    simp only [(surveyed.refs g.ref).1, surveyed.payload]
    exact core.target p g found
  case payload =>
    simp only [surveyed.payload]
    exact core.payload
  case payloadOnce =>
    simp only [surveyed.payload]
    exact core.payloadOnce
  case managed =>
    simp only [surveyed.payload]
    exact core.managed
  case members =>
    simp only [surveyed.fields.2.2]
    exact core.members
  case memberOnce => exact core.memberOnce
  case gone =>
    simp only [surveyed.fields.2.2]
    exact core.gone

def World.Aims (w : World) (p o : Nat) : Prop :=
  ∃ g, w.pointers p = some g ∧ (w.tracker.refs g.ref).target = some o

theorem Core.reach_iff (core : Core w L R) {o : Nat} (inside : o ∈ L) :
    Relation.ReflTransGen (Refers w.tracker R) objectStackRoot o ↔ ∃ p, w.Aims p o := by
  have direct (x : Nat) (path : Relation.ReflTransGen (Refers w.tracker R) objectStackRoot x) :
      x = objectStackRoot ∨ x ∈ L ∧ Refers w.tracker R objectStackRoot x := by
    induction path with
    | refl => exact Or.inl rfl
    | tail _ edge known =>
        rcases known with rfl | ⟨registered, _⟩
        · right
          refine ⟨?_, edge⟩
          obtain ⟨r, member, active, target⟩ := edge
          exact core.store.targets objectStackRoot (by simp) r member active _ target
        · obtain ⟨r, member, _⟩ := edge
          rw [core.alone _ registered] at member
          simp at member
  constructor
  · intro path
    rcases direct o path with rfl | ⟨_, r, member, active, target⟩
    · exact absurd inside core.store.rootNew
    · obtain ⟨p, g, found, rfl⟩ := core.owned r member active
      exact ⟨p, g, found, target⟩
  · rintro ⟨p, g, found, target⟩
    obtain ⟨member, active⟩ := core.pointer p g found
    exact Relation.ReflTransGen.single ⟨g.ref, member, active, target⟩

theorem length_le_of_below {xs : List Nat} {bound : Nat} (nodup : xs.Nodup) (below : ∀ x ∈ xs, x < bound) :
    xs.length ≤ bound := by
  have inside : xs ⊆ List.range bound := fun x member => List.mem_range.mpr (below x member)
  simpa using (List.subperm_of_subset nodup inside).length_le

theorem Inv.objects_le (inv : Inv w L R) : L.length + 1 ≤ w.tracker.fresh :=
  length_le_of_below (List.nodup_cons.mpr ⟨inv.store.rootNew, inv.list.nodup⟩) inv.objBelow

theorem Core.refs_le (core : Core w L R) : ∀ o ∈ objectStackRoot :: L, (R o).length ≤ 2 * w.tracker.fresh := by
  intro o inside
  rcases List.mem_cons.mp inside with rfl | registered
  · have bound := length_le_of_below (core.store.chain _ inside).nodup core.refBelow
    omega
  · simp [core.alone o registered]

theorem collect_spec (inv : Inv w L R) :
    ∃ w' done, w.collect = some w' ∧ Inv w' (L.filter (· ∈ done)).reverse (remaining w.tracker R done) ∧
      objectStackRoot ∈ done ∧ (∀ o ∈ L, o ∈ done ↔ ∃ p, w.Aims p o) ∧
      (∀ o ∈ L, o ∉ done → ∀ payload, (w.tracker.objs o).payload = some payload → payload ∈ w'.destroyed) ∧
      ∀ o, (w'.tracker.objs o).payload = (w.tracker.objs o).payload := by
  have core := inv.toCore
  have objects := inv.objects_le
  obtain ⟨t', done, traced, surveyed⟩ := trace_spec ⟨core.store, inv.list⟩ core.rootMark (2 * w.tracker.fresh)
    core.refs_le (by omega)
  have rootDone : objectStackRoot ∈ done := (surveyed.reach _ (by simp)).mpr Relation.ReflTransGen.refl
  have detached : Chain (fun o => (t'.objs o).next) t'.objects L := surveyed.heap.list
  have aimed (r : Nat) (member : r ∈ remaining w.tracker R done objectStackRoot) (active : (t'.refs r).state = .active)
      (o : Nat) (target : (t'.refs r).target = some o) : o ∈ done := by
    rw [(surveyed.refs r).1] at target
    rw [(surveyed.refs r).2] at active
    have edge : Refers w.tracker R objectStackRoot o := ⟨r, mem_remaining member, active, target⟩
    have registered := core.store.targets objectStackRoot (by simp) r (mem_remaining member) active o target
    exact (surveyed.reach o (List.mem_cons_of_mem _ registered)).mpr (Relation.ReflTransGen.single edge)
  obtain ⟨w', swept, inv', effect⟩ := collectObjects_spec done w.tracker.fresh L
    { w with tracker := { t' with objects := none } } [] t'.objects w.tracker.fresh (by omega)
    (by simpa using core.survey surveyed none) inv.housed (by simpa using inv.list.nodup) detached rfl
    (fun o member => surveyed.state o (List.mem_cons_of_mem _ member)) aimed
  refine ⟨w', done, ?_, by simpa using inv', rootDone, ?_, ?_, ?_⟩
  · rw [World.collect, traced]
    exact swept
  · intro o inside
    rw [surveyed.reach o (List.mem_cons_of_mem _ inside), core.reach_iff inside]
  · intro o inside gone payload shape
    exact (effect.released o inside gone).2 payload ((surveyed.payload o).trans shape)
  · exact fun o => (effect.payloads o).trans (surveyed.payload o)

end PrototypeBundle.Tracing
