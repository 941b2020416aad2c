import PrototypeBundle.Tracing.Agreement
import PrototypeBundle.Tracing.Gc2Runs

set_option autoImplicit false

-- Heaps are twins when they differ in lists of references, and in what is left of freed records, alone.

namespace PrototypeBundle.Tracing

open Memory Intrusive

structure Tracker.Twin (t u : Tracker) : Prop where
  refs : ∀ r, (u.refs r).target = (t.refs r).target ∧ (u.refs r).state = (t.refs r).state
  live : ∀ o, (u.objs o).live = (t.objs o).live
  objs : ∀ o, (t.objs o).live = true → (u.objs o).next = (t.objs o).next ∧
    (u.objs o).payload = (t.objs o).payload ∧ (u.objs o).state = (t.objs o).state
  objects : u.objects = t.objects
  head : u.objectStackHead = t.objectStackHead
  fresh : u.fresh = t.fresh

structure World.Twin (w v : World) : Prop where
  tracker : w.tracker.Twin v.tracker
  pointers : v.pointers = w.pointers
  payloads : v.payloads = w.payloads
  destroyed : v.destroyed = w.destroyed

section Tracker

variable {t u t' u' : Tracker}

theorem Tracker.Twin.refl (t : Tracker) : t.Twin t :=
  ⟨fun _ => ⟨rfl, rfl⟩, fun _ => rfl, fun _ _ => ⟨rfl, rfl, rfl⟩, rfl, rfl, rfl⟩

theorem Tracker.Twin.symm (twin : t.Twin u) : u.Twin t where
  refs := fun r => ⟨(twin.refs r).1.symm, (twin.refs r).2.symm⟩
  live := fun o => (twin.live o).symm
  objs := by
    intro o live
    obtain ⟨next, payload, state⟩ := twin.objs o ((twin.live o).symm.trans live)
    exact ⟨next.symm, payload.symm, state.symm⟩
  objects := twin.objects.symm
  head := twin.head.symm
  fresh := twin.fresh.symm

theorem Tracker.Twin.trans {x : Tracker} (first : t.Twin u) (second : u.Twin x) : t.Twin x where
  refs := fun r => ⟨(second.refs r).1.trans (first.refs r).1, (second.refs r).2.trans (first.refs r).2⟩
  live := fun o => (second.live o).trans (first.live o)
  objs := by
    intro o live
    obtain ⟨next, payload, state⟩ := first.objs o live
    obtain ⟨next', payload', state'⟩ := second.objs o ((first.live o).trans live)
    exact ⟨next'.trans next, payload'.trans payload, state'.trans state⟩
  objects := second.objects.trans first.objects
  head := second.head.trans first.head
  fresh := second.fresh.trans first.fresh

theorem Tracker.setRef_eq {r : Nat} {change : Reference → Reference} (set : t.setRef r change = some t') :
    t' = { t with refs := modifyAt t.refs r change } := by
  rw [setRef, Option.ite_none_right_eq_some, Option.some.injEq] at set
  exact set.2.symm

theorem Tracker.setObj_eq {o : Nat} {change : Object → Object} (set : t.setObj o change = some t') :
    (t.objs o).live = true ∧ t' = { t with objs := modifyAt t.objs o change } := by
  rw [setObj, Option.ite_none_right_eq_some, Option.some.injEq] at set
  exact ⟨set.1, set.2.symm⟩

def Reference.seen (record : Reference) : Option Nat × TrackingState := (record.target, record.state)

def Object.seen (obj : Object) : Option Nat × Option Nat × TrackingState × Bool := (obj.next, obj.payload, obj.state, obj.live)

theorem Tracker.Twin.setRef (twin : t.Twin u) {r : Nat} {change : Reference → Reference}
    (uniform : ∀ a b : Reference, b.seen = a.seen → (change b).seen = (change a).seen)
    (set : t.setRef r change = some t') (set' : u.setRef r change = some u') : t'.Twin u' := by
  obtain rfl := setRef_eq set
  obtain rfl := setRef_eq set'
  refine ⟨fun x => ?_, twin.live, twin.objs, twin.objects, twin.head, twin.fresh⟩
  by_cases same : x = r
  · subst same
    simpa [modifyAt, Reference.seen] using uniform (t.refs x) (u.refs x) (Prod.ext (twin.refs x).1 (twin.refs x).2)
  · simpa [modifyAt, same] using twin.refs x

theorem Tracker.Twin.seen (twin : t.Twin u) {o : Nat} (live : (t.objs o).live = true) : (u.objs o).seen = (t.objs o).seen := by
  obtain ⟨next, payload, state⟩ := twin.objs o live
  rw [Object.seen, Object.seen, next, payload, state, twin.live]

theorem Tracker.Twin.setObj (twin : t.Twin u) {o : Nat} {change change' : Object → Object}
    (uniform : ∀ a b : Object, b.seen = a.seen → (change' b).seen = (change a).seen)
    (set : t.setObj o change = some t') (set' : u.setObj o change' = some u') : t'.Twin u' := by
  obtain ⟨live, rfl⟩ := setObj_eq set
  obtain ⟨-, rfl⟩ := setObj_eq set'
  have changed := uniform _ _ (twin.seen live)
  simp only [Object.seen, Prod.mk.injEq] at changed
  refine ⟨twin.refs, fun x => ?_, fun x alive => ?_, twin.objects, twin.head, twin.fresh⟩
  · by_cases same : x = o
    · subst same
      simpa [modifyAt] using changed.2.2.2
    · simpa [modifyAt, same] using twin.live x
  · by_cases same : x = o
    · subst same
      simpa [modifyAt] using ⟨changed.1, changed.2.1, changed.2.2.1⟩
    · simp only [modifyAt_other _ _ _ same] at alive ⊢
      exact twin.objs x alive

theorem Tracker.Twin.of_setRef {r : Nat} {change : Reference → Reference}
    (blind : ∀ a : Reference, (change a).seen = a.seen) (set : t.setRef r change = some t') : t.Twin t' := by
  obtain rfl := setRef_eq set
  refine ⟨fun x => ?_, fun _ => rfl, fun _ _ => ⟨rfl, rfl, rfl⟩, rfl, rfl, rfl⟩
  by_cases same : x = r
  · subst same
    simpa [modifyAt, Reference.seen] using blind (t.refs x)
  · simp [modifyAt, same]

theorem Tracker.Twin.of_setObj {o : Nat} {change : Object → Object}
    (blind : ∀ a : Object, (change a).seen = a.seen) (set : t.setObj o change = some t') : t.Twin t' := by
  obtain ⟨-, rfl⟩ := setObj_eq set
  have same (x : Nat) : (modifyAt t.objs o change x).seen = (t.objs x).seen := by
    by_cases equal : x = o
    · subst equal
      simpa [modifyAt] using blind (t.objs x)
    · simp [modifyAt, equal]
  simp only [Object.seen, Prod.mk.injEq] at same
  exact ⟨fun _ => ⟨rfl, rfl⟩, fun x => (same x).2.2.2, fun x _ => ⟨(same x).1, (same x).2.1, (same x).2.2.1⟩, rfl, rfl, rfl⟩

theorem Tracker.Twin.of_collectRefs {checkState : Bool} {owner fuel : Nat} {cursor : Option Nat}
    (collected : t.collectRefs checkState owner fuel cursor = some t') : t.Twin t' := by
  induction fuel generalizing t cursor with
  | zero =>
      cases cursor with
      | none =>
          obtain rfl := Option.some.inj collected
          exact .refl t
      | some r => cases collected
  | succ fuel ih =>
      cases cursor with
      | none =>
          obtain rfl := Option.some.inj collected
          exact .refl t
      | some r =>
          simp only [collectRefs, Option.ite_none_right_eq_some, Option.bind_eq_bind] at collected
          obtain ⟨-, collected⟩ := collected
          split at collected
          · obtain ⟨next, released, rest⟩ := Option.bind_eq_some_iff.mp collected
            refine Tracker.Twin.trans (.of_setRef ?_ released) (ih rest)
            exact fun _ => rfl
          · split at collected
            · obtain ⟨middle, linked, collected⟩ := Option.bind_eq_some_iff.mp collected
              obtain ⟨next, headed, rest⟩ := Option.bind_eq_some_iff.mp collected
              refine Tracker.Twin.trans (.of_setRef ?_ linked) (.trans (.of_setObj ?_ headed) (ih rest))
              · exact fun _ => rfl
              · exact fun _ => rfl
            · cases collected

theorem Tracker.Twin.of_listCollectRefs {checkState : Bool} {owner fuel : Nat}
    (collected : t.listCollectRefs checkState owner fuel = some t') : t.Twin t' := by
  simp only [listCollectRefs, Option.bind_eq_bind, Option.bind_eq_some_iff] at collected
  obtain ⟨middle, emptied, rest⟩ := collected
  refine Tracker.Twin.trans (.of_setObj ?_ emptied) (.of_collectRefs rest)
  exact fun _ => rfl

theorem Tracker.Twin.stackHead (twin : t.Twin u) :
    u.stackHead.1 = t.stackHead.1 ∧ t.stackHead.2.Twin u.stackHead.2 := by
  rw [Tracker.stackHead, Tracker.stackHead, twin.head]
  split
  · exact ⟨rfl, twin⟩
  · exact ⟨rfl, ⟨twin.refs, twin.live, twin.objs, twin.objects, rfl, twin.fresh⟩⟩

theorem Tracker.Twin.activate (twin : t.Twin u) {target : Option Nat} (activated : t.activate target = some t')
    (activated' : u.activate target = some u') : t'.Twin u' := by
  cases target with
  | none =>
      obtain rfl := Option.some.inj activated
      obtain rfl := Option.some.inj activated'
      exact twin
  | some o =>
      refine twin.setObj (fun a b same => ?_) activated activated'
      simp only [Object.seen, Prod.mk.injEq, true_and] at same ⊢
      exact ⟨same.1, same.2.1, same.2.2.2⟩

theorem Tracker.Twin.dereference (twin : t.Twin u) {r : Nat} (gone : t.dereference r = some t')
    (gone' : u.dereference r = some u') : t'.Twin u' := by
  refine twin.setRef (fun a b same => ?_) gone gone'
  simp only [Reference.seen, Prod.mk.injEq, and_true] at same ⊢
  exact same.1

theorem Tracker.Twin.retarget (twin : t.Twin u) {r : Nat} (target : Option Nat)
    (set : t.setRef r (fun record => { record with target }) = some t')
    (set' : u.setRef r (fun record => { record with target }) = some u') : t'.Twin u' := by
  refine twin.setRef (fun a b same => ?_) set set'
  simp only [Reference.seen, Prod.mk.injEq, true_and] at same ⊢
  exact same.2

theorem Tracker.Twin.reference (twin : t.Twin u) {r : Nat} {target : Option Nat}
    (referenced : t.reference r target = some t') (referenced' : u.reference r target = some u') : t'.Twin u' := by
  obtain ⟨t₁, activated, set⟩ := Option.bind_eq_some_iff.mp referenced
  obtain ⟨u₁, activated', set'⟩ := Option.bind_eq_some_iff.mp referenced'
  exact (twin.activate activated activated').retarget target set set'

theorem Tracker.Twin.newReference (twin : t.Twin u) {target : Option Nat} {r r' : Nat}
    (made : t.newReference target = some (r, t')) (made' : u.newReference target = some (r', u')) :
    r' = r ∧ t'.Twin u' := by
  simp only [Tracker.newReference, Option.bind_eq_bind, Option.bind_eq_some_iff, Option.pure_def, Option.some.injEq,
    Prod.mk.injEq] at made made'
  obtain ⟨t₁, activated, t₂, headed, rfl, rfl⟩ := made
  obtain ⟨u₁, activated', u₂, headed', rfl, rfl⟩ := made'
  have twin₁ := twin.activate activated activated'
  obtain ⟨source, twin₂⟩ := twin₁.stackHead
  rw [source] at headed'
  refine ⟨twin₂.fresh, Tracker.Twin.setObj ?_ (fun a b same => ?_) headed headed'⟩
  · refine ⟨fun x => ?_, twin₂.live, twin₂.objs, twin₂.objects, twin₂.head, congrArg (· + 1) twin₂.fresh⟩
    simp only [twin₂.fresh, Function.update_apply]
    split
    · exact ⟨rfl, rfl⟩
    · exact twin₂.refs x
  · exact same

theorem Tracker.newReference_payload {target : Option Nat} {r : Nat} (made : t.newReference target = some (r, t')) (o : Nat) :
    (t'.objs o).payload = (t.objs o).payload := by
  simp only [Tracker.newReference, Option.bind_eq_bind, Option.bind_eq_some_iff, Option.pure_def, Option.some.injEq,
    Prod.mk.injEq] at made
  obtain ⟨t₁, activated, t₂, headed, rfl, rfl⟩ := made
  have first : (t₁.objs o).payload = (t.objs o).payload := by
    cases target with
    | none =>
        obtain rfl := Option.some.inj activated
        rfl
    | some x =>
        obtain ⟨-, rfl⟩ := setObj_eq activated
        by_cases same : o = x <;> simp [modifyAt, same]
  obtain ⟨-, rfl⟩ := setObj_eq headed
  have fixed : t₁.stackHead.2.objs = t₁.objs := by
    rw [Tracker.stackHead]
    split <;> rfl
  refine Eq.trans ?_ first
  by_cases same : o = t₁.stackHead.1 <;> simp [modifyAt, same, fixed]

theorem Tracker.Twin.registerObject (twin : t.Twin u) {payload o o' : Nat}
    (rooted : ∀ x, t.objectStackHead = some x → x = objectStackRoot)
    (made : t.registerObject payload = some (o, t')) (made' : u.registerObject payload = some (o', u')) :
    o' = o ∧ t'.Twin u' := by
  rw [Tracker.registerObject_rooted rooted, Option.some.injEq, Prod.mk.injEq] at made
  rw [Tracker.registerObject_rooted (by rwa [twin.head]), Option.some.injEq, Prod.mk.injEq] at made'
  obtain ⟨rfl, rfl⟩ := made
  obtain ⟨rfl, rfl⟩ := made'
  refine ⟨twin.fresh, ⟨twin.refs, fun x => ?_, fun x alive => ?_, congrArg some twin.fresh, rfl, congrArg (· + 1) twin.fresh⟩⟩
  · simp only [twin.fresh, Function.update_apply]
    split
    · rfl
    · exact twin.live x
  · simp only [twin.fresh, Function.update_apply] at alive ⊢
    split at alive
    · next new => simp [new, twin.objects]
    · next old => simpa [old] using twin.objs x alive

end Tracker

section World

variable {w v w' v' : World}

theorem World.Twin.construct (twin : w.Twin v) {p : Nat} (made : w.construct p = some w')
    (made' : v.construct p = some v') : w'.Twin v' := by
  simp only [World.construct, Option.bind_eq_bind, Option.bind_eq_some_iff, Option.pure_def, Option.some.injEq] at made made'
  obtain ⟨⟨r, t⟩, created, rfl⟩ := made
  obtain ⟨⟨r', u⟩, created', rfl⟩ := made'
  obtain ⟨rfl, tracker⟩ := twin.tracker.newReference created created'
  exact ⟨tracker, by simp only [twin.pointers], twin.payloads, twin.destroyed⟩

theorem World.Twin.copy (twin : w.Twin v) {p q : Nat} (copied : w.copy p q = some w')
    (copied' : v.copy p q = some v') : w'.Twin v' := by
  simp only [World.copy, Option.bind_eq_bind, Option.bind_eq_some_iff, Option.ite_none_right_eq_some, Option.pure_def,
    Option.some.injEq] at copied copied'
  obtain ⟨g, found, source, known, -, t, referenced, rfl⟩ := copied
  obtain ⟨g', found', source', known', -, u, referenced', rfl⟩ := copied'
  rw [twin.pointers] at found' known'
  obtain rfl := Option.some.inj (found.symm.trans found')
  obtain rfl := Option.some.inj (known.symm.trans known')
  rw [(twin.tracker.refs _).1] at referenced'
  exact ⟨twin.tracker.reference referenced referenced', by simp only [twin.pointers], twin.payloads, twin.destroyed⟩

theorem World.Twin.destroyPtr (twin : w.Twin v) {p : Nat} (gone : w.destroyPtr p = some w')
    (gone' : v.destroyPtr p = some v') : w'.Twin v' := by
  simp only [World.destroyPtr, Option.bind_eq_bind, Option.bind_eq_some_iff, Option.pure_def, Option.some.injEq] at gone gone'
  obtain ⟨g, found, t, released, rfl⟩ := gone
  obtain ⟨g', found', u, released', rfl⟩ := gone'
  rw [twin.pointers] at found'
  obtain rfl := Option.some.inj (found.symm.trans found')
  exact ⟨twin.tracker.dereference released released', by simp only [twin.pointers], twin.payloads, twin.destroyed⟩

theorem World.Twin.destroyPtrs (twin : w.Twin v) {members : List Nat} (gone : members.foldlM World.destroyPtr w = some w')
    (gone' : members.foldlM World.destroyPtr v = some v') : w'.Twin v' := by
  induction members generalizing w v with
  | nil =>
      obtain rfl := Option.some.inj gone
      obtain rfl := Option.some.inj gone'
      exact twin
  | cons m members ih =>
      obtain ⟨w₁, first, gone⟩ := Option.bind_eq_some_iff.mp gone
      obtain ⟨v₁, first', gone'⟩ := Option.bind_eq_some_iff.mp gone'
      exact ih (twin.destroyPtr first first') gone gone'

theorem World.Twin.dctor (twin : w.Twin v) {payload : Nat} (ran : w.dctor payload = some w')
    (ran' : v.dctor payload = some v') : w'.Twin v' := by
  simp only [World.dctor, Option.bind_eq_bind, Option.bind_eq_some_iff, Option.pure_def, Option.some.injEq] at ran ran'
  obtain ⟨members, known, w₁, gone, rfl⟩ := ran
  obtain ⟨members', known', v₁, gone', rfl⟩ := ran'
  rw [twin.payloads] at known'
  obtain rfl := Option.some.inj (known.symm.trans known')
  have after := twin.destroyPtrs gone gone'
  exact ⟨after.tracker, after.pointers, by simp only [after.payloads], by simp only [after.destroyed]⟩

theorem World.Twin.release (twin : w.Twin v) {fuel o : Nat} (live : (w.tracker.objs o).live = true)
    (released : w.release fuel o = some w') (released' : v.release fuel o = some v') : w'.Twin v' := by
  simp only [World.release, Option.bind_eq_bind, Option.bind_eq_some_iff, Option.pure_def, Option.some.injEq]
    at released released'
  obtain ⟨t, cleaned, payload, shape, w₁, ran, t₁, freed, rfl⟩ := released
  obtain ⟨u, cleaned', payload', shape', v₁, ran', u₁, freed', rfl⟩ := released'
  have own := Tracker.Twin.of_listCollectRefs cleaned
  have tracker : t.Twin u := own.symm.trans (twin.tracker.trans (.of_listCollectRefs cleaned'))
  rw [(tracker.objs o ((own.live o).trans live)).2.1] at shape'
  obtain rfl := Option.some.inj (shape.symm.trans shape')
  have before : World.Twin { w with tracker := t } { v with tracker := u } :=
    ⟨tracker, twin.pointers, twin.payloads, twin.destroyed⟩
  have after := before.dctor ran ran'
  refine ⟨after.tracker.setObj (fun a b same => ?_) freed freed', after.pointers, after.payloads, after.destroyed⟩
  simp only [Object.seen, Prod.mk.injEq, and_true] at same ⊢
  exact ⟨same.1, same.2.1, same.2.2.1⟩

theorem World.Twin.collectObjects (twin : w.Twin v) {length fuel : Nat} {cursor : Option Nat}
    (swept : w.collectObjects length fuel cursor = some w') (swept' : v.collectObjects length fuel cursor = some v') :
    w'.Twin v' := by
  induction fuel generalizing w v cursor with
  | zero =>
      cases cursor with
      | none =>
          obtain rfl := Option.some.inj swept
          obtain rfl := Option.some.inj swept'
          exact twin
      | some o => cases swept
  | succ fuel ih =>
      cases cursor with
      | none =>
          obtain rfl := Option.some.inj swept
          obtain rfl := Option.some.inj swept'
          exact twin
      | some o =>
          simp only [World.collectObjects, Option.ite_none_right_eq_some, Option.bind_eq_bind] at swept swept'
          obtain ⟨live, swept⟩ := swept
          obtain ⟨-, swept'⟩ := swept'
          obtain ⟨next, -, state⟩ := twin.tracker.objs o live
          rw [next, state] at swept'
          split at swept
          · next dead =>
            rw [if_pos dead] at swept'
            obtain ⟨w₁, released, rest⟩ := Option.bind_eq_some_iff.mp swept
            obtain ⟨v₁, released', rest'⟩ := Option.bind_eq_some_iff.mp swept'
            exact ih (twin.release live released released') rest rest'
          · next notDead =>
            rw [if_neg notDead] at swept'
            split at swept
            · next kept =>
              rw [if_pos kept] at swept'
              obtain ⟨t, pushed, rest⟩ := Option.bind_eq_some_iff.mp swept
              obtain ⟨u, pushed', rest'⟩ := Option.bind_eq_some_iff.mp swept'
              have linked : t.Twin u := by
                refine twin.tracker.setObj (fun a b same => ?_) pushed pushed'
                simp only [Object.seen, Prod.mk.injEq] at same ⊢
                exact ⟨twin.tracker.objects, same.2⟩
              rw [Option.bind_some] at rest rest'
              refine ih ?_ rest rest'
              exact ⟨⟨linked.refs, linked.live, linked.objs, rfl, linked.head, linked.fresh⟩, twin.pointers, twin.payloads,
                twin.destroyed⟩
            · cases swept

end World

section Trace

variable {t t' : Tracker}

def Tracker.Steady (t t' : Tracker) : Prop :=
  ∀ o, (t'.objs o).live = (t.objs o).live ∧ ((t.objs o).live = true → (t'.objs o).next = (t.objs o).next)

theorem Tracker.Steady.trans {x : Tracker} (first : t.Steady t') (second : t'.Steady x) : t.Steady x := fun o =>
  ⟨(second o).1.trans (first o).1, fun live => ((second o).2 ((first o).1.trans live)).trans ((first o).2 live)⟩

theorem Tracker.Steady.refl (t : Tracker) : t.Steady t := fun _ => ⟨rfl, fun _ => rfl⟩

theorem Tracker.Twin.steady (twin : t.Twin t') : t.Steady t' := fun o => ⟨twin.live o, fun live => (twin.objs o live).1⟩

theorem Tracker.Steady.of_setObj {o : Nat} {change : Object → Object}
    (keeps : ∀ a, (change a).live = a.live ∧ (change a).next = a.next) (set : t.setObj o change = some t') : t.Steady t' := by
  obtain ⟨-, rfl⟩ := setObj_eq set
  intro x
  by_cases same : x = o
  · subst same
    simpa [modifyAt] using ⟨(keeps (t.objs x)).1, fun _ => (keeps (t.objs x)).2⟩
  · simp [modifyAt, same]

theorem Tracker.Steady.of_markUnreachable {fuel : Nat} {cursor : Option Nat}
    (ran : t.markUnreachable fuel cursor = some t') : t.Steady t' := by
  induction fuel generalizing t cursor with
  | zero =>
      cases cursor with
      | none =>
          obtain rfl := Option.some.inj ran
          exact .refl t
      | some o => cases ran
  | succ fuel ih =>
      cases cursor with
      | none =>
          obtain rfl := Option.some.inj ran
          exact .refl t
      | some o =>
          obtain ⟨middle, set, rest⟩ := Option.bind_eq_some_iff.mp ran
          refine Tracker.Steady.trans (.of_setObj ?_ set) (ih rest)
          exact fun _ => ⟨rfl, rfl⟩

theorem Tracker.Steady.of_markRefs {fuel : Nat} {cursor list list' : Option Nat} {pushed pushed' : List Nat}
    (ran : t.markRefs fuel cursor list pushed = some (t', list', pushed')) : t.Steady t' := by
  induction fuel generalizing t cursor list pushed with
  | zero =>
      cases cursor with
      | none =>
          obtain ⟨rfl, -⟩ := Prod.mk.inj (Option.some.inj ran)
          exact .refl t
      | some r => cases ran
  | succ fuel ih =>
      cases cursor with
      | none =>
          obtain ⟨rfl, -⟩ := Prod.mk.inj (Option.some.inj ran)
          exact .refl t
      | some r =>
          simp only [markRefs, Option.ite_none_right_eq_some] at ran
          obtain ⟨-, ran⟩ := ran
          split at ran
          · exact ih ran
          · split at ran
            · exact ih ran
            · rw [Option.ite_none_right_eq_some] at ran
              obtain ⟨-, ran⟩ := ran
              split at ran
              · obtain ⟨middle, set, rest⟩ := Option.bind_eq_some_iff.mp ran
                refine Tracker.Steady.trans (.of_setObj ?_ set) (ih rest)
                exact fun _ => ⟨rfl, rfl⟩
              · exact ih ran

theorem Tracker.Steady.of_markObject {fuel o : Nat} {list list' : Option Nat} {pushed pushed' : List Nat}
    (ran : t.markObject fuel o list pushed = some (t', list', pushed')) : t.Steady t' := by
  simp only [markObject, Option.bind_eq_bind, Option.bind_eq_some_iff, Option.pure_def, Option.some.injEq,
    Prod.mk.injEq] at ran
  obtain ⟨t₁, cleaned, ⟨t₂, list₂, pushed₂⟩, marked, t₃, set, rfl, rfl, rfl⟩ := ran
  refine (Twin.of_listCollectRefs cleaned).steady.trans (.trans (.of_markRefs marked) (.of_setObj ?_ set))
  exact fun _ => ⟨rfl, rfl⟩

theorem Tracker.Steady.of_mark {length fuel : Nat} {list next : Option Nat} {pushed pushed' : List Nat}
    (ran : t.mark length fuel list next pushed = some (t', pushed')) : t.Steady t' := by
  induction fuel generalizing t list next pushed with
  | zero =>
      cases list <;> cases next <;> cases ran
      exact .refl _
  | succ fuel ih =>
      cases list with
      | none =>
          cases next with
          | none =>
              obtain ⟨rfl, -⟩ := Prod.mk.inj (Option.some.inj ran)
              exact .refl t
          | some o => exact ih ran
      | some o =>
          simp only [mark, Option.bind_eq_bind, Option.bind_eq_some_iff] at ran
          obtain ⟨⟨t₁, next₁, pushed₁⟩, marked, t₂, set, rest⟩ := ran
          refine (Tracker.Steady.of_markObject marked).trans (.trans (.of_setObj ?_ set) (ih rest))
          exact fun _ => ⟨rfl, rfl⟩

theorem Tracker.Steady.of_trace {fuel : Nat} (ran : t.trace fuel = some t') : t.Steady t' := by
  obtain ⟨⟨_, pushed⟩, traced, rfl⟩ := Option.map_eq_some_iff.mp ran
  simp only [Tracker.tracePushing, Option.bind_eq_bind, Option.bind_eq_some_iff] at traced
  obtain ⟨t₁, unmarked, t₂, set, marked⟩ := traced
  refine (Tracker.Steady.of_markUnreachable unmarked).trans (.trans (.of_setObj ?_ set) (.of_mark marked))
  exact fun _ => ⟨rfl, rfl⟩

end Trace

section Runs

variable {w v w' v' : World} {L L' : List Nat} {R R' : Nat → List Nat}

theorem World.Twin.aims (twin : w.Twin v) (p o : Nat) : v.Aims p o ↔ w.Aims p o := by
  simp only [World.Aims, twin.pointers, (twin.tracker.refs _).1]

theorem Inv.twin_list (inv : Inv w L R) (inv' : Inv v L' R') (twin : w.Twin v) : L' = L := by
  have list := inv'.list
  rw [twin.tracker.objects] at list
  refine Chain.unique (Chain.congr (fun o member => ?_) list) inv.list
  have live : (w.tracker.objs o).live = true := by
    rw [← twin.tracker.live]
    exact (inv'.store.objLive o).mpr (List.mem_cons_of_mem _ member)
  exact (twin.tracker.objs o live).1.symm

theorem trace_twin (inv : Inv w L R) (inv' : Inv v L R') (twin : w.Twin v) :
    ∃ t u, w.tracker.trace (2 * w.tracker.fresh) = some t ∧ Gc2.trace v.tracker (2 * w.tracker.fresh) = some u ∧
      t.Twin u := by
  have objects := inv.objects_le
  obtain ⟨t, done, traced, surveyed⟩ :=
    trace_spec ⟨inv.store, inv.list⟩ inv.rootMark (2 * w.tracker.fresh) inv.refs_le (by omega)
  obtain ⟨objs', done₁, traced', coloured⟩ := Gc2.trace_coloured inv'
  obtain ⟨u, R'', done', separates, separated⟩ := Gc2.trace_separates ⟨inv'.store, inv'.list⟩ inv'.rootMark
    inv'.refs_le (by rw [twin.tracker.fresh]; omega)
  obtain rfl := Option.some.inj (separates.symm.trans traced')
  rw [twin.tracker.fresh] at traced'
  refine ⟨t, _, traced, traced', ?_⟩
  have steady := Tracker.Steady.of_trace traced
  have reached (o : Nat) (inside : o ∈ objectStackRoot :: L) : o ∈ done' ↔ o ∈ done := by
    rw [separated.reach o inside, surveyed.reach o inside]
    rcases List.mem_cons.mp inside with rfl | registered
    · exact iff_of_true .refl .refl
    · rw [inv.reach_iff registered, inv'.reach_iff registered]
      exact exists_congr fun p => twin.aims p o
  constructor
  · intro r
    rw [(surveyed.refs r).1, (surveyed.refs r).2]
    exact twin.tracker.refs r
  · intro o
    rw [(steady o).1, ← twin.tracker.live]
    exact (coloured.same o).2.1
  · intro o live
    have before : (w.tracker.objs o).live = true := (steady o).1.symm.trans live
    have inside := (inv.store.objLive o).mp before
    obtain ⟨next, payload, -⟩ := twin.tracker.objs o before
    refine ⟨?_, ?_, ?_⟩
    · rw [(steady o).2 before, ← next]
      exact (coloured.same o).1
    · rw [surveyed.payload, ← payload]
      exact (coloured.same o).2.2.2
    · rw [separated.state o inside, surveyed.state o inside]
      simp only [reached o inside]
  · exact twin.tracker.objects.trans surveyed.fields.1.symm
  · exact twin.tracker.head.trans surveyed.fields.2.1.symm
  · exact twin.tracker.fresh.trans surveyed.fields.2.2.symm

theorem collect_twin (inv : Inv w L R) (inv' : Inv v L' R') (twin : w.Twin v) :
    ∃ w' v', w.collect = some w' ∧ Gc2.collectWorld v = some v' ∧ w'.Twin v' := by
  obtain rfl := inv.twin_list inv' twin
  obtain ⟨t, u, traced, traced', tracker⟩ := trace_twin inv inv' twin
  obtain ⟨w', -, run, -⟩ := collect_spec inv
  obtain ⟨v', -, run', -⟩ := Gc2.collectWorld_spec inv'
  refine ⟨w', v', run, run', ?_⟩
  rw [World.collect, traced] at run
  rw [Gc2.collectWorld, twin.tracker.fresh, traced'] at run'
  simp only [Option.bind_eq_bind, Option.bind_some, tracker.objects] at run run'
  refine World.Twin.collectObjects ?_ run run'
  exact ⟨⟨tracker.refs, tracker.live, tracker.objs, rfl, tracker.head, tracker.fresh⟩, twin.pointers, twin.payloads,
    twin.destroyed⟩

theorem World.Twin.enabled (twin : w.Twin v) (op : Op) : Enabled v op ↔ Enabled w op := by
  cases op <;> simp only [Enabled, World.Member, twin.pointers, twin.payloads]

theorem World.Twin.step (twin : w.Twin v) {op : Op} (rooted : ∀ o, w.tracker.objectStackHead = some o → o = objectStackRoot)
    (mutates : op ≠ .collect) (taken : w.step op = some w') (taken' : v.step op = some v') : w'.Twin v' := by
  cases op with
  | default p => exact twin.construct taken taken'
  | copyNew p q =>
      obtain ⟨w₁, made, copied⟩ := Option.bind_eq_some_iff.mp taken
      obtain ⟨v₁, made', copied'⟩ := Option.bind_eq_some_iff.mp taken'
      exact (twin.construct made made').copy copied copied'
  | copyAssign p q =>
      by_cases same : p = q
      · simp only [World.step, if_pos same, Option.some.injEq] at taken taken'
        obtain rfl := taken
        obtain rfl := taken'
        exact twin
      · simp only [World.step, if_neg same] at taken taken'
        exact twin.copy taken taken'
  | reset p =>
      simp only [World.step, Option.bind_eq_bind, Option.bind_eq_some_iff, Option.pure_def, Option.some.injEq] at taken taken'
      obtain ⟨g, found, t, set, rfl⟩ := taken
      obtain ⟨g', found', u, set', rfl⟩ := taken'
      rw [twin.pointers] at found'
      obtain rfl := Option.some.inj (found.symm.trans found')
      exact ⟨twin.tracker.retarget none set set', by simp only [twin.pointers], twin.payloads, twin.destroyed⟩
  | destroy p => exact twin.destroyPtr taken taken'
  | makeGc p members =>
      simp only [World.step, Option.bind_eq_bind, Option.bind_eq_some_iff, Option.pure_def, Option.some.injEq] at taken taken'
      obtain ⟨⟨o, t⟩, registered, ⟨r, t₁⟩, created, rfl⟩ := taken
      obtain ⟨⟨o', u⟩, registered', ⟨r', u₁⟩, created', rfl⟩ := taken'
      have counted : Tracker.Twin { w.tracker with fresh := w.tracker.fresh + 1 } { v.tracker with fresh := v.tracker.fresh + 1 } :=
        ⟨twin.tracker.refs, twin.tracker.live, twin.tracker.objs, twin.tracker.objects, twin.tracker.head,
          congrArg (· + 1) twin.tracker.fresh⟩
      rw [twin.tracker.fresh] at counted registered'
      obtain ⟨rfl, tracker⟩ := counted.registerObject rooted registered registered'
      have live : (t.objs o').live = true := by
        rw [Tracker.registerObject_rooted (t := { w.tracker with fresh := w.tracker.fresh + 1 }) rooted, Option.some.injEq,
          Prod.mk.injEq] at registered
        obtain ⟨rfl, rfl⟩ := registered
        simp
      obtain ⟨rfl, after⟩ := tracker.newReference created created'
      have same : (u₁.objs o').payload = (t₁.objs o').payload := by
        rw [Tracker.newReference_payload created', Tracker.newReference_payload created, (tracker.objs o' live).2.1]
      exact ⟨after, by simp only [twin.pointers, same], by simp only [twin.payloads, twin.tracker.fresh], twin.destroyed⟩
  | collect => exact absurd rfl mutates

/-- What the two trackers leave behind agrees, lists of references apart. -/
structure Alike (w v : World) : Prop where
  pointers : v.pointers = w.pointers
  payloads : v.payloads = w.payloads
  destroyed : v.destroyed = w.destroyed
  registered : ∀ o, v.Registered o ↔ w.Registered o
  pointsTo : ∀ p o, v.PointsTo p o ↔ w.PointsTo p o

theorem World.Twin.alike (twin : w.Twin v) : Alike w v where
  pointers := twin.pointers
  payloads := twin.payloads
  destroyed := twin.destroyed
  registered := by simp only [World.Registered, twin.tracker.live, implies_true]
  pointsTo := by
    intro p o
    simp only [World.PointsTo, World.Registered, twin.tracker.live, twin.pointers]
    refine and_congr_right fun registered => ?_
    rw [(twin.tracker.objs o registered.2).2.1]

def Paired (v w : World) : Prop := w.Twin v ∧ (∃ L R, Inv w L R) ∧ ∃ L R, Inv v L R

theorem Paired.step (v w : World) (op : Op) (paired : Paired v w) (enabled : Enabled w op) :
    Enabled v op ∧ ∃ v' w', Gc2.step v op = some v' ∧ w.step op = some w' ∧ Paired v' w' := by
  obtain ⟨twin, ⟨L, R, inv⟩, L', R', inv'⟩ := paired
  have enabled' := (twin.enabled op).mpr enabled
  obtain ⟨w', taken, holds⟩ := step_taken w op ⟨L, R, inv⟩ enabled
  obtain ⟨v', taken', holds'⟩ := Gc2.step_taken v op ⟨L', R', inv'⟩ enabled'
  refine ⟨enabled', v', w', taken', taken, ?_, holds, holds'⟩
  by_cases collects : op = .collect
  · subst collects
    obtain ⟨w₁, v₁, run, run', after⟩ := collect_twin inv inv' twin
    obtain rfl := Option.some.inj (run.symm.trans taken)
    obtain rfl := Option.some.inj (run'.symm.trans taken')
    exact after
  · have mutates : Gc2.step v op = v.step op := by
      cases op with
      | collect => exact absurd rfl collects
      | _ => rfl
    exact twin.step inv.head collects taken (mutates.symm.trans taken')

theorem start_paired : Paired start start :=
  ⟨⟨.refl _, rfl, rfl, rfl⟩, ⟨_, _, start_inv⟩, _, _, start_inv⟩

/-- A program of `gc` is one of `gc2`, and destroys the same payloads, in the same order. -/
theorem programs_agree {ops : List Op} (program : Program ops) :
    Gc2.Program ops ∧ ∃ w v, Runs.exec World.step start ops = some w ∧ Runs.exec Gc2.step start ops = some v ∧ Alike w v := by
  obtain ⟨program', v, w, run', run, paired⟩ := Runs.Along.lockstep Paired Paired.step program start_paired
  exact ⟨program', w, v, run, run', paired.1.alike⟩

theorem programs_agree_selfCycle :
    Gc2.Program selfCycle ∧ ∃ w v, Runs.exec World.step start selfCycle = some w ∧
      Runs.exec Gc2.step start selfCycle = some v ∧ Alike w v := by
  obtain ⟨_, program, -⟩ := selfCycle_run
  exact programs_agree program

end Runs

end PrototypeBundle.Tracing
