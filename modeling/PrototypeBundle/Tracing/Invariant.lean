import PrototypeBundle.Tracing.Trace

set_option autoImplicit false

-- `register_object` switches the object stack head after the payload has been
-- constructed, so that no reference is ever registered with another object.

namespace PrototypeBundle.Tracing

open Memory Intrusive

/-- The existing objects are the root and `L`; their order on the object list is left open. -/
structure Core (w : World) (L : List Nat) (R : Nat → List Nat) : Prop where
  store : Store w.tracker L R
  alone : ∀ o ∈ L, R o = []
  head : ∀ o, w.tracker.objectStackHead = some o → o = objectStackRoot
  rootMark : (w.tracker.objs objectStackRoot).nextMarked = none
  objBelow : ∀ o ∈ objectStackRoot :: L, o < w.tracker.fresh
  refBelow : ∀ r ∈ R objectStackRoot, r < w.tracker.fresh
  pointer : ∀ p g, w.pointers p = some g →
    g.ref ∈ R objectStackRoot ∧ (w.tracker.refs g.ref).state = .active
  once : ∀ p v g source, w.pointers p = some g → w.pointers v = some source → g.ref = source.ref → p = v
  owned : ∀ r ∈ R objectStackRoot, (w.tracker.refs r).state = .active → ∃ p g, w.pointers p = some g ∧ g.ref = r
  target : ∀ p g, w.pointers p = some g →
    g.ptr = (w.tracker.refs g.ref).target.bind fun o => (w.tracker.objs o).payload
  payload : ∀ o ∈ L, ∃ payload members, (w.tracker.objs o).payload = some payload ∧
    w.payloads payload = some members
  payloadOnce : ∀ o ∈ L, ∀ p ∈ L, (w.tracker.objs o).payload = (w.tracker.objs p).payload → o = p
  managed : ∀ payload members, w.payloads payload = some members →
    ∃ o ∈ L, (w.tracker.objs o).payload = some payload
  members : ∀ payload members, w.payloads payload = some members →
    members.Nodup ∧ payload < w.tracker.fresh
  memberOnce : ∀ a b members others m, w.payloads a = some members → w.payloads b = some others →
    m ∈ members → m ∈ others → a = b
  gone : w.destroyed.Nodup ∧ ∀ payload ∈ w.destroyed, w.payloads payload = none ∧ payload < w.tracker.fresh

def World.Housed (w : World) : Prop :=
  ∀ payload members, w.payloads payload = some members → ∀ m ∈ members, (w.pointers m).isSome

structure Inv (w : World) (L : List Nat) (R : Nat → List Nat) : Prop extends Core w L R where
  housed : w.Housed
  list : Chain (fun o => (w.tracker.objs o).next) w.tracker.objects L

variable {w : World} {L : List Nat} {R : Nat → List Nat}

theorem Core.refLive (core : Core w L R) {r : Nat} (member : r ∈ R objectStackRoot) :
    (w.tracker.refs r).live = true := (core.store.refLive r).mpr ⟨objectStackRoot, by simp, member⟩

theorem Core.congr (core : Core w L R) {L' : List Nat} (same : ∀ o, o ∈ L' ↔ o ∈ L) : Core w L' R := by
  have all (o : Nat) : o ∈ objectStackRoot :: L' ↔ o ∈ objectStackRoot :: L := by simp [same]
  have store := core.store
  constructor
  case store =>
    constructor
    case rootNew => rw [same]; exact store.rootNew
    case objLive => exact fun o => (store.objLive o).trans (all o).symm
    case chain => exact fun o inside => store.chain o ((all o).mp inside)
    case refLive => exact fun r => (store.refLive r).trans (exists_congr fun o => and_congr_left' (all o).symm)
    case apart => exact fun o inside p inside' => store.apart o ((all o).mp inside) p ((all p).mp inside')
    case states => exact fun o inside => store.states o ((all o).mp inside)
    case targets =>
      exact fun o inside r member active p target =>
        (same p).mpr (store.targets o ((all o).mp inside) r member active p target)
  case alone => exact fun o inside => core.alone o ((same o).mp inside)
  case head => exact core.head
  case rootMark => exact core.rootMark
  case objBelow => exact fun o inside => core.objBelow o ((all o).mp inside)
  case refBelow => exact core.refBelow
  case pointer => exact core.pointer
  case once => exact core.once
  case owned => exact core.owned
  case target => exact core.target
  case payload => exact fun o inside => core.payload o ((same o).mp inside)
  case payloadOnce => exact fun o inside p inside' => core.payloadOnce o ((same o).mp inside) p ((same p).mp inside')
  case managed =>
    intro payload members known
    obtain ⟨o, inside, shape⟩ := core.managed payload members known
    exact ⟨o, (same o).mpr inside, shape⟩
  case members => exact core.members
  case memberOnce => exact core.memberOnce
  case gone => exact core.gone

theorem Core.setObjs (core : Core w L R) {objs' : Nat → Object} (objects : Option Nat)
    (same : ∀ x, (objs' x).live = (w.tracker.objs x).live ∧ (objs' x).refHead = (w.tracker.objs x).refHead ∧
      (objs' x).payload = (w.tracker.objs x).payload)
    (rootMark : (objs' objectStackRoot).nextMarked = none) :
    Core { w with tracker := { w.tracker with objs := objs', objects } } L R := by
  have store := core.store
  exact { core with
    store := { store with
      objLive := fun x => by
        simp only [(same x).1]
        exact store.objLive x
      chain := fun x inside => by
        simp only [(same x).2.1]
        exact store.chain x inside }
    rootMark
    target := fun p g found => by
      simp only [(same _).2.2]
      exact core.target p g found
    payload := fun x inside => by
      simp only [(same _).2.2]
      exact core.payload x inside
    payloadOnce := fun x inX y inY => by
      simp only [(same _).2.2]
      exact core.payloadOnce x inX y inY
    managed := fun a members known => by
      simp only [(same _).2.2]
      exact core.managed a members known }

theorem Core.relink (core : Core w L R) (o : Nat) (next objects : Option Nat) :
    Core { w with tracker := { w.tracker with
      objs := modifyAt w.tracker.objs o fun obj => { obj with next }
      objects } } L R := by
  refine core.setObjs objects (fun x => ?_) ?_
  · by_cases equal : x = o <;> simp [modifyAt, equal]
  · have kept : (modifyAt w.tracker.objs o (fun obj => { obj with next }) objectStackRoot).nextMarked =
        (w.tracker.objs objectStackRoot).nextMarked := by
      by_cases equal : objectStackRoot = o <;> simp [modifyAt, equal]
    exact kept.trans core.rootMark

section Destroy

theorem destroyPtr_fold (ms : List Nat) :
    ∀ w : World, ms.Nodup → (∀ m ∈ ms, ∃ g, w.pointers m = some g ∧ (w.tracker.refs g.ref).live = true) →
      ∃ refs', ms.foldlM World.destroyPtr w = some { w with
          tracker := { w.tracker with refs := refs' }
          pointers := fun p => if p ∈ ms then none else w.pointers p } ∧
        ∀ r, ((∃ m ∈ ms, ∃ g, w.pointers m = some g ∧ g.ref = r) →
            refs' r = { w.tracker.refs r with state := .unreachable }) ∧
          ((¬ ∃ m ∈ ms, ∃ g, w.pointers m = some g ∧ g.ref = r) → refs' r = w.tracker.refs r) := by
  induction ms with
  | nil =>
      intro w _ _
      exact ⟨w.tracker.refs, by simp, by simp⟩
  | cons m ms ih =>
      intro w nodup live
      obtain ⟨notLater, nodup'⟩ := List.nodup_cons.mp nodup
      obtain ⟨g, found, isLive⟩ := live m (by simp)
      let w₁ : World :=
        { w with
          tracker :=
            { w.tracker with refs := modifyAt w.tracker.refs g.ref fun record => { record with state := .unreachable } }
          pointers := Function.update w.pointers m none }
      have destroyed : w.destroyPtr m = some w₁ := by
        simp [World.destroyPtr, found, Tracker.dereference, Tracker.setRef_live isLive, w₁]
      have others (x : Nat) (member : x ∈ ms) : w₁.pointers x = w.pointers x := by
        have different : x ≠ m := by
          rintro rfl
          exact notLater member
        simp [w₁, different]
      have liveSame (r : Nat) : (w₁.tracker.refs r).live = (w.tracker.refs r).live := by
        by_cases same : r = g.ref <;> simp [w₁, modifyAt, same]
      obtain ⟨refs', run, changed⟩ := ih w₁ nodup' (by
        intro x member
        obtain ⟨h, foundX, liveX⟩ := live x (by simp [member])
        exact ⟨h, by rw [others x member, foundX], by rw [liveSame, liveX]⟩)
      refine ⟨refs', ?_, ?_⟩
      · rw [List.foldlM_cons, destroyed, Option.bind_eq_bind, Option.bind_some, run]
        simp only [w₁, Option.some.injEq, World.mk.injEq, and_true, true_and]
        funext p
        by_cases atM : p = m
        · simp [atM]
        · simp [atM]
      · intro r
        have later : (∃ x ∈ ms, ∃ h, w₁.pointers x = some h ∧ h.ref = r) ↔
            ∃ x ∈ ms, ∃ h, w.pointers x = some h ∧ h.ref = r := by
          refine exists_congr fun x => and_congr_right fun member => ?_
          rw [others x member]
        have first : (∃ x ∈ m :: ms, ∃ h, w.pointers x = some h ∧ h.ref = r) ↔
            g.ref = r ∨ ∃ x ∈ ms, ∃ h, w.pointers x = some h ∧ h.ref = r := by
          simp [found]
        rw [first]
        obtain ⟨hit, miss⟩ := changed r
        rw [later] at hit miss
        have atRef : w₁.tracker.refs r =
            if r = g.ref then { w.tracker.refs r with state := .unreachable } else w.tracker.refs r := by
          simp [w₁, modifyAt]
        by_cases inLater : ∃ x ∈ ms, ∃ h, w.pointers x = some h ∧ h.ref = r
        · refine ⟨fun _ => ?_, fun neither => absurd (Or.inr inLater) neither⟩
          rw [hit inLater, atRef]
          split <;> rfl
        · rw [miss inLater, atRef]
          by_cases same : r = g.ref
          · subst same
            simp
          · simp [same, Ne.symm same, inLater]

theorem Core.destroy (core : Core w L R) (ms : List Nat) (nodup : ms.Nodup)
    (exist : ∀ m ∈ ms, (w.pointers m).isSome) :
    ∃ refs', let w' : World := { w with
          tracker := { w.tracker with refs := refs' }
          pointers := fun p => if p ∈ ms then none else w.pointers p }
      ms.foldlM World.destroyPtr w = some w' ∧ Core w' L R ∧
        ∀ r, refs' r = { w.tracker.refs r with state := (refs' r).state } ∧
          ((refs' r).state = .active → (w.tracker.refs r).state = .active) := by
  obtain ⟨refs', run, changed⟩ := destroyPtr_fold ms w nodup (by
    intro m member
    obtain ⟨g, found⟩ := Option.isSome_iff_exists.mp (exist m member)
    exact ⟨g, found, core.refLive (core.pointer m g found).1⟩)
  have shape (r : Nat) : refs' r = { w.tracker.refs r with state := (refs' r).state } := by
    obtain ⟨hit, miss⟩ := changed r
    by_cases used : ∃ m ∈ ms, ∃ g, w.pointers m = some g ∧ g.ref = r
    · rw [hit used]
    · rw [miss used]
  have active (r : Nat) (state : (refs' r).state = .active) :
      (¬ ∃ m ∈ ms, ∃ g, w.pointers m = some g ∧ g.ref = r) ∧ refs' r = w.tracker.refs r := by
    obtain ⟨hit, miss⟩ := changed r
    by_cases used : ∃ m ∈ ms, ∃ g, w.pointers m = some g ∧ g.ref = r
    · rw [hit used] at state
      simp at state
    · exact ⟨used, miss used⟩
  have old (p : Nat) (g : GcPtr) (found : (if p ∈ ms then none else w.pointers p) = some g) :
      p ∉ ms ∧ w.pointers p = some g := by
    by_cases member : p ∈ ms
    · simp [member] at found
    · exact ⟨member, by simpa [member] using found⟩
  have untouched (p : Nat) (g : GcPtr) (found : (if p ∈ ms then none else w.pointers p) = some g) :
      refs' g.ref = w.tracker.refs g.ref := by
    obtain ⟨outside, found⟩ := old p g found
    apply (changed g.ref).2
    rintro ⟨m, member, source, foundM, same⟩
    exact outside (core.once p m g source found foundM same.symm ▸ member)
  have store := core.store
  refine ⟨refs', run, ?_, fun r => ⟨shape r, fun state => ?_⟩⟩
  · constructor
    case store =>
      constructor
      case rootNew => exact store.rootNew
      case objLive => exact store.objLive
      case chain =>
        exact fun o inside => Chain.congr (fun r _ => congrArg Reference.next (shape r)) (store.chain o inside)
      case refLive =>
        intro r
        rw [congrArg Reference.live (shape r)]
        exact store.refLive r
      case apart => exact store.apart
      case states =>
        intro o inside r member
        obtain ⟨hit, miss⟩ := changed r
        by_cases used : ∃ m ∈ ms, ∃ g, w.pointers m = some g ∧ g.ref = r
        · simp only [hit used]
          simp
        · simp only [miss used]
          exact store.states o inside r member
      case targets =>
        intro o inside r member state p target
        have same := (active r state).2
        simp only [same] at state target
        exact store.targets o inside r member state p target
    case alone => exact core.alone
    case head => exact core.head
    case rootMark => exact core.rootMark
    case objBelow => exact core.objBelow
    case refBelow => exact core.refBelow
    case pointer =>
      intro p g found
      simp only [untouched p g found]
      exact core.pointer p g (old p g found).2
    case once =>
      intro p v g source foundP foundV same
      exact core.once p v g source (old p g foundP).2 (old v source foundV).2 same
    case owned =>
      intro r member state
      obtain ⟨unused, same⟩ := active r state
      simp only [same] at state
      obtain ⟨p, g, found, holds⟩ := core.owned r member state
      have outside : p ∉ ms := fun inside => unused ⟨p, inside, g, found, holds⟩
      exact ⟨p, g, by simp [outside, found], holds⟩
    case target =>
      intro p g found
      simp only [untouched p g found]
      exact core.target p g (old p g found).2
    case payload => exact core.payload
    case payloadOnce => exact core.payloadOnce
    case managed => exact core.managed
    case members => exact core.members
    case memberOnce => exact core.memberOnce
    case gone => exact core.gone
  · rw [(active r state).2] at state
    exact state

theorem Core.dropObject (core : Core w L R) {o payload : Nat} {members L' : List Nat} (inside : o ∈ L)
    (shape : (w.tracker.objs o).payload = some payload) (known : w.payloads payload = some members)
    (unaimed : ∀ r ∈ R objectStackRoot, (w.tracker.refs r).state = .active → (w.tracker.refs r).target ≠ some o)
    (rest : ∀ x, x ∈ L' ↔ x ∈ L ∧ x ≠ o) :
    Core { w with
      tracker := { w.tracker with
        objs := modifyAt w.tracker.objs o fun obj => { obj with live := false } }
      payloads := Function.update w.payloads payload none
      destroyed := payload :: w.destroyed } L' R := by
  have store := core.store
  have notRoot : objectStackRoot ≠ o := by
    rintro rfl
    exact store.rootNew inside
  have all (x : Nat) : x ∈ objectStackRoot :: L' ↔ x ∈ objectStackRoot :: L ∧ x ≠ o := by
    simp only [List.mem_cons, rest]
    constructor
    · rintro (rfl | ⟨member, different⟩)
      · exact ⟨Or.inl rfl, notRoot⟩
      · exact ⟨Or.inr member, different⟩
    · rintro ⟨rfl | member, different⟩
      · exact Or.inl rfl
      · exact Or.inr ⟨member, different⟩
  have other (x : Nat) (different : x ≠ o) :
      modifyAt w.tracker.objs o (fun obj => { obj with live := false }) x = w.tracker.objs x :=
    modifyAt_other _ _ _ different
  have payloadSame (x : Nat) :
      (modifyAt w.tracker.objs o (fun obj => { obj with live := false }) x).payload =
        (w.tracker.objs x).payload := by
    by_cases same : x = o <;> simp [modifyAt, same]
  have noRefs : R o = [] := core.alone o inside
  have oldPayload (a : Nat) (others : List Nat)
      (found : Function.update w.payloads payload none a = some others) : a ≠ payload ∧ w.payloads a = some others := by
    by_cases same : a = payload
    · subst same
      simp at found
    · exact ⟨same, by rwa [Function.update_of_ne same] at found⟩
  constructor
  case store =>
    constructor
    case rootNew => exact fun member => store.rootNew ((rest _).mp member).1
    case objLive =>
      intro x
      rw [all]
      by_cases same : x = o
      · subst same
        simp [modifyAt]
      · simp only [other x same]
        simp only [store.objLive x, ne_eq, same, not_false_eq_true, and_true]
    case chain =>
      intro x member
      obtain ⟨old, different⟩ := (all x).mp member
      simp only [other x different]
      exact store.chain x old
    case refLive =>
      intro r
      rw [store.refLive r]
      refine exists_congr fun x => ?_
      rw [all]
      constructor
      · rintro ⟨old, member⟩
        refine ⟨⟨old, ?_⟩, member⟩
        rintro rfl
        simp [noRefs] at member
      · rintro ⟨⟨old, _⟩, member⟩
        exact ⟨old, member⟩
    case apart => exact fun x inX y inY => store.apart x ((all x).mp inX).1 y ((all y).mp inY).1
    case states => exact fun x inX => store.states x ((all x).mp inX).1
    case targets =>
      intro x inX r member state p target
      obtain ⟨oldX, _⟩ := (all x).mp inX
      refine (rest p).mpr ⟨store.targets x oldX r member state p target, ?_⟩
      rintro rfl
      rcases List.mem_cons.mp oldX with rfl | registered
      · exact unaimed r member state target
      · rw [core.alone x registered] at member
        simp at member
  case alone => exact fun x member => core.alone x ((rest x).mp member).1
  case head => exact core.head
  case rootMark =>
    simp only [other _ notRoot]
    exact core.rootMark
  case objBelow => exact fun x member => core.objBelow x ((all x).mp member).1
  case refBelow => exact core.refBelow
  case pointer => exact core.pointer
  case once => exact core.once
  case owned => exact core.owned
  case target =>
    intro p g found
    simp only [payloadSame]
    exact core.target p g found
  case payload =>
    intro x member
    obtain ⟨old, different⟩ := (rest x).mp member
    obtain ⟨payload', members', shape', known'⟩ := core.payload x old
    refine ⟨payload', members', by simp only [payloadSame, shape'], ?_⟩
    have apart : payload' ≠ payload := by
      rintro rfl
      exact different (core.payloadOnce x old o inside (shape'.trans shape.symm))
    exact (Function.update_of_ne apart _ _).trans known'
  case payloadOnce =>
    intro x inX y inY
    simp only [payloadSame]
    exact core.payloadOnce x ((rest x).mp inX).1 y ((rest y).mp inY).1
  case managed =>
    intro a others found
    obtain ⟨apart, found⟩ := oldPayload a others found
    obtain ⟨x, member, shape'⟩ := core.managed a others found
    refine ⟨x, (rest x).mpr ⟨member, ?_⟩, by simp only [payloadSame, shape']⟩
    rintro rfl
    exact apart (Option.some.inj (shape'.symm.trans shape))
  case members => exact fun a others found => core.members a others (oldPayload a others found).2
  case memberOnce =>
    intro a b first second m foundA foundB
    exact core.memberOnce a b first second m (oldPayload a first foundA).2 (oldPayload b second foundB).2
  case gone =>
    obtain ⟨nodup, absent⟩ := core.gone
    refine ⟨List.nodup_cons.mpr ⟨?_, nodup⟩, ?_⟩
    · intro member
      rw [(absent payload member).1] at known
      simp at known
    · intro a member
      rcases List.mem_cons.mp member with rfl | old
      · exact ⟨Function.update_self .., (core.members a members known).2⟩
      · have apart : a ≠ payload := by
          rintro rfl
          rw [(absent a old).1] at known
          simp at known
        exact ⟨(Function.update_of_ne apart _ _).trans (absent a old).1, (absent a old).2⟩

end Destroy

end PrototypeBundle.Tracing
