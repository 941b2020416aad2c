import PrototypeBundle.Tracing.Collect

set_option autoImplicit false

namespace PrototypeBundle.Tracing

open Memory Intrusive

variable {w : World} {L : List Nat} {R : Nat → List Nat}

theorem Tracker.stackHead_rooted {t : Tracker} (rooted : ∀ o, t.objectStackHead = some o → o = objectStackRoot) :
    t.stackHead = (objectStackRoot, { t with objectStackHead := some objectStackRoot }) := by
  cases found : t.objectStackHead with
  | none => simp [Tracker.stackHead, found]
  | some o =>
      obtain rfl := rooted o found
      simp only [Tracker.stackHead, found, Prod.mk.injEq, true_and]
      rw [← found]

theorem Inv.recolor (inv : Inv w L R) {objs' : Nat → Object}
    (shape : ∀ x, objs' x = { w.tracker.objs x with state := (objs' x).state }) (head' : Option Nat)
    (rooted : ∀ o, head' = some o → o = objectStackRoot) :
    Inv { w with tracker := { w.tracker with objs := objs', objectStackHead := head' } } L R := by
  have next (x : Nat) : (objs' x).next = (w.tracker.objs x).next := by rw [shape x]
  have same (x : Nat) : (objs' x).live = (w.tracker.objs x).live ∧ (objs' x).refHead = (w.tracker.objs x).refHead ∧
      (objs' x).payload = (w.tracker.objs x).payload := by
    rw [shape x]
    exact ⟨rfl, rfl, rfl⟩
  have nextMarked : (objs' objectStackRoot).nextMarked = (w.tracker.objs objectStackRoot).nextMarked := by rw [shape]
  have core := inv.toCore.setObjs w.tracker.objects same (nextMarked.trans inv.rootMark)
  exact { core with
    store := { core.store with }
    head := rooted
    housed := inv.housed
    list := by
      simp only [next]
      exact inv.list }

theorem Inv.activate (inv : Inv w L R) {target : Option Nat} (registered : ∀ o, target = some o → o ∈ L) :
    ∃ objs', w.tracker.activate target = some { w.tracker with objs := objs' } ∧
      ∀ x, objs' x = { w.tracker.objs x with state := (objs' x).state } := by
  cases target with
  | none => exact ⟨w.tracker.objs, rfl, fun _ => rfl⟩
  | some o =>
      have live : (w.tracker.objs o).live = true :=
        (inv.store.objLive o).mpr (List.mem_cons_of_mem _ (registered o rfl))
      refine ⟨_, Tracker.setObj_live live _, ?_⟩
      intro x
      by_cases same : x = o <;> simp [modifyAt, same]

theorem Inv.redirect (inv : Inv w L R) {p : Nat} {g : GcPtr} (target : Option Nat) (found : w.pointers p = some g)
    (registered : ∀ o, target = some o → o ∈ L) :
    Inv { w with
      tracker := { w.tracker with refs := modifyAt w.tracker.refs g.ref fun record => { record with target } }
      pointers := Function.update w.pointers p
        (some { g with ptr := target.bind fun o => (w.tracker.objs o).payload }) } L R := by
  have store := inv.store
  have same (r : Nat) : (modifyAt w.tracker.refs g.ref (fun record => { record with target }) r).next =
        (w.tracker.refs r).next ∧
      (modifyAt w.tracker.refs g.ref (fun record => { record with target }) r).state = (w.tracker.refs r).state ∧
      (modifyAt w.tracker.refs g.ref (fun record => { record with target }) r).live = (w.tracker.refs r).live := by
    by_cases equal : r = g.ref <;> simp [modifyAt, equal]
  have old (v : Nat) (h : GcPtr)
      (known : Function.update w.pointers p
        (some { g with ptr := target.bind fun o => (w.tracker.objs o).payload }) v = some h) :
      ∃ h', w.pointers v = some h' ∧ h'.ref = h.ref := by
    by_cases equal : v = p
    · subst equal
      rw [Function.update_self, Option.some.injEq] at known
      exact ⟨g, found, by rw [← known]⟩
    · rw [Function.update_of_ne equal] at known
      exact ⟨h, known, rfl⟩
  constructor
  case toCore =>
    exact { inv with
      store := { store with
        chain := fun x inside => Chain.congr (fun r _ => (same r).1) (store.chain x inside)
        refLive := fun r => by
          simp only [(same r).2.2]
          exact store.refLive r
        states := fun x inside r member => by
          simp only [(same r).2.1]
          exact store.states x inside r member
        targets := fun x inside r member active y aim => by
          simp only [(same r).2.1] at active
          by_cases equal : r = g.ref
          · simp only [equal, modifyAt_same] at aim
            exact registered y aim
          · simp only [modifyAt_other _ _ _ equal] at aim
            exact store.targets x inside r member active y aim }
      pointer := fun v h known => by
        obtain ⟨h', before, ref⟩ := old v h known
        simp only [(same _).2.1, ← ref]
        exact inv.pointer v h' before
      once := fun v u h h' known known' equal => by
        obtain ⟨a, before, refA⟩ := old v h known
        obtain ⟨b, before', refB⟩ := old u h' known'
        exact inv.once v u a b before before' (by rw [refA, refB, equal])
      owned := fun r member active => by
        simp only [(same r).2.1] at active
        obtain ⟨v, h, known, ref⟩ := inv.owned r member active
        by_cases equal : v = p
        · subst equal
          obtain rfl := Option.some.inj (known.symm.trans found)
          exact ⟨v, _, Function.update_self .., ref⟩
        · exact ⟨v, h, (Function.update_of_ne equal _ _).trans known, ref⟩
      target := fun v h known => by
        by_cases equal : v = p
        · subst equal
          simp only [Function.update_self, Option.some.injEq] at known
          subst known
          simp only [modifyAt_same]
        · simp only [Function.update_of_ne equal] at known
          have apart : h.ref ≠ g.ref := fun shared => equal (inv.once v p h g known found shared)
          simp only [modifyAt_other _ _ _ apart]
          exact inv.target v h known }
  case housed =>
    intro a members known m member
    by_cases equal : m = p
    · simp [equal]
    · simp only [Function.update_of_ne equal]
      exact inv.housed a members known m member
  case list => exact inv.list

theorem mem_attached {fresh : Nat} (unused : ∀ o ∈ objectStackRoot :: L, fresh ∉ R o) {o r : Nat}
    (inside : o ∈ objectStackRoot :: L)
    (member : r ∈ Function.update R objectStackRoot (fresh :: R objectStackRoot) o) :
    o = objectStackRoot ∧ r = fresh ∨ r ≠ fresh ∧ r ∈ R o := by
  by_cases root : o = objectStackRoot
  · subst root
    rw [Function.update_self, List.mem_cons] at member
    rcases member with new | before
    · exact Or.inl ⟨rfl, new⟩
    · exact Or.inr ⟨ne_of_mem_of_not_mem before (unused _ inside), before⟩
  · rw [Function.update_of_ne root] at member
    exact Or.inr ⟨ne_of_mem_of_not_mem member (unused o inside), member⟩

theorem Store.attach {t : Tracker} (store : Store t L R) (target : Option Nat)
    (unused : ∀ o ∈ objectStackRoot :: L, t.fresh ∉ R o) (registered : ∀ o, target = some o → o ∈ L) :
    Store { t with
      refs := Function.update t.refs t.fresh
        { next := (t.objs objectStackRoot).refHead, target, state := .active, live := true }
      objs := modifyAt t.objs objectStackRoot fun obj => { obj with refHead := some t.fresh }
      fresh := t.fresh + 1 } L (Function.update R objectStackRoot (t.fresh :: R objectStackRoot)) := by
  have cases (o r : Nat) (inside : o ∈ objectStackRoot :: L)
      (member : r ∈ Function.update R objectStackRoot (t.fresh :: R objectStackRoot) o) :=
    mem_attached unused inside member
  constructor
  case rootNew => exact store.rootNew
  case objLive =>
    intro o
    rw [← store.objLive o]
    by_cases same : o = objectStackRoot <;> simp [modifyAt, same]
  case chain =>
    intro o inside
    have before : Chain (fun r => (Function.update t.refs t.fresh
        { next := (t.objs objectStackRoot).refHead, target, state := .active, live := true } r).next)
        (t.objs o).refHead (R o) :=
      Chain.congr (fun r member => by rw [Function.update_of_ne (ne_of_mem_of_not_mem member (unused o inside))])
        (store.chain o inside)
    by_cases root : o = objectStackRoot
    · subst root
      simp only [modifyAt_same, Function.update_self]
      refine ⟨rfl, ?_⟩
      simp only [Function.update_self]
      exact before
    · simp only [modifyAt_other _ _ _ root, Function.update_of_ne root]
      exact before
  case refLive =>
    intro r
    by_cases new : r = t.fresh
    · subst new
      simp
    · simp only [Function.update_of_ne new, store.refLive r]
      refine exists_congr fun o => and_congr_right fun _ => ?_
      by_cases root : o = objectStackRoot
      · subst root
        simp [new]
      · rw [Function.update_of_ne root]
  case apart =>
    intro o inside q inside' r member member'
    rcases cases o r inside member with ⟨rfl, rfl⟩ | ⟨different, before⟩
    · rcases cases q _ inside' member' with ⟨rfl, _⟩ | ⟨different', _⟩
      · rfl
      · exact absurd rfl different'
    · rcases cases q r inside' member' with ⟨_, new⟩ | ⟨_, before'⟩
      · exact absurd new different
      · exact store.apart o inside q inside' r before before'
  case states =>
    intro o inside r member
    rcases cases o r inside member with ⟨_, rfl⟩ | ⟨different, before⟩
    · simp
    · simp only [Function.update_of_ne different]
      exact store.states o inside r before
  case targets =>
    intro o inside r member active q aim
    rcases cases o r inside member with ⟨_, rfl⟩ | ⟨different, before⟩
    · simp only [Function.update_self] at aim
      exact registered q aim
    · simp only [Function.update_of_ne different] at active aim
      exact store.targets o inside r before active q aim

theorem Inv.attach (inv : Inv w L R) {p : Nat} (target : Option Nat) (vacant : w.pointers p = none)
    (registered : ∀ o, target = some o → o ∈ L) :
    Inv { w with
      tracker := { w.tracker with
        refs := Function.update w.tracker.refs w.tracker.fresh
          { next := (w.tracker.objs objectStackRoot).refHead, target, state := .active, live := true }
        objs := modifyAt w.tracker.objs objectStackRoot fun obj => { obj with refHead := some w.tracker.fresh }
        fresh := w.tracker.fresh + 1 }
      pointers := Function.update w.pointers p (some
        { ref := w.tracker.fresh, ptr := target.bind fun o => (w.tracker.objs o).payload }) }
      L (Function.update R objectStackRoot (w.tracker.fresh :: R objectStackRoot)) := by
  have store := inv.store
  have apart (o : Nat) (inside : o ∈ L) : o ≠ objectStackRoot := by
    rintro rfl
    exact store.rootNew inside
  -- the address of the record has not been used
  have unused (o : Nat) (inside : o ∈ objectStackRoot :: L) : w.tracker.fresh ∉ R o := by
    rcases List.mem_cons.mp inside with rfl | other
    · exact fun member => Nat.lt_irrefl _ (inv.refBelow _ member)
    · simp [inv.alone o other]
  have payload (o : Nat) :
      (modifyAt w.tracker.objs objectStackRoot (fun obj => { obj with refHead := some w.tracker.fresh }) o).payload =
        (w.tracker.objs o).payload := by
    by_cases same : o = objectStackRoot <;> simp [modifyAt, same]
  have next (o : Nat) :
      (modifyAt w.tracker.objs objectStackRoot (fun obj => { obj with refHead := some w.tracker.fresh }) o).next =
        (w.tracker.objs o).next := by
    by_cases same : o = objectStackRoot <;> simp [modifyAt, same]
  have cases (o r : Nat) (inside : o ∈ objectStackRoot :: L)
      (member : r ∈ Function.update R objectStackRoot (w.tracker.fresh :: R objectStackRoot) o) :=
    mem_attached unused inside member
  have old (v : Nat) (g : GcPtr) (known : w.pointers v = some g) : v ≠ p ∧ g.ref ≠ w.tracker.fresh := by
    refine ⟨?_, Nat.ne_of_lt (inv.refBelow _ (inv.pointer v g known).1)⟩
    rintro rfl
    rw [vacant] at known
    simp at known
  constructor
  case toCore =>
    constructor
    case store => exact store.attach target unused registered
    case alone =>
      intro o inside
      rw [Function.update_of_ne (apart o inside)]
      exact inv.alone o inside
    case head => exact inv.head
    case rootMark =>
      simp only [modifyAt_same]
      exact inv.rootMark
    case objBelow => exact fun o inside => Nat.lt_succ_of_lt (inv.objBelow o inside)
    case refBelow =>
      intro r member
      rcases cases _ r (by simp) member with ⟨_, rfl⟩ | ⟨_, before⟩
      · exact Nat.lt_succ_self _
      · exact Nat.lt_succ_of_lt (inv.refBelow r before)
    case pointer =>
      intro v g known
      by_cases new : v = p
      · subst new
        simp only [Function.update_self, Option.some.injEq] at known
        subst known
        simp
      · simp only [Function.update_of_ne new] at known
        obtain ⟨member, active⟩ := inv.pointer v g known
        simp [(old v g known).2, member, active]
    case once =>
      intro v u g h known known' shared
      by_cases new : v = p
      · subst new
        simp only [Function.update_self, Option.some.injEq] at known
        by_cases new' : u = v
        · exact new'.symm
        · simp only [Function.update_of_ne new'] at known'
          exact absurd (by rw [← shared, ← known]) (old u h known').2
      · simp only [Function.update_of_ne new] at known
        by_cases new' : u = p
        · subst new'
          simp only [Function.update_self, Option.some.injEq] at known'
          exact absurd (by rw [shared, ← known']) (old v g known).2
        · simp only [Function.update_of_ne new'] at known'
          exact inv.once v u g h known known' shared
    case owned =>
      intro r member active
      rcases cases _ r (by simp) member with ⟨_, rfl⟩ | ⟨different, before⟩
      · exact ⟨p, _, Function.update_self .., rfl⟩
      · simp only [Function.update_of_ne different] at active
        obtain ⟨v, g, known, ref⟩ := inv.owned r before active
        exact ⟨v, g, (Function.update_of_ne (old v g known).1 _ _).trans known, ref⟩
    case target =>
      intro v g known
      simp only [payload]
      by_cases new : v = p
      · subst new
        simp only [Function.update_self, Option.some.injEq] at known
        subst known
        simp
      · simp only [Function.update_of_ne new] at known
        simp only [Function.update_of_ne (old v g known).2]
        exact inv.target v g known
    case payload =>
      simp only [payload]
      exact inv.payload
    case payloadOnce =>
      simp only [payload]
      exact inv.payloadOnce
    case managed =>
      simp only [payload]
      exact inv.managed
    case members =>
      exact fun a members known => ⟨(inv.members a members known).1, Nat.lt_succ_of_lt (inv.members a members known).2⟩
    case memberOnce => exact inv.memberOnce
    case gone =>
      refine ⟨inv.gone.1, fun a member => ?_⟩
      exact ⟨(inv.gone.2 a member).1, Nat.lt_succ_of_lt (inv.gone.2 a member).2⟩
  case housed =>
    intro a members known m member
    by_cases new : m = p
    · simp [new]
    · simp only [Function.update_of_ne new]
      exact inv.housed a members known m member
  case list =>
    simp only [next]
    exact inv.list

theorem Inv.newReference (inv : Inv w L R) {p : Nat} (target : Option Nat) (vacant : w.pointers p = none)
    (registered : ∀ o, target = some o → o ∈ L) :
    ∃ t', w.tracker.newReference target = some (w.tracker.fresh, t') ∧
      (∀ o, (t'.objs o).payload = (w.tracker.objs o).payload) ∧
      (t'.refs w.tracker.fresh).target = target ∧
      Inv { w with
        tracker := t'
        pointers := Function.update w.pointers p (some
          { ref := w.tracker.fresh, ptr := target.bind fun o => (w.tracker.objs o).payload }) }
        L (Function.update R objectStackRoot (w.tracker.fresh :: R objectStackRoot)) := by
  obtain ⟨objs', activated, shape⟩ := inv.activate registered
  have inv₁ := inv.recolor shape w.tracker.objectStackHead inv.head
  have inv₂ := inv.recolor shape (some objectStackRoot) (by simp)
  have rootLive : (objs' objectStackRoot).live = true := (inv₁.store.objLive _).mpr (by simp)
  have payload (x : Nat) : (objs' x).payload = (w.tracker.objs x).payload := by rw [shape x]
  have final := inv₂.attach target vacant registered
  simp only [payload] at final
  refine ⟨_, ?_, ?_, ?_, final⟩
  · rw [Tracker.newReference, activated, Option.bind_eq_bind, Option.bind_some]
    simp only [Tracker.stackHead_rooted inv₁.head]
    rw [Tracker.setObj_live (by exact rootLive)]
    rfl
  · intro o
    by_cases same : o = objectStackRoot <;> simp [modifyAt, same, payload]
  · simp

theorem Inv.destroy (inv : Inv w L R) {p : Nat} (exists' : (w.pointers p).isSome) (free : ¬ w.Member p) :
    ∃ w', w.destroyPtr p = some w' ∧ Inv w' L R := by
  obtain ⟨refs', run, core, _⟩ := inv.toCore.destroy [p] (by simp) (by simpa using exists')
  refine ⟨_, by simpa using run, { core with housed := ?_, list := inv.list }⟩
  intro a members known m member
  have different : m ≠ p := by
    rintro rfl
    exact free ⟨a, members, known, member⟩
  simpa [different] using inv.housed a members known m member

theorem mem_enlisted {o x : Nat} (inside : x ∈ objectStackRoot :: o :: L) :
    x = o ∨ x ≠ o ∧ x ∈ objectStackRoot :: L := by
  by_cases same : x = o
  · exact Or.inl same
  · exact Or.inr ⟨same, by simpa [same] using inside⟩

theorem Store.enlist {t : Tracker} (store : Store t L R) {o : Nat} {obj : Object}
    (below : ∀ x ∈ objectStackRoot :: L, x ≠ o) (live : obj.live = true) (empty : obj.refHead = none)
    (objects objectStackHead : Option Nat) (fresh : Nat) :
    Store { t with objs := Function.update t.objs o obj, objects, objectStackHead, fresh } (o :: L)
      (Function.update R o []) := by
  have root : objectStackRoot ≠ o := below _ (by simp)
  constructor
  case rootNew => simpa [root] using store.rootNew
  case objLive =>
    intro x
    by_cases same : x = o
    · subst same
      simp [live]
    · simp only [Function.update_of_ne same, store.objLive x, List.mem_cons, same, false_or]
  case chain =>
    intro x inside
    rcases mem_enlisted inside with rfl | ⟨different, before⟩
    · simp [empty]
    · simp only [Function.update_of_ne different]
      exact store.chain x before
  case refLive =>
    intro r
    rw [store.refLive r]
    constructor
    · rintro ⟨x, inside, member⟩
      have different := below x inside
      refine ⟨x, ?_, by rwa [Function.update_of_ne different]⟩
      rcases List.mem_cons.mp inside with rfl | before
      · simp
      · simp [before]
    · rintro ⟨x, inside, member⟩
      rcases mem_enlisted inside with rfl | ⟨different, before⟩
      · simp at member
      · exact ⟨x, before, by rwa [Function.update_of_ne different] at member⟩
  case apart =>
    intro x inside y inside' r member member'
    rcases mem_enlisted inside with rfl | ⟨different, before⟩
    · simp at member
    · rcases mem_enlisted inside' with rfl | ⟨different', before'⟩
      · simp at member'
      · rw [Function.update_of_ne different] at member
        rw [Function.update_of_ne different'] at member'
        exact store.apart x before y before' r member member'
  case states =>
    intro x inside r member
    rcases mem_enlisted inside with rfl | ⟨different, before⟩
    · simp at member
    · rw [Function.update_of_ne different] at member
      exact store.states x before r member
  case targets =>
    intro x inside r member active y aim
    rcases mem_enlisted inside with rfl | ⟨different, before⟩
    · simp at member
    · rw [Function.update_of_ne different] at member
      exact List.mem_cons_of_mem _ (store.targets x before r member active y aim)

theorem Inv.enlist (inv : Inv w L R) {o : Nat} {members : List Nat} (above : w.tracker.fresh < o)
    (nodup : members.Nodup) (free : ∀ m ∈ members, (w.pointers m).isSome ∧ ¬ w.Member m) :
    Inv { w with
      tracker := { w.tracker with
        objs := Function.update w.tracker.objs o
          { next := w.tracker.objects, nextMarked := none, payload := some w.tracker.fresh, state := .active
            refHead := none, live := true }
        objects := some o
        objectStackHead := some objectStackRoot
        fresh := o + 1 }
      payloads := Function.update w.payloads w.tracker.fresh (some members) }
      (o :: L) (Function.update R o []) := by
  have store := inv.store
  have below (x : Nat) (inside : x ∈ objectStackRoot :: L) : x ≠ o := by
    have bound := inv.objBelow x inside
    omega
  have registered (x : Nat) (inside : x ∈ o :: L) : x = o ∨ x ≠ o ∧ x ∈ L := by
    rcases List.mem_cons.mp inside with same | before
    · exact Or.inl same
    · exact Or.inr ⟨below x (List.mem_cons_of_mem _ before), before⟩
  -- the payload is new, too
  have newPayload (x : Nat) (inside : x ∈ L) : (w.tracker.objs x).payload ≠ some w.tracker.fresh := by
    obtain ⟨payload, members', shape, known⟩ := inv.payload x inside
    have bound := (inv.members payload members' known).2
    rw [shape, Ne, Option.some.injEq]
    omega
  have oldPayload (a : Nat) (others : List Nat) (known : w.payloads a = some others) : a ≠ w.tracker.fresh :=
    Nat.ne_of_lt (inv.members a others known).2
  have root : objectStackRoot ≠ o := below _ (by simp)
  constructor
  case toCore =>
    constructor
    case store => exact store.enlist below rfl rfl _ _ _
    case alone =>
      intro x inside
      rcases registered x inside with rfl | ⟨different, before⟩
      · simp
      · rw [Function.update_of_ne different]
        exact inv.alone x before
    case head => simp
    case rootMark =>
      simp only [Function.update_of_ne root]
      exact inv.rootMark
    case objBelow =>
      intro x inside
      rcases mem_enlisted inside with rfl | ⟨_, before⟩
      · exact Nat.lt_succ_self _
      · have bound := inv.objBelow x before
        simp only
        omega
    case refBelow =>
      intro r member
      rw [Function.update_of_ne root] at member
      have bound := inv.refBelow r member
      simp only
      omega
    case pointer =>
      rw [Function.update_of_ne root]
      exact inv.pointer
    case once => exact inv.once
    case owned =>
      rw [Function.update_of_ne root]
      exact inv.owned
    case target =>
      intro p g found
      rw [inv.target p g found]
      cases aim : (w.tracker.refs g.ref).target with
      | none => rfl
      | some x =>
          obtain ⟨member, active⟩ := inv.pointer p g found
          have inside := store.targets _ (by simp) g.ref member active x aim
          have different := below x (List.mem_cons_of_mem _ inside)
          simp [Function.update_of_ne different]
    case payload =>
      intro x inside
      rcases registered x inside with rfl | ⟨different, before⟩
      · exact ⟨w.tracker.fresh, members, by simp, by simp⟩
      · obtain ⟨payload, others, shape, known⟩ := inv.payload x before
        refine ⟨payload, others, by simpa [Function.update_of_ne different] using shape, ?_⟩
        simpa [Function.update_of_ne (oldPayload payload others known)] using known
    case payloadOnce =>
      intro x inX y inY same
      rcases registered x inX with rfl | ⟨differentX, beforeX⟩
      · rcases registered y inY with rfl | ⟨differentY, beforeY⟩
        · rfl
        · simp only [Function.update_self, Function.update_of_ne differentY] at same
          exact absurd same.symm (newPayload y beforeY)
      · rcases registered y inY with rfl | ⟨differentY, beforeY⟩
        · simp only [Function.update_self, Function.update_of_ne differentX] at same
          exact absurd same (newPayload x beforeX)
        · simp only [Function.update_of_ne differentX, Function.update_of_ne differentY] at same
          exact inv.payloadOnce x beforeX y beforeY same
    case managed =>
      intro a others known
      by_cases new : a = w.tracker.fresh
      · exact ⟨o, by simp, by simp [new]⟩
      · simp only [Function.update_of_ne new] at known
        obtain ⟨x, inside, shape⟩ := inv.managed a others known
        refine ⟨x, by simp [inside], ?_⟩
        simpa [Function.update_of_ne (below x (List.mem_cons_of_mem _ inside))] using shape
    case members =>
      intro a others known
      by_cases new : a = w.tracker.fresh
      · subst new
        simp only [Function.update_self, Option.some.injEq] at known
        subst known
        exact ⟨nodup, by simp only; omega⟩
      · simp only [Function.update_of_ne new] at known
        obtain ⟨distinct, bound⟩ := inv.members a others known
        exact ⟨distinct, by simp only; omega⟩
    case memberOnce =>
      -- the members of the new payload belong to no other
      have outside (a : Nat) (others : List Nat) (known : w.payloads a = some others) (m : Nat)
          (member : m ∈ others) : m ∉ members := fun inside => (free m inside).2 ⟨a, others, known, member⟩
      intro a b first second m knownA knownB inFirst inSecond
      by_cases newA : a = w.tracker.fresh
      · by_cases newB : b = w.tracker.fresh
        · rw [newA, newB]
        · simp only [newA, Function.update_self, Option.some.injEq] at knownA
          simp only [Function.update_of_ne newB] at knownB
          exact absurd (knownA ▸ inFirst) (outside b second knownB m inSecond)
      · simp only [Function.update_of_ne newA] at knownA
        by_cases newB : b = w.tracker.fresh
        · simp only [newB, Function.update_self, Option.some.injEq] at knownB
          exact absurd (knownB ▸ inSecond) (outside a first knownA m inFirst)
        · simp only [Function.update_of_ne newB] at knownB
          exact inv.memberOnce a b first second m knownA knownB inFirst inSecond
    case gone =>
      refine ⟨inv.gone.1, fun a member => ?_⟩
      obtain ⟨absent, bound⟩ := inv.gone.2 a member
      exact ⟨(Function.update_of_ne (Nat.ne_of_lt bound) _ _).trans absent, by simp only; omega⟩
  case housed =>
    intro a others known m member
    by_cases new : a = w.tracker.fresh
    · simp only [new, Function.update_self, Option.some.injEq] at known
      exact (free m (known ▸ member)).1
    · simp only [Function.update_of_ne new] at known
      exact inv.housed a others known m member
  case list =>
    refine ⟨rfl, ?_⟩
    simp only [Function.update_self]
    exact Chain.congr (fun x inside => by rw [Function.update_of_ne (below x (List.mem_cons_of_mem _ inside))]) inv.list

theorem Tracker.registerObject_rooted {t : Tracker} (rooted : ∀ o, t.objectStackHead = some o → o = objectStackRoot)
    (payload : Nat) :
    t.registerObject payload = some (t.fresh, { t with
      objs := Function.update t.objs t.fresh
        { next := t.objects, nextMarked := none, payload := some payload, state := .active
          refHead := none, live := true }
      objects := some t.fresh
      objectStackHead := some objectStackRoot
      fresh := t.fresh + 1 }) := by
  rw [Tracker.registerObject]
  simp only [Tracker.swapObjectStackHead, Tracker.stackHead_rooted (t := { t with
    objs := Function.update t.objs t.fresh _
    fresh := t.fresh + 1 }) rooted]
  rw [Tracker.setObj_live (by simp)]
  simp only [Option.bind_eq_bind, Option.bind_some, Tracker.stackHead, Option.pure_def, Option.some.injEq, Prod.mk.injEq,
    true_and, Tracker.mk.injEq, and_true]
  funext x
  by_cases same : x = t.fresh <;> simp [modifyAt, same]

theorem Inv.copy (inv : Inv w L R) {p v : Nat} {g source : GcPtr} (found : w.pointers p = some g)
    (known : w.pointers v = some source) : ∃ w', w.copy p v = some w' ∧ Inv w' L R := by
  obtain ⟨member, active⟩ := inv.pointer v source known
  have live := inv.refLive member
  have registered (o : Nat) (aim : (w.tracker.refs source.ref).target = some o) : o ∈ L :=
    inv.store.targets _ (by simp) source.ref member active o aim
  obtain ⟨objs', activated, shape⟩ := inv.activate registered
  have inv₁ := inv.recolor shape w.tracker.objectStackHead inv.head
  have refLive : (w.tracker.refs g.ref).live = true := inv.refLive (inv.pointer p g found).1
  have payload (x : Nat) : (objs' x).payload = (w.tracker.objs x).payload := by rw [shape x]
  have final := inv₁.redirect _ found registered
  simp only [payload] at final
  rw [← inv.target v source known] at final
  refine ⟨_, ?_, final⟩
  simp only [World.copy, found, known, Option.bind_eq_bind, Option.bind_some, if_pos live, Tracker.reference, activated]
  rw [Tracker.setRef_live (by exact refLive)]
  rfl

theorem Inv.reset (inv : Inv w L R) {p : Nat} (exists' : (w.pointers p).isSome) :
    ∃ w', w.step (.reset p) = some w' ∧ Inv w' L R := by
  obtain ⟨g, found⟩ := Option.isSome_iff_exists.mp exists'
  have live : (w.tracker.refs g.ref).live = true := inv.refLive (inv.pointer p g found).1
  refine ⟨_, ?_, inv.redirect none found (by simp)⟩
  simp only [World.step, found, Option.bind_eq_bind, Option.bind_some]
  rw [Tracker.setRef_live live]
  rfl

theorem Inv.makeGc (inv : Inv w L R) {p : Nat} {members : List Nat} (vacant : w.pointers p = none)
    (nodup : members.Nodup) (free : ∀ m ∈ members, (w.pointers m).isSome ∧ ¬ w.Member m) :
    ∃ w' L' R', w.step (.makeGc p members) = some w' ∧ Inv w' L' R' := by
  have inv₁ := inv.enlist (o := w.tracker.fresh + 1) (by omega) nodup free
  have registered := Tracker.registerObject_rooted (t := { w.tracker with fresh := w.tracker.fresh + 1 }) inv.head
    w.tracker.fresh
  obtain ⟨t', created, payload, _, inv₂⟩ :=
    inv₁.newReference (some (w.tracker.fresh + 1)) vacant (by simp)
  refine ⟨_, _, _, ?_, inv₂⟩
  simp only [World.step, registered, Option.bind_eq_bind, Option.bind_some]
  simp only at created
  rw [created, Option.bind_some, payload]
  rfl

theorem Inv.step (inv : Inv w L R) {op : Op} (enabled : Enabled w op) :
    ∃ w' L' R', w.step op = some w' ∧ Inv w' L' R' := by
  cases op with
  | default p =>
      obtain ⟨t', created, _, _, inv'⟩ := inv.newReference none enabled (by simp)
      exact ⟨_, _, _, by simp [World.step, World.construct, created], inv'⟩
  | copyNew p v =>
      obtain ⟨vacant, exists'⟩ := enabled
      obtain ⟨source, known⟩ := Option.isSome_iff_exists.mp exists'
      obtain ⟨t', created, _, _, inv'⟩ := inv.newReference none vacant (by simp)
      have different : v ≠ p := by
        rintro rfl
        simp [vacant] at known
      obtain ⟨w', copied, final⟩ := inv'.copy (p := p) (v := v) (Function.update_self ..)
        ((Function.update_of_ne different _ _).trans known)
      refine ⟨w', _, _, ?_, final⟩
      simp only [World.step, World.construct, created, Option.bind_eq_bind, Option.bind_some, Option.pure_def]
      exact copied
  | copyAssign p v =>
      obtain ⟨exists₁, exists₂⟩ := enabled
      obtain ⟨g, found⟩ := Option.isSome_iff_exists.mp exists₁
      obtain ⟨source, known⟩ := Option.isSome_iff_exists.mp exists₂
      by_cases same : p = v
      · exact ⟨w, L, R, if_pos same, inv⟩
      · obtain ⟨w', copied, final⟩ := inv.copy found known
        exact ⟨w', L, R, (if_neg same).trans copied, final⟩
  | reset p =>
      obtain ⟨w', run, final⟩ := inv.reset enabled
      exact ⟨w', L, R, run, final⟩
  | destroy p =>
      obtain ⟨w', run, final⟩ := inv.destroy enabled.1 enabled.2
      exact ⟨w', L, R, run, final⟩
  | makeGc p members => exact inv.makeGc enabled.1 enabled.2.1 enabled.2.2
  | collect =>
      obtain ⟨w', done, run, final, _⟩ := collect_spec inv
      exact ⟨w', _, _, run, final⟩

end PrototypeBundle.Tracing
