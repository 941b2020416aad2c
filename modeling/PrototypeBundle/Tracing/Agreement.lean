import PrototypeBundle.Tracing.Gc2
import Mathlib.Algebra.Order.BigOperators.Group.List
import Mathlib.Algebra.Order.Group.Nat

set_option autoImplicit false

namespace PrototypeBundle.Tracing

open Memory Intrusive

section Sweep

variable {t : Tracker} {L L' : List Nat} {R : Nat → List Nat} {o : Nat}

theorem Owned.release (owned : Owned t L R) (registered : o ∈ L) {fuel : Nat} (enough : (R o).length ≤ fuel)
    (rest : ∀ x, x ∈ L' ↔ x ∈ L ∧ x ≠ o) :
    ∃ t', t.releaseObject fuel o = some t' ∧ Owned t' L' R ∧ (∀ x, x ≠ o → t'.objs x = t.objs x) ∧
      t'.objects = t.objects ∧ ∀ r, (t'.refs r).target = (t.refs r).target ∧ (t'.refs r).state = (t.refs r).state := by
  have inside : o ∈ objectStackRoot :: L := List.mem_cons_of_mem _ registered
  have notRoot : objectStackRoot ≠ o := fun same => owned.rootNew (same ▸ registered)
  obtain ⟨refs', head', collected, sameRefs, owned'⟩ := owned.collectRefs inside false enough
  have none' : ((R o).filter (kept false t.refs)).reverse = [] := by simp [kept]
  rw [none'] at owned'
  let t₁ : Tracker := { t with refs := refs', objs := modifyAt t.objs o fun obj => { obj with refHead := head' } }
  let t₂ : Tracker := { t₁ with objs := modifyAt t₁.objs o fun obj => { obj with live := false } }
  have live : (t₁.objs o).live = true := (owned'.objLive o).mpr inside
  have others (x : Nat) (different : x ≠ o) : t₂.objs x = t₁.objs x := by
    simp [t₂, modifyAt, different]
  have known (x : Nat) : x ∈ objectStackRoot :: L' ↔ x ∈ objectStackRoot :: L ∧ x ≠ o := by
    simp only [List.mem_cons, rest]
    constructor
    · rintro (rfl | ⟨member, different⟩)
      · exact ⟨Or.inl rfl, notRoot⟩
      · exact ⟨Or.inr member, different⟩
    · rintro ⟨rfl | member, different⟩
      · exact Or.inl rfl
      · exact Or.inr ⟨member, different⟩
  have list (x : Nat) (member : x ∈ objectStackRoot :: L') : Function.update R o [] x = R x :=
    Function.update_of_ne ((known x).mp member).2 ..
  refine ⟨t₂, ?_, ⟨?_, ?_, ?_, ?_, ?_, ?_⟩, ?_, rfl, sameRefs⟩
  · rw [Tracker.releaseObject, collected, Option.bind_eq_bind, Option.bind_some]
    exact Tracker.setObj_live live _
  · exact fun root => owned.rootNew ((rest _).mp root).1
  · intro x
    by_cases same : x = o
    · subst same
      exact iff_of_false (by simp [t₂, modifyAt]) fun member => ((known x).mp member).2 rfl
    · rw [others x same, known]
      exact (owned'.objLive x).trans (and_iff_left same).symm
  · intro x member
    obtain ⟨before, different⟩ := (known x).mp member
    have chain := owned'.chain x before
    rw [list x member] at chain
    rw [others x different]
    exact chain
  · intro r
    refine (owned'.refLive r).trans ⟨?_, ?_⟩
    · rintro ⟨x, before, member⟩
      by_cases same : x = o
      · subst same
        simp at member
      · have left := (known x).mpr ⟨before, same⟩
        exact ⟨x, left, list x left ▸ member⟩
    · rintro ⟨x, left, member⟩
      exact ⟨x, ((known x).mp left).1, (list x left).symm ▸ member⟩
  · intro x left y left' r member member'
    exact owned.apart x ((known x).mp left).1 y ((known y).mp left').1 r member member'
  · intro x left r member
    rw [(sameRefs r).2]
    exact owned.states x ((known x).mp left).1 r member
  · intro x different
    rw [others x different]
    simp [t₁, modifyAt, different]

theorem sweep_spec (done : List Nat) (length : Nat) (xs : List Nat) :
    ∀ (t : Tracker) (ys : List Nat) (cursor : Option Nat) (fuel : Nat) (destroyed : List Nat), xs.length ≤ fuel →
      Owned t (xs ++ ys) R → (xs ++ ys).Nodup → Chain (fun o => (t.objs o).next) cursor xs →
      Chain (fun o => (t.objs o).next) t.objects ys →
      (∀ o ∈ xs, (t.objs o).state = if o ∈ done then .active else .unreachable) → (∀ o ∈ xs, (R o).length ≤ length) →
      ∃ t', Tracker.sweep length fuel cursor t destroyed = some (t', (xs.filter (· ∉ done)).reverse ++ destroyed) ∧
        Owned t' ((xs.filter (· ∈ done)).reverse ++ ys) R ∧
        Chain (fun o => (t'.objs o).next) t'.objects ((xs.filter (· ∈ done)).reverse ++ ys) ∧
        (∀ r, (t'.refs r).target = (t.refs r).target ∧ (t'.refs r).state = (t.refs r).state) ∧
        ∀ o, o ∉ xs ∨ o ∈ done → (t'.objs o).state = (t.objs o).state ∧ (t'.objs o).nextMarked = (t.objs o).nextMarked := by
  induction xs with
  | nil =>
      intro t ys cursor fuel destroyed _ owned _ chain back _ _
      obtain rfl : cursor = none := chain
      exact ⟨t, by cases fuel <;> rfl, owned, back, fun _ => ⟨rfl, rfl⟩, fun _ _ => ⟨rfl, rfl⟩⟩
  | cons o xs ih =>
      intro t ys cursor fuel destroyed enough owned nodup chain back states bounded
      obtain ⟨head, rest⟩ : cursor = some o ∧ Chain (fun o => (t.objs o).next) (t.objs o).next xs := chain
      subst head
      obtain ⟨fuel, rfl⟩ : ∃ n, fuel = n + 1 := Nat.exists_eq_add_one.mpr (by simp at enough; omega)
      obtain ⟨fresh, nodup'⟩ := List.nodup_cons.mp nodup
      have outside : o ∉ xs ∧ o ∉ ys := by simpa using fresh
      have live : (t.objs o).live = true := (owned.objLive o).mpr (by simp)
      have apart (x : Nat) (member : x ∈ xs ∨ x ∈ ys) : x ≠ o := by
        rintro rfl
        exact member.elim outside.1 outside.2
      have enough' : xs.length ≤ fuel := by simpa using enough
      have bounded' (x : Nat) (member : x ∈ xs) := bounded x (List.mem_cons_of_mem _ member)
      have states' (x : Nat) (member : x ∈ xs) := states x (List.mem_cons_of_mem _ member)
      by_cases keep : o ∈ done
      · -- the object is pushed back on the list
        have state : (t.objs o).state = .active := by rw [states o List.mem_cons_self, if_pos keep]
        let t₁ : Tracker :=
          { t with objs := modifyAt t.objs o fun obj => { obj with next := t.objects }, objects := some o }
        have others (x : Nat) (different : x ≠ o) : t₁.objs x = t.objs x := by
          simp [t₁, modifyAt, different]
        have kept' (x : Nat) : (t₁.objs x).live = (t.objs x).live ∧ (t₁.objs x).refHead = (t.objs x).refHead := by
          by_cases same : x = o <;> simp [t₁, modifyAt, same]
        have owned₁ : Owned t₁ (xs ++ o :: ys) R := by
          refine Owned.congr (owned.setObjs (some o) kept') (fun x => ?_) fun _ _ => rfl
          simp only [List.cons_append, List.mem_append, List.mem_cons]
          tauto
        have next : (t₁.objs o).next = t.objects := by simp [t₁, modifyAt]
        have back₁ : Chain (fun x => (t₁.objs x).next) t₁.objects (o :: ys) := by
          refine ⟨rfl, ?_⟩
          simp only [next]
          exact Chain.congr (fun x member => by rw [others x (apart x (Or.inr member))]) back
        obtain ⟨t', run, owned', list, refs, frame⟩ := ih t₁ (o :: ys) (t.objs o).next fuel destroyed enough' owned₁
          ((List.perm_middle.nodup_iff).mpr nodup)
          (Chain.congr (fun x member => by rw [others x (apart x (Or.inl member))]) rest) back₁
          (fun x member => by rw [others x (apart x (Or.inl member))]; exact states' x member) bounded'
        refine ⟨t', ?_, by simpa [keep] using owned', by simpa [keep] using list, refs, fun x away => ?_⟩
        · have notReleased : (t.objs o).state ≠ .unreachable := by simp [state]
          rw [Tracker.sweep, if_pos live]
          simp only [if_neg notReleased, if_pos state, Tracker.setObj_live live, Option.bind_eq_bind, Option.bind_some]
          simpa [keep] using run
        · have later : x ∉ xs ∨ x ∈ done := away.imp_left fun notMember inside => notMember (List.mem_cons_of_mem _ inside)
          have same : (t₁.objs x).state = (t.objs x).state ∧ (t₁.objs x).nextMarked = (t.objs x).nextMarked := by
            by_cases equal : x = o <;> simp [t₁, modifyAt, equal]
          exact ⟨(frame x later).1.trans same.1, (frame x later).2.trans same.2⟩
      · -- the object is released
        have state : (t.objs o).state = .unreachable := by rw [states o List.mem_cons_self, if_neg keep]
        obtain ⟨t₁, released, owned₁, others, objects, sameRefs⟩ :=
          owned.release (by simp) (bounded o List.mem_cons_self) (mem_rest_iff fresh)
        obtain ⟨t', run, owned', list, refs, frame⟩ := ih t₁ ys (t.objs o).next fuel (o :: destroyed) enough' owned₁ nodup'
          (Chain.congr (fun x member => by rw [others x (apart x (Or.inl member))]) rest)
          (by
            rw [objects]
            exact Chain.congr (fun x member => by rw [others x (apart x (Or.inr member))]) back)
          (fun x member => by rw [others x (apart x (Or.inl member))]; exact states' x member) bounded'
        refine ⟨t', ?_, by simpa [keep] using owned', by simpa [keep] using list,
          fun r => ⟨(refs r).1.trans (sameRefs r).1, (refs r).2.trans (sameRefs r).2⟩, fun x away => ?_⟩
        · rw [Tracker.sweep, if_pos live]
          simp only [if_pos state, released, Option.bind_eq_bind, Option.bind_some]
          simpa [keep] using run
        · have different : x ≠ o := by
            rintro rfl
            exact away.elim (fun notMember => notMember List.mem_cons_self) keep
          have later : x ∉ xs ∨ x ∈ done := away.imp_left fun notMember inside => notMember (List.mem_cons_of_mem _ inside)
          rw [← others x different]
          exact frame x later

end Sweep

structure Separated (t t' : Tracker) (L : List Nat) (R R' : Nat → List Nat) (done : List Nat) : Prop where
  owned : Owned t' L R'
  list : Chain (fun o => (t'.objs o).next) t'.objects L
  reach : ∀ o ∈ objectStackRoot :: L, o ∈ done ↔ Relation.ReflTransGen (Refers t R) objectStackRoot o
  refs : ∀ r, (t'.refs r).target = (t.refs r).target ∧ (t'.refs r).state = (t.refs r).state
  shorter : ∀ o, (R' o).length ≤ (R o).length
  active : ∀ o r, (t.refs r).state = .active → (r ∈ R' o ↔ r ∈ R o)
  state : ∀ o ∈ objectStackRoot :: L, (t'.objs o).state = if o ∈ done then .active else .unreachable
  rootMark : (t'.objs objectStackRoot).nextMarked = none

theorem Surveyed.separated {t t' : Tracker} {L done : List Nat} {R : Nat → List Nat} (surveyed : Surveyed t t' L R done) :
    Separated t t' L R (remaining t R done) done where
  owned := surveyed.heap.toStore.owned
  list := surveyed.heap.list
  reach := surveyed.reach
  refs := surveyed.refs
  shorter := by
    intro o
    unfold remaining
    split
    · rw [List.length_reverse]
      exact List.length_filter_le _ _
    · exact Nat.le_refl _
  active := by
    intro o r active
    unfold remaining
    split
    · simp [kept, active]
    · exact Iff.rfl
  state := surveyed.state
  rootMark := surveyed.rootMark

section Trace

variable {t : Tracker} {L : List Nat} {R : Nat → List Nat} (heap : Heap t L R)
  (rootMark : (t.objs objectStackRoot).nextMarked = none) {fuel : Nat}
  (enough : ∀ o ∈ objectStackRoot :: L, (R o).length ≤ fuel) (waves : 2 * (L.length + 1) ≤ fuel)

include heap rootMark enough waves

theorem trace_separates : ∃ t' R' done, t.trace fuel = some t' ∧ Separated t t' L R R' done := by
  obtain ⟨t', done, traced, surveyed⟩ := trace_spec heap rootMark fuel enough waves
  exact ⟨t', _, done, traced, surveyed.separated⟩

theorem Gc2.trace_separates : ∃ t' R' done, Gc2.trace t fuel = some t' ∧ Separated t t' L R R' done := by
  have known (o : Nat) (registered : o ∈ L) : o ∈ L ∧ (R o).length ≤ fuel :=
    ⟨registered, enough o (List.mem_cons_of_mem _ registered)⟩
  obtain ⟨t₁, R₁, cleaned, owned₁, clean⟩ :=
    Gc2.markUnreachable_spec fuel L t R t.objects fuel (by omega) heap.toStore.owned heap.list known
  let t₂ : Tracker := { t₁ with objs := modifyAt t₁.objs objectStackRoot fun obj => { obj with state := .marked } }
  have fixed (x : Nat) : (t₂.objs x).next = (t.objs x).next ∧ (t₂.objs x).nextMarked = (t.objs x).nextMarked ∧
      (t₂.objs x).state = if x = objectStackRoot then .marked else if x ∈ L then .unreachable else (t.objs x).state := by
    obtain ⟨next, -, nextMarked, state⟩ := clean.objs x
    by_cases same : x = objectStackRoot
    · subst same
      simp [t₂, modifyAt, next, nextMarked]
    · simp [t₂, modifyAt, same, next, nextMarked, state]
  have owned₂ : Owned t₂ L R₁ := owned₁.setObjs t₁.objects fun x => by
    by_cases same : x = objectStackRoot <;> simp [modifyAt, same]
  have edges (o p : Nat) : Refers t₂ R₁ o p ↔ Refers t R o p := by
    refine exists_congr fun r => ?_
    rw [show (t₂.refs r).state = (t.refs r).state from (clean.refs r).2,
      show (t₂.refs r).target = (t.refs r).target from (clean.refs r).1]
    constructor
    · rintro ⟨member, active, target⟩
      exact ⟨(clean.active o r active).mp member, active, target⟩
    · rintro ⟨member, active, target⟩
      exact ⟨(clean.active o r active).mpr member, active, target⟩
  have store₂ : Store t₂ L R₁ := by
    refine ⟨owned₂.rootNew, owned₂.objLive, owned₂.chain, owned₂.refLive, owned₂.apart, owned₂.states, ?_⟩
    intro o inside r member active p target
    rw [show (t₂.refs r).state = (t.refs r).state from (clean.refs r).2] at active
    rw [show (t₂.refs r).target = (t.refs r).target from (clean.refs r).1] at target
    exact heap.targets o inside r ((clean.active o r active).mp member) active p target
  have unseen (o : Nat) (registered : o ∈ L) : (t₂.objs o).state = .unreachable := by
    have different : o ≠ objectStackRoot := fun root => heap.rootNew (root ▸ registered)
    simp [fixed, different, registered]
  obtain ⟨t', done, marked, final⟩ := Gc2.mark_root store₂ ((fixed objectStackRoot).2.1.trans rootMark) (by simp [fixed])
    unseen (fun o inside => Nat.le_trans (clean.shorter o) (enough o inside)) waves
  obtain ⟨objs', rfl⟩ := final.frame
  have kept' (x : Nat) : (objs' x).live = (t₂.objs x).live ∧ (objs' x).refHead = (t₂.objs x).refHead :=
    ⟨(final.objs x).2.2.2, (final.objs x).2.2.1⟩
  refine ⟨_, R₁, done, ?_, owned₂.setObjs t₂.objects kept', ?_, fun o _ => ?_, clean.refs, clean.shorter, clean.active,
    fun o inside => final.state_eq inside, final.rootMark⟩
  · rw [Gc2.trace, cleaned, Option.bind_eq_bind, Option.bind_some]
    rw [Tracker.setObj_live ((owned₁.objLive _).mpr List.mem_cons_self), Option.bind_some]
    exact marked
  · rw [show t₂.objects = t.objects from clean.fields.1]
    exact Chain.congr (fun x _ => (final.objs x).1.trans (fixed x).1) heap.list
  · have same : Refers t₂ R₁ = Refers t R := by
      funext x y
      exact propext (edges x y)
    rw [final.reach_iff o, same]

end Trace

/-- The outcome of a collection: the registered objects are `survivors`, and `destroyed` are gone. -/
structure Collected (t t' : Tracker) (R : Nat → List Nat) (survivors : List Nat) (R' : Nat → List Nat) : Prop where
  heap : Heap t' survivors R'
  state : ∀ o ∈ objectStackRoot :: survivors, (t'.objs o).state = .active
  edges : ∀ o ∈ objectStackRoot :: survivors, ∀ p, Refers t' R' o p ↔ Refers t R o p
  rootMark : (t'.objs objectStackRoot).nextMarked = none

theorem Separated.collect {t t' : Tracker} {L : List Nat} {R R' : Nat → List Nat} {done : List Nat} (heap : Heap t L R)
    (separated : Separated t t' L R R' done) {fuel : Nat} (enough : ∀ o ∈ objectStackRoot :: L, (R o).length ≤ fuel)
    (long : L.length ≤ fuel) :
    ∃ t'', t'.collectObjects fuel = some (t'', (L.filter (· ∉ done)).reverse) ∧
      Collected t t'' R (L.filter (· ∈ done)).reverse R' ∧ ∀ o ∈ done, (t''.objs o).nextMarked = (t'.objs o).nextMarked := by
  have registered (o : Nat) (member : o ∈ L) := separated.state o (List.mem_cons_of_mem _ member)
  have bounded (o : Nat) (member : o ∈ L) : (R' o).length ≤ fuel :=
    Nat.le_trans (separated.shorter o) (enough o (List.mem_cons_of_mem _ member))
  have rootDone : objectStackRoot ∈ done := (separated.reach _ List.mem_cons_self).mpr .refl
  have owned : Owned { t' with objects := none } (L ++ []) R' := by
    rw [List.append_nil]
    exact separated.owned.setObjs none fun _ => ⟨rfl, rfl⟩
  obtain ⟨t'', run, owned', list, refs, frame⟩ := sweep_spec done fuel L { t' with objects := none } [] t'.objects fuel []
    long owned (by simpa using heap.list.nodup) separated.list rfl registered bounded
  rw [List.append_nil] at run owned' list
  have refs' (r : Nat) : (t''.refs r).target = (t.refs r).target ∧ (t''.refs r).state = (t.refs r).state :=
    ⟨(refs r).1.trans (separated.refs r).1, (refs r).2.trans (separated.refs r).2⟩
  have survives (o : Nat) (member : o ∈ objectStackRoot :: (L.filter (· ∈ done)).reverse) :
      o ∈ objectStackRoot :: L ∧ o ∈ done := by
    rcases List.mem_cons.mp member with rfl | inside
    · exact ⟨List.mem_cons_self, rootDone⟩
    · obtain ⟨known, isDone⟩ := List.mem_filter.mp (List.mem_reverse.mp inside)
      exact ⟨List.mem_cons_of_mem _ known, of_decide_eq_true isDone⟩
  have edges (o p : Nat) : Refers t'' R' o p ↔ Refers t R o p := by
    refine exists_congr fun r => ?_
    rw [(refs' r).1, (refs' r).2]
    constructor
    · rintro ⟨member, active, target⟩
      exact ⟨(separated.active o r active).mp member, active, target⟩
    · rintro ⟨member, active, target⟩
      exact ⟨(separated.active o r active).mpr member, active, target⟩
  refine ⟨t'', run, ⟨⟨⟨owned'.rootNew, owned'.objLive, owned'.chain, owned'.refLive, owned'.apart, owned'.states, ?_⟩,
    list⟩, ?_, fun o _ p => edges o p, ?_⟩, fun o isDone => (frame o (Or.inr isDone)).2⟩
  · -- what a survivor refers to is reached as well
    intro o member r inside active p target
    obtain ⟨known, isDone⟩ := survives o member
    obtain ⟨r', inside', active', target'⟩ := (edges o p).mp ⟨r, inside, active, target⟩
    have registered := heap.targets o known r' inside' active' p target'
    have reached := ((separated.reach o known).mp isDone).tail ⟨r', inside', active', target'⟩
    have isDone' := (separated.reach p (List.mem_cons_of_mem _ registered)).mpr reached
    exact List.mem_reverse.mpr (List.mem_filter.mpr ⟨registered, decide_eq_true isDone'⟩)
  · intro o member
    obtain ⟨known, isDone⟩ := survives o member
    rw [(frame o (Or.inr isDone)).1]
    exact (separated.state o known).trans (if_pos isDone)
  · exact (frame objectStackRoot (Or.inr rootDone)).2.trans separated.rootMark

theorem Separated.destroyed_iff {t t' : Tracker} {L : List Nat} {R R' : Nat → List Nat} {done : List Nat}
    (separated : Separated t t' L R R' done) (o : Nat) :
    o ∈ (L.filter (· ∉ done)).reverse ↔ o ∈ L ∧ ¬ Relation.ReflTransGen (Refers t R) objectStackRoot o := by
  rw [List.mem_reverse, List.mem_filter]
  refine and_congr_right fun member => ?_
  rw [decide_eq_true_iff, separated.reach o (List.mem_cons_of_mem _ member)]

theorem parted_perm (L done : List Nat) : ((L.filter (· ∉ done)).reverse ++ (L.filter (· ∈ done)).reverse).Perm L := by
  refine ((List.reverse_perm _).append (List.reverse_perm _)).trans (List.perm_append_comm.trans ?_)
  have split := List.filter_append_perm (fun o => decide (o ∈ done)) L
  simpa using split

theorem enough_fuel (L : List Nat) (R : Nat → List Nat) :
    ∃ bound, ∀ fuel ≥ bound, (∀ o ∈ objectStackRoot :: L, (R o).length ≤ fuel) ∧ 2 * (L.length + 1) ≤ fuel := by
  refine ⟨((objectStackRoot :: L).map fun o => (R o).length).sum + 2 * (L.length + 1), fun fuel large => ?_⟩
  refine ⟨fun o inside => ?_, by omega⟩
  have summand : (R o).length ≤ ((objectStackRoot :: L).map fun o => (R o).length).sum :=
    List.le_sum_of_mem (List.mem_map_of_mem inside)
  omega

/-- From every heap both collectors return, having destroyed the objects that the root does not
reach, and leave the others active, in heaps with the same references between them. -/
theorem collectors_agree {t : Tracker} {L : List Nat} {R : Nat → List Nat} (heap : Heap t L R)
    (rootMark : (t.objs objectStackRoot).nextMarked = none) :
    ∃ bound, ∀ fuel ≥ bound, ∃ t₁ t₂ destroyed survivors R₁ R₂,
      t.collect fuel = some (t₁, destroyed) ∧ Gc2.collect t fuel = some (t₂, destroyed) ∧
      (∀ o, o ∈ destroyed ↔ o ∈ L ∧ ¬ Relation.ReflTransGen (Refers t R) objectStackRoot o) ∧
      (destroyed ++ survivors).Perm L ∧ Collected t t₁ R survivors R₁ ∧ Collected t t₂ R survivors R₂ := by
  obtain ⟨bound, ample⟩ := enough_fuel L R
  refine ⟨bound, fun fuel large => ?_⟩
  obtain ⟨enough, waves⟩ := ample fuel large
  obtain ⟨t', R₁, done, traced, separated⟩ := trace_separates heap rootMark enough waves
  obtain ⟨t'', R₂, done', traced', separated'⟩ := Gc2.trace_separates heap rootMark enough waves
  have same (o : Nat) (member : o ∈ L) : o ∈ done' ↔ o ∈ done := by
    have inside : o ∈ objectStackRoot :: L := List.mem_cons_of_mem _ member
    rw [separated.reach o inside, separated'.reach o inside]
  obtain ⟨t₁, run, collected, -⟩ := separated.collect heap enough (by omega)
  obtain ⟨t₂, run', collected', -⟩ := separated'.collect heap enough (by omega)
  have filters : L.filter (· ∈ done') = L.filter (· ∈ done) :=
    List.filter_congr fun o member => by simp [same o member]
  have filters' : L.filter (· ∉ done') = L.filter (· ∉ done) :=
    List.filter_congr fun o member => by simp [same o member]
  rw [filters] at collected'
  rw [filters'] at run'
  refine ⟨t₁, t₂, (L.filter (· ∉ done)).reverse, (L.filter (· ∈ done)).reverse, R₁, R₂, ?_, ?_, separated.destroyed_iff,
    parted_perm L done, collected, collected'⟩
  · rw [Tracker.collect, traced]
    exact run
  · rw [Gc2.collect, traced']
    exact run'

def pairHeap : Tracker where
  refs := fun r => { next := none, target := some 1, state := .active, live := r = 3 }
  objs := fun o =>
    { next := if o = 1 then some 2 else none
      nextMarked := if o = 0 then none else some 1
      payload := none
      state := .marked
      refHead := if o = 0 then some 3 else none
      live := o ≤ 2 }
  objects := some 1
  objectStackHead := none
  fresh := 4

def pairRefs (o : Nat) : List Nat := if o = 0 then [3] else []

theorem pairHeap_heap : Heap pairHeap [1, 2] pairRefs := by
  have owners (o r : Nat) (member : r ∈ pairRefs o) : o = 0 ∧ r = 3 := by
    unfold pairRefs at member
    split at member
    case isTrue root => exact ⟨root, List.mem_singleton.mp member⟩
    case isFalse => exact absurd member List.not_mem_nil
  refine ⟨⟨by decide, fun o => ?_, fun o _ => ?_, fun r => ?_, ?_, ?_, ?_⟩, by decide⟩
  · simp only [pairHeap, decide_eq_true_eq, objectStackRoot, List.mem_cons, List.not_mem_nil, or_false]
    omega
  · by_cases root : o = 0 <;> simp [pairHeap, pairRefs, root, Tracker.RefChain]
  · simp only [pairHeap, decide_eq_true_eq]
    constructor
    · rintro rfl
      exact ⟨0, List.mem_cons_self, List.mem_singleton.mpr rfl⟩
    · rintro ⟨o, -, member⟩
      exact (owners o r member).2
  · exact fun o _ p _ r member member' => (owners o r member).1.trans (owners p r member').1.symm
  · exact fun _ _ _ _ impossible => TrackingState.noConfusion impossible
  · intro o _ r _ _ p target
    obtain rfl := Option.some.inj target
    exact List.mem_cons_self

theorem collectors_agree_pair :
    ∃ bound, ∀ fuel ≥ bound, ∃ t₁ t₂ destroyed, pairHeap.collect fuel = some (t₁, destroyed) ∧
      Gc2.collect pairHeap fuel = some (t₂, destroyed) ∧ ∀ o ∈ destroyed, o = 1 ∨ o = 2 := by
  obtain ⟨bound, agree⟩ := collectors_agree pairHeap_heap rfl
  refine ⟨bound, fun fuel large => ?_⟩
  obtain ⟨t₁, t₂, destroyed, survivors, R₁, R₂, run, run', gone, -⟩ := agree fuel large
  exact ⟨t₁, t₂, destroyed, run, run', fun o member => by simpa using ((gone o).mp member).1⟩

end PrototypeBundle.Tracing
