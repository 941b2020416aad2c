import PrototypeBundle.Tracing.Runs
import PrototypeBundle.Tracing.Gc2

set_option autoImplicit false

namespace PrototypeBundle.Tracing

open Memory Intrusive

variable {w w' : World} {L : List Nat} {R : Nat → List Nat}

def World.Dereferenced (w : World) (r : Nat) : Prop :=
  (w.tracker.refs r).live = true ∧ (w.tracker.refs r).state = .unreachable

def World.Linked (w : World) (o r : Nat) : Prop :=
  ∃ xs, w.tracker.RefChain (w.tracker.objs o).refHead xs ∧ r ∈ xs

/-- No list of the root or of an object that is left in `w'` has a record that was dereferenced in `w`. -/
def Purged (w w' : World) : Prop :=
  ∀ r, w.Dereferenced r → ∀ o, (w'.tracker.objs o).live = true → ¬ w'.Linked o r

def Purging (step : World → Op → Option World) (w : World) (op : Op) : Prop :=
  op = .collect → ∃ w', step w op = some w' ∧ Purged w w'

theorem Inv.linked_iff (inv : Inv w L R) {o r : Nat} (inside : o ∈ objectStackRoot :: L) : w.Linked o r ↔ r ∈ R o := by
  constructor
  · rintro ⟨xs, chain, member⟩
    rwa [Chain.unique chain (inv.store.chain o inside)] at member
  · exact fun member => ⟨R o, inv.store.chain o inside, member⟩

theorem collect_purged (inv : Inv w L R) : ∃ w', w.collect = some w' ∧ Purged w w' := by
  obtain ⟨w', done, run, inv', rootDone, -⟩ := collect_spec inv
  refine ⟨w', run, ?_⟩
  rintro r ⟨-, unreachable⟩ o live linked
  have inside := (inv'.store.objLive o).mp live
  rw [inv'.linked_iff inside] at linked
  rcases List.mem_cons.mp inside with rfl | registered
  · -- tracing the root has put its active records back
    rw [remaining, if_pos rootDone, List.mem_reverse, List.mem_filter] at linked
    simp [kept, unreachable] at linked
  · rw [inv'.alone o registered] at linked
    exact List.not_mem_nil linked

theorem Program.purging {ops : List Op} (program : Program ops) :
    Runs.Along World.step (Purging World.step) start ops := by
  have same (w : World) (op : Op) (holds : ∃ L R, Inv w L R) (_ : Enabled w op) : Purging World.step w op ↔ True := by
    obtain ⟨L, R, inv⟩ := holds
    refine iff_true_intro ?_
    rintro rfl
    exact collect_purged inv
  have preserved := Runs.preserved_of_taken step_taken
  exact (Runs.Along.congr _ preserved same program ⟨[], _, start_inv⟩).mpr (Runs.Along.trivial ..)

namespace Gc2

-- `collect ()` on the registered thread, as `World.collect`.
def collectWorld (w : World) : Option World := do
  let fuel := w.tracker.fresh
  let tracker ← trace w.tracker (2 * fuel)
  let detached := tracker.objects
  World.collectObjects fuel fuel detached { w with tracker := { tracker with objects := none } }

def step (w : World) : Op → Option World
  | .collect => collectWorld w
  | op => w.step op

def Program (ops : List Op) : Prop := Runs.Along step Enabled start ops

theorem markUnreachable_empty (length : Nat) (xs : List Nat) :
    ∀ (t : Tracker) (cursor : Option Nat) (fuel : Nat), Chain (fun o => (t.objs o).next) cursor xs →
      (∀ o ∈ xs, (t.objs o).live = true ∧ (t.objs o).refHead = none) →
      markUnreachable length fuel cursor t = t.markUnreachable fuel cursor := by
  induction xs with
  | nil =>
      intro t cursor fuel chain _
      obtain rfl : cursor = none := chain
      cases fuel <;> rfl
  | cons o xs ih =>
      intro t cursor fuel chain empty
      obtain ⟨head, rest⟩ : cursor = some o ∧ Chain (fun o => (t.objs o).next) (t.objs o).next xs := chain
      subst head
      cases fuel with
      | zero => rfl
      | succ fuel =>
          obtain ⟨live, none'⟩ := empty o List.mem_cons_self
          let t₁ : Tracker := { t with objs := modifyAt t.objs o fun obj => { obj with state := .unreachable } }
          have fixed (x : Nat) : (t₁.objs x).next = (t.objs x).next ∧ (t₁.objs x).live = (t.objs x).live ∧
              (t₁.objs x).refHead = (t.objs x).refHead := by
            by_cases same : x = o <;> simp [t₁, modifyAt, same]
          have cleaned : atomicCollectRefs t₁ true o length = some t₁ :=
            listCollectRefs_empty ((fixed o).2.1.trans live) ((fixed o).2.2.trans none') true length
          have rest₁ : Chain (fun x => (t₁.objs x).next) (t₁.objs o).next xs := by
            rw [(fixed o).1]
            exact Chain.congr (fun x _ => (fixed x).1) rest
          have later := ih t₁ (t₁.objs o).next fuel rest₁ fun x member =>
            ⟨(fixed x).2.1.trans (empty x (List.mem_cons_of_mem _ member)).1,
              (fixed x).2.2.trans (empty x (List.mem_cons_of_mem _ member)).2⟩
          rw [markUnreachable, Tracker.markUnreachable, Tracker.setObj_live live, Option.bind_eq_bind, Option.bind_some,
            cleaned, Option.bind_some]
          exact later

structure Coloured (w : World) (objs' : Nat → Object) (L : List Nat) (R : Nat → List Nat) (done : List Nat) : Prop where
  same : ∀ x, (objs' x).next = (w.tracker.objs x).next ∧ (objs' x).live = (w.tracker.objs x).live ∧
    (objs' x).refHead = (w.tracker.objs x).refHead ∧ (objs' x).payload = (w.tracker.objs x).payload
  rootMark : (objs' objectStackRoot).nextMarked = none
  state : ∀ o ∈ L, (objs' o).state = if o ∈ done then .active else .unreachable
  aimed : ∀ o, Refers w.tracker R objectStackRoot o → o ∈ done

theorem trace_coloured (inv : Inv w L R) :
    ∃ objs' done, trace w.tracker (2 * w.tracker.fresh) = some { w.tracker with objs := objs' } ∧
      Coloured w objs' L R done := by
  have objects := inv.objects_le
  have live (o : Nat) (registered : o ∈ L) : (w.tracker.objs o).live = true :=
    (inv.store.objLive o).mpr (List.mem_cons_of_mem _ registered)
  obtain ⟨objs₁, unmarked, changed⟩ :=
    Tracing.markUnreachable_spec L w.tracker w.tracker.objects (2 * w.tracker.fresh) (by omega) inv.list live
  rw [← markUnreachable_empty (2 * w.tracker.fresh) L _ _ _ inv.list fun o registered =>
    ⟨live o registered, inv.refHead_none registered⟩] at unmarked
  let objs₂ := modifyAt objs₁ objectStackRoot fun obj => { obj with state := .marked }
  have colour (x : Nat) : objs₂ x = { w.tracker.objs x with state := (objs₂ x).state } ∧
      (objs₂ x).state = if x = objectStackRoot then .marked else if x ∈ L then .unreachable else (w.tracker.objs x).state := by
    by_cases root : x = objectStackRoot <;> simp [objs₂, modifyAt, root, changed]
  have inv₂ := inv.recolor (fun x => (colour x).1) w.tracker.objectStackHead inv.head
  have unseen (o : Nat) (registered : o ∈ L) : (objs₂ o).state = .unreachable := by
    have different : o ≠ objectStackRoot := fun root => inv.store.rootNew (root ▸ registered)
    rw [(colour o).2, if_neg different, if_pos registered]
  obtain ⟨t', done, marked, final⟩ := mark_root inv₂.store inv₂.rootMark ((colour objectStackRoot).2.trans (if_pos rfl)) unseen
    inv₂.refs_le (by simp only; omega)
  obtain ⟨objs', rfl⟩ := final.frame
  have rootLive : (objs₁ objectStackRoot).live = true := by
    rw [changed]
    exact (inv.store.objLive _).mpr List.mem_cons_self
  refine ⟨objs', done, ?_, fun x => ?_, final.rootMark, fun o registered => final.state_eq (List.mem_cons_of_mem _ registered),
    fun o edge => (final.reach_iff o).mpr (.single edge)⟩
  · rw [trace, unmarked, Option.bind_eq_bind, Option.bind_some, Tracker.setObj_live rootLive, Option.bind_some]
    exact marked
  · obtain ⟨next, payload, refHead, live⟩ := final.objs x
    have before : (objs₂ x).next = (w.tracker.objs x).next ∧ (objs₂ x).live = (w.tracker.objs x).live ∧
        (objs₂ x).refHead = (w.tracker.objs x).refHead ∧ (objs₂ x).payload = (w.tracker.objs x).payload := by
      rw [(colour x).1]
      exact ⟨rfl, rfl, rfl, rfl⟩
    exact ⟨next.trans before.1, live.trans before.2.1, refHead.trans before.2.2.1, payload.trans before.2.2.2⟩

theorem collectWorld_spec (inv : Inv w L R) : ∃ w' L', collectWorld w = some w' ∧ Inv w' L' R := by
  obtain ⟨objs', done, traced, coloured⟩ := trace_coloured inv
  have detached : Chain (fun o => (objs' o).next) w.tracker.objects L :=
    Chain.congr (fun x _ => (coloured.same x).1) inv.list
  have core := inv.toCore.setObjs none (fun x => (coloured.same x).2) coloured.rootMark
  obtain ⟨w', swept, inv', -⟩ := collectObjects_spec done w.tracker.fresh L
    { w with tracker := { w.tracker with objs := objs', objects := none } } [] w.tracker.objects w.tracker.fresh
    (Nat.le_of_succ_le inv.objects_le) (by simpa using core) inv.housed (by simpa using inv.list.nodup) detached rfl
    coloured.state (fun r member active o target => coloured.aimed o ⟨r, member, active, target⟩)
  refine ⟨w', _, ?_, inv'⟩
  rw [collectWorld, traced]
  exact swept

theorem purged_iff (inv : Inv w L R) : ∃ w', collectWorld w = some w' ∧ (Purged w w' ↔ ∀ r, ¬ w.Dereferenced r) := by
  obtain ⟨w', L', run, inv'⟩ := collectWorld_spec inv
  refine ⟨w', run, ?_, fun none' r dereferenced => absurd dereferenced (none' r)⟩
  intro purged r dereferenced
  obtain ⟨o, inside, member⟩ := (inv.store.refLive r).mp dereferenced.1
  -- every record is on the list of the root
  have root : o = objectStackRoot := by
    refine (List.mem_cons.mp inside).resolve_right fun registered => ?_
    rw [inv.alone o registered] at member
    exact List.not_mem_nil member
  subst root
  exact purged r dereferenced objectStackRoot ((inv'.store.objLive _).mpr List.mem_cons_self)
    ((inv'.linked_iff List.mem_cons_self).mpr member)

theorem step_taken (w : World) (op : Op) (holds : ∃ L R, Inv w L R) (enabled : Enabled w op) :
    ∃ w', step w op = some w' ∧ ∃ L R, Inv w' L R := by
  cases op with
  | collect =>
      obtain ⟨L, R, inv⟩ := holds
      obtain ⟨w', L', run, inv'⟩ := collectWorld_spec inv
      exact ⟨w', run, L', R, inv'⟩
  | _ => exact Tracing.step_taken w _ holds enabled

def NothingDereferenced (w : World) (op : Op) : Prop := op = .collect → ∀ r, ¬ w.Dereferenced r

/-- The program does not fail, and its collections purge the lists just where nothing is to be purged. -/
theorem purging_iff {ops : List Op} (program : Program ops) :
    (∃ w, Runs.exec step start ops = some w) ∧
      (Runs.Along step (Purging step) start ops ↔ Runs.Along step NothingDereferenced start ops) := by
  have same (w : World) (op : Op) (holds : ∃ L R, Inv w L R) (_ : Enabled w op) : Purging step w op ↔ NothingDereferenced w op := by
    obtain ⟨L, R, inv⟩ := holds
    refine forall_congr' fun collects => ?_
    subst collects
    obtain ⟨w', run, purged⟩ := purged_iff inv
    constructor
    · rintro ⟨w'', run', cleaned⟩
      obtain rfl := Option.some.inj (run.symm.trans run')
      exact purged.mp cleaned
    · exact fun none' => ⟨w', run, purged.mpr none'⟩
  have initial : ∃ L R, Inv start L R := ⟨[], _, start_inv⟩
  obtain ⟨w, run, -⟩ := Runs.Along.progress _ step_taken program initial
  exact ⟨⟨w, run⟩, Runs.Along.congr _ (Runs.preserved_of_taken step_taken) same program initial⟩

def drop : List Op := [.makeGc 0 [], .destroy 0]

theorem drop_run : Program (drop ++ [.collect]) ∧ ∃ w, Runs.exec step start drop = some w ∧ w.Dereferenced 3 := by
  refine ⟨?_, _, rfl, rfl, rfl⟩
  refine Runs.Along.cons ⟨rfl, List.nodup_nil, by simp⟩ rfl (Runs.Along.cons ⟨rfl, ?_⟩ rfl (Runs.Along.cons True.intro rfl True.intro))
  rintro ⟨payload, members, known, inside⟩
  change Function.update (fun _ : Nat => (none : Option (List Nat))) 1 (some []) payload = some members at known
  by_cases same : payload = 1
  · subst same
    rw [Function.update_self, Option.some.injEq] at known
    simp [← known] at inside
  · rw [Function.update_of_ne same] at known
    cases known

theorem purging_iff_drop :
    (∃ w, Runs.exec step start (drop ++ [.collect]) = some w) ∧
      (Runs.Along step (Purging step) start (drop ++ [.collect]) ↔
        Runs.Along step NothingDereferenced start (drop ++ [.collect])) := purging_iff drop_run.1

theorem drop_unpurged : ¬ ∀ ops, Program ops → Runs.Along step (Purging step) start ops := by
  intro purging
  obtain ⟨program, w, run, dereferenced⟩ := drop_run
  obtain ⟨-, last⟩ := Runs.along_append (purging _ program) run
  obtain ⟨w', collected, purged⟩ := last.1 rfl
  obtain ⟨before, -⟩ := Runs.along_append program run
  obtain ⟨_, run', L, R, inv⟩ := Runs.Along.progress _ step_taken before ⟨[], _, start_inv⟩
  obtain rfl := Option.some.inj (run.symm.trans run')
  obtain ⟨_, collected', exact'⟩ := purged_iff inv
  obtain rfl := Option.some.inj (collected.symm.trans collected')
  exact exact'.mp purged 3 dereferenced

end Gc2

end PrototypeBundle.Tracing
