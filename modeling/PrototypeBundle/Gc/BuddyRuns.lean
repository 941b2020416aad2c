import PrototypeBundle.Gc.BuddyPointer
import PrototypeBundle.Gc.Registration

set_option autoImplicit false

namespace PrototypeBundle.Gc

open Memory

/-- Every live pointer to an object has one node in the chain of its root, null ones have
none, and the chains hold no other node. -/
structure Accounted (s : GcRun) (objects : List Nat) (refs : Nat → List Nat) : Prop where
  list : IsList s.service.table.nodes s.service.table.objects objects
  chain : ∀ o ∈ s.service.table.root :: objects,
    IsList s.service.table.nodes (s.service.table.nodes o).val.word (refs o)
  held : ∀ p g obj, s.pointers p = some g → g.obj = some obj → ∃ ref, g.ref = some ref ∧
    g.root ∈ s.service.table.root :: objects ∧ ref ∈ refs g.root ∧
      (s.service.table.nodes ref).val.word = some obj
  null : ∀ p g, s.pointers p = some g → g.obj = none → g.ref = none
  owned : ∀ o ∈ s.service.table.root :: objects, ∀ ref ∈ refs o, ∃! p, ∃ g obj, s.pointers p = some g ∧
    g.root = o ∧ g.ref = some ref ∧ g.obj = some obj ∧ (s.service.table.nodes ref).val.word = some obj

/-- After an assignment its left operand refers to what the right one referred to before. -/
def Assigned (s : GcRun) (op : BuddyOp) (next : GcRun) : Prop :=
  match op with
  | .copyAssign p v => next.obj p = s.obj v
  | .moveAssign p v => next.obj p = s.obj v
  | _ => True

def Kept (s : GcRun) (op : BuddyOp) : Prop :=
  ∀ next, s.buddyStep op = some next → Assigned s op next ∧ ∃ objects refs, Accounted next objects refs

/-- No pointer to an object is assigned to itself, and `as` is not called on a null one. -/
def Distinct (s : GcRun) : BuddyOp → Prop
  | .copyAssign p v => p = v → s.obj p = none
  | .moveAssign p v => p = v → s.obj p = none
  | .as p v => s.pointers p = none → ∀ source, s.pointers v = some source → source.obj ≠ none
  | _ => True

def Agree (pointers : Nat → Option GcBuddy) : Prop := ∀ p g, pointers p = some g → g.ref.isSome = g.obj.isSome

structure BuddyInv (s : GcRun) (objects : List Nat) (refs : Nat → List Nat) : Prop where
  inv : Inv s objects refs
  agree : Agree s.pointers

theorem Agree.update {pointers : Nat → Option GcBuddy} (agree : Agree pointers) (p : Nat) {new : Option GcBuddy}
    (same : ∀ g, new = some g → g.ref.isSome = g.obj.isSome) : Agree (Function.update pointers p new) := by
  intro q g found
  by_cases equal : q = p
  · subst equal
    rw [Function.update_self] at found
    exact same g found
  · rw [Function.update_of_ne equal] at found
    exact agree q g found

theorem BuddyInv.accounted {s : GcRun} {objects : List Nat} {refs : Nat → List Nat}
    (kept : BuddyInv s objects refs) : Accounted s objects refs := by
  obtain ⟨⟨⟨free, table, active⟩, known, frames⟩, agree⟩ := kept
  refine ⟨table.list, table.chain, ?_, ?_, ?_⟩
  · intro p g obj found aimed
    have linked := agree p g found
    rw [aimed] at linked
    obtain ⟨ref, holds⟩ := Option.isSome_iff_exists.mp linked
    obtain ⟨inside, word⟩ := known.linked p g ref found holds
    exact ⟨ref, holds, known.roots p g found, inside, word.trans aimed⟩
  · intro p g found aimed
    have linked := agree p g found
    rw [aimed] at linked
    exact Option.isSome_eq_false_iff.mp linked |> Option.isNone_iff_eq_none.mp
  · intro o owner ref inside
    obtain ⟨p, g, found, holds⟩ := known.owned o owner ref inside
    obtain ⟨placed, word⟩ := known.linked p g ref found holds
    have root : g.root = o := table.apart g.root (known.roots p g found) o owner ref placed inside
    have linked := agree p g found
    rw [holds] at linked
    obtain ⟨obj, aimed⟩ := Option.isSome_iff_exists.mp linked.symm
    refine ⟨p, ⟨g, obj, found, root, holds, aimed, word.trans aimed⟩, ?_⟩
    rintro q ⟨h, _, foundQ, _, holdsQ, -⟩
    exact known.once q p h g ref foundQ found holdsQ holds

section Steps

variable {s : GcRun} {objects : List Nat} {refs : Nat → List Nat} {p v : Nat} {g source : GcBuddy}

theorem unlink_inv (inv : Inv s objects refs) (found : s.pointers p = some g) :
    ∃ refs', Inv (s.unlink p) objects refs' ∧
      (s.unlink p).pointers = Function.update s.pointers p (some { g with ref := none }) := by
  obtain ⟨⟨free, ok⟩, known, frames⟩ := inv
  obtain ⟨refs', free', ok', root, -, known'⟩ := delRef_spec ok known found
  have shape : s.unlink p = s.put p (some { g with ref := none }) (g.unregister s.service) := by
    simp only [GcRun.unlink, found]
  rw [shape]
  refine ⟨refs', ⟨⟨free', ok'⟩, known', ?_⟩, rfl⟩
  simpa only [GcRun.put, root] using frames

theorem modify_inv (inv : Inv s objects refs) (found : s.pointers p = some g) (blank : g.ref = none)
    (change : GcBuddy → GcBuddy) (stays : (change g).ref = none) (root : (change g).root = g.root) :
    Inv (s.modify p change) objects refs ∧
      (s.modify p change).pointers = Function.update s.pointers p (some (change g)) := by
  obtain ⟨ok, known, frames⟩ := inv
  have shape : s.modify p change = { s with pointers := Function.update s.pointers p (some (change g)) } := by
    simp only [GcRun.modify, found, Option.map_some]
  rw [shape]
  refine ⟨⟨ok, known.setUnlinked p _ ?_ ?_ ?_, frames⟩, rfl⟩
  · intro h again
    exact Option.some.inj (found.symm.trans again) ▸ blank
  · rintro h ⟨⟩
    exact stays
  · rintro h ⟨⟩
    exact root ▸ known.roots p g found

theorem link_inv (inv : Inv s objects refs) (found : s.pointers p = some g) (blank : g.ref = none) :
    ∃ ref next refs', s.link p = some next ∧ Inv next objects refs' ∧
      next.pointers = Function.update s.pointers p (some { g with ref := some ref }) := by
  obtain ⟨⟨free, ok⟩, known, frames⟩ := inv
  obtain ⟨ref, service, refs', free', added, ok', root, -, known'⟩ :=
    regRef_spec ok known (p := p) (fun h again => Option.some.inj (found.symm.trans again) ▸ blank)
      (known.roots p g found) g.obj
  refine ⟨ref, s.put p (some { g with ref := some ref }) service, refs',
    by simp only [GcRun.link, found, added, Option.map_some], ⟨⟨free', ok'⟩, known', ?_⟩, rfl⟩
  simpa only [GcRun.put, root] using frames

theorem linkObj_inv (inv : Inv s objects refs) (found : s.pointers p = some g) (blank : g.ref = none) :
    ∃ ref next refs', s.linkObj p = some next ∧ Inv next objects refs' ∧
      next.pointers = Function.update s.pointers p (some { g with ref }) ∧ ref.isSome = g.obj.isSome := by
  have known : s.obj p = g.obj := by simp [GcRun.obj, found]
  unfold GcRun.linkObj
  cases aimed : s.obj p with
  | none =>
      have same : ({ g with ref := none } : GcBuddy) = g := by rw [← blank]
      refine ⟨none, s, refs, rfl, inv, by rw [same, ← found, Function.update_eq_self], ?_⟩
      rw [← known, aimed]
  | some obj =>
      obtain ⟨ref, next, refs', linked, inv', pointers⟩ := link_inv inv found blank
      refine ⟨some ref, next, refs', linked, inv', pointers, ?_⟩
      rw [← known, aimed]
      rfl

theorem copy_inv (inv : Inv s objects refs) (foundP : s.pointers p = some g) (foundV : s.pointers v = some source)
    (linked : source.ref.isSome = source.obj.isSome) (distinct : p = v → source.obj = none) :
    ∃ ref next refs', s.copy p v = some next ∧ Inv next objects refs' ∧
      next.pointers = Function.update s.pointers p (some { g with obj := source.obj, ref }) ∧
      ref.isSome = source.obj.isSome := by
  obtain ⟨refs₁, inv₁, pointers₁⟩ := unlink_inv inv foundP
  have foundP₁ : (s.unlink p).pointers p = some { g with ref := none } := by rw [pointers₁, Function.update_self]
  have refV : (s.unlink p).ref v = source.ref := by
    by_cases same : p = v
    · subst same
      have null := distinct rfl
      rw [null] at linked
      rw [GcRun.ref, foundP₁]
      exact (Option.isNone_iff_eq_none.mp (Option.isSome_eq_false_iff.mp linked)).symm
    · rw [GcRun.ref, pointers₁, Function.update_of_ne (Ne.symm same), foundV, Option.bind_some]
  unfold GcRun.copy
  simp only [refV]
  cases aimed : source.obj with
  | none =>
      rw [aimed] at linked
      rw [Option.isNone_iff_eq_none.mp (Option.isSome_eq_false_iff.mp linked)]
      obtain ⟨inv₂, pointers₂⟩ := modify_inv inv₁ foundP₁ rfl (fun g => { g with obj := none, ref := none })
        rfl rfl
      exact ⟨none, _, refs₁, rfl, inv₂, by rw [pointers₂, pointers₁, Function.update_idem], rfl⟩
  | some obj =>
      rw [aimed] at linked distinct
      obtain ⟨ref, holds⟩ := Option.isSome_iff_exists.mp linked
      have apart : v ≠ p := fun same => absurd (distinct same.symm) (by simp)
      have objV : (s.unlink p).obj v = some obj := by
        rw [GcRun.obj, pointers₁, Function.update_of_ne apart, foundV, Option.bind_some, aimed]
      simp only [holds, objV]
      obtain ⟨inv₂, pointers₂⟩ := modify_inv inv₁ foundP₁ rfl (fun g => { g with obj := some obj }) rfl rfl
      obtain ⟨ref', next, refs', done, inv₃, pointers₃⟩ :=
        link_inv inv₂ (by rw [pointers₂, Function.update_self]) rfl
      refine ⟨some ref', next, refs', done, inv₃, ?_, rfl⟩
      rw [pointers₃, pointers₂, Function.update_idem, pointers₁, Function.update_idem]

theorem swap_null (inv : Inv s objects refs) (found : s.pointers p = some g) (null : g.obj = none)
    (blank : g.ref = none) : ∃ next refs', s.swap p p = some next ∧ Inv next objects refs' ∧ next.pointers = s.pointers := by
  have cleared : ({ g with ref := none } : GcBuddy) = g := by rw [← blank]
  have emptied : ({ g with obj := none } : GcBuddy) = g := by rw [← null]
  obtain ⟨refs₁, inv₁, pointers₁⟩ := unlink_inv inv found
  rw [cleared, ← found, Function.update_eq_self] at pointers₁
  obtain ⟨refs₂, inv₂, pointers₂⟩ := unlink_inv inv₁ (pointers₁ ▸ found)
  rw [cleared, ← found, ← pointers₁, Function.update_eq_self, pointers₁] at pointers₂
  have obj₂ : ((s.unlink p).unlink p).obj p = none := by simp [GcRun.obj, pointers₂, found, null]
  obtain ⟨inv₃, pointers₃⟩ := modify_inv inv₂ (pointers₂ ▸ found) blank (fun g => { g with obj := none })
    blank rfl
  rw [emptied, pointers₂, ← found, Function.update_eq_self] at pointers₃
  obtain ⟨inv₄, pointers₄⟩ := modify_inv inv₃ (pointers₃ ▸ found) blank (fun g => { g with obj := none })
    blank rfl
  rw [emptied, pointers₃, ← found, Function.update_eq_self] at pointers₄
  refine ⟨_, refs₂, ?_, inv₄, pointers₄⟩
  have linked (t : GcRun) (same : t.pointers = s.pointers) : t.linkObj p = some t := by
    simp [GcRun.linkObj, GcRun.obj, same, found, null]
  have swapped : s.swap p p = ((((s.unlink p).unlink p).swapObj p p).linkObj p).bind fun t => t.linkObj p := rfl
  rw [swapped, GcRun.swapObj, obj₂, linked _ pointers₄, Option.bind_some, linked _ pointers₄]

theorem swap_inv (inv : Inv s objects refs) (foundP : s.pointers p = some g) (foundV : s.pointers v = some source)
    (distinct : p ≠ v) :
    ∃ refP refV next refs', s.swap p v = some next ∧ Inv next objects refs' ∧
      next.pointers = Function.update (Function.update s.pointers p (some { g with obj := source.obj, ref := refP })) v
        (some { source with obj := g.obj, ref := refV }) ∧
      refP.isSome = source.obj.isSome ∧ refV.isSome = g.obj.isSome := by
  obtain ⟨refs₁, inv₁, pointers₁⟩ := unlink_inv inv foundP
  obtain ⟨refs₂, inv₂, pointers₂⟩ := unlink_inv (p := v) (g := source) inv₁ (by
    rw [pointers₁, Function.update_of_ne distinct.symm, foundV])
  rw [pointers₁] at pointers₂
  have objP : ((s.unlink p).unlink v).obj p = g.obj := by simp [GcRun.obj, pointers₂, distinct]
  have objV : ((s.unlink p).unlink v).obj v = source.obj := by simp [GcRun.obj, pointers₂]
  obtain ⟨inv₃, pointers₃⟩ := modify_inv (p := p) (g := { g with ref := none }) inv₂
    (by rw [pointers₂, Function.update_of_ne distinct, Function.update_self]) rfl
    (fun g => { g with obj := source.obj }) rfl rfl
  rw [pointers₂, Function.update_comm distinct.symm, Function.update_idem] at pointers₃
  obtain ⟨inv₄, pointers₄⟩ := modify_inv (p := v) (g := { source with ref := none }) inv₃
    (by rw [pointers₃, Function.update_self]) rfl (fun h => { h with obj := g.obj }) rfl rfl
  rw [pointers₃, Function.update_idem] at pointers₄
  obtain ⟨refP, s₅, refs₅, linkedP, inv₅, pointers₅, aimedP⟩ := linkObj_inv (p := p)
    (g := { g with ref := none, obj := source.obj }) inv₄
    (by rw [pointers₄, Function.update_of_ne distinct, Function.update_self]) rfl
  rw [pointers₄, Function.update_comm distinct.symm, Function.update_idem] at pointers₅
  obtain ⟨refV, s₆, refs₆, linkedV, inv₆, pointers₆, aimedV⟩ := linkObj_inv (p := v)
    (g := { source with ref := none, obj := g.obj }) inv₅
    (by rw [pointers₅, Function.update_self]) rfl
  rw [pointers₅, Function.update_idem] at pointers₆
  refine ⟨refP, refV, s₆, refs₆, ?_, inv₆, pointers₆, aimedP, aimedV⟩
  have swapped : s.swap p v = ((((s.unlink p).unlink v).swapObj p v).linkObj p).bind fun t => t.linkObj v := rfl
  rw [swapped, GcRun.swapObj, objP, objV, linkedP, Option.bind_some, linkedV]

theorem default_inv (kept : BuddyInv s objects refs) {next : GcRun} (taken : s.step (.default p) = some next) :
    BuddyInv next objects refs ∧ next.pointers = Function.update s.pointers p (some (gc s.service).1) := by
  simp only [GcRun.step] at taken
  split at taken
  · rename_i new
    obtain rfl := Option.some.inj taken
    obtain ⟨⟨⟨free, ok⟩, known, frames⟩, agree⟩ := kept
    obtain ⟨ok', table, -, known'⟩ := gc_spec ok known new
    refine ⟨⟨⟨⟨free, ok'⟩, known', ?_⟩, agree.update p ?_⟩, rfl⟩
    · simpa only [GcRun.put, table] using frames
    · rintro g ⟨⟩
      rfl
  · simp at taken

theorem shared_inv (kept : BuddyInv s objects refs) (op : GcOp) {next : GcRun} (taken : s.step op = some next)
    (alike : match op with | .allocate _ | .construct _ | .default _ | .destroy _ => True | _ => False) :
    ∃ objects refs, BuddyInv next objects refs := by
  obtain ⟨inv, agree⟩ := kept
  cases op with
  | allocate address =>
      obtain ⟨node, next', refs', done, inv', -, -, -, pointers, -⟩ := allocate_inv inv address
      obtain rfl := Option.some.inj (done.symm.trans taken)
      exact ⟨_, _, inv', pointers ▸ agree⟩
  | construct p =>
      have whole := taken
      simp only [GcRun.step] at taken
      split at taken
      · rename_i previous node rest saved new
        obtain ⟨ref, next', refs', done, inv', -, pointers⟩ := construct_inv inv saved new
        obtain rfl := Option.some.inj (done.symm.trans whole)
        refine ⟨_, _, inv', ?_⟩
        rw [pointers]
        exact agree.update p fun g found => by
          obtain rfl := Option.some.inj found
          rfl
      · simp at taken
  | default p =>
      exact ⟨objects, refs, (default_inv ⟨inv, agree⟩ taken).1⟩
  | destroy p =>
      obtain ⟨objects', refs', inv'⟩ := step_inv inv (.destroy p) True.intro taken
      simp only [GcRun.step] at taken
      split at taken
      · obtain rfl := Option.some.inj taken
        exact ⟨objects', refs', inv', agree.update p (by simp)⟩
      · simp at taken
  | copyNew _ _ => exact alike.elim
  | moveNew _ _ => exact alike.elim
  | copyAssign _ _ => exact alike.elim
  | moveAssign _ _ => exact alike.elim

theorem copied (kept : BuddyInv s objects refs) (foundP : s.pointers p = some g) (foundV : s.pointers v = some source)
    (distinct : p = v → source.obj = none) {next : GcRun} (taken : s.copy p v = some next) :
    next.obj p = s.obj v ∧ ∃ refs, BuddyInv next objects refs := by
  obtain ⟨ref, next', refs', done, inv', pointers, linked⟩ :=
    copy_inv kept.inv foundP foundV (kept.agree v source foundV) distinct
  obtain rfl := Option.some.inj (done.symm.trans taken)
  refine ⟨by simp [GcRun.obj, pointers, foundV], refs', inv', ?_⟩
  rw [pointers]
  exact kept.agree.update p fun g' found => by
    obtain rfl := Option.some.inj found
    exact linked

theorem swapped (kept : BuddyInv s objects refs) (foundP : s.pointers p = some g) (foundV : s.pointers v = some source)
    (distinct : p = v → g.obj = none) {next : GcRun} (taken : s.swap p v = some next) :
    next.obj p = s.obj v ∧ ∃ refs, BuddyInv next objects refs := by
  by_cases same : p = v
  · subst same
    obtain rfl := Option.some.inj (foundP.symm.trans foundV)
    have null := distinct rfl
    have blank : g.ref = none := by simpa [null] using kept.agree p g foundP
    obtain ⟨next', refs', done, inv', pointers⟩ := swap_null kept.inv foundP null blank
    obtain rfl := Option.some.inj (done.symm.trans taken)
    exact ⟨by simp [GcRun.obj, pointers, foundP], refs', inv', pointers ▸ kept.agree⟩
  · obtain ⟨refP, refV, next', refs', done, inv', pointers, linkedP, linkedV⟩ :=
      swap_inv kept.inv foundP foundV same
    obtain rfl := Option.some.inj (done.symm.trans taken)
    refine ⟨by simp [GcRun.obj, pointers, same, foundV], refs', inv', ?_⟩
    rw [pointers]
    refine (kept.agree.update p ?_).update v ?_
    · rintro g' ⟨⟩
      exact linkedP
    · rintro g' ⟨⟩
      exact linkedV

theorem buddy_step_inv (kept : BuddyInv s objects refs) {op : BuddyOp} (distinct : Distinct s op) {next : GcRun}
    (taken : s.buddyStep op = some next) : Assigned s op next ∧ ∃ objects refs, BuddyInv next objects refs := by
  -- a pointer that is being constructed is none of the existing ones
  have constructed {p v : Nat} {source : GcBuddy} {middle : GcRun} (new : s.pointers p = none)
      (found : s.pointers v = some source) (made : s.step (.default p) = some middle) :
      BuddyInv middle objects refs ∧ p ≠ v ∧ middle.pointers p = some (gc s.service).1 ∧
        middle.pointers v = some source := by
    obtain ⟨kept', pointers⟩ := default_inv kept made
    have apart : v ≠ p := by
      rintro rfl
      rw [new] at found
      simp at found
    exact ⟨kept', apart.symm, by rw [pointers, Function.update_self],
      by rw [pointers, Function.update_of_ne apart, found]⟩
  cases op with
  | allocate address => exact ⟨True.intro, shared_inv kept (.allocate address) taken True.intro⟩
  | outOfMemory =>
      obtain ⟨node, table, refs', added, inv', -⟩ := addObjNode_inv kept.inv
      simp only [GcRun.buddyStep, added, Option.bind_eq_bind, Option.bind_some, Option.pure_def,
        Option.some.injEq] at taken
      subst taken
      exact ⟨True.intro, _, refs', inv', kept.agree⟩
  | construct p => exact ⟨True.intro, shared_inv kept (.construct p) taken True.intro⟩
  | throws =>
      simp only [GcRun.buddyStep] at taken
      split at taken
      · rename_i frame frames saved
        obtain rfl := Option.some.inj taken
        obtain ⟨⟨ok, known, roots⟩, agree⟩ := kept
        exact ⟨True.intro, objects, refs,
          ⟨ok, known, fun f member => roots f (by rw [saved]; exact List.mem_cons_of_mem _ member)⟩, agree⟩
      · simp at taken
  | default p => exact ⟨True.intro, shared_inv kept (.default p) taken True.intro⟩
  | copyNew p v =>
      simp only [GcRun.buddyStep] at taken
      split at taken
      · rename_i source new found
        obtain ⟨middle, made, taken⟩ := Option.bind_eq_some_iff.mp taken
        obtain ⟨kept', apart, foundP, foundV⟩ := constructed new found made
        exact ⟨True.intro, objects, (copied kept' foundP foundV (fun same => absurd same apart) taken).2⟩
      · simp at taken
  | moveNew p v =>
      simp only [GcRun.buddyStep] at taken
      split at taken
      · rename_i source new found
        obtain ⟨middle, made, taken⟩ := Option.bind_eq_some_iff.mp taken
        obtain ⟨kept', apart, foundP, foundV⟩ := constructed new found made
        exact ⟨True.intro, objects, (swapped kept' foundP foundV (fun same => absurd same apart) taken).2⟩
      · simp at taken
  | copyAssign p v =>
      simp only [GcRun.buddyStep] at taken
      split at taken
      · rename_i g source foundP foundV
        have null (same : p = v) : source.obj = none := by
          have null := distinct same
          subst same
          simpa [GcRun.obj, foundV] using null
        obtain ⟨equal, refs', kept'⟩ := copied kept foundP foundV null taken
        exact ⟨equal, objects, refs', kept'⟩
      · simp at taken
  | moveAssign p v =>
      simp only [GcRun.buddyStep] at taken
      split at taken
      · rename_i g source foundP foundV
        have null (same : p = v) : g.obj = none := by simpa [GcRun.obj, foundP] using distinct same
        obtain ⟨equal, refs', kept'⟩ := swapped kept foundP foundV null taken
        exact ⟨equal, objects, refs', kept'⟩
      · simp at taken
  | «as» p v =>
      simp only [GcRun.buddyStep] at taken
      split at taken
      · rename_i source new found
        obtain ⟨middle, made, taken⟩ := Option.bind_eq_some_iff.mp taken
        obtain ⟨kept', -, foundP, -⟩ := constructed new found made
        obtain ⟨obj, aimed⟩ := Option.ne_none_iff_exists'.mp (distinct new source found)
        obtain ⟨inv₁, pointers₁⟩ := modify_inv kept'.inv foundP rfl
          (fun g => { g with obj := source.obj }) rfl rfl
        obtain ⟨ref, next', refs', done, inv₂, pointers₂⟩ :=
          link_inv inv₁ (by rw [pointers₁, Function.update_self]) rfl
        obtain rfl := Option.some.inj (done.symm.trans taken)
        refine ⟨True.intro, objects, refs', inv₂, ?_⟩
        rw [pointers₂, pointers₁, Function.update_idem]
        refine kept'.agree.update p ?_
        rintro g ⟨⟩
        simp [aimed]
      · simp at taken
  | destroy p => exact ⟨True.intro, shared_inv kept (.destroy p) taken True.intro⟩

theorem selfCopy_unassigned (inv : Inv s objects refs) (found : s.pointers p = some g) :
    ∃ next, s.copy p p = some next ∧ next.obj p = none := by
  obtain ⟨refs₁, -, pointers₁⟩ := unlink_inv inv found
  have blank : (s.unlink p).ref p = none := by simp [GcRun.ref, pointers₁]
  refine ⟨(s.unlink p).modify p fun g => { g with obj := none, ref := none }, ?_, ?_⟩
  · simp only [GcRun.copy, blank]
  · simp [GcRun.obj, GcRun.modify, pointers₁]

theorem link_twice (inv : Inv s objects refs) {ref : Nat} (found : s.pointers p = some g) (holds : g.ref = some ref) :
    ∃ next, s.link p = some next ∧ ¬ ∃ objects refs, Accounted next objects refs := by
  obtain ⟨⟨free, table, active⟩, known, frames⟩ := inv
  have owner := known.roots p g found
  obtain ⟨placed, -⟩ := known.linked p g ref found holds
  obtain ⟨second, t', free', added, root, -, fresh, intact, -⟩ := Table.addRefNode_spec table owner g.obj
  refine ⟨s.put p (some { g with ref := some second }) { s.service with table := t' },
    by simp [GcRun.link, found, Service.regRef, added], ?_⟩
  rintro ⟨objects', refs', accounted⟩
  have owner' : g.root ∈ t'.root :: objects := root ▸ owner
  obtain rfl : objects' = objects := accounted.list.isChain.unique intact.list.isChain
  have sameRefs : refs' g.root = second :: refs g.root := by
    have chain := intact.chain g.root owner'
    rw [Function.update_self] at chain
    exact (accounted.chain g.root owner').isChain.unique chain.isChain
  obtain ⟨q, ⟨h, obj, foundQ, -, holdsQ, -⟩, -⟩ :=
    accounted.owned g.root owner' ref (by rw [sameRefs]; exact List.mem_cons_of_mem _ placed)
  by_cases same : q = p
  · subst same
    simp only [GcRun.put, Function.update_self, Option.some.injEq] at foundQ
    subst foundQ
    obtain rfl := Option.some.inj holdsQ
    exact fresh g.root owner placed
  · simp only [GcRun.put, Function.update_of_ne same] at foundQ
    exact same (known.once q p h g ref foundQ found holdsQ holds)

theorem selfSwap_unaccounted (inv : Inv s objects refs) (found : s.pointers p = some g) {obj : Nat}
    (aimed : g.obj = some obj) : ∃ next, s.swap p p = some next ∧ ¬ ∃ objects refs, Accounted next objects refs := by
  obtain ⟨refs₁, inv₁, pointers₁⟩ := unlink_inv inv found
  obtain ⟨refs₂, inv₂, pointers₂⟩ := unlink_inv inv₁ (by rw [pointers₁, Function.update_self])
  rw [pointers₁, Function.update_idem] at pointers₂
  have obj₂ : ((s.unlink p).unlink p).obj p = some obj := by simp [GcRun.obj, pointers₂, aimed]
  have idle (t : GcRun) {refs : Nat → List Nat} (inv : Inv t objects refs)
      (found : t.pointers p = some { g with ref := none }) :
      Inv (t.modify p fun g => { g with obj := some obj }) objects refs ∧
        (t.modify p fun g => { g with obj := some obj }).pointers p = some { g with ref := none } := by
    obtain ⟨inv', pointers'⟩ := modify_inv inv found rfl (fun g => { g with obj := some obj }) rfl rfl
    refine ⟨inv', ?_⟩
    rw [pointers', Function.update_self, ← aimed]
  obtain ⟨inv₃, found₃⟩ := idle _ inv₂ (by rw [pointers₂, Function.update_self])
  obtain ⟨inv₄, found₄⟩ := idle _ inv₃ found₃
  obtain ⟨ref, s₅, refs₅, linked, inv₅, pointers₅⟩ := link_inv inv₄ found₄ rfl
  obtain ⟨next, again, unaccounted⟩ := link_twice inv₅ (by rw [pointers₅, Function.update_self]) rfl
  refine ⟨next, ?_, unaccounted⟩
  have swapped : s.swap p p = ((((s.unlink p).unlink p).swapObj p p).linkObj p).bind fun t => t.linkObj p := rfl
  have first : (((s.unlink p).unlink p).swapObj p p).linkObj p = some s₅ := by
    rw [GcRun.swapObj, obj₂, ← linked]
    simp [GcRun.linkObj, GcRun.obj, found₄, aimed]
  rw [swapped, first, Option.bind_some, ← again]
  simp [GcRun.linkObj, GcRun.obj, pointers₅, aimed]

theorem buddy_step_breaks (kept : BuddyInv s objects refs) {op : BuddyOp} (same : ¬ Distinct s op) : ¬ Kept s op := by
  intro keeps
  have pointer {p obj : Nat} (aimed : s.obj p = some obj) : ∃ g, s.pointers p = some g ∧ g.obj = some obj :=
    Option.bind_eq_some_iff.mp aimed
  cases op with
  | copyAssign p v =>
      simp only [Distinct, Classical.not_imp] at same
      obtain ⟨rfl, notNull⟩ := same
      obtain ⟨obj, aimed⟩ := Option.ne_none_iff_exists'.mp notNull
      obtain ⟨g, found, -⟩ := pointer aimed
      obtain ⟨next, taken, null⟩ := selfCopy_unassigned kept.inv found
      have assigned := (keeps next (by simp [GcRun.buddyStep, found, taken])).1
      simp [Assigned, null, aimed] at assigned
  | moveAssign p v =>
      simp only [Distinct, Classical.not_imp] at same
      obtain ⟨rfl, notNull⟩ := same
      obtain ⟨obj, aimed⟩ := Option.ne_none_iff_exists'.mp notNull
      obtain ⟨g, found, aims⟩ := pointer aimed
      obtain ⟨next, taken, unaccounted⟩ := selfSwap_unaccounted kept.inv found aims
      exact unaccounted (keeps next (by simp [GcRun.buddyStep, found, taken])).2
  | «as» p v =>
      simp only [Distinct, not_forall, not_not] at same
      obtain ⟨new, source, found, null⟩ := same
      obtain ⟨middle, made⟩ : ∃ middle, s.step (.default p) = some middle := by
        simp only [GcRun.step, new]
        exact ⟨_, rfl⟩
      obtain ⟨kept', pointers⟩ := default_inv kept made
      obtain ⟨inv₁, pointers₁⟩ := modify_inv kept'.inv (by rw [pointers, Function.update_self]) rfl
        (fun g => { g with obj := none }) rfl rfl
      obtain ⟨ref, next, refs', linked, -, pointers₂⟩ :=
        link_inv inv₁ (by rw [pointers₁, Function.update_self]) rfl
      obtain ⟨-, objects', refs', accounted⟩ :=
        keeps next (by simp [GcRun.buddyStep, new, found, null, made, linked])
      have blank := accounted.null p _ (by rw [pointers₂, Function.update_self]) rfl
      simp at blank
  | allocate _ => exact same True.intro
  | outOfMemory => exact same True.intro
  | construct _ => exact same True.intro
  | throws => exact same True.intro
  | default _ => exact same True.intro
  | copyNew _ _ => exact same True.intro
  | moveNew _ _ => exact same True.intro
  | destroy _ => exact same True.intro

end Steps

/-- Along a run assignments assign and the chains account for the pointers just when no
pointer to an object is assigned to itself and `as` is called on none that is null. -/
theorem buddy_run_kept (start : GcRun) (ops : List BuddyOp) (begun : gcStart = some start) :
    Runs.Along GcRun.buddyStep Kept start ops ↔ Runs.Along GcRun.buddyStep Distinct start ops := by
  obtain ⟨start', refs, begun', initial, noPointers, -⟩ := gcStart_inv
  obtain rfl := Option.some.inj (begun'.symm.trans begun)
  refine Runs.Along.iff_of (fun s => ∃ objects refs, BuddyInv s objects refs) ?_ ?_ ops
    ⟨[], refs, initial, by simp [Agree, noPointers]⟩
  · rintro s op ⟨objects, refs, kept⟩ distinct
    constructor
    · intro next taken
      obtain ⟨assigned, objects', refs', kept'⟩ := buddy_step_inv kept distinct taken
      exact ⟨assigned, objects', refs', kept'.accounted⟩
    · exact fun next taken => (buddy_step_inv kept distinct taken).2
  · rintro s op ⟨objects, refs, kept⟩ same
    exact buddy_step_breaks kept same

theorem first_buddy (address p : Nat) :
    ∃ start s objects refs obj, gcStart = some start ∧
      Runs.exec GcRun.buddyStep start [.allocate address, .construct p] = some s ∧ BuddyInv s objects refs ∧
      s.obj p = some obj ∧ ∀ q, q ≠ p → s.pointers q = none := by
  obtain ⟨start, s, node, ref, refs, begun, run, inv, pointers⟩ := first_object address p
  obtain ⟨entered, allocated, rest⟩ := Runs.exec_cons.mp run
  obtain ⟨s', constructed, rest⟩ := Runs.exec_cons.mp rest
  obtain rfl := Option.some.inj rest
  refine ⟨start, s', [node], refs, node, begun, ?_, ⟨inv, ?_⟩, by simp [GcRun.obj, pointers], ?_⟩
  · exact Runs.exec_cons.mpr ⟨entered, allocated, Runs.exec_cons.mpr ⟨s', constructed, rfl⟩⟩
  · have none : Agree fun _ => (none : Option GcBuddy) := by simp [Agree]
    rw [pointers]
    exact none.update p (by simp)
  · exact fun q other => by rw [pointers, Function.update_of_ne other]

theorem buddy_run_kept_assigned :
    ∃ start final, gcStart = some start ∧
      Runs.exec GcRun.buddyStep start [.allocate 8, .construct 0, .default 1, .copyAssign 1 0] = some final ∧
      Runs.Along GcRun.buddyStep Kept start [.allocate 8, .construct 0, .default 1, .copyAssign 1 0] := by
  obtain ⟨start, s, objects, refs, obj, begun, first, kept, aimed, others⟩ := first_buddy 8 0
  obtain ⟨g, found, -⟩ := Option.bind_eq_some_iff.mp aimed
  obtain ⟨middle, made⟩ : ∃ middle, s.step (.default 1) = some middle := by
    simp only [GcRun.step, others 1 (by decide)]
    exact ⟨_, rfl⟩
  obtain ⟨kept', pointers⟩ := default_inv kept made
  have foundV : middle.pointers 0 = some g := by rw [pointers, Function.update_of_ne (by decide), found]
  have foundP : middle.pointers 1 = some (gc s.service).1 := by rw [pointers, Function.update_self]
  obtain ⟨ref, final, -, taken, -⟩ :=
    copy_inv kept'.inv foundP foundV (kept'.agree 0 g foundV) (fun same => absurd same (by decide))
  have copies : middle.buddyStep (.copyAssign 1 0) = some final := by simp [GcRun.buddyStep, foundP, foundV, taken]
  refine ⟨start, final, begun, ?_, (buddy_run_kept start _ begun).mpr ?_⟩
  · change Runs.exec GcRun.buddyStep start ([.allocate 8, .construct 0] ++ [.default 1, .copyAssign 1 0]) = some final
    exact Runs.exec_append.mpr ⟨s, first, Runs.exec_cons.mpr ⟨middle, made, Runs.exec_cons.mpr ⟨final, copies, rfl⟩⟩⟩
  · exact ⟨True.intro, fun _ _ => ⟨True.intro, fun _ _ => ⟨True.intro, fun _ _ =>
      ⟨fun same => absurd same (by decide), fun _ _ => True.intro⟩⟩⟩⟩

/-- A pointer assigned to itself loses its object. -/
theorem self_assigned_lost : ∃ start, gcStart = some start ∧
    ¬ Runs.Along GcRun.buddyStep Kept start [.allocate 8, .construct 0, .copyAssign 0 0] := by
  obtain ⟨start, s, objects, refs, obj, begun, run, kept, aimed, -⟩ := first_buddy 8 0
  obtain ⟨entered, allocated, rest⟩ := Runs.exec_cons.mp run
  obtain ⟨s', constructed, rest⟩ := Runs.exec_cons.mp rest
  obtain rfl := Option.some.inj rest
  refine ⟨start, begun, fun along => ?_⟩
  refine buddy_step_breaks kept ?_ ((along.2 entered allocated).2 s' constructed).1
  exact fun distinct => by simp [distinct rfl] at aimed

end PrototypeBundle.Gc
