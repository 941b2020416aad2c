import PrototypeBundle.Gc.Pointer
import Mathlib.Logic.Equiv.Basic

set_option autoImplicit false

namespace PrototypeBundle.Gc

open Memory

/-- Pointers and reference chains agree. -/
structure Registered (s : GcRun) (objects : List Nat) (refs : Nat → List Nat) : Prop where
  list : IsList s.service.table.nodes s.service.table.objects objects
  chain : ∀ o ∈ s.service.table.root :: objects,
    IsList s.service.table.nodes (s.service.table.nodes o).val.word (refs o)
  linked : ∀ p g ref, s.pointers p = some g → g.ref = some ref →
    g.root ∈ s.service.table.root :: objects ∧ ref ∈ refs g.root ∧
      (s.service.table.nodes ref).val.word = g.obj
  owned : ∀ o ∈ s.service.table.root :: objects, ∀ ref ∈ refs o,
    ∃! p, ∃ g, s.pointers p = some g ∧ g.ref = some ref

structure Pointers (t : Table) (objects : List Nat) (refs : Nat → List Nat)
    (pointers : Nat → Option GcPtr) : Prop where
  roots : ∀ p g, pointers p = some g → g.root ∈ t.root :: objects
  linked : ∀ p g ref, pointers p = some g → g.ref = some ref →
    ref ∈ refs g.root ∧ (t.nodes ref).val.word = g.obj
  owned : ∀ o ∈ t.root :: objects, ∀ ref ∈ refs o, ∃ p g, pointers p = some g ∧ g.ref = some ref
  once : ∀ p v g source ref, pointers p = some g → pointers v = some source →
    g.ref = some ref → source.ref = some ref → p = v

def Service.Ok (s : Service) (objects : List Nat) (refs : Nat → List Nat) (free : List Nat) : Prop :=
  s.table.Ok objects refs free ∧ ∀ a, s.activeRoot = some a → a ∈ s.table.root :: objects

section Tables

variable {s : Service} {objects : List Nat} {refs : Nat → List Nat} {free : List Nat}
  {pointers : Nat → Option GcPtr}

theorem Service.getRoot_spec (ok : s.Ok objects refs free) :
    s.getRoot.2.Ok objects refs free ∧ s.getRoot.2.table = s.table ∧ s.getRoot.1 ∈ s.table.root :: objects := by
  obtain ⟨table, active⟩ := ok
  unfold Service.getRoot
  cases root : s.activeRoot with
  | some a => exact ⟨⟨table, active⟩, rfl, active a root⟩
  | none => exact ⟨⟨table, by simp⟩, rfl, by simp⟩

def Unlinked (pointer : Option GcPtr) : Prop := ∀ g, pointer = some g → g.ref = none

theorem Pointers.setUnlinked {t : Table} (known : Pointers t objects refs pointers) (p : Nat)
    (new : Option GcPtr) (before : Unlinked (pointers p)) (after : Unlinked new)
    (root : ∀ g, new = some g → g.root ∈ t.root :: objects) :
    Pointers t objects refs (Function.update pointers p new) := by
  -- a pointer that holds a reference is an old one other than `p`
  have old (q : Nat) (g : GcPtr) (ref : Nat) (found : Function.update pointers p new q = some g)
      (holds : g.ref = some ref) : q ≠ p ∧ pointers q = some g := by
    by_cases same : q = p
    · subst same
      rw [Function.update_self] at found
      rw [after g found] at holds
      simp at holds
    · rw [Function.update_of_ne same] at found
      exact ⟨same, found⟩
  refine ⟨?_, ?_, ?_, ?_⟩
  · intro q g found
    by_cases same : q = p
    · subst same
      rw [Function.update_self] at found
      exact root g found
    · rw [Function.update_of_ne same] at found
      exact known.roots q g found
  · intro q g ref found holds
    exact known.linked q g ref (old q g ref found holds).2 holds
  · intro o owner ref inside
    obtain ⟨q, g, found, holds⟩ := known.owned o owner ref inside
    have different : q ≠ p := by
      rintro rfl
      rw [before g found] at holds
      simp at holds
    exact ⟨q, g, by rw [Function.update_of_ne different, found], holds⟩
  · intro q v g source ref foundQ foundV holdsQ holdsV
    exact known.once q v g source ref (old q g ref foundQ holdsQ).2 (old v source ref foundV holdsV).2
      holdsQ holdsV

theorem delRef_spec (ok : s.Ok objects refs free) (known : Pointers s.table objects refs pointers)
    {p : Nat} {g : GcPtr} (found : pointers p = some g) :
    ∃ refs' free', (g.unregister s).Ok objects refs' free' ∧ (g.unregister s).table.root = s.table.root ∧
      (g.unregister s).activeRoot = s.activeRoot ∧
      Pointers (g.unregister s).table objects refs'
        (Function.update pointers p (some { g with ref := none })) := by
  obtain ⟨table, active⟩ := ok
  have root := known.roots p g found
  cases holds : g.ref with
  | none =>
      have same : g.unregister s = s := by simp [GcPtr.unregister, holds]
      rw [same]
      refine ⟨refs, free, ⟨table, active⟩, rfl, rfl, known.setUnlinked _ _ ?_ ?_ ?_⟩
      · intro g' found'
        exact Option.some.inj (found.symm.trans found') ▸ holds
      · rintro g' ⟨⟩
        rfl
      · rintro g' ⟨⟩
        exact root
  | some ref =>
      have shape : g.unregister s = s.delRef g.root ref := by simp [GcPtr.unregister, holds]
      obtain ⟨inside, -⟩ := known.linked p g ref found holds
      obtain ⟨sameRoot, removed, words⟩ := Table.remRefNode_spec table root inside
      rw [shape]
      refine ⟨_, _, ⟨removed, ?_⟩, sameRoot, rfl, ?_⟩
      · simpa [Service.delRef, sameRoot] using active
      have nodup := (table.chain g.root root).nodup
      -- the other pointers keep their references
      have old (q : Nat) (h : GcPtr) (r : Nat)
          (foundQ : Function.update pointers p (some { g with ref := none }) q = some h)
          (holdsQ : h.ref = some r) : q ≠ p ∧ pointers q = some h := by
        by_cases same : q = p
        · subst same
          rw [Function.update_self] at foundQ
          obtain rfl := Option.some.inj foundQ
          simp at holdsQ
        · rw [Function.update_of_ne same] at foundQ
          exact ⟨same, foundQ⟩
      refine ⟨?_, ?_, ?_, ?_⟩
      · intro q h foundQ
        change h.root ∈ (s.table.remRefNode g.root ref).root :: objects
        rw [sameRoot]
        by_cases same : q = p
        · subst same
          rw [Function.update_self] at foundQ
          obtain rfl := Option.some.inj foundQ
          exact root
        · rw [Function.update_of_ne same] at foundQ
          exact known.roots q h foundQ
      · intro q h r foundQ holdsQ
        obtain ⟨different, foundQ⟩ := old q h r foundQ holdsQ
        obtain ⟨insideQ, word⟩ := known.linked q h r foundQ holdsQ
        have rootQ := known.roots q h foundQ
        have apart : r ≠ ref := by
          rintro rfl
          exact different (known.once q p h g r foundQ found holdsQ holds)
        refine ⟨?_, (words h.root rootQ r insideQ).trans word⟩
        by_cases same : h.root = g.root
        · rw [same, Function.update_self]
          rw [same] at insideQ
          exact (List.mem_erase_of_ne apart).mpr insideQ
        · rwa [Function.update_of_ne same]
      · intro o owner r insideR
        have owner' : o ∈ s.table.root :: objects := by
          simpa [Service.delRef, sameRoot] using owner
        have was : r ∈ refs o ∧ r ≠ ref := by
          by_cases same : o = g.root
          · subst same
            rw [Function.update_self] at insideR
            refine ⟨List.mem_of_mem_erase insideR, ?_⟩
            rintro rfl
            exact nodup.not_mem_erase insideR
          · rw [Function.update_of_ne same] at insideR
            refine ⟨insideR, ?_⟩
            rintro rfl
            exact same (table.apart o owner' g.root root r insideR inside)
        obtain ⟨q, h, foundQ, holdsQ⟩ := known.owned o owner' r was.1
        have different : q ≠ p := by
          rintro rfl
          obtain rfl := Option.some.inj (foundQ.symm.trans found)
          exact was.2 (Option.some.inj (holdsQ.symm.trans holds))
        exact ⟨q, h, by rw [Function.update_of_ne different, foundQ], holdsQ⟩
      · intro q v h source r foundQ foundV holdsQ holdsV
        exact known.once q v h source r (old q h r foundQ holdsQ).2 (old v source r foundV holdsV).2
          holdsQ holdsV

theorem regRef_spec (ok : s.Ok objects refs free) (known : Pointers s.table objects refs pointers)
    {p : Nat} (before : Unlinked (pointers p)) {root : Nat} (owner : root ∈ s.table.root :: objects)
    (obj : Option Nat) :
    ∃ ref s' refs' free', s.regRef root obj = some (ref, s') ∧ s'.Ok objects refs' free' ∧
      s'.table.root = s.table.root ∧ s'.activeRoot = s.activeRoot ∧
      Pointers s'.table objects refs'
        (Function.update pointers p (some { root, ref := some ref, obj })) := by
  obtain ⟨table, active⟩ := ok
  obtain ⟨ref, t', free', added, sameRoot, word, fresh, intact, words⟩ :=
    Table.addRefNode_spec table owner obj
  refine ⟨ref, { s with table := t' }, _, free', by simp [Service.regRef, added], ⟨intact, ?_⟩, sameRoot, rfl, ?_⟩
  · simpa [sameRoot] using active
  have grown (o r : Nat) : r ∈ refs o → r ∈ Function.update refs root (ref :: refs root) o := by
    intro inside
    by_cases same : o = root
    · subst same
      simp [inside]
    · rwa [Function.update_of_ne same]
  have cases (q : Nat) (g : GcPtr)
      (found : Function.update pointers p (some { root, ref := some ref, obj }) q = some g) :
      q = p ∧ g = { root, ref := some ref, obj } ∨ q ≠ p ∧ pointers q = some g := by
    by_cases same : q = p
    · subst same
      rw [Function.update_self] at found
      exact Or.inl ⟨rfl, (Option.some.inj found).symm⟩
    · rw [Function.update_of_ne same] at found
      exact Or.inr ⟨same, found⟩
  have oldRef (q : Nat) (g : GcPtr) (found : pointers q = some g) : g.ref ≠ some ref := by
    intro holds
    obtain ⟨inside, -⟩ := known.linked q g ref found holds
    exact fresh g.root (known.roots q g found) inside
  refine ⟨?_, ?_, ?_, ?_⟩
  · intro q g found
    change g.root ∈ t'.root :: objects
    rw [sameRoot]
    rcases cases q g found with ⟨-, rfl⟩ | ⟨-, found⟩
    · exact owner
    · exact known.roots q g found
  · intro q g r found holds
    rcases cases q g found with ⟨-, rfl⟩ | ⟨-, found⟩
    · obtain rfl := Option.some.inj holds
      exact ⟨by simp, word⟩
    · obtain ⟨inside, pointsTo⟩ := known.linked q g r found holds
      exact ⟨grown _ _ inside, (words g.root (known.roots q g found) r inside).trans pointsTo⟩
  · intro o ownerO r inside
    have ownerO' : o ∈ s.table.root :: objects := by simpa [sameRoot] using ownerO
    by_cases new : r = ref
    · subst new
      exact ⟨p, _, Function.update_self .., rfl⟩
    · have old : r ∈ refs o := by
        by_cases same : o = root
        · subst same
          simpa [new] using inside
        · rwa [Function.update_of_ne same] at inside
      obtain ⟨q, g, found, holds⟩ := known.owned o ownerO' r old
      have different : q ≠ p := by
        rintro rfl
        rw [before g found] at holds
        simp at holds
      exact ⟨q, g, by rw [Function.update_of_ne different, found], holds⟩
  · intro q v g source r foundQ foundV holdsQ holdsV
    rcases cases q g foundQ with ⟨sameQ, rfl⟩ | ⟨-, foundQ⟩
    · rcases cases v source foundV with ⟨sameV, -⟩ | ⟨-, foundV⟩
      · rw [sameQ, sameV]
      · obtain rfl := Option.some.inj holdsQ
        exact absurd holdsV (oldRef v source foundV)
    · rcases cases v source foundV with ⟨-, rfl⟩ | ⟨-, foundV⟩
      · obtain rfl := Option.some.inj holdsV
        exact absurd holdsQ (oldRef q g foundQ)
      · exact known.once q v g source r foundQ foundV holdsQ holdsV

theorem copy_spec (ok : s.Ok objects refs free) (known : Pointers s.table objects refs pointers)
    {p : Nat} {g : GcPtr} (found : pointers p = some g) (source : GcPtr) :
    ∃ g' s' refs' free', g.copy source s = some (g', s') ∧ s'.Ok objects refs' free' ∧
      s'.table.root = s.table.root ∧
      Pointers s'.table objects refs' (Function.update pointers p (some g')) := by
  have owner := known.roots p g found
  obtain ⟨refs₁, free₁, ok₁, root₁, -, known₁⟩ := delRef_spec ok known found
  have owner₁ : g.root ∈ (g.unregister s).table.root :: objects := root₁ ▸ owner
  have blank : Unlinked (Function.update pointers p (some { g with ref := none }) p) := by
    intro h again
    rw [Function.update_self] at again
    obtain rfl := Option.some.inj again
    rfl
  cases copied : source.ref with
  | some ref =>
      obtain ⟨ref', s', refs', free', added, ok', root', -, known'⟩ :=
        regRef_spec ok₁ known₁ blank owner₁ source.obj
      refine ⟨{ g with obj := source.obj, ref := some ref' }, s', refs', free',
        by simp only [GcPtr.copy, copied, added, Option.map_some], ok',
        root'.trans root₁, ?_⟩
      simpa only [Function.update_idem] using known'
  | none =>
      refine ⟨{ g with obj := none, ref := none }, g.unregister s, refs₁, free₁,
        by simp only [GcPtr.copy, copied], ok₁, root₁, ?_⟩
      have set := known₁.setUnlinked p (some { g with obj := none, ref := none }) blank (by
        rintro h ⟨⟩
        rfl) (by
        rintro h ⟨⟩
        exact owner₁)
      simpa only [Function.update_idem] using set

theorem gc_spec (ok : s.Ok objects refs free) (known : Pointers s.table objects refs pointers)
    {p : Nat} (new : pointers p = none) :
    (gc s).2.Ok objects refs free ∧ (gc s).2.table = s.table ∧ (gc s).1.ref = none ∧
      Pointers (gc s).2.table objects refs (Function.update pointers p (some (gc s).1)) := by
  obtain ⟨ok', table, owner⟩ := Service.getRoot_spec ok
  refine ⟨ok', table, rfl, ?_⟩
  change Pointers s.getRoot.2.table objects refs _
  rw [table]
  apply known.setUnlinked
  · intro g found
    rw [new] at found
    simp at found
  · rintro g ⟨⟩
    rfl
  · rintro g ⟨⟩
    exact owner

theorem Pointers.rename {t : Table} (known : Pointers t objects refs pointers) (names : Equiv.Perm Nat) :
    Pointers t objects refs (pointers ∘ names) where
  roots := fun p g found => known.roots (names p) g found
  linked := fun p g ref found => known.linked (names p) g ref found
  owned := by
    intro o owner ref inside
    obtain ⟨p, g, found, holds⟩ := known.owned o owner ref inside
    exact ⟨names.symm p, g, by simpa using found, holds⟩
  once := by
    intro p v g source ref foundP foundV holdsP holdsV
    exact names.injective (known.once _ _ g source ref foundP foundV holdsP holdsV)

theorem swap_spec {t : Table} (known : Pointers t objects refs pointers) {p v : Nat} {g source : GcPtr}
    (different : p ≠ v) (foundP : pointers p = some g) (foundV : pointers v = some source)
    (same : g.ref.isSome ∨ source.ref.isSome → g.root = source.root) :
    Pointers t objects refs
      (Function.update (Function.update pointers v (some (g.swap source).2)) p (some (g.swap source).1)) := by
  by_cases linked : g.ref.isSome ∨ source.ref.isSome
  · have root := same linked
    have first : (g.swap source).1 = source := by simp [GcPtr.swap, root]
    have second : (g.swap source).2 = g := by simp [GcPtr.swap, ← root]
    have renamed : Function.update (Function.update pointers v (some g)) p (some source) =
        pointers ∘ Equiv.swap p v := by
      funext q
      by_cases atP : q = p
      · subst atP
        simp [foundV]
      · by_cases atV : q = v
        · subst atV
          simp [atP, foundP]
        · simp [atP, atV, Equiv.swap_apply_of_ne_of_ne atP atV]
    rw [first, second, renamed]
    exact known.rename _
  · simp only [not_or, Bool.not_eq_true, Option.isSome_eq_false_iff, Option.isNone_iff_eq_none] at linked
    have set := known.setUnlinked v (some (g.swap source).2) (by
      intro h found
      exact Option.some.inj (foundV.symm.trans found) ▸ linked.2) (by
      rintro h ⟨⟩
      exact linked.1) (by
      rintro h ⟨⟩
      exact known.roots v source foundV)
    refine set.setUnlinked _ _ ?_ ?_ ?_
    · intro h found
      rw [Function.update_of_ne different] at found
      exact Option.some.inj (foundP.symm.trans found) ▸ linked.1
    · rintro h ⟨⟩
      exact linked.2
    · rintro h ⟨⟩
      exact known.roots p g foundP

end Tables

def Inv (s : GcRun) (objects : List Nat) (refs : Nat → List Nat) : Prop :=
  (∃ free, s.service.Ok objects refs free) ∧ Pointers s.service.table objects refs s.pointers ∧
    ∀ frame ∈ s.frames, ∀ a, frame.1 = some a → a ∈ s.service.table.root :: objects

theorem Inv.registered {s : GcRun} {objects : List Nat} {refs : Nat → List Nat} (inv : Inv s objects refs) :
    Registered s objects refs := by
  obtain ⟨⟨free, table, -⟩, known, -⟩ := inv
  refine ⟨table.list, table.chain, ?_, ?_⟩
  · intro p g ref found holds
    exact ⟨known.roots p g found, known.linked p g ref found holds⟩
  · intro o owner ref inside
    obtain ⟨p, g, found, holds⟩ := known.owned o owner ref inside
    refine ⟨p, ⟨g, found, holds⟩, ?_⟩
    rintro q ⟨h, foundQ, holdsQ⟩
    exact known.once q p h g ref foundQ found holdsQ holds

section Steps

variable {s next : GcRun} {objects : List Nat} {refs : Nat → List Nat}

theorem addObjNode_inv (inv : Inv s objects refs) :
    ∃ node table refs', s.service.table.addObjNode = some (node, table) ∧
      Inv { s with service := { s.service with table } } (node :: objects) refs' ∧
      node ∉ s.service.table.root :: objects ∧ table.root = s.service.table.root := by
  obtain ⟨⟨free, table, active⟩, known, frames⟩ := inv
  obtain ⟨node, t', free', added, root, fresh, intact, kept⟩ := Table.addObjNode_spec table
  have grown (o : Nat) (owner : o ∈ s.service.table.root :: objects) : o ∈ t'.root :: node :: objects := by
    rw [root]
    rcases List.mem_cons.mp owner with rfl | inside
    · simp
    · simp [inside]
  have owners (o : Nat) (owner : o ∈ s.service.table.root :: objects) :
      Function.update refs node [] o = refs o := by
    have different : o ≠ node := by
      rintro rfl
      exact fresh owner
    exact Function.update_of_ne different _ _
  refine ⟨node, t', Function.update refs node [], added,
    ⟨⟨free', intact, fun a saved => grown a (active a saved)⟩, ⟨?_, ?_, ?_, known.once⟩,
      fun frame member a saved => grown a (frames frame member a saved)⟩, fresh, root⟩
  · intro p g found
    exact grown _ (known.roots p g found)
  · intro p g ref found holds
    have owner := known.roots p g found
    obtain ⟨inside, word⟩ := known.linked p g ref found holds
    rw [owners _ owner]
    exact ⟨inside, (congrArg (fun n => n.val.word) (kept g.root owner ref inside)).trans word⟩
  · intro o owner ref inside
    have different : o ≠ node := by
      rintro rfl
      simp at inside
    rw [Function.update_of_ne different] at inside
    refine known.owned o ?_ ref inside
    have owner' : o ∈ s.service.table.root :: node :: objects := root ▸ owner
    simpa [different] using owner'

theorem allocate_inv (inv : Inv s objects refs) (address : Nat) :
    ∃ node next refs', s.step (.allocate address) = some next ∧ Inv next (node :: objects) refs' ∧
      node ∉ s.service.table.root :: objects ∧ next.service.activeRoot = some node ∧
      next.service.table.root = s.service.table.root ∧ next.pointers = s.pointers ∧
      next.frames = (s.service.activeRoot, node) :: s.frames := by
  obtain ⟨node, t', refs', added, ⟨⟨free', table, active⟩, known, frames⟩, fresh, root⟩ := addObjNode_inv inv
  obtain ⟨placed, words⟩ := Table.setPtr_ok table node (some address)
  refine ⟨node, { s with
      service := { table := t'.setPtr node (some address), activeRoot := some node }
      frames := (s.service.activeRoot, node) :: s.frames },
    refs', by simp [GcRun.step, added], ⟨⟨free', placed, by simp⟩, ⟨known.roots, ?_, known.owned, known.once⟩, ?_⟩,
    fresh, rfl, root, rfl, rfl⟩
  · intro p g ref found holds
    obtain ⟨inside, word⟩ := known.linked p g ref found holds
    exact ⟨inside, (words ref).trans word⟩
  · intro frame member a saved
    rcases List.mem_cons.mp member with rfl | old
    · exact active a saved
    · exact frames frame old a saved

theorem construct_inv (inv : Inv s objects refs) {p node : Nat} {previous : Option Nat}
    {frames : List (Option Nat × Nat)} (saved : s.frames = (previous, node) :: frames)
    (new : s.pointers p = none) :
    ∃ ref next refs', s.step (.construct p) = some next ∧ Inv next objects refs' ∧
      next.service.table.root = s.service.table.root ∧
      next.pointers = Function.update s.pointers p (some
        { root := previous.getD s.service.table.root, ref := some ref, obj := some node }) := by
  obtain ⟨⟨free, ok⟩, known, saves⟩ := inv
  have resumed : Service.Ok { s.service with activeRoot := previous } objects refs free :=
    ⟨ok.1, saves (previous, node) (by simp [saved])⟩
  obtain ⟨ok₁, table₁, owner⟩ := Service.getRoot_spec resumed
  have known₁ : Pointers (Service.getRoot { s.service with activeRoot := previous }).2.table
      objects refs s.pointers := by
    rw [table₁]
    exact known
  have blank : Unlinked (s.pointers p) := by
    intro g found
    rw [new] at found
    simp at found
  have root : (Service.getRoot { s.service with activeRoot := previous }).1 =
      previous.getD s.service.table.root := by
    cases previous <;> rfl
  obtain ⟨ref, s', refs', free', added, ok', root', -, known'⟩ :=
    regRef_spec ok₁ known₁ blank (table₁ ▸ owner) (some node)
  refine ⟨ref, GcRun.put { s with frames } p (some { root := _, ref := some ref, obj := some node }) s', refs',
    by simp only [GcRun.step, saved, new, gcOf, added]; rfl, ⟨⟨free', ok'⟩, known', ?_⟩, ?_, by rw [← root]; rfl⟩
  · intro frame member a back
    change a ∈ s'.table.root :: objects
    rw [root', table₁]
    exact saves frame (by rw [saved]; exact List.mem_cons_of_mem _ member) a back
  · change s'.table.root = _
    rw [root', table₁]

theorem step_inv (inv : Inv s objects refs) (op : GcOp) (same : SameRoot s op)
    (taken : s.step op = some next) : ∃ objects refs, Inv next objects refs := by
  have whole := inv
  obtain ⟨⟨free, ok⟩, known, frames⟩ := inv
  cases op with
  | allocate address =>
      obtain ⟨node, next', refs', done, inv', -⟩ := allocate_inv whole address
      obtain rfl := Option.some.inj (done.symm.trans taken)
      exact ⟨node :: objects, refs', inv'⟩
  | construct p =>
      simp only [GcRun.step] at taken
      split at taken
      · rename_i previous node rest saved new
        obtain ⟨ref, next', refs', done, inv', -⟩ := construct_inv whole saved new
        rw [GcRun.step, saved, new] at done
        obtain rfl := Option.some.inj (done.symm.trans taken)
        exact ⟨objects, refs', inv'⟩
      · simp at taken
  | default p =>
      simp only [GcRun.step] at taken
      split at taken
      · rename_i new
        obtain rfl := Option.some.inj taken
        obtain ⟨ok', table, -, known'⟩ := gc_spec ok known new
        refine ⟨objects, refs, ⟨free, ok'⟩, known', ?_⟩
        simpa only [GcRun.put, table] using frames
      · simp at taken
  | copyNew p v =>
      simp only [GcRun.step] at taken
      split at taken
      · rename_i source new found
        obtain ⟨ok₁, table₁, -, known₁⟩ := gc_spec ok known new
        obtain ⟨g', s', refs', free', copied, ok', root', known'⟩ :=
          copy_spec ok₁ known₁ (Function.update_self ..) source
        simp only [copied, Option.bind_eq_bind, Option.bind_some, Option.pure_def, Option.some.injEq] at taken
        subst taken
        rw [Function.update_idem] at known'
        refine ⟨objects, refs', ⟨free', ok'⟩, known', ?_⟩
        simpa only [GcRun.put, root', table₁] using frames
      · simp at taken
  | moveNew p v =>
      simp only [GcRun.step] at taken
      split at taken
      · rename_i source new found
        obtain rfl := Option.some.inj taken
        obtain ⟨ok₁, table₁, blank, known₁⟩ := gc_spec ok known new
        have different : p ≠ v := by
          rintro rfl
          rw [new] at found
          simp at found
        have foundV : Function.update s.pointers p (some (gc s.service).1) v = some source := by
          rw [Function.update_of_ne different.symm, found]
        have swapped := swap_spec known₁ different (Function.update_self ..) foundV (by
          intro linked
          rw [blank] at linked
          exact (same source found (by simpa using linked)).symm)
        rw [Function.update_comm different.symm, Function.update_idem,
          ← Function.update_comm different.symm] at swapped
        refine ⟨objects, refs, ⟨free, ok₁⟩, swapped, ?_⟩
        simpa only [GcRun.put, table₁] using frames
      · simp at taken
  | copyAssign p v =>
      simp only [GcRun.step] at taken
      split at taken
      · rename_i g source foundP foundV
        obtain ⟨g', s', refs', free', copied, ok', root', known'⟩ := copy_spec ok known foundP source
        simp only [copied, Option.bind_eq_bind, Option.bind_some, Option.pure_def, Option.some.injEq] at taken
        subst taken
        refine ⟨objects, refs', ⟨free', ok'⟩, known', ?_⟩
        simpa only [GcRun.put, root'] using frames
      · simp at taken
  | moveAssign p v =>
      simp only [GcRun.step] at taken
      split at taken
      · rename_i g source foundP foundV
        obtain rfl := Option.some.inj taken
        refine ⟨objects, refs, ⟨free, ok⟩, ?_, frames⟩
        by_cases self : p = v
        · subst self
          simp only [GcRun.put, if_pos, Function.update_idem]
          rw [← foundP, Function.update_eq_self]
          exact known
        · simp only [GcRun.put, if_neg self]
          exact swap_spec known self foundP foundV (same g source foundP foundV)
      · simp at taken
  | destroy p =>
      simp only [GcRun.step] at taken
      split at taken
      · rename_i g found
        obtain rfl := Option.some.inj taken
        obtain ⟨refs', free', ok', root', -, known'⟩ := delRef_spec ok known found
        have gone := known'.setUnlinked p none (by
          intro h again
          rw [Function.update_self] at again
          obtain rfl := Option.some.inj again
          rfl) (by simp [Unlinked]) (by simp)
        rw [Function.update_idem] at gone
        refine ⟨objects, refs', ⟨free', ok'⟩, gone, ?_⟩
        simpa only [GcRun.put, root'] using frames
      · simp at taken

theorem Inv.misplaced (inv : Inv s objects refs) (table : next.service.table = s.service.table) {p : Nat}
    {g : GcPtr} {ref o : Nat} (found : next.pointers p = some g) (holds : g.ref = some ref)
    (owner : o ∈ s.service.table.root :: objects) (inside : ref ∈ refs o) (other : g.root ≠ o) :
    ¬ ∃ objects refs, Registered next objects refs := by
  rintro ⟨objects', refs', registered⟩
  obtain ⟨⟨free, ok, -⟩, -, -⟩ := inv
  obtain ⟨root, linked, -⟩ := registered.linked p g ref found holds
  have list := registered.list
  have chain := registered.chain g.root root
  rw [table] at list chain root
  have sameObjects : objects' = objects := list.isChain.unique ok.list.isChain
  rw [sameObjects] at root
  have sameRefs : refs' g.root = refs g.root := chain.isChain.unique (ok.chain g.root root).isChain
  rw [sameRefs] at linked
  exact other (ok.apart g.root root o owner ref linked inside)

-- A move that meets another root leaves a reference in the wrong chain.
theorem step_unregistered (inv : Inv s objects refs) {op : GcOp} (across : ¬ SameRoot s op)
    (taken : s.step op = some next) : ¬ ∃ objects refs, Registered next objects refs := by
  have whole := inv
  obtain ⟨⟨free, ok⟩, known, frames⟩ := inv
  cases op with
  | moveNew p v =>
      simp only [SameRoot, not_forall] at across
      obtain ⟨source, found, linked, other⟩ := across
      obtain ⟨ref, holds⟩ := Option.isSome_iff_exists.mp linked
      simp only [GcRun.step, found] at taken
      split at taken
      · rename_i _ source' new again
        obtain rfl := Option.some.inj again
        obtain rfl := Option.some.inj taken
        obtain ⟨inside, -⟩ := known.linked v source ref found holds
        obtain ⟨-, table, -⟩ := Service.getRoot_spec ok
        exact whole.misplaced table (p := p) (Function.update_self ..) holds (known.roots v source found)
          inside (Ne.symm other)
      · simp at taken
  | moveAssign p v =>
      simp only [SameRoot, not_forall] at across
      obtain ⟨g, source, foundP, foundV, linked, other⟩ := across
      have different : p ≠ v := by
        rintro rfl
        exact other (congrArg GcPtr.root (Option.some.inj (foundP.symm.trans foundV)))
      simp only [GcRun.step, foundP, foundV, if_neg different, Option.some.injEq] at taken
      subst taken
      rcases linked with linked | linked
      · obtain ⟨ref, holds⟩ := Option.isSome_iff_exists.mp linked
        obtain ⟨inside, -⟩ := known.linked p g ref foundP holds
        refine whole.misplaced rfl (p := v) (g := (g.swap source).2) ?_ holds (known.roots p g foundP)
          inside (Ne.symm other)
        simp [GcRun.put, different.symm]
      · obtain ⟨ref, holds⟩ := Option.isSome_iff_exists.mp linked
        obtain ⟨inside, -⟩ := known.linked v source ref foundV holds
        exact whole.misplaced rfl (p := p) (g := (g.swap source).1) (Function.update_self ..) holds
          (known.roots v source foundV) inside other
  | allocate _ => exact absurd trivial across
  | construct _ => exact absurd trivial across
  | default _ => exact absurd trivial across
  | copyNew _ _ => exact absurd trivial across
  | copyAssign _ _ => exact absurd trivial across
  | destroy _ => exact absurd trivial across

end Steps

theorem gcStart_inv :
    ∃ start refs, gcStart = some start ∧ Inv start [] refs ∧ (start.pointers = fun _ => none) ∧
      start.service.activeRoot = none ∧ start.frames = [] := by
  obtain ⟨t, free, built, ok⟩ := table_ok
  refine ⟨_, fun _ => [], by rw [gcStart, built, Option.map_some], ⟨⟨free, ok, by simp⟩, ?_, by simp⟩, rfl, rfl, rfl⟩
  exact ⟨by simp, by simp, by simp, by simp⟩

/-- Every run in which no move takes a reference to a pointer of another root leaves
pointers and reference chains in agreement. -/
theorem gc_run_registered (start final : GcRun) (ops : List GcOp) (begun : gcStart = some start)
    (same : Runs.Along GcRun.step SameRoot start ops) (run : Runs.exec GcRun.step start ops = some final) :
    ∃ objects refs, Registered final objects refs := by
  obtain ⟨start', refs, begun', initial, -⟩ := gcStart_inv
  obtain rfl := Option.some.inj (begun'.symm.trans begun)
  obtain ⟨objects, refs, inv⟩ := same.invariant (fun s => ∃ objects refs, Inv s objects refs)
    (fun s op next known ok taken => by
      obtain ⟨objects, refs, inv⟩ := known
      exact step_inv inv op ok taken) ⟨[], refs, initial⟩ run
  exact ⟨objects, refs, inv.registered⟩

theorem first_object (address p : Nat) :
    ∃ start s node ref refs, gcStart = some start ∧
      Runs.exec GcRun.step start [.allocate address, .construct p] = some s ∧ Inv s [node] refs ∧
      s.pointers = Function.update (fun _ => none) p (some
        { root := s.service.table.root, ref := some ref, obj := some node }) := by
  obtain ⟨start, _, begun, initial, noPointers, noRoot, noFrames⟩ := gcStart_inv
  obtain ⟨node, entered, refs, allocated, inv, -, -, root, pointers, frames⟩ := allocate_inv initial address
  rw [noRoot, noFrames] at frames
  obtain ⟨ref, s, refs', constructed, inv', root', pointers'⟩ :=
    construct_inv inv frames (p := p) (by rw [pointers, noPointers])
  refine ⟨start, s, node, ref, refs', begun, ?_, inv', ?_⟩
  · exact Runs.exec_cons.mpr ⟨entered, allocated, Runs.exec_cons.mpr ⟨s, constructed, rfl⟩⟩
  · rw [pointers', pointers, noPointers, root', Option.getD_none]

instance (s : GcRun) : (op : GcOp) → Decidable (SameRoot s op)
  | .moveNew _ v => decidable_of_iff (∀ source ∈ s.pointers v, source.ref.isSome → source.root = (gc s.service).1.root) Iff.rfl
  | .moveAssign p v => decidable_of_iff (∀ g ∈ s.pointers p, ∀ source ∈ s.pointers v,
      g.ref.isSome ∨ source.ref.isSome → g.root = source.root)
      ⟨fun all g source foundP foundV => all g foundP source foundV, fun all g foundP source foundV => all g source foundP foundV⟩
  | .allocate _ | .construct _ | .default _ | .copyNew _ _ | .copyAssign _ _ | .destroy _ => inferInstanceAs (Decidable True)

-- Pointer 1 is a member of object 1; the others are made and moved outside.
def movedPointers : List GcOp :=
  [.allocate 8, .allocate 16, .construct 1, .construct 0, .copyNew 2 1, .moveNew 3 2, .default 4, .moveAssign 4 3,
    .copyAssign 0 4, .destroy 3]

theorem gc_run_registered_moved :
    ∃ start final, gcStart = some start ∧ Runs.exec GcRun.step start movedPointers = some final ∧
      (∃ objects refs, Registered final objects refs) ∧
      (final.pointers 1).map (fun g => (g.root, g.obj)) = some (1, some 2) ∧
      (final.pointers 4).map (fun g => (g.root, g.obj)) = some (0, some 2) := by
  obtain ⟨start, final, begun, run, holds⟩ : ∃ start final, gcStart = some start ∧
      Runs.exec GcRun.step start movedPointers = some final ∧
      decide ((final.pointers 1).map (fun g => (g.root, g.obj)) = some (1, some 2) ∧
        (final.pointers 4).map (fun g => (g.root, g.obj)) = some (0, some 2)) = true :=
    Runs.exec_of_any (by decide +kernel)
  have checked : gcStart.all (fun start => Runs.check GcRun.step SameRoot start movedPointers) = true := by decide +kernel
  rw [begun] at checked
  exact ⟨start, final, begun, run, gc_run_registered start final _ begun (.of_check checked) run, of_decide_eq_true holds⟩

/-- A pointer made outside of any object is moved into a member of an object. -/
theorem move_into_member_unregistered :
    ∃ start final, gcStart = some start ∧
      Runs.exec GcRun.step start [.allocate 8, .construct 0, .allocate 16, .moveNew 1 0] = some final ∧
      ¬ ∃ objects refs, Registered final objects refs := by
  obtain ⟨start, s, node, ref, refs, begun, first, inv, pointers⟩ := first_object 8 0
  obtain ⟨member, inside, refs', allocated, inv', fresh, active, root, pointers', -⟩ := allocate_inv inv 16
  have new : inside.pointers 1 = none := by simp [pointers', pointers]
  have old : inside.pointers 0 = some { root := s.service.table.root, ref := some ref, obj := some node } := by
    simp [pointers', pointers]
  obtain ⟨final, moved⟩ : ∃ final, inside.step (.moveNew 1 0) = some final := by
    simp only [GcRun.step, new, old]
    exact ⟨_, rfl⟩
  have across : ¬ SameRoot inside (.moveNew 1 0) := by
    intro same
    have equal := same _ old rfl
    simp only [gc, Service.getRoot, active] at equal
    exact fresh (by simp [← equal])
  refine ⟨start, final, begun, ?_, step_unregistered inv' across moved⟩
  change Runs.exec GcRun.step start ([.allocate 8, .construct 0] ++ [.allocate 16, .moveNew 1 0]) = some final
  exact Runs.exec_append.mpr ⟨s, first, Runs.exec_cons.mpr ⟨_, allocated, Runs.exec_cons.mpr ⟨_, moved, rfl⟩⟩⟩

end PrototypeBundle.Gc
