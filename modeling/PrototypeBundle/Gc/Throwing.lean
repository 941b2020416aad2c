import PrototypeBundle.Gc.Collection

set_option autoImplicit false

-- Neither the object of the table nor the block nor the active root is given back.

namespace PrototypeBundle.Gc

open Memory Buddy

-- `allocate` where `_page.allocate` throws.
def CollectorBuddy.outOfMemory (c : CollectorBuddy) (size : Nat) : Option CollectorBuddy := do
  let (_, table) ← c.table.addObjNode
  match c.page.allocate size with
  | .error .outOfMemory => some { c with table }
  | _ => none

/-- A collector, and for each constructor that runs the object and the active root that `allocate` saved,
the innermost first. -/
structure Construction where
  collector : CollectorBuddy
  frames : List (Nat × Option Nat)

inductive ConstructionOp where
  -- `allocate` up to the constructor of the payload, or up to the throw of `_page.allocate`
  | allocate (size destructor : Nat)
  | outOfMemory (size : Nat)
  -- a constructor returns, and `allocate` after it
  | constructed
  -- a constructor throws, and `allocate` with it
  | throws
  | getRoot
  | regRef (fromObject : Nat) (toObject : Option Nat)
  | delRef (fromObject ref : Nat)
  | write (header : Nat) (contents : Nat → Header)
  | collect (deletes : Nat → List Nat)

def Construction.step (s : Construction) : ConstructionOp → Option Construction
  | .allocate size destructor => do
      let (node, _) ← s.collector.table.addObjNode
      let collector ← s.collector.enter size destructor
      return { collector, frames := (node, s.collector.activeRoot) :: s.frames }
  | .outOfMemory size => (s.collector.outOfMemory size).map fun collector => { s with collector }
  | .constructed =>
      match s.frames with
      | [] => none
      | (_, root) :: frames => some { collector := { s.collector with activeRoot := root }, frames }
  | .throws =>
      -- `_active_root = prev_root` is not reached
      match s.frames with
      | [] => none
      | _ :: frames => some { s with frames }
  | .getRoot => some { s with collector := { s.collector with toService := s.collector.getRoot.2 } }
  | .regRef fromObject toObject =>
      (s.collector.regRef fromObject toObject).map fun (_, service) =>
        { s with collector := { s.collector with toService := service } }
  | .delRef fromObject ref =>
      some { s with collector := { s.collector with toService := s.collector.delRef fromObject ref } }
  | .write header contents =>
      some { s with collector := { s.collector with page := s.collector.page.clientWrite header contents } }
  | .collect deletes =>
      (s.collector.collect deletes).map fun (_, collector) => { s with collector }

/-- References are made from owners and deleted from them, and no collection destroys an object of `building` or of
a constructor of the run while it is being built. -/
def Construction.Allowed (building : List Nat) (s : Construction) : ConstructionOp → Prop
  | .regRef fromObject _ => IsOwner s.collector.table fromObject
  | .delRef fromObject ref => IsOwner s.collector.table fromObject ∧ HoldsRef s.collector.table fromObject ref
  | .collect deletes => OwnDeletes s.collector.table deletes ∧
      ∀ garbage table, s.collector.table.condemn = some (garbage, table) →
        ∀ o ∈ building ++ s.frames.map Prod.fst, o ∉ garbage
  | _ => True

/-- A call of `allocate` that throws leads from one state to the other; `building` are the objects under construction
around it. -/
inductive Throws (building : List Nat) (c : CollectorBuddy) (size destructor : Nat) : CollectorBuddy → Prop
  | outOfMemory {after : CollectorBuddy} (thrown : c.outOfMemory size = some after) :
      Throws building c size destructor after
  | constructor {node : Nat} {t : Table} {entered after : CollectorBuddy} {body : List ConstructionOp}
      (added : c.table.addObjNode = some (node, t)) (enter : c.enter size destructor = some entered)
      (allowed : Runs.Along Construction.step (Construction.Allowed (node :: building))
        { collector := entered, frames := [] } body)
      (run : Runs.exec Construction.step { collector := entered, frames := [] } body =
        some { collector := after, frames := [] }) : Throws building c size destructor after

/-- The objects, the blocks and the active root are those from before. -/
structure Unchanged (before after : CollectorBuddy) : Prop where
  objects : ∀ o, IsObject after.table o ↔ IsObject before.table o
  -- what is not free is allocated
  blocks : ∀ l o, after.page.FreeAt l o ↔ before.page.FreeAt l o
  activeRoot : after.activeRoot = before.activeRoot

def constructionStart (capacity : Nat) (contents : Nat → Header) : Option Construction := do
  let page ← page capacity contents
  let table ← table
  return { collector := { table, activeRoot := none, page }, frames := [] }

section Tables

variable {c : CollectorBuddy} {objects : List Nat} {refs : Nat → List Nat} {free : List Nat}

theorem destroy_table (ok : c.table.Ok objects refs free) {object : Nat} (member : object ∈ objects)
    {deletes : List Nat} (nodup : deletes.Nodup) (own : ∀ r ∈ deletes, r ∈ refs object) {call : Nat × Nat}
    {after : CollectorBuddy} (destroyed : c.destroy deletes object = some (call, after)) :
    ∃ refs' free', after.table.Ok (objects.erase object) refs' free' ∧ ∀ o, o ≠ object → refs' o = refs o := by
  simp only [CollectorBuddy.destroy, Option.bind_eq_bind, Option.bind_eq_some_iff] at destroyed
  obtain ⟨ptr, -, destructor, -, table, removed, page, -, same⟩ := destroyed
  obtain ⟨-, rfl⟩ := Prod.mk.inj (Option.some.inj same)
  obtain ⟨refs', free', deleted, -, others, -⟩ := deleteRefs_spec ok (List.mem_cons_of_mem _ member) nodup own
  obtain ⟨t', removed', -, table', -⟩ := remObjNode_spec deleted member
  obtain rfl := Option.some.inj (removed'.symm.trans removed)
  exact ⟨refs', _, table', others⟩

theorem destroyAll_table (ok : c.table.Ok objects refs free) {garbage : List Nat} (nodup : garbage.Nodup)
    (condemned : ∀ o ∈ garbage, o ∈ objects) {deletes : Nat → List Nat}
    (own : ∀ o ∈ garbage, (deletes o).Nodup ∧ ∀ r ∈ deletes o, r ∈ refs o) {calls : List (Nat × Nat)}
    {after : CollectorBuddy} (destroyed : CollectorBuddy.destroyAll deletes garbage c = some (calls, after)) :
    ∃ objects' refs' free', after.table.Ok objects' refs' free' ∧ ∀ o ∈ objects, o ∉ garbage → o ∈ objects' := by
  induction garbage generalizing c objects refs free calls with
  | nil =>
      obtain ⟨-, rfl⟩ := Prod.mk.inj (Option.some.inj destroyed)
      exact ⟨objects, refs, free, ok, fun o inside _ => inside⟩
  | cons object rest ih =>
      obtain ⟨fresh, nodup⟩ := List.nodup_cons.mp nodup
      simp only [CollectorBuddy.destroyAll, Option.bind_eq_bind, Option.bind_eq_some_iff] at destroyed
      obtain ⟨⟨call, c₁⟩, first, ⟨calls', c₂⟩, others, same⟩ := destroyed
      obtain ⟨-, rfl⟩ := Prod.mk.inj (Option.some.inj same)
      have different (o : Nat) (inside : o ∈ rest) : o ≠ object := fun equal => fresh (equal ▸ inside)
      obtain ⟨refs₁, free₁, ok₁, kept⟩ := destroy_table ok (condemned object (by simp)) (own object (by simp)).1
        (own object (by simp)).2 first
      obtain ⟨objects', refs', free', ok', still⟩ := ih ok₁ nodup
        (fun o inside => (List.mem_erase_of_ne (different o inside)).mpr (condemned o (List.mem_cons_of_mem _ inside)))
        (fun o inside => by
          rw [kept o (different o inside)]
          exact own o (List.mem_cons_of_mem _ inside)) others
      refine ⟨objects', refs', free', ok', fun o inside outside => still o ?_ fun later => ?_⟩
      · exact (List.mem_erase_of_ne fun equal => outside (by simp [equal])).mpr inside
      · exact outside (List.mem_cons_of_mem _ later)

theorem collect_table (ok : c.table.Ok objects refs free) {deletes : Nat → List Nat} (own : OwnDeletes c.table deletes)
    {calls : List (Nat × Nat)} {after : CollectorBuddy} (collected : c.collect deletes = some (calls, after)) :
    ∃ garbage table objects' refs' free', c.table.condemn = some (garbage, table) ∧
      after.table.Ok objects' refs' free' ∧ ∀ o ∈ objects, o ∉ garbage → o ∈ objects' := by
  simp only [CollectorBuddy.collect, Option.bind_eq_bind, Option.bind_eq_some_iff] at collected
  obtain ⟨⟨garbage, table⟩, condemned, destroyed⟩ := collected
  obtain ⟨part, marked, rfl⟩ := condemn_marks ok condemned
  have ok₁ : (c.table.withNodes (withMarks c.table.nodes marked)).Ok objects refs free :=
    ok.withNodes fun n => by simp [withMarks]
  obtain ⟨objects', refs', free', ok', kept⟩ := destroyAll_table (c := { c with table := _ }) ok₁
    (ok.list.nodup.sublist part) (fun o inside => part.subset inside)
    (fun o inside => own.own ok o (part.subset inside)) destroyed
  exact ⟨garbage, _, objects', refs', free', condemned, ok', kept⟩

end Tables

def Construction.Tabled (building : List Nat) (s : Construction) : Prop :=
  ∃ objects refs free, s.collector.table.Ok objects refs free ∧ ∀ o ∈ building ++ s.frames.map Prod.fst, o ∈ objects

theorem enter_table {c entered : CollectorBuddy} {size destructor node : Nat} {t : Table}
    {objects : List Nat} {refs : Nat → List Nat} {free : List Nat} (ok : c.table.Ok objects refs free)
    (added : c.table.addObjNode = some (node, t)) (enter : c.enter size destructor = some entered) :
    node ∉ objects ∧ ∃ refs' free', entered.table.Ok (node :: objects) refs' free' := by
  obtain ⟨node', t', free', added', -, fresh, ok', -⟩ := Table.addObjNode_spec ok
  obtain ⟨rfl, rfl⟩ := Prod.mk.inj (Option.some.inj (added'.symm.trans added))
  simp only [CollectorBuddy.enter, added, Option.bind_eq_bind, Option.bind_some] at enter
  split at enter
  · cases enter
  · rename_i alloc page allocated
    obtain rfl := Option.some.inj enter
    exact ⟨fun inside => fresh (List.mem_cons_of_mem _ inside), _, _, (Table.setPtr_ok ok' _ _).1⟩

theorem outOfMemory_table {c after : CollectorBuddy} {size : Nat} {objects : List Nat} {refs : Nat → List Nat}
    {free : List Nat} (ok : c.table.Ok objects refs free) (thrown : c.outOfMemory size = some after) :
    ∃ node refs' free', node ∉ objects ∧ after.table.Ok (node :: objects) refs' free' ∧ after.page = c.page ∧
      after.activeRoot = c.activeRoot ∧ (after.table.nodes node).val.ptr = none := by
  obtain ⟨node, t, free', added, -, fresh, ok', -⟩ := Table.addObjNode_spec ok
  have blank := (Table.addObjNode_val ok added).1
  simp only [CollectorBuddy.outOfMemory, added, Option.bind_eq_bind, Option.bind_some] at thrown
  split at thrown
  · obtain rfl := Option.some.inj thrown
    exact ⟨node, _, free', fun inside => fresh (List.mem_cons_of_mem _ inside), ok', rfl, rfl,
      congrArg TableCell.ptr blank⟩
  · cases thrown

theorem Construction.Tabled.step {building : List Nat} {s next : Construction} {op : ConstructionOp}
    (tabled : s.Tabled building) (allowed : s.Allowed building op) (taken : s.step op = some next) :
    next.Tabled building := by
  obtain ⟨objects, refs, free, ok, inside⟩ := tabled
  cases op with
  | allocate size destructor =>
      simp only [Construction.step, Option.bind_eq_bind, Option.bind_eq_some_iff] at taken
      obtain ⟨⟨node, t⟩, added, entered, enter, same⟩ := taken
      obtain rfl := Option.some.inj same
      obtain ⟨-, refs', free', ok'⟩ := enter_table ok added enter
      refine ⟨node :: objects, refs', free', ok', fun o known => ?_⟩
      rw [List.map_cons, List.mem_append, List.mem_cons] at known
      rcases known with around | rfl | framed
      · exact List.mem_cons_of_mem _ (inside o (List.mem_append_left _ around))
      · simp
      · exact List.mem_cons_of_mem _ (inside o (List.mem_append_right _ framed))
  | outOfMemory size =>
      obtain ⟨after, thrown, rfl⟩ := Option.map_eq_some_iff.mp taken
      obtain ⟨node, refs', free', -, ok', -⟩ := outOfMemory_table ok thrown
      exact ⟨node :: objects, refs', free', ok', fun o known => List.mem_cons_of_mem _ (inside o known)⟩
  | constructed | throws =>
      cases frames : s.frames with
      | nil => simp [Construction.step, frames] at taken
      | cons frame rest =>
          simp only [Construction.step, frames, Option.some.injEq] at taken
          subst taken
          refine ⟨objects, refs, free, ok, fun o known => inside o ?_⟩
          rw [frames]
          rcases List.mem_append.mp known with around | framed
          · exact List.mem_append_left _ around
          · exact List.mem_append_right _ (List.mem_cons_of_mem _ framed)
  | getRoot =>
      obtain rfl := Option.some.inj taken
      have same : s.collector.getRoot.2.table = s.collector.table := by
        unfold Service.getRoot
        split <;> rfl
      refine ⟨objects, refs, free, ?_, inside⟩
      change s.collector.getRoot.2.table.Ok objects refs free
      rwa [same]
  | regRef fromObject toObject =>
      obtain ⟨⟨ref, service⟩, registered, rfl⟩ := Option.map_eq_some_iff.mp taken
      obtain ⟨⟨ref', t⟩, added, same⟩ := Option.map_eq_some_iff.mp registered
      obtain ⟨-, rfl⟩ := Prod.mk.inj same
      obtain ⟨_, _, free', added', -, -, -, ok', -⟩ := Table.addRefNode_spec ok ((isOwner_iff ok).mp allowed) toObject
      obtain ⟨-, rfl⟩ := Prod.mk.inj (Option.some.inj (added'.symm.trans added))
      exact ⟨objects, _, free', ok', inside⟩
  | delRef fromObject ref =>
      obtain rfl := Option.some.inj taken
      have owner := (isOwner_iff ok).mp allowed.1
      exact ⟨objects, _, _, (Table.remRefNode_spec ok owner ((holdsRef_iff ok owner).mp allowed.2)).2.1, inside⟩
  | write header contents =>
      obtain rfl := Option.some.inj taken
      exact ⟨objects, refs, free, ok, inside⟩
  | collect deletes =>
      obtain ⟨⟨calls, after⟩, collected, rfl⟩ := Option.map_eq_some_iff.mp taken
      obtain ⟨garbage, table, objects', refs', free', condemned, ok', kept⟩ := collect_table ok allowed.1 collected
      exact ⟨objects', refs', free', ok', fun o known => kept o (inside o known) (allowed.2 garbage table condemned o known)⟩

theorem Construction.Tabled.exec {building : List Nat} {s final : Construction} {ops : List ConstructionOp}
    (tabled : s.Tabled building) (allowed : Runs.Along Construction.step (Construction.Allowed building) s ops)
    (run : Runs.exec Construction.step s ops = some final) : final.Tabled building :=
  allowed.invariant (Construction.Tabled building) (fun _ _ _ known ok taken => known.step ok taken) tabled run

theorem constructionStart_tabled {capacity : Nat} {contents : Nat → Header} {start : Construction}
    (begun : constructionStart capacity contents = some start) : start.Tabled [] := by
  obtain ⟨t, free, made, ok⟩ := table_ok
  simp only [constructionStart, made, Option.bind_eq_bind, Option.bind_eq_some_iff, Option.bind_some] at begun
  obtain ⟨page, -, same⟩ := begun
  obtain rfl := Option.some.inj same
  exact ⟨[], _, free, ok, by simp⟩

theorem Throws.not_unchanged {building : List Nat} {c after : CollectorBuddy} {size destructor : Nat}
    {objects : List Nat} {refs : Nat → List Nat} {free : List Nat} (throws : Throws building c size destructor after)
    (ok : c.table.Ok objects refs free) (inside : ∀ o ∈ building, o ∈ objects) : ¬ Unchanged c after := by
  intro unchanged
  cases throws with
  | outOfMemory thrown =>
      obtain ⟨node, refs', free', fresh, ok', -⟩ := outOfMemory_table ok thrown
      exact fresh ((isObject_iff ok).mp ((unchanged.objects node).mp ((isObject_iff ok').mpr (by simp))))
  | constructor added enter allowed run =>
      rename_i node _ entered _
      obtain ⟨fresh, refs₁, free₁, ok₁⟩ := enter_table ok added enter
      have tabled : Construction.Tabled (node :: building) { collector := entered, frames := [] } := by
        refine ⟨_, refs₁, free₁, ok₁, fun o member => ?_⟩
        rw [List.map_nil, List.append_nil, List.mem_cons] at member
        rcases member with rfl | around
        · simp
        · exact List.mem_cons_of_mem _ (inside o around)
      obtain ⟨objects', refs', free', ok', known⟩ := tabled.exec allowed run
      have still := (isObject_iff ok').mpr (known node (by simp))
      exact fresh ((isObject_iff ok).mp ((unchanged.objects node).mp still))

/-- No call of `allocate` that throws leaves the collector as it was. -/
theorem allocate_throws_changed (capacity : Nat) (contents : Nat → Header) (start s : Construction)
    (ops : List ConstructionOp) (begun : constructionStart capacity contents = some start)
    (allowed : Runs.Along Construction.step (Construction.Allowed []) start ops)
    (run : Runs.exec Construction.step start ops = some s) (size destructor : Nat) (after : CollectorBuddy)
    (throws : Throws (s.frames.map Prod.fst) s.collector size destructor after) : ¬ Unchanged s.collector after := by
  obtain ⟨objects, refs, free, ok, inside⟩ := (constructionStart_tabled begun).exec allowed run
  exact throws.not_unchanged ok (by simpa using inside)

-- The second object does not fit any more.
theorem allocate_throws_changed_full : ∃ start s after, constructionStart (2 ^ 6) zeroed = some start ∧
    Runs.exec Construction.step start [.allocate 40 1, .constructed] = some s ∧
    Throws (s.frames.map Prod.fst) s.collector 8 1 after ∧ ¬ Unchanged s.collector after := by
  have fits : ((page (2 ^ 6) zeroed).any fun p => (p.allocate 40).toOption.any fun block =>
      ((block.2.setUserData block.1 (some 1)).allocate 8).map (fun _ => ()) = .error .outOfMemory) = true := by
    decide +kernel
  obtain ⟨p, made, full⟩ := (Option.any_eq_true _ _).mp fits
  obtain ⟨t, free, built, ok⟩ := table_ok
  obtain ⟨node, t₁, free₁, added, -, -, ok₁, -⟩ := Table.addObjNode_spec ok
  cases allocated : p.allocate 40 with
  | error fault => simp [allocated, Except.toOption] at full
  | ok block =>
      obtain ⟨h, p'⟩ := block
      let c : CollectorBuddy := { table := t, activeRoot := none, page := p }
      let c₁ : CollectorBuddy :=
        { table := t₁.setPtr node (some (h + headerSize)), activeRoot := none, page := p'.setUserData h (some 1) }
      have start : constructionStart (2 ^ 6) zeroed = some { collector := c, frames := [] } := by
        rw [constructionStart, made, built]
        rfl
      have run : Runs.exec Construction.step { collector := c, frames := [] } [.allocate 40 1, .constructed] =
          some { collector := c₁, frames := [] } := by
        simp only [Runs.exec, Construction.step, CollectorBuddy.enter, c, added, allocated, Option.bind_eq_bind,
          Option.bind_some]
        rfl
      obtain ⟨node₂, t₂, free₂, added₂, -⟩ := Table.addObjNode_spec (Table.setPtr_ok ok₁ node (some (h + headerSize))).1
      have thrown : c₁.outOfMemory 8 = some { c₁ with table := t₂ } := by
        simp only [allocated, Except.toOption, Option.any_some, decide_eq_true_eq] at full
        simp only [CollectorBuddy.outOfMemory, c₁, added₂, Option.bind_eq_bind, Option.bind_some]
        cases result : (p'.setUserData h (some 1)).allocate 8 with
        | ok block => simp [result, Except.map] at full
        | error fault =>
            rw [result] at full
            cases full
            rfl
      have allowed : Runs.Along Construction.step (Construction.Allowed []) { collector := c, frames := [] }
          [.allocate 40 1, .constructed] := ⟨True.intro, fun _ _ => ⟨True.intro, fun _ _ => True.intro⟩⟩
      exact ⟨_, _, _, start, run, .outOfMemory thrown,
        allocate_throws_changed (2 ^ 6) zeroed _ _ _ start allowed run 8 1 _ (.outOfMemory thrown)⟩

/-- A constructor that throws at once, in a page of 64 bytes. -/
theorem allocate_throws_fresh : ∃ start after, constructionStart (2 ^ 6) zeroed = some start ∧
    Throws [] start.collector 8 1 after ∧ ¬ Unchanged start.collector after := by
  have fits : ((page (2 ^ 6) zeroed).any fun p => (p.allocate 8).isOk) = true := by decide +kernel
  obtain ⟨p, made, isOk⟩ := (Option.any_eq_true _ _).mp fits
  obtain ⟨t, free, built, ok⟩ := table_ok
  obtain ⟨node, t₁, free₁, added, -⟩ := Table.addObjNode_spec ok
  obtain ⟨⟨alloc, p₁⟩, allocated⟩ : ∃ block, p.allocate 8 = .ok block := by
    cases result : p.allocate 8 with
    | error fault => simp [result, Except.isOk, Except.toBool] at isOk
    | ok block => exact ⟨block, rfl⟩
  let c : CollectorBuddy := { table := t, activeRoot := none, page := p }
  obtain ⟨entered, enter⟩ : ∃ entered, c.enter 8 1 = some entered := by
    simp only [CollectorBuddy.enter, c, added, allocated, Option.bind_eq_bind, Option.bind_some]
    exact ⟨_, rfl⟩
  have throws : Throws [] c 8 1 entered :=
    @Throws.constructor [] c 8 1 node t₁ entered entered [] added enter True.intro rfl
  refine ⟨{ collector := c, frames := [] }, entered, ?_, throws,
    throws.not_unchanged ok (by simp)⟩
  rw [constructionStart, made, built]
  rfl

/-- After a call that ran out of memory the next collection has no meaning: it takes the header of an object
that never got a block. -/
theorem outOfMemory_collect {K : Nat} {c after : CollectorBuddy} {objects : List Nat} {refs : Nat → List Nat}
    {live : List (Nat × Nat)} {size : Nat} (inv : CollectorInv K c objects refs live)
    (thrown : c.outOfMemory size = some after) (deletes : Nat → List Nat) : after.collect deletes = none := by
  obtain ⟨free, ok⟩ := inv.table
  obtain ⟨node, t, free', added, root, fresh, ok', kept⟩ := Table.addObjNode_spec ok
  obtain ⟨blank, vals⟩ := Table.addObjNode_val ok added
  simp only [CollectorBuddy.outOfMemory, added, Option.bind_eq_bind, Option.bind_some] at thrown
  split at thrown
  · obtain rfl := Option.some.inj thrown
    have aimed : ∀ o ∈ t.root :: node :: objects, ∀ r ∈ Function.update refs node [] o,
        ∃ p ∈ t.root :: objects, (t.nodes r).val.word = some p := by
      intro o owner r inside
      have different : o ≠ node := by
        rintro rfl
        simp at inside
      rw [Function.update_of_ne different] at inside
      rw [root] at owner ⊢
      have known : o ∈ c.table.root :: objects := by simpa [different] using owner
      obtain ⟨p, target, word⟩ := inv.aimed o known r inside
      exact ⟨p, target, by rw [kept o known r inside, word]⟩
    obtain ⟨garbage, condemned, part, unreached⟩ := condemn_spec ok' (fun o owner r inside => by
      obtain ⟨p, target, word⟩ := aimed o owner r inside
      rcases List.mem_cons.mp target with rfl | object
      · exact ⟨_, by simp, word⟩
      · exact ⟨p, by simp [object], word⟩) (fun o inside => by
      rcases List.mem_cons.mp inside with rfl | object
      · rw [blank]
        rfl
      · rw [vals o (List.mem_cons_of_mem _ object)]
        exact inv.unmarked o object)
    -- nothing refers to the new object, which is the first of the list
    have stays (o : Nat) (path : Relation.ReflTransGen (t.Refers (Function.update refs node [])) t.root o) :
        o ∈ t.root :: objects := by
      induction path with
      | refl => simp
      | tail _ edge ih =>
          obtain ⟨r, inside, word⟩ := List.mem_filterMap.mp edge
          have owner (o : Nat) (known : o ∈ t.root :: objects) : o ∈ t.root :: node :: objects := by
            rcases List.mem_cons.mp known with rfl | object
            · simp
            · simp [object]
          obtain ⟨p, target, word'⟩ := aimed _ (owner _ ih) r inside
          exact Option.some.inj (word'.symm.trans word) ▸ target
    have dead : node ∈ garbage := (unreached node (by simp)).mpr fun path => fresh (root ▸ stays node path)
    cases part with
    | cons _ part => exact absurd (List.mem_cons_of_mem _ (part.subset dead)) fresh
    | cons_cons _ part =>
        have null : (setMarked t.nodes t.root true node).val.ptr = none := by
          rw [setMarked_ptr, blank]
          rfl
        simp only [CollectorBuddy.collect, condemned, CollectorBuddy.destroyAll, CollectorBuddy.destroy,
          Option.bind_eq_bind, Option.bind_some]
        change (((setMarked t.nodes t.root true node).val.ptr.bind _).bind _) = none
        rw [null]
        rfl
  · cases thrown

end PrototypeBundle.Gc
