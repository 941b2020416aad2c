import PrototypeBundle.Buddy.Runs
import PrototypeBundle.Gc.Collector

set_option autoImplicit false

namespace PrototypeBundle.Gc

open Memory Buddy

/-- The objects of the table and the blocks that the page handed out are the same in number and place. -/
structure Stored (K : Nat) (c : CollectorBuddy) (objects : List Nat) (refs : Nat → List Nat)
    (live : List (Nat × Nat)) : Prop where
  table : ∃ free, c.table.Ok objects refs free
  page : ∃ free, Buddy.Inv K { page := c.page, live } free
  placed : ∀ o ∈ objects, ∃ block ∈ live, (c.table.nodes o).val.ptr = some (block.1 + headerSize)
  owned : ∀ block ∈ live, ∃ o ∈ objects, (c.table.nodes o).val.ptr = some (block.1 + headerSize)
  once : ∀ o ∈ objects, ∀ p ∈ objects, (c.table.nodes o).val.ptr = (c.table.nodes p).val.ptr → o = p
  destructors : ∀ block ∈ live, ∃ destructor, (c.page.buffer block.1).userData = some destructor

/-- The destructor of an object, and the payload that it is called with. -/
def CollectorBuddy.destructor (c : CollectorBuddy) (object : Nat) : Option (Nat × Nat) := do
  let ptr ← (c.table.nodes object).val.ptr
  let destructor ← (c.page.buffer (ptr - headerSize)).userData
  return (destructor, ptr)

section Tables

variable {t : Table} {objects : List Nat} {refs : Nat → List Nat} {free : List Nat}

theorem Table.Ok.congrRefs (ok : t.Ok objects refs free) (refs' : Nat → List Nat)
    (same : ∀ o ∈ t.root :: objects, refs' o = refs o) : t.Ok objects refs' free where
  pool := ok.pool
  list := ok.list
  chain := fun o owner => same o owner ▸ ok.chain o owner
  rootNew := ok.rootNew
  owner := ok.owner
  ref := fun o owner r inside => ok.ref o owner r (same o owner ▸ inside)
  apart := fun o ownerO p ownerP r insideO insideP =>
    ok.apart o ownerO p ownerP r (same o ownerO ▸ insideO) (same p ownerP ▸ insideP)

theorem deleteRefs_spec (ok : t.Ok objects refs free) {object : Nat} (owner : object ∈ t.root :: objects)
    {deletes : List Nat} (nodup : deletes.Nodup) (own : ∀ r ∈ deletes, r ∈ refs object) :
    let t' := deletes.foldl (fun t ref => t.remRefNode object ref) t
    ∃ refs' free', t'.Ok objects refs' free' ∧ t'.root = t.root ∧ (∀ o, o ≠ object → refs' o = refs o) ∧
      ∀ n, n ≠ object → (t'.nodes n).val = (t.nodes n).val := by
  induction deletes generalizing t refs free with
  | nil => exact ⟨refs, free, ok, rfl, fun _ _ => rfl, fun _ _ => rfl⟩
  | cons ref rest ih =>
      obtain ⟨fresh, nodup⟩ := List.nodup_cons.mp nodup
      obtain ⟨root, removed, -⟩ := Table.remRefNode_spec ok owner (own ref (by simp))
      obtain ⟨refs', free', ok', root', others, vals⟩ := ih removed (root ▸ owner) nodup (by
        intro r member
        have different : r ≠ ref := fun same => fresh (same ▸ member)
        rw [Function.update_self]
        exact (List.mem_erase_of_ne different).mpr (own r (List.mem_cons_of_mem _ member)))
      refine ⟨refs', free', ok', root'.trans root, ?_, ?_⟩
      · intro o different
        rw [others o different, Function.update_of_ne different]
      · intro n different
        exact (vals n different).trans ((remRefNode_val t object ref n).2.2 different)

end Tables

section Sweep

variable {K : Nat} {c : CollectorBuddy} {objects : List Nat} {refs : Nat → List Nat} {live : List (Nat × Nat)}

theorem destroy_spec (stored : Stored K c objects refs live) {object : Nat} (member : object ∈ objects)
    {deletes : List Nat} (nodup : deletes.Nodup) (own : ∀ r ∈ deletes, r ∈ refs object) :
    ∃ call after live', c.destroy deletes object = some (call, after) ∧ c.destructor object = some call ∧
      Stored K after (objects.erase object) refs live' ∧ after.table.root = c.table.root ∧
      after.activeRoot = c.activeRoot ∧
      (∀ o ∈ c.table.root :: objects, o ≠ object → (after.table.nodes o).val = (c.table.nodes o).val ∧
        ∀ r ∈ refs o, (after.table.nodes r).val = (c.table.nodes r).val) ∧
      ∀ o ∈ objects, o ≠ object → after.destructor o = c.destructor o := by
  obtain ⟨⟨free, table⟩, ⟨freeBlocks, page⟩, placed, owned, once, destructors⟩ := stored
  have owner : object ∈ c.table.root :: objects := List.mem_cons_of_mem _ member
  obtain ⟨block, isLive, ptr⟩ := placed object member
  obtain ⟨destructor, userData⟩ := destructors block isLive
  have owns : PageRun.owns { page := c.page, live } block.1 := List.mem_map_of_mem isLive
  obtain ⟨refs', free', deleted, root₁, others, vals₁⟩ := deleteRefs_spec table owner nodup own
  obtain ⟨t', removed, root₂, table', vals₂⟩ := remObjNode_spec deleted member
  obtain ⟨page', freeBlocks', freed, pageInv, headers⟩ := free_inv page owns
  have header : block.1 + headerSize - headerSize = block.1 := Nat.add_sub_cancel _ _
  let after : CollectorBuddy := { c with table := t', page := page' }
  have still (o : Nat) (inside : o ∈ objects.erase object) : o ∈ objects ∧ o ≠ object := by
    refine ⟨List.mem_of_mem_erase inside, ?_⟩
    rintro rfl
    exact table.list.nodup.not_mem_erase inside
  have frame (o : Nat) (known : o ∈ c.table.root :: objects) (different : o ≠ object) :
      (after.table.nodes o).val = (c.table.nodes o).val ∧
        ∀ r ∈ refs o, (after.table.nodes r).val = (c.table.nodes r).val := by
    have known₁ : o ∈ (deletes.foldl (fun t ref => t.remRefNode object ref) c.table).root :: objects := root₁ ▸ known
    have owner₁ : object ∈ (deletes.foldl (fun t ref => t.remRefNode object ref) c.table).root :: objects :=
      root₁ ▸ owner
    constructor
    · exact (vals₂ o different (fun inside => (deleted.ref object owner₁ o inside).2.2 known₁)
        (deleted.owner o known₁).2).trans (vals₁ o different)
    · intro r inside
      have inside₁ : r ∈ refs' o := (others o different).symm ▸ inside
      obtain ⟨-, notFree, notOwner⟩ := deleted.ref o known₁ r inside₁
      have apart : r ≠ object := fun same => notOwner (same ▸ owner₁)
      exact (vals₂ r apart (fun shared => different (deleted.apart o known₁ object owner₁ r inside₁ shared))
        notFree).trans (vals₁ r apart)
  have ptrs (o : Nat) (inside : o ∈ objects) (different : o ≠ object) :
      (after.table.nodes o).val.ptr = (c.table.nodes o).val.ptr :=
    congrArg TableCell.ptr (frame o (List.mem_cons_of_mem _ inside) different).1
  -- the block of another object is another block
  have otherBlock (o : Nat) (inside : o ∈ objects) (different : o ≠ object) (other : Nat × Nat)
      (place : (c.table.nodes o).val.ptr = some (other.1 + headerSize)) : other.1 ≠ block.1 := by
    intro same
    rw [same, ← ptr] at place
    exact different (once o inside object member place)
  refine ⟨(destructor, block.1 + headerSize), after, live.filter (fun other => other.1 ≠ block.1), ?_, ?_, ?_,
    root₂.trans root₁, rfl, frame, ?_⟩
  · simp only [CollectorBuddy.destroy, ptr, Option.bind_eq_bind, Option.bind_some, header, userData, removed, freed]
    rfl
  · simp [CollectorBuddy.destructor, ptr, header, userData]
  · refine ⟨⟨_, (Table.Ok.congrRefs table' refs ?_)⟩, ⟨freeBlocks', pageInv⟩, ?_, ?_, ?_, ?_⟩
    · intro o known
      rw [root₂, root₁] at known
      refine (others o ?_).symm
      rintro rfl
      rcases List.mem_cons.mp known with same | inside
      · exact table.rootNew (same ▸ member)
      · exact (still _ inside).2 rfl
    · intro o inside
      obtain ⟨inside, different⟩ := still o inside
      obtain ⟨other, isLive', place⟩ := placed o inside
      refine ⟨other, List.mem_filter.mpr ⟨isLive', ?_⟩, (ptrs o inside different).trans place⟩
      simpa using otherBlock o inside different other place
    · intro other isLive'
      obtain ⟨isLive', apart⟩ := List.mem_filter.mp isLive'
      obtain ⟨o, inside, place⟩ := owned other isLive'
      have different : o ≠ object := by
        rintro rfl
        rw [ptr] at place
        have same : block.1 = other.1 := Nat.add_right_cancel (Option.some.inj place)
        simp [same] at apart
      exact ⟨o, (List.mem_erase_of_ne different).mpr inside, (ptrs o inside different).trans place⟩
    · intro o insideO p insideP same
      obtain ⟨insideO, differentO⟩ := still o insideO
      obtain ⟨insideP, differentP⟩ := still p insideP
      exact once o insideO p insideP ((ptrs o insideO differentO).symm.trans (same.trans (ptrs p insideP differentP)))
    · intro other isLive'
      obtain ⟨isLive', apart⟩ := List.mem_filter.mp isLive'
      obtain ⟨d, known⟩ := destructors other isLive'
      have same := headers other.1 (List.mem_map_of_mem isLive') (by simpa using apart)
      exact ⟨d, (congrArg Header.userData same).trans known⟩
  · intro o inside different
    obtain ⟨other, isLive', place⟩ := placed o inside
    have same := headers other.1 (List.mem_map_of_mem isLive') (otherBlock o inside different other place)
    have samePage : after.page.buffer other.1 = c.page.buffer other.1 := same
    simp [CollectorBuddy.destructor, ptrs o inside different, place, samePage]

theorem destroyAll_spec (stored : Stored K c objects refs live) {garbage : List Nat} (nodup : garbage.Nodup)
    (condemned : ∀ o ∈ garbage, o ∈ objects) {deletes : Nat → List Nat}
    (own : ∀ o ∈ garbage, (deletes o).Nodup ∧ ∀ r ∈ deletes o, r ∈ refs o) :
    ∃ calls after live', CollectorBuddy.destroyAll deletes garbage c = some (calls, after) ∧
      calls.map some = garbage.map c.destructor ∧ Stored K after (objects.filter (· ∉ garbage)) refs live' ∧
      after.table.root = c.table.root ∧ after.activeRoot = c.activeRoot ∧
      ∀ o ∈ c.table.root :: objects, o ∉ garbage → (after.table.nodes o).val = (c.table.nodes o).val ∧
        ∀ r ∈ refs o, (after.table.nodes r).val = (c.table.nodes r).val := by
  induction garbage generalizing c objects live with
  | nil => exact ⟨[], c, live, rfl, rfl, by simpa using stored, rfl, rfl, fun _ _ _ => ⟨rfl, fun _ _ => rfl⟩⟩
  | cons object rest ih =>
      obtain ⟨fresh, nodup⟩ := List.nodup_cons.mp nodup
      have member := condemned object (by simp)
      obtain ⟨free, table⟩ := stored.table
      obtain ⟨call, c₁, live₁, destroyed, called, stored₁, root₁, active₁, frame₁, destructors₁⟩ :=
        destroy_spec stored member (own object (by simp)).1 (own object (by simp)).2
      have later (o : Nat) (inside : o ∈ rest) : o ∈ objects ∧ o ≠ object :=
        ⟨condemned o (List.mem_cons_of_mem _ inside), fun same => fresh (same ▸ inside)⟩
      obtain ⟨calls, after, live', rest_destroyed, rest_called, stored', root', active', frame'⟩ := ih stored₁ nodup
        (fun o inside => (List.mem_erase_of_ne (later o inside).2).mpr (later o inside).1)
        (fun o inside => own o (List.mem_cons_of_mem _ inside))
      have remaining : (objects.erase object).filter (· ∉ rest) = objects.filter (· ∉ object :: rest) := by
        rw [table.list.nodup.erase_eq_filter, List.filter_filter]
        refine List.filter_congr fun o _ => ?_
        by_cases same : o = object <;> simp [same]
      refine ⟨call :: calls, after, live', ?_, ?_, remaining ▸ stored', root'.trans root₁, active'.trans active₁, ?_⟩
      · simp only [CollectorBuddy.destroyAll, destroyed, rest_destroyed, Option.bind_eq_bind, Option.bind_some]
        rfl
      · rw [List.map_cons, List.map_cons, called, rest_called]
        congr 1
        refine List.map_congr_left fun o inside => ?_
        exact destructors₁ o (later o inside).1 (later o inside).2
      · intro o known outside
        have different : o ≠ object := fun same => outside (by simp [same])
        have known₁ : o ∈ c₁.table.root :: objects.erase object := by
          rw [root₁]
          rcases List.mem_cons.mp known with rfl | inside
          · simp
          · exact List.mem_cons_of_mem _ ((List.mem_erase_of_ne different).mpr inside)
        obtain ⟨val₁, refs₁⟩ := frame₁ o known different
        obtain ⟨val', refs'⟩ := frame' o known₁ fun inside => outside (List.mem_cons_of_mem _ inside)
        exact ⟨val'.trans val₁, fun r inside => (refs' r inside).trans (refs₁ r inside)⟩

end Sweep

structure CollectorInv (K : Nat) (c : CollectorBuddy) (objects : List Nat) (refs : Nat → List Nat)
    (live : List (Nat × Nat)) : Prop extends Stored K c objects refs live where
  aimed : ∀ o ∈ c.table.root :: objects, ∀ r ∈ refs o,
    ∃ p ∈ c.table.root :: objects, (c.table.nodes r).val.word = some p
  unmarked : ∀ o ∈ objects, (c.table.nodes o).val.marked = false

def Reached (c : CollectorBuddy) (refs : Nat → List Nat) (o : Nat) : Prop :=
  Relation.ReflTransGen (c.table.Refers refs) c.table.root o

structure Collected (K : Nat) (c after : CollectorBuddy) (objects garbage kept : List Nat) (refs : Nat → List Nat)
    (calls : List (Nat × Nat)) (live : List (Nat × Nat)) : Prop where
  nodup : garbage.Nodup
  unreached : ∀ o, o ∈ garbage ↔ o ∈ objects ∧ ¬ Reached c refs o
  called : calls.map some = garbage.map c.destructor
  reached : ∀ o, o ∈ kept ↔ o ∈ objects ∧ Reached c refs o
  same : ∀ o ∈ kept, (after.table.nodes o).val.ptr = (c.table.nodes o).val.ptr
  inv : CollectorInv K after kept refs live
  root : after.table.root = c.table.root ∧ (after.table.nodes after.table.root).val.marked = true
  allReached : ∀ o ∈ kept, Reached after refs o

section Collect

variable {K : Nat} {c : CollectorBuddy} {objects : List Nat} {refs : Nat → List Nat} {live : List (Nat × Nat)}

theorem CollectorInv.markRoot (inv : CollectorInv K c objects refs live) :
    CollectorInv K { c with table := c.table.withNodes (setMarked c.table.nodes c.table.root true) } objects refs live := by
  obtain ⟨⟨⟨free, table⟩, page, placed, owned, once, destructors⟩, aimed, unmarked⟩ := inv
  have ptr (n : Nat) := setMarked_ptr c.table.nodes c.table.root n true
  refine ⟨⟨⟨free, table.withNodes fun n => by simp⟩, page, ?_, ?_, ?_, destructors⟩, ?_, ?_⟩
  · exact fun o inside => (placed o inside).imp fun block place => ⟨place.1, (ptr o).trans place.2⟩
  · exact fun block isLive => (owned block isLive).imp fun o place => ⟨place.1, (ptr o).trans place.2⟩
  · exact fun o insideO p insideP same => once o insideO p insideP ((ptr o).symm.trans (same.trans (ptr p)))
  · intro o owner r inside
    obtain ⟨p, known, word⟩ := aimed o owner r inside
    exact ⟨p, known, (setMarked_word _ _ _ _).trans word⟩
  · intro o inside
    have different : o ≠ c.table.root := fun same => table.rootNew (same ▸ inside)
    exact (setMarked_marked _ _ _ _).trans ((if_neg different).trans (unmarked o inside))

theorem collect_spec (inv : CollectorInv K c objects refs live) {deletes : Nat → List Nat}
    (own : ∀ o ∈ objects, (deletes o).Nodup ∧ ∀ r ∈ deletes o, r ∈ refs o) :
    ∃ garbage kept calls after live', c.collect deletes = some (calls, after) ∧
      after.activeRoot = c.activeRoot ∧ Collected K c after objects garbage kept refs calls live' := by
  obtain ⟨free, table⟩ := inv.table
  obtain ⟨garbage, condemned, part, unreached⟩ := condemn_spec table inv.aimed inv.unmarked
  have marked := inv.markRoot
  let c₁ : CollectorBuddy := { c with table := c.table.withNodes (setMarked c.table.nodes c.table.root true) }
  obtain ⟨calls, after, live', destroyed, called, stored, root, active, frame⟩ :=
    destroyAll_spec marked.toStored (table.list.nodup.sublist part) (fun o inside => part.subset inside)
      (fun o inside => own o (part.subset inside))
  have rootKept : c.table.root ∉ garbage := fun inside => table.rootNew (part.subset inside)
  have root' : after.table.root = c.table.root := root
  let kept := objects.filter (· ∉ garbage)
  have isKept (o : Nat) : o ∈ kept ↔ o ∈ objects ∧ Reached c refs o := by
    rw [List.mem_filter]
    constructor
    · rintro ⟨inside, outside⟩
      have notGarbage : o ∉ garbage := by simpa using outside
      rw [unreached o inside, not_not] at notGarbage
      exact ⟨inside, notGarbage⟩
    · rintro ⟨inside, reached⟩
      have notGarbage : o ∉ garbage := fun condemned => (unreached o inside).mp condemned reached
      exact ⟨inside, by simpa using notGarbage⟩
  -- the root and what is kept is what the root reaches, and none of it has changed
  have survivor (o : Nat) : o ∈ c.table.root :: kept ↔ o ∈ c.table.root :: objects ∧ Reached c refs o := by
    rw [List.mem_cons, List.mem_cons, isKept]
    constructor
    · rintro (rfl | ⟨inside, reached⟩)
      · exact ⟨Or.inl rfl, .refl⟩
      · exact ⟨Or.inr inside, reached⟩
    · rintro ⟨rfl | inside, reached⟩
      · exact Or.inl rfl
      · exact Or.inr ⟨inside, reached⟩
  have unchanged (o : Nat) (survives : o ∈ c.table.root :: kept) :
      (after.table.nodes o).val = (c₁.table.nodes o).val ∧
        ∀ r ∈ refs o, (after.table.nodes r).val.word = (c.table.nodes r).val.word := by
    have known := ((survivor o).mp survives).1
    have outside : o ∉ garbage := by
      rcases List.mem_cons.mp survives with rfl | inside
      · exact rootKept
      · simpa using (List.mem_filter.mp inside).2
    obtain ⟨val, refVals⟩ := frame o known outside
    refine ⟨val, fun r inside => ?_⟩
    exact (congrArg TableCell.word (refVals r inside)).trans (setMarked_word _ _ _ _)
  have next (o p : Nat) (survives : o ∈ c.table.root :: kept) (edge : c.table.Refers refs o p) :
      p ∈ c.table.root :: kept ∧ after.table.Refers refs o p := by
    obtain ⟨known, reached⟩ := (survivor o).mp survives
    obtain ⟨r, inside, word⟩ := List.mem_filterMap.mp edge
    obtain ⟨q, target, aimed⟩ := inv.aimed o known r inside
    obtain rfl := Option.some.inj (aimed.symm.trans word)
    refine ⟨(survivor q).mpr ⟨target, reached.tail edge⟩, ?_⟩
    exact List.mem_filterMap.mpr ⟨r, inside, ((unchanged o survives).2 r inside).trans word⟩
  have stays (o : Nat) (reached : Reached c refs o) :
      o ∈ c.table.root :: kept ∧ Relation.ReflTransGen (after.table.Refers refs) c.table.root o := by
    induction reached with
    | refl => exact ⟨by simp, .refl⟩
    | tail path edge ih =>
        obtain ⟨survives, edge'⟩ := next _ _ ih.1 edge
        exact ⟨survives, ih.2.tail edge'⟩
  refine ⟨garbage, kept, calls, after, live', ?_, active, ?_⟩
  · simp only [CollectorBuddy.collect, condemned, Option.bind_eq_bind, Option.bind_some]
    exact destroyed
  refine ⟨table.list.nodup.sublist part, ?_, ?_, isKept, ?_, ⟨stored, ?_, ?_⟩, ⟨root', ?_⟩, ?_⟩
  · intro o
    constructor
    · exact fun inside => ⟨part.subset inside, (unreached o (part.subset inside)).mp inside⟩
    · exact fun ⟨inside, notReached⟩ => (unreached o inside).mpr notReached
  · rw [called]
    refine List.map_congr_left fun o inside => ?_
    change ((setMarked c.table.nodes c.table.root true o).val.ptr.bind _) = _
    rw [setMarked_ptr]
    rfl
  · intro o inside
    exact (congrArg TableCell.ptr (unchanged o (List.mem_cons_of_mem _ inside)).1).trans (setMarked_ptr _ _ _ _)
  · intro o survives r inside
    rw [root'] at survives ⊢
    obtain ⟨known, -⟩ := (survivor o).mp survives
    obtain ⟨p, -, word⟩ := inv.aimed o known r inside
    have edge : c.table.Refers refs o p := List.mem_filterMap.mpr ⟨r, inside, word⟩
    exact ⟨p, (next o p survives edge).1, ((unchanged o survives).2 r inside).trans word⟩
  · intro o inside
    rw [(unchanged o (List.mem_cons_of_mem _ inside)).1]
    exact marked.unmarked o (List.mem_filter.mp inside).1
  · rw [root', (unchanged c.table.root (by simp)).1]
    exact (setMarked_marked _ _ _ _).trans (if_pos rfl)
  · intro o inside
    rw [Reached, root']
    exact (stays o ((isKept o).mp inside).2).2

theorem collect_idle (inv : CollectorInv K c objects refs live) (marked : (c.table.nodes c.table.root).val.marked = true)
    (reached : ∀ o ∈ objects, Reached c refs o) (deletes : Nat → List Nat) : c.collect deletes = some ([], c) := by
  obtain ⟨free, table⟩ := inv.table
  obtain ⟨garbage, condemned, part, unreached⟩ := condemn_spec table inv.aimed inv.unmarked
  have nothing : garbage = [] := by
    refine List.eq_nil_iff_forall_not_mem.mpr fun o inside => ?_
    exact (unreached o (part.subset inside)).mp inside (reached o (part.subset inside))
  have same : setMarked c.table.nodes c.table.root true = c.table.nodes := by
    funext n
    by_cases root : n = c.table.root
    · subst root
      rw [setMarked, modifyAt_same, ← marked]
    · rw [setMarked, modifyAt_other _ _ _ root]
  rw [nothing, same] at condemned
  simp only [CollectorBuddy.collect, condemned, Option.bind_eq_bind, Option.bind_some]
  rfl

end Collect

def IsObject (t : Table) (o : Nat) : Prop := ∃ objects, IsList t.nodes t.objects objects ∧ o ∈ objects

def IsOwner (t : Table) (o : Nat) : Prop := o = t.root ∨ IsObject t o

def HoldsRef (t : Table) (o ref : Nat) : Prop := ∃ refs, IsList t.nodes (t.nodes o).val.word refs ∧ ref ∈ refs

/-- Every destructor deletes references of its own object, each once. -/
def OwnDeletes (t : Table) (deletes : Nat → List Nat) : Prop :=
  ∀ o, IsObject t o → (deletes o).Nodup ∧ ∀ ref ∈ deletes o, HoldsRef t o ref

section Owners

variable {t : Table} {objects : List Nat} {refs : Nat → List Nat} {free : List Nat}

theorem isObject_of_list (list : IsList t.nodes t.objects objects) {o : Nat} : IsObject t o ↔ o ∈ objects := by
  constructor
  · rintro ⟨objects', list', inside⟩
    exact list'.isChain.unique list.isChain ▸ inside
  · exact fun inside => ⟨objects, list, inside⟩

theorem isOwner_of_list (list : IsList t.nodes t.objects objects) {o : Nat} : IsOwner t o ↔ o ∈ t.root :: objects := by
  rw [IsOwner, isObject_of_list list, List.mem_cons]

theorem isObject_iff (ok : t.Ok objects refs free) {o : Nat} : IsObject t o ↔ o ∈ objects := isObject_of_list ok.list

theorem isOwner_iff (ok : t.Ok objects refs free) {o : Nat} : IsOwner t o ↔ o ∈ t.root :: objects :=
  isOwner_of_list ok.list

theorem holdsRef_iff (ok : t.Ok objects refs free) {o ref : Nat} (owner : o ∈ t.root :: objects) :
    HoldsRef t o ref ↔ ref ∈ refs o := by
  constructor
  · rintro ⟨refs', list, inside⟩
    exact list.isChain.unique (ok.chain o owner).isChain ▸ inside
  · exact fun inside => ⟨refs o, ok.chain o owner, inside⟩

theorem OwnDeletes.own {deletes : Nat → List Nat} (own : OwnDeletes t deletes) (ok : t.Ok objects refs free) :
    ∀ o ∈ objects, (deletes o).Nodup ∧ ∀ r ∈ deletes o, r ∈ refs o := by
  intro o inside
  obtain ⟨nodup, holds⟩ := own o ((isObject_iff ok).mpr inside)
  exact ⟨nodup, fun r member => (holdsRef_iff ok (List.mem_cons_of_mem _ inside)).mp (holds r member)⟩

end Owners

/-- References are made between objects and deleted from their owners, and clients store into payloads. -/
def Proper (s : CollectorRun) : CollectorOp → Prop
  | .allocate size _ => size + headerSize < 2 ^ 64
  | .constructed => True
  | .regRef fromObject toObject => IsOwner s.collector.table fromObject ∧ IsOwner s.collector.table toObject
  | .delRef fromObject ref => IsOwner s.collector.table fromObject ∧ HoldsRef s.collector.table fromObject ref
  | .write header _ => ∃ o, IsObject s.collector.table o ∧
      (s.collector.table.nodes o).val.ptr = some (header + headerSize)
  | .collect deletes => OwnDeletes s.collector.table deletes

section Steps

variable {K : Nat} {c : CollectorBuddy} {objects : List Nat} {refs : Nat → List Nat} {live : List (Nat × Nat)}

theorem Stored.isOwner (stored : Stored K c objects refs live) {o : Nat} :
    IsOwner c.table o ↔ o ∈ c.table.root :: objects := by
  obtain ⟨free, table⟩ := stored.table
  exact isOwner_iff table

theorem Stored.isObject (stored : Stored K c objects refs live) {o : Nat} : IsObject c.table o ↔ o ∈ objects := by
  obtain ⟨free, table⟩ := stored.table
  exact isObject_iff table

theorem Stored.holdsRef (stored : Stored K c objects refs live) {o ref : Nat} (owner : o ∈ c.table.root :: objects) :
    HoldsRef c.table o ref ↔ ref ∈ refs o := by
  obtain ⟨free, table⟩ := stored.table
  exact holdsRef_iff table owner

theorem Stored.ownDeletes (stored : Stored K c objects refs live) {deletes : Nat → List Nat}
    (own : OwnDeletes c.table deletes) : ∀ o ∈ objects, (deletes o).Nodup ∧ ∀ r ∈ deletes o, r ∈ refs o := by
  obtain ⟨free, table⟩ := stored.table
  exact own.own table

theorem enter_inv (inv : CollectorInv K c objects refs live) (small : K ≤ 32) {size destructor : Nat}
    (fits : size + headerSize < 2 ^ 64) {next : CollectorBuddy} (entered : c.enter size destructor = some next) :
    ∃ node alloc refs', CollectorInv K next (node :: objects) refs' ((alloc, size) :: live) := by
  obtain ⟨⟨⟨free, table⟩, ⟨freeBlocks, page⟩, placed, owned, once, destructors⟩, aimed, unmarked⟩ := inv
  obtain ⟨node, t₁, free', added, root, fresh, intact, kept⟩ := Table.addObjNode_spec table
  obtain ⟨blank, vals⟩ := Table.addObjNode_val table added
  simp only [CollectorBuddy.enter, added, Option.bind_eq_bind, Option.bind_some] at entered
  split at entered
  · cases entered
  · rename_i alloc page' allocated
    obtain rfl := Option.some.inj entered
    obtain ⟨⟨freeBlocks', page₁⟩, headers⟩ :=
      Buddy.allocate_inv page fits (Or.inl (Nat.pow_le_pow_right (by decide) small)) allocated
    have owns : PageRun.owns { page := page', live := (alloc, size) :: live } alloc := by simp [PageRun.owns]
    have page₂ := setUserData_inv page₁ owns (some destructor)
    obtain ⟨placedTable, words⟩ := Table.setPtr_ok intact node (some (alloc + headerSize))
    let t₂ := t₁.setPtr node (some (alloc + headerSize))
    have other (o : Nat) (known : o ∈ c.table.root :: objects) : o ≠ node ∧ t₂.nodes o = t₁.nodes o ∧
        (t₁.nodes o).val = (c.table.nodes o).val := by
      have different : o ≠ node := fun same => fresh (same ▸ known)
      exact ⟨different, t₁.setPtr_other node _ different, vals o known⟩
    have ptr (o : Nat) (inside : o ∈ objects) : (t₂.nodes o).val.ptr = (c.table.nodes o).val.ptr := by
      obtain ⟨-, same, val⟩ := other o (List.mem_cons_of_mem _ inside)
      rw [same, val]
    have newVal := t₁.setPtr_same node (some (alloc + headerSize))
    have newPtr : (t₂.nodes node).val.ptr = some (alloc + headerSize) := congrArg TableCell.ptr newVal
    have apart (block : Nat × Nat) (isLive : block ∈ live) : block.1 ≠ alloc := by
      intro same
      have member : block.1 ∈ live.map Prod.fst := List.mem_map_of_mem isLive
      exact (List.nodup_cons.mp page₁.once).1 (same ▸ member)
    have newBlock (o : Nat) (inside : o ∈ objects) : (t₂.nodes o).val.ptr ≠ some (alloc + headerSize) := by
      intro same
      obtain ⟨block, isLive, place⟩ := placed o inside
      rw [ptr o inside, place] at same
      exact apart block isLive (Nat.add_right_cancel (Option.some.inj same))
    have rootKept : t₂.root = c.table.root := root
    refine ⟨node, alloc, Function.update refs node [],
      ⟨⟨free', placedTable⟩, ⟨freeBlocks', page₂⟩, ?_, ?_, ?_, ?_⟩, ?_, ?_⟩
    · intro o inside
      rcases List.mem_cons.mp inside with rfl | inside
      · exact ⟨(alloc, size), by simp, newPtr⟩
      · obtain ⟨block, isLive, place⟩ := placed o inside
        exact ⟨block, List.mem_cons_of_mem _ isLive, (ptr o inside).trans place⟩
    · intro block isLive
      rcases List.mem_cons.mp isLive with rfl | isLive
      · exact ⟨node, by simp, newPtr⟩
      · obtain ⟨o, inside, place⟩ := owned block isLive
        exact ⟨o, List.mem_cons_of_mem _ inside, (ptr o inside).trans place⟩
    · intro o insideO p insideP same
      change (t₂.nodes o).val.ptr = (t₂.nodes p).val.ptr at same
      rcases List.mem_cons.mp insideO with isNewO | insideO
      · rcases List.mem_cons.mp insideP with isNewP | insideP
        · rw [isNewO, isNewP]
        · rw [isNewO, newPtr] at same
          exact absurd same.symm (newBlock p insideP)
      · rcases List.mem_cons.mp insideP with isNewP | insideP
        · rw [isNewP, newPtr] at same
          exact absurd same (newBlock o insideO)
        · exact once o insideO p insideP ((ptr o insideO).symm.trans (same.trans (ptr p insideP)))
    · intro block isLive
      rcases List.mem_cons.mp isLive with rfl | isLive
      · exact ⟨destructor, congrArg Header.userData (modifyAt_same _ _ _)⟩
      · obtain ⟨d, known⟩ := destructors block isLive
        refine ⟨d, (congrArg Header.userData (modifyAt_other _ _ _ (apart block isLive))).trans ?_⟩
        rw [headers block.1 (List.mem_map_of_mem isLive)]
        exact known
    · intro o owner r inside
      change o ∈ t₂.root :: node :: objects at owner
      rw [rootKept] at owner
      have different : o ≠ node := by
        rintro rfl
        simp at inside
      rw [Function.update_of_ne different] at inside
      have known : o ∈ c.table.root :: objects := by simpa [different] using owner
      obtain ⟨p, target, word⟩ := aimed o known r inside
      have same : t₁.nodes r = c.table.nodes r := kept o known r inside
      refine ⟨p, ?_, (words r).trans (by rw [same, word])⟩
      change p ∈ t₂.root :: node :: objects
      rw [rootKept]
      rcases List.mem_cons.mp target with rfl | object
      · simp
      · simp [object]
    · intro o inside
      change (t₂.nodes o).val.marked = false
      rcases List.mem_cons.mp inside with rfl | inside
      · rw [newVal, blank]
        rfl
      · obtain ⟨-, same, val⟩ := other o (List.mem_cons_of_mem _ inside)
        rw [same, val]
        exact unmarked o inside

theorem CollectorInv.withTable (inv : CollectorInv K c objects refs live) {t : Table} {refs' : Nat → List Nat}
    (table : ∃ free, t.Ok objects refs' free) (root : t.root = c.table.root)
    (vals : ∀ o ∈ objects, (t.nodes o).val.ptr = (c.table.nodes o).val.ptr ∧
      (t.nodes o).val.marked = (c.table.nodes o).val.marked)
    (aimed : ∀ o ∈ c.table.root :: objects, ∀ r ∈ refs' o, ∃ p ∈ c.table.root :: objects, (t.nodes r).val.word = some p) :
    CollectorInv K { c with table := t } objects refs' live where
  table := table
  page := inv.page
  placed := fun o inside => (inv.placed o inside).imp fun _ place => ⟨place.1, (vals o inside).1.trans place.2⟩
  owned := fun block isLive => (inv.owned block isLive).imp fun o place => ⟨place.1, (vals o place.1).1.trans place.2⟩
  once := fun o insideO p insideP same =>
    inv.once o insideO p insideP ((vals o insideO).1.symm.trans (same.trans (vals p insideP).1))
  destructors := inv.destructors
  aimed := by
    change ∀ o ∈ t.root :: objects, ∀ r ∈ refs' o, ∃ p ∈ t.root :: objects, (t.nodes r).val.word = some p
    rw [root]
    exact aimed
  unmarked := fun o inside => (vals o inside).2.trans (inv.unmarked o inside)

theorem regRef_inv (inv : CollectorInv K c objects refs live) {fromObject toObject : Nat}
    (owner : fromObject ∈ c.table.root :: objects) (target : toObject ∈ c.table.root :: objects) :
    ∃ ref t refs', c.table.addRefNode fromObject (some toObject) = some (ref, t) ∧
      CollectorInv K { c with table := t } objects refs' live := by
  obtain ⟨free, table⟩ := inv.table
  obtain ⟨ref, t, free', added, root, word, fresh, intact, words⟩ :=
    Table.addRefNode_spec table owner (some toObject)
  have vals := Table.addRefNode_val table added
  refine ⟨ref, t, _, added, inv.withTable ⟨free', intact⟩ root
    (fun o inside => vals o (List.mem_cons_of_mem _ inside)) fun o known r inside => ?_⟩
  by_cases new : r = ref
  · subst new
    exact ⟨toObject, target, word⟩
  · have old : r ∈ refs o := by
      by_cases same : o = fromObject
      · subst same
        simpa [new] using inside
      · rwa [Function.update_of_ne same] at inside
    obtain ⟨p, known', aimed⟩ := inv.aimed o known r old
    exact ⟨p, known', (words o known r old).trans aimed⟩

theorem delRef_inv (inv : CollectorInv K c objects refs live) {fromObject ref : Nat}
    (owner : fromObject ∈ c.table.root :: objects) (member : ref ∈ refs fromObject) :
    ∃ refs', CollectorInv K { c with table := c.table.remRefNode fromObject ref } objects refs' live := by
  obtain ⟨free, table⟩ := inv.table
  obtain ⟨root, intact, words⟩ := Table.remRefNode_spec table owner member
  refine ⟨_, inv.withTable ⟨_, intact⟩ root (fun o _ => ?_) fun o known r inside => ?_⟩
  · obtain ⟨ptr, marked, -⟩ := remRefNode_val c.table fromObject ref o
    exact ⟨ptr, marked⟩
  · have old : r ∈ refs o := by
      by_cases same : o = fromObject
      · subst same
        rw [Function.update_self] at inside
        exact List.mem_of_mem_erase inside
      · rwa [Function.update_of_ne same] at inside
    obtain ⟨p, known', aimed⟩ := inv.aimed o known r old
    exact ⟨p, known', (words o known r old).trans aimed⟩

theorem payloadWrite_inv (inv : CollectorInv K c objects refs live) {object header : Nat} (inside : object ∈ objects)
    (place : (c.table.nodes object).val.ptr = some (header + headerSize)) (contents : Nat → Header) :
    CollectorInv K { c with page := c.page.clientWrite header contents } objects refs live := by
  obtain ⟨⟨table, ⟨freeBlocks, page⟩, placed, owned, once, destructors⟩, aimed, unmarked⟩ := inv
  obtain ⟨block, isLive, place'⟩ := placed object inside
  have same : block.1 = header := Nat.add_right_cancel (Option.some.inj (place'.symm.trans place))
  have owns : PageRun.owns { page := c.page, live } header := same ▸ List.mem_map_of_mem isLive
  obtain ⟨page', headers⟩ := write_inv page owns contents
  refine ⟨⟨table, ⟨freeBlocks, page'⟩, placed, owned, once, fun other isLive' => ?_⟩, aimed, unmarked⟩
  obtain ⟨d, known⟩ := destructors other isLive'
  exact ⟨d, (congrArg Header.userData (headers other.1 (List.mem_map_of_mem isLive'))).trans known⟩

theorem collector_step_inv {s next : CollectorRun} (inv : CollectorInv K s.collector objects refs live)
    (small : K ≤ 32) {op : CollectorOp} (proper : Proper s op) (taken : s.step op = some next) :
    ∃ objects refs live, CollectorInv K next.collector objects refs live := by
  cases op with
  | allocate size destructor =>
      obtain ⟨collector, entered, rfl⟩ := Option.map_eq_some_iff.mp taken
      obtain ⟨node, alloc, refs', inv'⟩ := enter_inv inv small proper entered
      exact ⟨_, refs', _, inv'⟩
  | constructed =>
      simp only [CollectorRun.step] at taken
      split at taken
      · cases taken
      · obtain rfl := Option.some.inj taken
        obtain ⟨⟨table, page, placed, owned, once, destructors⟩, aimed, unmarked⟩ := inv
        exact ⟨objects, refs, live, ⟨table, page, placed, owned, once, destructors⟩, aimed, unmarked⟩
  | regRef fromObject toObject =>
      obtain ⟨ref, t, refs', added, inv'⟩ := regRef_inv inv (inv.isOwner.mp proper.1) (inv.isOwner.mp proper.2)
      simp only [CollectorRun.step, Service.regRef, added, Option.map_some, Option.some.injEq] at taken
      subst taken
      exact ⟨objects, refs', live, inv'⟩
  | delRef fromObject ref =>
      obtain rfl := Option.some.inj taken
      have owner := inv.isOwner.mp proper.1
      obtain ⟨refs', inv'⟩ := delRef_inv inv owner ((inv.holdsRef owner).mp proper.2)
      exact ⟨objects, refs', live, inv'⟩
  | write header contents =>
      obtain rfl := Option.some.inj taken
      obtain ⟨object, isObject, place⟩ := proper
      exact ⟨objects, refs, live, payloadWrite_inv inv (inv.isObject.mp isObject) place contents⟩
  | collect deletes =>
      obtain ⟨⟨calls, collector⟩, collected, rfl⟩ := Option.map_eq_some_iff.mp taken
      obtain ⟨garbage, kept, calls', after, live', done, -, swept⟩ := collect_spec inv (inv.ownDeletes proper)
      obtain ⟨-, rfl⟩ := Prod.mk.inj (Option.some.inj (done.symm.trans collected))
      exact ⟨kept, refs, live', swept.inv⟩

theorem collectorBuddy_inv (large : 6 ≤ K) (contents : Nat → Header) :
    ∃ start, collectorBuddy (2 ^ K) contents = some start ∧ CollectorInv K start.collector [] (fun _ => []) [] := by
  obtain ⟨p, made, page⟩ := page_inv large contents
  obtain ⟨t, free, built, ok⟩ := table_ok
  refine ⟨{ collector := { table := t, activeRoot := none, page := p }, previous := [] }, by simp [collectorBuddy, made, built],
    ⟨⟨free, ok⟩, ⟨_, page⟩, ?_, ?_, ?_, ?_⟩, ?_, ?_⟩ <;> simp

end Steps

/-- From `c`, with its `objects` and their chains `refs`, a collection called the destructors of `garbage` and left
`kept` behind. -/
structure ExactCollection (K : Nat) (c after : CollectorBuddy) (calls : List (Nat × Nat))
    (objects garbage kept : List Nat) (refs : Nat → List Nat) : Prop where
  list : IsList c.table.nodes c.table.objects objects
  chains : ∀ o ∈ c.table.root :: objects, IsList c.table.nodes (c.table.nodes o).val.word (refs o)
  once : garbage.Nodup
  unreached : ∀ o, o ∈ garbage ↔ o ∈ objects ∧ ¬ Reached c refs o
  called : calls.map some = garbage.map c.destructor
  survivors : IsList after.table.nodes after.table.objects kept
  reached : ∀ o, o ∈ kept ↔ o ∈ objects ∧ Reached c refs o
  unmarked : ∀ o ∈ kept, (after.table.nodes o).val.marked = false
  inPlace : ∀ o ∈ kept, (after.table.nodes o).val.ptr = (c.table.nodes o).val.ptr
  -- Every part of the page is in a free block or in the block of one survivor.
  blocks : ∃ live free, Consistent (2 ^ K) { page := after.page, live } free ∧
    (∀ header, header ∈ live.map Prod.fst ↔ ∃ o ∈ kept, (after.table.nodes o).val.ptr = some (header + headerSize)) ∧
    ∀ o ∈ kept, ∀ p ∈ kept, (after.table.nodes o).val.ptr = (after.table.nodes p).val.ptr → o = p
  again : ∀ deletes, after.collect deletes = some ([], after)

theorem CollectorInv.exact {K : Nat} {c : CollectorBuddy} {objects : List Nat} {refs : Nat → List Nat}
    {live : List (Nat × Nat)} (inv : CollectorInv K c objects refs live) {deletes : Nat → List Nat}
    (own : OwnDeletes c.table deletes) :
    ∃ calls after garbage kept, c.collect deletes = some (calls, after) ∧
      ExactCollection K c after calls objects garbage kept refs := by
  obtain ⟨garbage, kept, calls, after, live', collected, -, swept⟩ := collect_spec inv (inv.ownDeletes own)
  obtain ⟨free, table⟩ := inv.table
  obtain ⟨free', table'⟩ := swept.inv.table
  obtain ⟨freeBlocks, page⟩ := swept.inv.page
  obtain ⟨offsets, consistent⟩ := page.consistent
  refine ⟨calls, after, garbage, kept, collected, ?_⟩
  exact {
    list := table.list
    chains := table.chain
    once := swept.nodup
    unreached := swept.unreached
    called := swept.called
    survivors := table'.list
    reached := swept.reached
    unmarked := swept.inv.unmarked
    inPlace := swept.same
    blocks := by
      refine ⟨live', offsets, consistent, fun header => ⟨?_, ?_⟩, swept.inv.once⟩
      · intro member
        obtain ⟨block, isLive, rfl⟩ := List.mem_map.mp member
        exact swept.inv.owned block isLive
      · rintro ⟨o, inside, place⟩
        obtain ⟨block, isLive, place'⟩ := swept.inv.placed o inside
        have same : block.1 = header := Nat.add_right_cancel (Option.some.inj (place'.symm.trans place))
        exact same ▸ List.mem_map_of_mem isLive
    again := collect_idle swept.inv swept.root.2 swept.allReached }

/-- In every state that calls lead to, `collect` destroys each object that the root does not
reach, once, and gives back its block. -/
theorem collect_exact (K : Nat) (large : 6 ≤ K) (small : K ≤ 32) (contents : Nat → Header) (start s : CollectorRun)
    (ops : List CollectorOp) (begun : collectorBuddy (2 ^ K) contents = some start)
    (proper : Runs.Along CollectorRun.step Proper start ops) (run : Runs.exec CollectorRun.step start ops = some s)
    (deletes : Nat → List Nat) (own : OwnDeletes s.collector.table deletes) :
    ∃ calls after objects garbage kept refs, s.collector.collect deletes = some (calls, after) ∧
      ExactCollection K s.collector after calls objects garbage kept refs := by
  obtain ⟨start', begun', initial⟩ := collectorBuddy_inv large contents
  obtain rfl := Option.some.inj (begun'.symm.trans begun)
  obtain ⟨objects, refs, live, inv⟩ := proper.invariant
    (fun s => ∃ objects refs live, CollectorInv K s.collector objects refs live)
    (fun s op next known ok taken => by
      obtain ⟨objects, refs, live, inv⟩ := known
      exact collector_step_inv inv small ok taken) ⟨[], _, [], initial⟩ run
  obtain ⟨calls, after, garbage, kept, collected, exact'⟩ := inv.exact own
  exact ⟨calls, after, objects, garbage, kept, refs, collected, exact'⟩

-- The root refers to object 1 and object 1 to object 2; object 3 refers to object 2, with reference 6, and to itself.
def linkedObjects : List CollectorOp :=
  [.allocate 8 1, .constructed, .allocate 8 2, .constructed, .allocate 8 3, .constructed,
    .regRef 0 1, .regRef 1 2, .regRef 3 2, .regRef 3 3]

/-- What decides `Proper` in a run that has made `objects` before it refers to them. -/
def Proper.Known (objects : List Nat) (s : CollectorRun) : CollectorOp → Prop
  | .allocate size _ => size + headerSize < 2 ^ 64
  | .constructed => True
  | .regRef fromObject toObject => IsList s.collector.table.nodes s.collector.table.objects objects ∧
      fromObject ∈ s.collector.table.root :: objects ∧ toObject ∈ s.collector.table.root :: objects
  | .delRef _ _ | .write _ _ | .collect _ => False

instance (objects : List Nat) (s : CollectorRun) : (op : CollectorOp) → Decidable (Proper.Known objects s op)
  | .allocate _ _ => inferInstanceAs (Decidable (_ < _))
  | .constructed => inferInstanceAs (Decidable True)
  | .regRef _ _ => inferInstanceAs (Decidable (_ ∧ _))
  | .delRef _ _ | .write _ _ | .collect _ => inferInstanceAs (Decidable False)

theorem Proper.Known.proper {objects : List Nat} {s : CollectorRun} {op : CollectorOp} (known : Known objects s op) :
    Proper s op := by
  cases op with
  | regRef fromObject toObject => exact ⟨(isOwner_of_list known.1).mpr known.2.1, (isOwner_of_list known.1).mpr known.2.2⟩
  | allocate | constructed => exact known
  | delRef | write | collect => exact known.elim

-- The destructor of object 3 deletes one of its references; the objects that the root reaches stay.
theorem collect_exact_linked : ∃ start s, collectorBuddy (2 ^ 8) zeroed = some start ∧
    Runs.exec CollectorRun.step start linkedObjects = some s ∧
    ∃ calls after objects garbage kept refs,
      s.collector.collect (fun o => if o = 3 then [6] else []) = some (calls, after) ∧
      ExactCollection 8 s.collector after calls objects garbage kept refs ∧ calls.map Prod.fst = [3] ∧ kept = [2, 1] := by
  let deletes : Nat → List Nat := fun o => if o = 3 then [6] else []
  obtain ⟨start, s, begun, run, holds⟩ : ∃ start s, collectorBuddy (2 ^ 8) zeroed = some start ∧
      Runs.exec CollectorRun.step start linkedObjects = some s ∧
      decide (IsList s.collector.table.nodes s.collector.table.objects [3, 2, 1] ∧
        IsList s.collector.table.nodes (s.collector.table.nodes 3).val.word [7, 6] ∧
        (s.collector.collect deletes).any (fun result => decide (result.1.map Prod.fst = [3] ∧
          IsList result.2.table.nodes result.2.table.objects [2, 1])) = true) = true :=
    Runs.exec_of_any (by decide +kernel)
  obtain ⟨objects, refs, collected⟩ := of_decide_eq_true holds
  have checked : (collectorBuddy (2 ^ 8) zeroed).all (fun start =>
      Runs.check CollectorRun.step (Proper.Known [3, 2, 1]) start linkedObjects) = true := by decide +kernel
  rw [begun] at checked
  have proper := (Runs.Along.of_check checked).mono fun s op known => Proper.Known.proper known
  have own : OwnDeletes s.collector.table deletes := by
    intro o isObject
    have inside : o = 3 ∨ o = 2 ∨ o = 1 := by simpa using (isObject_of_list objects).mp isObject
    rcases inside with rfl | rfl | rfl
    · exact ⟨by decide, fun ref member => ⟨[7, 6], refs, by simp_all [deletes]⟩⟩
    · exact ⟨by decide, by simp [deletes]⟩
    · exact ⟨by decide, by simp [deletes]⟩
  obtain ⟨calls, after, objects, garbage, kept, refs, result, exact'⟩ :=
    collect_exact 8 (by decide) (by decide) zeroed start s linkedObjects begun proper run deletes own
  rw [result] at collected
  obtain ⟨called, left⟩ := of_decide_eq_true collected
  exact ⟨start, s, begun, run, calls, after, objects, garbage, kept, refs, result, exact', called,
    exact'.survivors.isChain.unique left.isChain⟩

end PrototypeBundle.Gc
