import PrototypeBundle.Memory.Mark

set_option autoImplicit false

namespace PrototypeBundle.Memory

-- No chain and no number of waves exceeds it.
def Table.bound (t : Table) : Nat := 2 * t.availableNodes.size + 2

-- The loop that resets the markers, from `object` on.
def resetFrom : Nat → Nodes TableCell → Option Nat → List Nat → Option (Nodes TableCell × List Nat)
  | _, nodes, none, blackNodes => some (nodes, blackNodes)
  | 0, _, some _, _ => none
  | length + 1, nodes, some object, blackNodes =>
      resetFrom length (setMarked nodes object false) (nodes object).next
        (if (nodes object).val.marked then blackNodes else blackNodes ++ [object])

-- The objects that `collect` is going to destroy, and the table without markers.
def Table.condemn (t : Table) : Option (List Nat × Table) := do
  let marked ← t.mark t.bound
  let (nodes, blackNodes) ← resetFrom t.bound marked.nodes marked.objects []
  return (blackNodes, marked.withNodes nodes)

-- `ref_chain.clear` with `_available_nodes.release`
def Table.clearRefs (object : Nat) : Nat → Table → Option Table
  | 0, t => if (t.nodes object).val.word = none then some t else none
  | length + 1, t =>
      match (t.nodes object).val.word with
      | none => some t
      | some ref =>
          let pool : NodePool TableCell :=
            { t.availableNodes with nodes := setWord t.nodes object (t.nodes ref).next }
          clearRefs object length { t with availableNodes := pool.release ref }

def Table.remObjNode (t : Table) (object : Nat) : Option Table := do
  let t ← t.clearRefs object t.bound
  let (nodes, objects) := remove t.nodes t.objects object
  return { t with availableNodes := NodePool.release { t.availableNodes with nodes } object, objects }

theorem resetFrom_eq (nodes : Nodes TableCell) {objects : List Nat} {head : Option Nat} (chain : IsChain nodes head objects)
    (length : Nat) (long : objects.length ≤ length) (marked : Nat → Bool) (blackNodes : List Nat) :
    resetFrom length (withMarks nodes marked) head blackNodes =
      some (withMarks nodes fun n => if n ∈ objects then false else marked n,
        blackNodes ++ objects.filter fun o => !marked o) := by
  induction objects generalizing head length marked blackNodes with
  | nil =>
      have last : head = none := chain
      subst last
      cases length <;> simp [resetFrom]
  | cons object rest ih =>
      have fresh := (List.nodup_cons.mp chain.nodup).1
      obtain ⟨first, chain⟩ : head = some object ∧ IsChain nodes (nodes object).next rest := chain
      subst first
      obtain ⟨length, rfl⟩ : ∃ n, length = n + 1 := Nat.exists_eq_add_one.mpr (by simp at long; omega)
      have apart (n : Nat) (member : n ∈ rest) : n ≠ object := fun same => fresh (same ▸ member)
      have kept : (rest.filter fun o => !Function.update marked object false o) = rest.filter fun o => !marked o :=
        List.filter_congr fun n member => by rw [Function.update_of_ne (apart n member)]
      have marks : (fun n => if n ∈ rest then false else Function.update marked object false n) =
          fun n => if n ∈ object :: rest then false else marked n := by
        funext n
        by_cases same : n = object
        · simp [same]
        · simp [same]
      rw [resetFrom, setMarked_withMarks]
      refine (ih chain length (by simpa using long) _ _).trans ?_
      rw [kept, marks]
      by_cases isMarked : marked object = true <;> simp [withMarks, isMarked]

section Specs

variable {t : Table} {objects : List Nat} {refs : Nat → List Nat} {free : List Nat}

theorem nodup_length_le {list : List Nat} {size : Nat} (nodup : list.Nodup) (below : ∀ n ∈ list, n < size) :
    list.length ≤ size := by
  have inside : list ⊆ List.range size := fun n member => List.mem_range.mpr (below n member)
  simpa using (List.subperm_of_subset nodup inside).length_le

theorem Table.Ok.objects_length (ok : t.Ok objects refs free) : (t.root :: objects).length ≤ t.availableNodes.size :=
  nodup_length_le (List.nodup_cons.mpr ⟨ok.rootNew, ok.list.nodup⟩) fun o owner => (ok.owner o owner).1

theorem Table.Ok.objects_length_bound (ok : t.Ok objects refs free) : objects.length ≤ t.bound := by
  have length := ok.objects_length
  simp only [List.length_cons] at length
  unfold Table.bound
  omega

theorem Table.Ok.refs_length (ok : t.Ok objects refs free) {o : Nat} (owner : o ∈ t.root :: objects) :
    (refs o).length ≤ t.availableNodes.size :=
  nodup_length_le (ok.chain o owner).nodup fun r member => (ok.ref o owner r member).1

theorem condemn_spec (ok : t.Ok objects refs free)
    (aimed : ∀ o ∈ t.root :: objects, ∀ r ∈ refs o, ∃ p ∈ t.root :: objects, (t.nodes r).val.word = some p)
    (unmarked : ∀ o ∈ objects, (t.nodes o).val.marked = false) :
    ∃ garbage, t.condemn = some (garbage, t.withNodes (setMarked t.nodes t.root true)) ∧ garbage.Sublist objects ∧
      ∀ o ∈ objects, o ∈ garbage ↔ ¬ Relation.ReflTransGen (t.Refers refs) t.root o := by
  have graph : Graph t (t.root :: objects).toFinset refs := by
    refine ⟨by simp, ?_, ?_, ?_⟩
    · exact fun o known => (ok.chain o (List.mem_toFinset.mp known)).isChain
    · intro o known r member
      obtain ⟨p, inside, word⟩ := aimed o (List.mem_toFinset.mp known) r member
      exact ⟨p, List.mem_toFinset.mpr inside, word⟩
    · intro o known isMarked
      rcases List.mem_cons.mp (List.mem_toFinset.mp known) with same | inside
      · exact same
      · simp [unmarked o inside] at isMarked
  have enough : (t.root :: objects).toFinset.card + 2 +
      (t.root :: objects).toFinset.sup (fun o => (refs o).length) ≤ t.bound := by
    have card := (List.toFinset_card_le (t.root :: objects)).trans ok.objects_length
    have chains : (t.root :: objects).toFinset.sup (fun o => (refs o).length) ≤ t.availableNodes.size :=
      Finset.sup_le fun o known => ok.refs_length (List.mem_toFinset.mp known)
    unfold Table.bound
    omega
  obtain ⟨marked, marking, reached, frame⟩ := mark_spec t _ refs graph t.bound enough
  have long := ok.objects_length_bound
  have reset := resetFrom_eq t.nodes ok.list.isChain t.bound long marked []
  have marks : withMarks t.nodes (fun n => if n ∈ objects then false else marked n) =
      setMarked t.nodes t.root true := by
    have own : withMarks t.nodes (fun n => (t.nodes n).val.marked) = t.nodes := rfl
    conv_rhs => rw [← own, setMarked_withMarks]
    congr 1
    funext n
    by_cases object : n ∈ objects
    · have different : n ≠ t.root := fun same => ok.rootNew (same ▸ object)
      simp [object, different, unmarked n object]
    · by_cases root : n = t.root
      · subst root
        simpa [object] using (reached t.root (by simp)).mpr .refl
      · simp only [if_neg object, Function.update_of_ne root]
        exact frame n (by simp [object, root])
  refine ⟨objects.filter fun o => !marked o, ?_, List.filter_sublist, ?_⟩
  · have shape : (t.withNodes (withMarks t.nodes marked)).objects = t.objects := rfl
    have nodes : (t.withNodes (withMarks t.nodes marked)).nodes = withMarks t.nodes marked := rfl
    simp only [Table.condemn, marking, shape, nodes, reset, marks, Option.bind_eq_bind, Option.bind_some]
    rfl
  · intro o object
    rw [List.mem_filter, ← reached o (by simp [object])]
    simp [object]

theorem condemn_marks (ok : t.Ok objects refs free) {garbage : List Nat} {t' : Table}
    (condemned : t.condemn = some (garbage, t')) :
    garbage.Sublist objects ∧ ∃ marked, t' = t.withNodes (withMarks t.nodes marked) := by
  simp only [Table.condemn, Table.mark, Option.bind_eq_bind, Option.bind_eq_some_iff, Option.map_eq_some_iff] at condemned
  obtain ⟨marking, ⟨nodes, done, rfl⟩, ⟨nodes', blackNodes⟩, reset, same⟩ := condemned
  obtain ⟨rfl, rfl⟩ := Prod.mk.inj (Option.some.inj same)
  have own : withMarks t.nodes (fun n => (t.nodes n).val.marked) = t.nodes := rfl
  rw [← own] at done
  obtain ⟨marked, rfl⟩ := markFrom_marks done
  have long := ok.objects_length_bound
  have shape := resetFrom_eq t.nodes ok.list.isChain t.bound long marked []
  obtain ⟨rfl, rfl⟩ := Prod.mk.inj (Option.some.inj (shape.symm.trans reset))
  exact ⟨List.filter_sublist, _, rfl⟩

theorem clearRefs_spec {object : Nat} {rest : List Nat} (pool : t.availableNodes.Ok free)
    (chain : IsChain t.nodes (t.nodes object).val.word rest) (used : object ∉ free)
    (apart : ∀ r ∈ rest, r < t.availableNodes.size ∧ r ∉ free ∧ r ≠ object) (length : Nat)
    (long : rest.length ≤ length) :
    ∃ t', t.clearRefs object length = some t' ∧ t'.root = t.root ∧ t'.objects = t.objects ∧
      t'.availableNodes.size = t.availableNodes.size ∧ t'.availableNodes.Ok (rest.reverse ++ free) ∧
      t'.nodes object = setWord t.nodes object none object ∧
      ∀ n, n ∉ rest → n ∉ free → n ≠ object → t'.nodes n = t.nodes n := by
  induction rest generalizing t free length with
  | nil =>
      have last : (t.nodes object).val.word = none := chain
      have shape : t.clearRefs object length = some t := by cases length <;> simp [Table.clearRefs, last]
      refine ⟨t, shape, rfl, rfl, rfl, pool, ?_, fun _ _ _ _ => rfl⟩
      rw [setWord, modifyAt_same, ← last]
  | cons r rest ih =>
      have fresh := (List.nodup_cons.mp chain.nodup).1
      obtain ⟨head, chain⟩ : (t.nodes object).val.word = some r ∧ IsChain t.nodes (t.nodes r).next rest := chain
      obtain ⟨length, rfl⟩ : ∃ n, length = n + 1 := Nat.exists_eq_add_one.mpr (by simp at long; omega)
      obtain ⟨bound, inUse, different⟩ := apart r (by simp)
      let emptied : NodePool TableCell :=
        { t.availableNodes with nodes := setWord t.nodes object (t.nodes r).next }
      have emptiedOk : emptied.Ok free := ⟨pool.chain.congr fun n _ => by simp [emptied], pool.bound, pool.capacity⟩
      let t₁ : Table := { t with availableNodes := emptied.release r }
      have kept (n : Nat) (other : n ≠ r) (notFree : n ∉ free) : t₁.nodes n = emptied.nodes n :=
        NodePool.release_frame emptiedOk other notFree
      have frame (n : Nat) (other : n ≠ r) (notFree : n ∉ free) (notObject : n ≠ object) : t₁.nodes n = t.nodes n :=
        (kept n other notFree).trans (setWord_other _ _ _ _ notObject)
      have word : (t₁.nodes object).val.word = (t.nodes r).next := by
        rw [kept object different.symm used]
        simp [emptied]
      have others (n : Nat) (member : n ∈ rest) : n < t.availableNodes.size ∧ n ∉ r :: free ∧ n ≠ object ∧ n ≠ r := by
        obtain ⟨boundN, inUseN, differentN⟩ := apart n (List.mem_cons_of_mem _ member)
        have other : n ≠ r := fun same => fresh (same ▸ member)
        exact ⟨boundN, by simp [other, inUseN], differentN, other⟩
      have chain₁ : IsChain t₁.nodes (t₁.nodes object).val.word rest := by
        rw [word]
        refine chain.congr fun n member => ?_
        obtain ⟨-, inUseN, differentN, other⟩ := others n member
        rw [frame n other (fun isFree => inUseN (List.mem_cons_of_mem _ isFree)) differentN]
      obtain ⟨t', cleared, root, list, size, ok, own, rest_frame⟩ := ih (t := t₁)
        (NodePool.release_ok emptiedOk bound inUse) chain₁ (by simp [different.symm, used])
        (fun n member => ⟨(others n member).1, (others n member).2.1, (others n member).2.2.1⟩) length
        (by simpa using long)
      refine ⟨t', ?_, root, list, size, by simpa using ok, ?_, ?_⟩
      · rw [Table.clearRefs, head]
        exact cleared
      · rw [own, setWord, setWord, modifyAt_same, modifyAt_same, kept object different.symm used]
        simp [emptied, setWord, modifyAt_same]
      · intro n outside notFree notObject
        have other : n ≠ r := fun same => outside (by simp [same])
        rw [rest_frame n (fun member => outside (List.mem_cons_of_mem _ member)) (by simp [other, notFree]) notObject,
          frame n other notFree notObject]

theorem remObjNode_spec (ok : t.Ok objects refs free) {object : Nat} (member : object ∈ objects) :
    ∃ t', t.remObjNode object = some t' ∧ t'.root = t.root ∧
      t'.Ok (objects.erase object) refs (object :: ((refs object).reverse ++ free)) ∧
      ∀ n, n ≠ object → n ∉ refs object → n ∉ free → (t'.nodes n).val = (t.nodes n).val := by
  have owner : object ∈ t.root :: objects := List.mem_cons_of_mem _ member
  have long : (refs object).length ≤ t.bound := by
    have length := ok.refs_length owner
    unfold Table.bound
    omega
  obtain ⟨t₁, cleared, root₁, list₁, size₁, pool₁, own, frame₁⟩ :=
    clearRefs_spec ok.pool (ok.chain object owner).isChain (ok.owner object owner).2
      (fun r inside => ⟨(ok.ref object owner r inside).1, (ok.ref object owner r inside).2.1,
        fun same => (ok.ref object owner r inside).2.2 (same ▸ owner)⟩) t.bound long
  -- the links of the objects are as before
  have links (n : Nat) (known : n ∈ objects) :
      (t₁.nodes n).prev = (t.nodes n).prev ∧ (t₁.nodes n).next = (t.nodes n).next := by
    have knownOwner : n ∈ t.root :: objects := List.mem_cons_of_mem _ known
    by_cases same : n = object
    · subst same
      rw [own]
      simp
    · rw [frame₁ n (fun inside => (ok.ref object owner n inside).2.2 knownOwner) (ok.owner n knownOwner).2 same]
      exact ⟨rfl, rfl⟩
  have list : IsList t₁.nodes t₁.objects objects := list₁ ▸ ok.list.congr links
  have freed (n : Nat) (isFree : n ∈ (refs object).reverse ++ free) : n ∉ t.root :: objects := by
    rcases List.mem_append.mp isFree with inside | old
    · exact (ok.ref object owner n (List.mem_reverse.mp inside)).2.2
    · exact fun known => (ok.owner n known).2 old
  let pool : NodePool TableCell :=
    { t₁.availableNodes with nodes := (remove t₁.nodes t₁.objects object).1 }
  let t' : Table :=
    { t₁ with availableNodes := pool.release object, objects := (remove t₁.nodes t₁.objects object).2 }
  have outside (n : Nat) (other : n ∉ objects) : pool.nodes n = t₁.nodes n := remove_frame list member other
  have poolOk : pool.Ok ((refs object).reverse ++ free) := by
    refine ⟨pool₁.chain.congr fun n isFree => ?_, pool₁.bound, pool₁.capacity⟩
    rw [outside n fun known => freed n isFree (List.mem_cons_of_mem _ known)]
  have used : object ∉ (refs object).reverse ++ free := fun isFree => freed object isFree owner
  have bound : object < pool.size := size₁ ▸ (ok.owner object owner).1
  have kept (n : Nat) (different : n ≠ object) (notFree : n ∉ (refs object).reverse ++ free) :
      t'.nodes n = pool.nodes n := NodePool.release_frame poolOk different notFree
  have val (n : Nat) (different : n ≠ object) (notRef : n ∉ refs object) (notFree : n ∉ free) :
      (t'.nodes n).val = (t.nodes n).val := by
    rw [kept n different (by simp [notRef, notFree]), ← frame₁ n notRef notFree different]
    exact remove_val _ _ _ _
  have still (o : Nat) (known : o ∈ t.root :: objects.erase object) :
      o ∈ t.root :: objects ∧ o ≠ object ∧ o ∉ refs object ∧ o ∉ free := by
    have old : o ∈ t.root :: objects := by
      rcases List.mem_cons.mp known with rfl | inside
      · simp
      · exact List.mem_cons_of_mem _ (List.mem_of_mem_erase inside)
    have different : o ≠ object := by
      rintro rfl
      rcases List.mem_cons.mp known with same | inside
      · exact ok.rootNew (same ▸ member)
      · exact ok.list.nodup.not_mem_erase inside
    exact ⟨old, different, fun inside => (ok.ref object owner o inside).2.2 old, (ok.owner o old).2⟩
  have chains (o : Nat) (known : o ∈ t.root :: objects.erase object) (r : Nat) (inside : r ∈ refs o) :
      r ∉ refs object ∧ r ∉ free ∧ r ∉ t.root :: objects ∧ r ≠ object := by
    obtain ⟨old, different, -, -⟩ := still o known
    obtain ⟨-, notFree, notOwner⟩ := ok.ref o old r inside
    exact ⟨fun shared => different (ok.apart o old object owner r inside shared), notFree, notOwner,
      fun same => notOwner (same ▸ owner)⟩
  refine ⟨t', ?_, root₁, ?_, val⟩
  · simp only [Table.remObjNode, cleared, Option.bind_eq_bind, Option.bind_some]
    rfl
  have root' : t'.root = t.root := root₁
  refine ⟨NodePool.release_ok poolOk bound used, ?_, ?_, ?_, ?_, ?_, ?_⟩
  · refine (list.remove member).congr fun n inside => ?_
    obtain ⟨-, different, notRef, notFree⟩ := still n (List.mem_cons_of_mem _ inside)
    rw [kept n different (by simp [notRef, notFree])]
    exact ⟨rfl, rfl⟩
  · intro o known
    rw [root'] at known
    obtain ⟨old, different, notRef, notFree⟩ := still o known
    rw [val o different notRef notFree]
    refine (ok.chain o old).congr fun r inside => ?_
    obtain ⟨notShared, notFreeR, notOwner, notObject⟩ := chains o known r inside
    rw [kept r notObject (by simp [notShared, notFreeR]), outside r fun object => notOwner (List.mem_cons_of_mem _ object),
      frame₁ r notShared notFreeR notObject]
    exact ⟨rfl, rfl⟩
  · rw [root']
    exact fun inside => ok.rootNew (List.mem_of_mem_erase inside)
  · intro o known
    rw [root'] at known
    obtain ⟨old, different, notRef, notFree⟩ := still o known
    exact ⟨size₁ ▸ (ok.owner o old).1, by simp [different, notRef, notFree]⟩
  · intro o known r inside
    rw [root'] at known
    obtain ⟨notShared, notFreeR, notOwner, notObject⟩ := chains o known r inside
    refine ⟨size₁ ▸ (ok.ref o (still o known).1 r inside).1, by simp [notShared, notFreeR, notObject], ?_⟩
    rw [root']
    intro owns
    exact notOwner (still r owns).1
  · intro o knownO p knownP r insideO insideP
    rw [root'] at knownO knownP
    exact ok.apart o (still o knownO).1 p (still p knownP).1 r insideO insideP

theorem remRefNode_val (t : Table) (fromObject ref n : Nat) :
    ((t.remRefNode fromObject ref).nodes n).val.ptr = (t.nodes n).val.ptr ∧
      ((t.remRefNode fromObject ref).nodes n).val.marked = (t.nodes n).val.marked ∧
      (n ≠ fromObject → ((t.remRefNode fromObject ref).nodes n).val = (t.nodes n).val) := by
  have shape : ((t.remRefNode fromObject ref).nodes n).val =
      (setWord (remove t.nodes (t.nodes fromObject).val.word ref).1 fromObject
        (remove t.nodes (t.nodes fromObject).val.word ref).2 n).val := prepend_val _ _ _ _
  rw [shape]
  by_cases same : n = fromObject
  · simp [setWord, modifyAt, same]
  · simp [setWord, modifyAt, same]

end Specs

end PrototypeBundle.Memory
