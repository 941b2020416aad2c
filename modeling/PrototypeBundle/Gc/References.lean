import PrototypeBundle.Gc.Collection

set_option autoImplicit false

namespace PrototypeBundle.Gc

open Memory

/-- What the chains `refs` of the root and of the `objects` refer to -/
def Edges (t : Table) (objects : List Nat) (refs : Nat → List Nat) (edge : Nat → Option (Nat × Nat)) : Prop :=
  ∀ r a b, edge r = some (a, b) ↔ a ∈ t.root :: objects ∧ r ∈ refs a ∧ (t.nodes r).val.word = some b

variable {t t' : Table} {objects : List Nat} {refs refs' : Nat → List Nat} {free free' : List Nat}
  {edge : Nat → Option (Nat × Nat)}

theorem Table.Ok.unique {objects' : List Nat} (ok : t.Ok objects refs free) (ok' : t.Ok objects' refs' free') :
    objects' = objects ∧ ∀ o ∈ t.root :: objects, refs' o = refs o := by
  obtain rfl : objects' = objects := ok'.list.isChain.unique ok.list.isChain
  exact ⟨rfl, fun o owner => (ok'.chain o owner).isChain.unique (ok.chain o owner).isChain⟩

theorem Edges.congr (edges : Edges t objects refs edge) (same : ∀ o ∈ t.root :: objects, refs' o = refs o) :
    Edges t objects refs' edge := by
  intro r a b
  rw [edges r a b]
  refine and_congr_right fun owner => ?_
  rw [same a owner]

theorem Edges.intrinsic (edges : Edges t objects refs edge) (ok : t.Ok objects refs free) (r a b : Nat) :
    edge r = some (a, b) ↔ IsOwner t a ∧ HoldsRef t a r ∧ (t.nodes r).val.word = some b := by
  rw [edges, isOwner_iff ok]
  refine and_congr_right fun known => ?_
  rw [holdsRef_iff ok known]

theorem Edges.addObj (edges : Edges t objects refs edge) (ok : t.Ok objects refs free) {node : Nat}
    (added : t.addObjNode = some (node, t')) (ok' : t'.Ok (node :: objects) refs' free') :
    Edges t' (node :: objects) refs' edge := by
  obtain ⟨node', made, _, added', root, fresh, made_ok, kept⟩ := Table.addObjNode_spec ok
  obtain ⟨rfl, rfl⟩ := Prod.mk.inj (Option.some.inj (added'.symm.trans added))
  refine Edges.congr (fun r a b => ?_) (Table.Ok.unique made_ok ok').2
  have owns : a ∈ t.root :: node' :: objects ∧ r ∈ Function.update refs node' [] a ↔ a ∈ t.root :: objects ∧ r ∈ refs a := by
    by_cases same : a = node'
    · subst same
      simp [List.ne_and_not_mem_of_not_mem_cons fresh]
    · simp [same]
  rw [root, ← and_assoc, owns, edges, and_assoc]
  refine and_congr_right fun known => and_congr_right fun inside => ?_
  rw [kept a known r inside]

theorem Edges.addRef (edges : Edges t objects refs edge) (ok : t.Ok objects refs free) {fromObject toObject ref : Nat}
    (owner : fromObject ∈ t.root :: objects) (added : t.addRefNode fromObject (some toObject) = some (ref, t'))
    (ok' : t'.Ok objects refs' free') :
    edge ref = none ∧ Edges t' objects refs' (Function.update edge ref (some (fromObject, toObject))) := by
  obtain ⟨ref', made, _, added', root, word, fresh, made_ok, words⟩ := Table.addRefNode_spec ok owner (some toObject)
  obtain ⟨rfl, rfl⟩ := Prod.mk.inj (Option.some.inj (added'.symm.trans added))
  refine ⟨Option.eq_none_iff_forall_ne_some.mpr fun e known => ?_,
    Edges.congr (fun r a b => ?_) (Table.Ok.unique made_ok ok').2⟩
  · obtain ⟨known, inside, -⟩ := (edges ref' e.1 e.2).mp known
    exact fresh e.1 known inside
  · have member (known : a ∈ t.root :: objects) :
        r ∈ Function.update refs fromObject (ref' :: refs fromObject) a ↔ r = ref' ∧ a = fromObject ∨ r ∈ refs a := by
      by_cases same : a = fromObject
      · subst same
        simp
      · simp [same]
    rw [root]
    by_cases new : r = ref'
    · subst new
      simp only [Function.update_self, Option.some.injEq, Prod.mk.injEq]
      constructor
      · rintro ⟨rfl, rfl⟩
        exact ⟨owner, (member owner).mpr (Or.inl ⟨rfl, rfl⟩), word⟩
      · rintro ⟨known, inside, aimed⟩
        rcases (member known).mp inside with ⟨-, same⟩ | old
        · exact ⟨same.symm, Option.some.inj (word.symm.trans aimed)⟩
        · exact absurd old (fresh a known)
    · rw [Function.update_of_ne new, edges]
      refine and_congr_right fun known => ?_
      rw [member known, or_iff_right fun isNew => new isNew.1]
      refine and_congr_right fun inside => ?_
      rw [words a known r inside]

theorem Edges.remRef (edges : Edges t objects refs edge) (ok : t.Ok objects refs free) {fromObject ref : Nat}
    (owner : fromObject ∈ t.root :: objects) (member : ref ∈ refs fromObject)
    (ok' : (t.remRefNode fromObject ref).Ok objects refs' free') :
    Edges (t.remRefNode fromObject ref) objects refs' (Function.update edge ref none) := by
  obtain ⟨root, left_ok, words⟩ := Table.remRefNode_spec ok owner member
  refine Edges.congr (fun r a b => ?_) (Table.Ok.unique left_ok ok').2
  have remaining (known : a ∈ t.root :: objects) :
      r ∈ Function.update refs fromObject ((refs fromObject).erase ref) a ↔ r ∈ refs a ∧ r ≠ ref := by
    by_cases same : a = fromObject
    · subst same
      rw [Function.update_self, (ok.chain a known).nodup.mem_erase_iff]
      exact and_comm
    · rw [Function.update_of_ne same]
      refine ⟨fun inside => ⟨inside, ?_⟩, And.left⟩
      rintro rfl
      exact same (ok.apart a known fromObject owner r inside member)
  rw [root]
  by_cases gone : r = ref
  · subst gone
    simp only [Function.update_self, reduceCtorEq, false_iff, not_and]
    exact fun known inside => absurd rfl ((remaining known).mp inside).2
  · rw [Function.update_of_ne gone, edges]
    refine and_congr_right fun known => ?_
    rw [remaining known, and_iff_left gone]
    refine and_congr_right fun inside => ?_
    rw [words a known r inside]

theorem Edges.keep (edges : Edges t objects refs edge) (root : t'.root = t.root) {kept : List Nat} (reached : Nat → Bool)
    (survivors : ∀ a, a ∈ t.root :: kept ↔ a ∈ t.root :: objects ∧ reached a = true)
    (words : ∀ a ∈ t.root :: kept, ∀ r ∈ refs a, (t'.nodes r).val.word = (t.nodes r).val.word) :
    Edges t' kept refs fun r => (edge r).filter fun e => reached e.1 := by
  intro r a b
  rw [root, Option.filter_eq_some_iff, edges]
  constructor
  · rintro ⟨⟨owner, inside, word⟩, path⟩
    have survives := (survivors a).mpr ⟨owner, path⟩
    exact ⟨survives, inside, (words a survives r inside).trans word⟩
  · rintro ⟨survives, inside, word⟩
    obtain ⟨owner, path⟩ := (survivors a).mp survives
    exact ⟨⟨owner, inside, (words a survives r inside).symm.trans word⟩, path⟩

theorem Edges.reached_iff (edges : Edges t objects refs edge)
    (aimed : ∀ o ∈ t.root :: objects, ∀ r ∈ refs o, ∃ p ∈ t.root :: objects, (t.nodes r).val.word = some p) (o : Nat) :
    Relation.ReflTransGen (fun a b => ∃ r, edge r = some (a, b)) t.root o ↔
      Relation.ReflTransGen (t.Refers refs) t.root o := by
  constructor
  · intro path
    induction path with
    | refl => exact .refl
    | tail _ leads ih =>
        obtain ⟨r, known⟩ := leads
        obtain ⟨-, inside, word⟩ := (edges r _ _).mp known
        exact ih.tail (List.mem_filterMap.mpr ⟨r, inside, word⟩)
  · intro path
    suffices both : o ∈ t.root :: objects ∧ Relation.ReflTransGen (fun a b => ∃ r, edge r = some (a, b)) t.root o from
      both.2
    induction path with
    | refl => exact ⟨List.mem_cons_self, .refl⟩
    | tail _ refers ih =>
        obtain ⟨r, inside, word⟩ := List.mem_filterMap.mp refers
        obtain ⟨p, target, word'⟩ := aimed _ ih.1 r inside
        obtain rfl := Option.some.inj (word'.symm.trans word)
        exact ⟨target, ih.2.tail ⟨r, (edges r _ _).mpr ⟨ih.1, inside, word⟩⟩⟩

end PrototypeBundle.Gc
