import PrototypeBundle.Tracing.Ownership

set_option autoImplicit false

namespace PrototypeBundle.Tracing.Concurrent

open Memory Intrusive

def Stage.hand : Stage → List Nat
  | recheck node _ => [node]
  | pushLoad node _ => [node]
  | push node _ => [node]
  | _ => []

def Stage.rest : Stage → Option Nat
  | visit cursor => cursor
  | recheck _ rest => rest
  | pushLoad _ rest => rest
  | push _ rest => rest
  | _ => none

def Stage.nodes : Stage → List Nat
  | detach expected => expected.toList
  | stage => stage.hand ++ stage.rest.toList

def Collector.collects : Collector → Option (Nat × Stage)
  | collectRefs o _ stage => some (o, stage)
  | releaseRefs o _ stage => some (o, stage)
  | _ => none

def Collector.stage : Collector → Stage
  | collectRefs o _ stage => if o = objectStackRoot then stage else .load
  | _ => .load

def Collector.releases : Collector → Option Nat
  | releaseRefs o _ _ => some o
  | dctor o _ => some o
  | destroyMembers o _ => some o
  | _ => none

def Collector.objects : Collector → List Nat
  | unmark cursor => cursor.toList
  | sweep stage => stage.nodes
  | releaseRefs o rest _ => o :: rest.toList
  | dctor o rest => o :: rest.toList
  | destroyMembers o rest => o :: rest.toList
  | _ => []

def System.detached (s : System) (back : List Nat) : List Nat := s.collector.stage.hand ++ back

structure Lists (s : System) (front back : List Nat) : Prop where
  attached : Chain (fun r => (s.refs r).next) (s.objs objectStackRoot).refHead front
  rest : Chain (fun r => (s.refs r).next) s.collector.stage.rest back
  nodup : (front ++ s.detached back).Nodup
  below : ∀ r ∈ front ++ s.detached back, r < s.fresh
  created : ∀ t source r use, (s.threads t).pc = .pushReference source r use → r ∉ front ++ s.detached back
  listed : s.collector ≠ .thrown → ∀ p g, s.pointers p = some g → g.ref ∈ front ++ s.detached back
  alone : ∀ o, o ≠ objectStackRoot → (s.objs o).refHead = none
  empty : ∀ o stage, s.collector.collects = some (o, stage) → o ≠ objectStackRoot → stage.nodes = []

/-- An un-marked object that a pointer leads to is found on the way: `current` is being looked at with
the object that was read from it, `ahead` comes after it. -/
structure Covered (s : System) (ahead : List Nat) (current : Option (Nat × Nat)) : Prop where
  nodup : ((current.map Prod.fst).toList ++ ahead).Nodup
  pointed : ∀ p g o, s.pointers p = some g → (s.refs g.ref).target = some o → (s.objs o).state = .unreachable →
    g.ref ∈ ahead ∨ current = some (g.ref, o)
  made : ∀ t o, (s.threads t).pc.makes = some o → (s.objs o).state ≠ .unreachable
  stored : ∀ t p v o, (s.threads t).pc = .store p v (some o) → (s.objs o).state = .unreachable →
    ∃ g h, s.pointers v = some g ∧ s.pointers p = some h ∧
      [g.ref, h.ref].Sublist ((current.map Prod.fst).toList ++ ahead)

def System.Marks (s : System) (front : List Nat) : Prop :=
  let next := fun r => (s.refs r).next
  match s.collector with
  | .idle | .load | .unmark _ | .thrown => True
  | .collectRefs o _ _ | .loadRefs o _ => o ≠ objectStackRoot → Covered s [] none
  | .scan _ _ cursor => ∃ ahead, Chain next cursor ahead ∧ ahead ⊆ front ∧ Covered s ahead none
  | .readReference _ _ r x | .readObject _ _ r x | .mark _ _ r x =>
      ∃ ahead, Chain next (s.refs r).next ahead ∧ r :: ahead ⊆ front ∧ Covered s ahead (some (r, x))
  | .sweep _ | .releaseRefs _ _ _ | .dctor _ _ | .destroyMembers _ _ => Covered s [] none

def System.Forgotten (s : System) (o : Nat) : Prop :=
  (∀ p, ¬ s.Refers p o) ∧ ∀ t, (s.threads t).pc.makes ≠ some o

structure Gone (s : System) : Prop where
  released : ∀ o, s.collector.releases = some o → o < s.fresh ∧ s.Forgotten o
  destroyed : ∀ o a, a ∈ s.destroyed → (s.objs o).payload = some a → s.Forgotten o

def System.Registered (s : System) (o : Nat) : Prop := ((s.objs o).payload).isSome

structure Links (s : System) : Prop where
  objects : ∀ o, s.objects = some o → s.Registered o
  next : ∀ x o, (s.objs x).next = some o → s.Registered o
  made : ∀ t o, (s.threads t).pc.makes = some o → s.Registered o
  met : ∀ o ∈ s.collector.objects, s.Registered o

structure Threadwise (s s' : System) : Prop where
  collector : s'.collector = s.collector
  destroyed : s'.destroyed = s.destroyed
  fresh : s.fresh ≤ s'.fresh
  state : ∀ o, (s'.objs o).state = .unreachable → (s.objs o).state = .unreachable
  payload : ∀ o a, (s'.objs o).payload = some a → (s.objs o).payload = some a ∨ s.fresh ≤ a
  registered : ∀ o, s.Registered o → s'.Registered o
  refHead : ∀ o, o ≠ objectStackRoot → (s.objs o).refHead = none → (s'.objs o).refHead = none
  objects : ∀ o, s'.objects = some o → s.objects = some o ∨ ∃ t, (s.threads t).pc.makes = some o
  objNext : ∀ x o, (s'.objs x).next = some o → (s.objs x).next = some o ∨ s.objects = some o
  refNext : ∀ r, r < s.fresh → (∀ t source use, (s.threads t).pc ≠ .pushReference source r use) →
    (s'.refs r).next = (s.refs r).next
  created : ∀ t source r use, (s'.threads t).pc = .pushReference source r use →
    (s.threads t).pc = .pushReference source r use ∨ s.fresh ≤ r
  makes : ∀ t o, (s'.threads t).pc.makes = some o → (s.threads t).pc.makes = some o ∨
    s.fresh ≤ o ∧ s'.Registered o ∧ (s'.objs o).state ≠ .unreachable
  stores : ∀ t p v o, (s'.threads t).pc = .store p v (some o) →
    (s.threads t).pc = .store p v (some o) ∧ s'.pointers v = s.pointers v ∧ s'.pointers p = s.pointers p ∨
      (s'.objs o).state ≠ .unreachable
  aims : ∀ p g o, s'.pointers p = some g → (s'.refs g.ref).target = some o →
    (∃ h, s.pointers p = some h ∧ h.ref = g.ref ∧ (s.refs g.ref).target = some o) ∨
      (∃ t, (s.threads t).pc.makes = some o) ∨
      ∃ t v, (s.threads t).pc = .store p v (some o) ∧ s.pointers p = some g
  -- a reference that is new on the list of the root
  listed : (s'.objs objectStackRoot).refHead = (s.objs objectStackRoot).refHead ∧
      (∀ p g, s'.pointers p = some g → ∃ h, s.pointers p = some h ∧ h.ref = g.ref) ∨
    ∃ t source r use, (s.threads t).pc = .pushReference source r use ∧
      (s'.objs objectStackRoot).refHead = some r ∧ (s'.refs r).next = (s.objs objectStackRoot).refHead ∧
      (∀ t' source' use', (s'.threads t').pc ≠ .pushReference source' r use') ∧
      ∀ p g, s'.pointers p = some g → g.ref = r ∨ ∃ h, s.pointers p = some h ∧ h.ref = g.ref

variable {s s' : System} {t : Nat} {front back ahead : List Nat} {current : Option (Nat × Nat)}

section Threadwise

theorem Threadwise.covered (step : Threadwise s s') (covered : Covered s ahead current) : Covered s' ahead current := by
  constructor
  case nodup => exact covered.nodup
  case pointed =>
    intro p g o found aim unmarked
    rcases step.aims p g o found aim with ⟨h, found', same, aim'⟩ | ⟨t, making⟩ | ⟨t, v, storing, found'⟩
    · rw [← same] at aim' ⊢
      exact covered.pointed p h o found' aim' (step.state o unmarked)
    · exact absurd (step.state o unmarked) (covered.made t o making)
    · -- the source of the copy comes first
      obtain ⟨g', h, -, found'', ordered⟩ := covered.stored t p v o storing (step.state o unmarked)
      obtain rfl := Option.some.inj (found'.symm.trans found'')
      cases current with
      | none => exact Or.inl (ordered.subset (by simp))
      | some pair =>
          obtain ⟨r, x⟩ := pair
          have ordered' : [g'.ref, g.ref].Sublist (r :: ahead) := ordered
          rcases List.sublist_cons_iff.mp ordered' with later | ⟨rest, equal, sub⟩
          · exact Or.inl (later.subset (by simp))
          · cases equal
            exact Or.inl (sub.subset (by simp))
  case made =>
    intro t o making
    rcases step.makes t o making with old | ⟨-, -, marked⟩
    · exact fun unmarked => covered.made t o old (step.state o unmarked)
    · exact marked
  case stored =>
    intro t p v o storing unmarked
    rcases step.stores t p v o storing with ⟨old, sameV, sameP⟩ | marked
    · rw [sameV, sameP]
      exact covered.stored t p v o old (step.state o unmarked)
    · exact absurd unmarked marked

theorem Threadwise.lists (step : Threadwise s s') (records : Records s) (lists : Lists s front back) :
    ∃ front', front ⊆ front' ∧ Lists s' front' back := by
  have next (r : Nat) (member : r ∈ front ++ s.detached back) : (s'.refs r).next = (s.refs r).next :=
    step.refNext r (lists.below r member) fun t source use at' => lists.created t source r use at' member
  have chain := lists.attached.congr fun r member => next r (List.mem_append_left _ member)
  have back' : Chain (fun r => (s'.refs r).next) s'.collector.stage.rest back := by
    rw [step.collector]
    exact lists.rest.congr fun r member => next r (List.mem_append_right _ (List.mem_append_right _ member))
  have detached : s'.detached back = s.detached back := by rw [System.detached, System.detached, step.collector]
  have old (t' source r : Nat) (use : Use) (at' : (s'.threads t').pc = .pushReference source r use) :
      r ∉ front ++ s.detached back := by
    rcases step.created t' source r use at' with before | new
    · exact lists.created t' source r use before
    · exact fun member => Nat.lt_irrefl _ (Nat.lt_of_lt_of_le (lists.below r member) new)
  rcases step.listed with ⟨head, pointers⟩ | ⟨t, source, r, use, at', head, link, nobody, pointers⟩
  · refine ⟨front, List.Subset.refl _, ?_, back', ?_, ?_, ?_, ?_, ?_, ?_⟩
    · rwa [head]
    · rw [detached]
      exact lists.nodup
    · rw [detached]
      exact fun r member => Nat.lt_of_lt_of_le (lists.below r member) step.fresh
    · rw [detached]
      exact old
    · rw [detached, step.collector]
      intro running p g found
      obtain ⟨h, found', same⟩ := pointers p g found
      exact same ▸ lists.listed running p h found'
    · exact fun o different => step.refHead o different (lists.alone o different)
    · rw [step.collector]
      exact lists.empty
  · have new := lists.created t source r use at'
    refine ⟨r :: front, List.subset_cons_self r front, ?_, back', ?_, ?_, ?_, ?_, ?_, ?_⟩
    · rw [head]
      refine ⟨rfl, ?_⟩
      simp only [link]
      exact chain
    · rw [detached]
      exact List.nodup_cons.mpr ⟨new, lists.nodup⟩
    · rw [detached]
      intro r' member
      rcases List.mem_cons.mp member with rfl | earlier
      · exact Nat.lt_of_lt_of_le (records.created t source r' use at').2.1 step.fresh
      · exact Nat.lt_of_lt_of_le (lists.below r' earlier) step.fresh
    · rw [detached]
      intro t' source' r' use' at'' member
      rcases List.mem_cons.mp member with rfl | earlier
      · exact nobody t' source' use' at''
      · exact old t' source' r' use' at'' earlier
    · rw [detached, step.collector]
      intro running p g found
      rcases pointers p g found with same | ⟨h, found', same⟩
      · exact List.mem_cons.mpr (Or.inl same)
      · exact List.mem_cons_of_mem _ (same ▸ lists.listed running p h found')
    · exact fun o different => step.refHead o different (lists.alone o different)
    · rw [step.collector]
      exact lists.empty

theorem Threadwise.marks (step : Threadwise s s') {front' : List Nat} (grown : front ⊆ front')
    (lists : Lists s front back) (marks : s.Marks front) : s'.Marks front' := by
  have next (r : Nat) (member : r ∈ front) : (s'.refs r).next = (s.refs r).next :=
    step.refNext r (lists.below r (List.mem_append_left _ member)) fun t source use at' =>
      lists.created t source r use at' (List.mem_append_left _ member)
  unfold System.Marks at marks ⊢
  rw [step.collector]
  split
  case h_1 | h_2 | h_3 | h_4 => trivial
  all_goals rename_i at'; rw [at'] at marks
  case h_5 => exact fun different => step.covered (marks different)
  case h_6 => exact fun different => step.covered (marks different)
  case h_7 =>
    obtain ⟨ahead, chain, inside, covered⟩ := marks
    exact ⟨ahead, chain.congr fun r member => next r (inside member), fun r member => grown (inside member),
      step.covered covered⟩
  case h_8 | h_9 | h_10 =>
    obtain ⟨ahead, chain, inside, covered⟩ := marks
    refine ⟨ahead, ?_, fun r member => grown (inside member), step.covered covered⟩
    rw [next _ (inside (List.mem_cons_self))]
    exact chain.congr fun r member => next r (inside (List.mem_cons_of_mem _ member))
  all_goals exact step.covered marks

theorem Threadwise.forgotten (step : Threadwise s s') (owned : Owned s) {o : Nat} (below : o < s.fresh)
    (forgotten : s.Forgotten o) : s'.Forgotten o := by
  obtain ⟨unaimed, unmade⟩ := forgotten
  constructor
  · rintro p ⟨g, found, aim⟩
    rcases step.aims p g o found aim with ⟨h, found', same, aim'⟩ | ⟨t, making⟩ | ⟨t, v, storing, -⟩
    · exact unaimed p ⟨h, found', same ▸ aim'⟩
    · exact unmade t making
    · obtain ⟨h, found', aim'⟩ := owned.aims.loaded t p v (some o) (by rw [storing]; rfl)
      exact unaimed v ⟨h, found', aim'⟩
  · intro t making
    rcases step.makes t o making with old | ⟨new, -⟩
    · exact unmade t old
    · omega

theorem Threadwise.gone (step : Threadwise s s') (owned : Owned s) (gone : Gone s) : Gone s' := by
  constructor
  case released =>
    rw [step.collector]
    intro o releasing
    obtain ⟨below, forgotten⟩ := gone.released o releasing
    exact ⟨Nat.lt_of_lt_of_le below step.fresh, step.forgotten owned below forgotten⟩
  case destroyed =>
    rw [step.destroyed]
    intro o a member payload
    rcases step.payload o a payload with old | new
    · exact step.forgotten owned (owned.members.payload o a old).2 (gone.destroyed o a member old)
    · have older := (owned.members.payload _ a (owned.members.destroyed a member)).2
      omega

theorem Threadwise.links (step : Threadwise s s') (links : Links s) : Links s' := by
  have kept := step.registered
  constructor
  case objects =>
    intro o first
    rcases step.objects o first with old | ⟨t, making⟩
    · exact kept o (links.objects o old)
    · exact kept o (links.made t o making)
  case next =>
    intro x o link
    rcases step.objNext x o link with old | first
    · exact kept o (links.next x o old)
    · exact kept o (links.objects o first)
  case made =>
    intro t o making
    rcases step.makes t o making with old | ⟨-, registered, -⟩
    · exact kept o (links.made t o old)
    · exact registered
  case met =>
    rw [step.collector]
    exact fun o member => kept o (links.met o member)

theorem Threadwise.pass (others : ∀ t', t' ≠ t → s'.threads t' = s.threads t') (collector : s'.collector = s.collector)
    (destroyed : s'.destroyed = s.destroyed) (fresh : s'.fresh = s.fresh)
    (state : ∀ o, (s'.objs o).state = .unreachable → (s.objs o).state = .unreachable)
    (payload : ∀ o, (s'.objs o).payload = (s.objs o).payload)
    (refHead : ∀ o, (s'.objs o).refHead = (s.objs o).refHead)
    (objects : ∀ o, s'.objects = some o → s.objects = some o ∨ ∃ t, (s.threads t).pc.makes = some o)
    (objNext : ∀ x o, (s'.objs x).next = some o → (s.objs x).next = some o ∨ s.objects = some o)
    (refNext : ∀ r, r < s.fresh → (∀ t source use, (s.threads t).pc ≠ .pushReference source r use) →
      (s'.refs r).next = (s.refs r).next)
    (pointers : ∀ p g, s'.pointers p = some g → ∃ h, s.pointers p = some h ∧ h.ref = g.ref)
    (target : ∀ p g o, s'.pointers p = some g → (s'.refs g.ref).target = some o →
      (s.refs g.ref).target = some o ∨ ∃ v, (s.threads t).pc = .store p v (some o) ∧ s.pointers p = some g)
    (kept : ∀ t' p v o, t' ≠ t → (s.threads t').pc = .store p v (some o) →
      s'.pointers v = s.pointers v ∧ s'.pointers p = s.pointers p)
    (created : ∀ source r use, (s'.threads t).pc = .pushReference source r use →
      (s.threads t).pc = .pushReference source r use)
    (makes : ∀ o, (s'.threads t).pc.makes = some o → (s.threads t).pc.makes = some o)
    (stores : ∀ p v o, (s'.threads t).pc = .store p v (some o) → (s.threads t).pc = .store p v (some o) ∧
      s'.pointers v = s.pointers v ∧ s'.pointers p = s.pointers p ∨ (s'.objs o).state ≠ .unreachable) :
    Threadwise s s' := by
  constructor
  case collector => exact collector
  case destroyed => exact destroyed
  case fresh => exact Nat.le_of_eq fresh.symm
  case state => exact state
  case payload => exact fun o a known => Or.inl ((payload o).symm.trans known)
  case registered => exact fun o known => (congrArg Option.isSome (payload o)).trans known
  case refHead => exact fun o _ none' => (refHead o).trans none'
  case objects => exact objects
  case objNext => exact objNext
  case refNext => exact refNext
  case created =>
    intro t' source r use at'
    by_cases same : t' = t
    · subst same
      exact Or.inl (created source r use at')
    · exact Or.inl (by rwa [← others t' same])
  case makes =>
    intro t' o making
    by_cases same : t' = t
    · subst same
      exact Or.inl (makes o making)
    · exact Or.inl (by rwa [← others t' same])
  case stores =>
    intro t' p v o storing
    by_cases same : t' = t
    · subst same
      exact stores p v o storing
    · rw [others t' same] at storing
      exact Or.inl ⟨storing, kept t' p v o same storing⟩
  case aims =>
    intro p g o found aim
    rcases target p g o found aim with old | ⟨v, storing⟩
    · obtain ⟨h, found', same⟩ := pointers p g found
      exact Or.inl ⟨h, found', same, old⟩
    · exact Or.inr (Or.inr ⟨t, v, storing⟩)
  case listed => exact Or.inl ⟨refHead _, pointers⟩

theorem System.setThread_threadwise (change : Thread → Thread)
    (created : ∀ source r use, (change (s.threads t)).pc ≠ .pushReference source r use)
    (makes : ∀ o, (change (s.threads t)).pc.makes = some o → (s.threads t).pc.makes = some o)
    (stores : ∀ p v o, (change (s.threads t)).pc = .store p v (some o) → (s.objs o).state ≠ .unreachable) :
    Threadwise s (s.setThread t change) := by
  have here := System.setThread_same s t change
  refine Threadwise.pass (t := t) (fun t' apart => System.setThread_other _ _ _ apart) rfl rfl rfl (fun _ => id)
    (fun _ => rfl) (fun _ => rfl) (fun _ => Or.inl) (fun _ _ => Or.inl) (fun _ _ _ => rfl)
    (fun p g found => ⟨g, found, rfl⟩) (fun _ _ _ _ => Or.inl) (fun _ _ _ _ _ _ => ⟨rfl, rfl⟩) ?_ ?_ ?_
  · rw [here]
    exact fun source r use at' => absurd at' (created source r use)
  · rwa [here]
  · rw [here]
    exact fun p v o at' => Or.inr (stores p v o at')

theorem Owned.newReference_threadwise (owned : Owned s) {use : Use} (at' : (s.threads t).pc = .newReference use) :
    Threadwise s (s.newReference t use) := by
  have here := s.newReference_same t use
  have others := s.newReference_other t use
  have old := s.newReference_refs t use
  constructor
  case collector => rfl
  case destroyed => rfl
  case fresh => exact Nat.le_succ _
  case state => exact fun _ => id
  case payload => exact fun _ _ => Or.inl
  case registered => exact fun _ => id
  case refHead => exact fun _ _ => id
  case objects => exact fun _ => Or.inl
  case objNext => exact fun _ _ => Or.inl
  case refNext => exact fun r below _ => congrArg Reference.next (old r below)
  case created =>
    intro t' source r use' at''
    by_cases same : t' = t
    · subst same
      rw [here] at at''
      cases at''
      exact Or.inr (Nat.le_refl _)
    · exact Or.inl (by rwa [← others t' same])
  case makes =>
    intro t' o making
    by_cases same : t' = t
    · subst same
      rw [here] at making
      exact Or.inl (by rw [at']; exact making)
    · exact Or.inl (by rwa [← others t' same])
  case stores =>
    intro t' p v o storing
    by_cases same : t' = t
    · subst same
      rw [here] at storing
      cases storing
    · exact Or.inl ⟨by rwa [← others t' same], rfl, rfl⟩
  case aims =>
    intro p g o found aim
    rw [old g.ref (owned.records.below p g found)] at aim
    exact Or.inl ⟨g, found, rfl, aim⟩
  case listed => exact Or.inl ⟨rfl, fun p g found => ⟨g, found, rfl⟩⟩

theorem Owned.pushReference_threadwise (owned : Owned s) {source r : Nat} {use : Use} {fails : Bool}
    (at' : (s.threads t).pc = .pushReference source r use) :
    Threadwise s (s.pushReference t source r use fails) := by
  obtain ⟨root, below, -, target, new⟩ := owned.records.created t source r use at'
  have absent : s.pointers use.pointer = none := owned.names.constructs t _ (by rw [at']; rfl)
  unfold System.pushReference
  simp only
  split
  case isTrue equal =>
    let s₁ := s.setObj source fun obj => { obj with refHead := some r }
    obtain ⟨others, ⟨ptr, pointers, -⟩, -, here⟩ := System.referenced_threads (s := s₁) (t := t) r use
    obtain ⟨refs, objs, -, fresh, destroyed, collector⟩ := System.referenced_frame (s := s₁) (t := t) r use
    have obj (o : Nat) : ((s₁.referenced t r use).objs o).state = (s.objs o).state ∧
        ((s₁.referenced t r use).objs o).payload = (s.objs o).payload ∧
        ((s₁.referenced t r use).objs o).next = (s.objs o).next := by
      rw [objs]
      by_cases same : o = source <;> simp [s₁, System.setObj, modifyAt, same]
    have apart (p : Nat) (different : p ≠ use.pointer) : (s₁.referenced t r use).pointers p = s.pointers p := by
      rw [pointers, Function.update_of_ne different]
      rfl
    have pointer (p : Nat) (g : GcPtr) (found : (s₁.referenced t r use).pointers p = some g) :
        g.ref = r ∨ s.pointers p = some g := by
      by_cases same : p = use.pointer
      · rw [same, pointers, Function.update_self, Option.some.injEq] at found
        exact Or.inl (by rw [← found])
      · exact Or.inr ((apart p same).symm.trans found)
    have nobody (t' source' : Nat) (use' : Use) :
        ((s₁.referenced t r use).threads t').pc ≠ .pushReference source' r use' := by
      intro at''
      by_cases same : t' = t
      · subst same
        rcases here with ⟨idle, -⟩ | ⟨q, v, -, copying, -⟩
        · rw [idle] at at''
          cases at''
        · rw [copying] at at''
          cases at''
      · rw [others t' same] at at''
        exact same (owned.records.createdOnce t' t source' source r use' use at'' at')
    constructor
    case collector => exact collector
    case destroyed => exact destroyed
    case fresh => exact Nat.le_of_eq fresh.symm
    case state => exact fun o unmarked => (obj o).1 ▸ unmarked
    case payload => exact fun o a known => Or.inl ((obj o).2.1 ▸ known)
    case registered => exact fun o known => (congrArg Option.isSome (obj o).2.1).trans known
    case refHead =>
      intro o different none'
      rw [objs]
      simpa [s₁, System.setObj, modifyAt, root, different] using none'
    case objects =>
      intro o first
      refine Or.inl ?_
      cases use <;> exact first
    case objNext => exact fun x o link => Or.inl ((obj x).2.2 ▸ link)
    case refNext => exact fun r' _ _ => by rw [refs]; rfl
    case created =>
      intro t' source' r' use' at''
      by_cases same : t' = t
      · subst same
        rcases here with ⟨idle, -⟩ | ⟨q, v, -, copying, -⟩
        · rw [idle] at at''
          cases at''
        · rw [copying] at at''
          cases at''
      · exact Or.inl (by rw [others t' same] at at''; exact at'')
    case makes =>
      intro t' o making
      by_cases same : t' = t
      · subst same
        rcases here with ⟨idle, -⟩ | ⟨q, v, -, copying, -⟩
        · rw [idle] at making
          cases making
        · rw [copying] at making
          cases making
      · exact Or.inl (by rw [others t' same] at making; exact making)
    case stores =>
      intro t' p v o storing
      by_cases same : t' = t
      · subst same
        rcases here with ⟨idle, -⟩ | ⟨q, w, -, copying, -⟩
        · rw [idle] at storing
          cases storing
        · rw [copying] at storing
          cases storing
      · rw [others t' same] at storing
        have before : (s.threads t').pc = .store p v (some o) := storing
        have isV := owned.names.held t' v (owned.names.copies t' p v (by rw [before]; rfl)).1
        have isP := owned.names.writes t' p (by rw [before]; rfl) (by rw [before]; rfl)
        refine Or.inl ⟨before, apart v ?_, apart p ?_⟩
        · rintro rfl
          rw [absent] at isV
          cases isV
        · rintro rfl
          rw [absent] at isP
          cases isP
    case aims =>
      intro p g o found aim
      rw [refs] at aim
      rcases pointer p g found with same | found'
      · have made : use.target = some o := by
          rw [same] at aim
          exact target.symm.trans aim
        exact Or.inr (Or.inl ⟨t, by rw [at']; exact made⟩)
      · exact Or.inl ⟨g, found', rfl, aim⟩
    case listed =>
      refine Or.inr ⟨t, source, r, use, at', ?_, ?_, nobody, ?_⟩
      · rw [objs]
        simp [s₁, System.setObj, modifyAt, root]
      · rw [refs, ← root]
        exact equal.1.symm
      · intro p g found
        rcases pointer p g found with same | found'
        · exact Or.inl same
        · exact Or.inr ⟨g, found', rfl⟩
  case isFalse =>
    refine Threadwise.pass (t := t) (fun _ _ => rfl) rfl rfl rfl (fun _ => id) (fun _ => rfl) (fun _ => rfl)
      (fun _ => Or.inl) (fun _ _ => Or.inl) ?_ (fun p g found => ⟨g, found, rfl⟩) ?_ (fun _ _ _ _ _ _ => ⟨rfl, rfl⟩)
      (fun _ _ _ => id) (fun _ => id) (fun _ _ _ storing => Or.inl ⟨storing, rfl, rfl⟩)
    · intro r' _ notCreated
      have different : r' ≠ r := by
        rintro rfl
        exact notCreated t source use at'
      simp [System.setRef, modifyAt, different]
    · intro p g o found aim
      have different := new p g found
      exact Or.inl (by simpa [System.setRef, modifyAt, different] using aim)

theorem Owned.copy_threadwise (owned : Owned s) {p v : Nat} (at' : (s.threads t).pc = .copy p v)
    (run : s.copy t p v = some s') : Threadwise s s' := by
  simp only [System.copy, Option.bind_eq_bind, Option.bind_eq_some_iff] at run
  obtain ⟨g, found, other, found', run⟩ := run
  have apart (t' q w o : Nat) (different : t' ≠ t) (storing : (s.threads t').pc = .store q w (some o)) :
      w ≠ p ∧ q ≠ p := by
    have writing : (s.threads t).pc.writes = some p := by rw [at']; rfl
    constructor
    · rintro rfl
      exact different (owned.names.heldWritten t t' w writing (owned.names.copies t' q w (by rw [storing]; rfl)).1)
    · rintro rfl
      exact different (owned.names.writesOnce t' t q (by rw [storing]; rfl) writing)
  have pass (pc : Pc) (notPushing : ∀ source r use, pc ≠ .pushReference source r use) (notMaking : pc.makes = none)
      (notStoring : ∀ p v o, pc ≠ .store p v (some o)) :
      Threadwise s ((s.setPointer p (some { g with ptr := other.ptr })).goto t pc) := by
    have here : ((s.setPointer p (some { g with ptr := other.ptr })).goto t pc).threads t =
        { (s.threads t) with pc } := System.setThread_same _ _ _
    refine Threadwise.pass (t := t) (fun t' different => System.setThread_other _ _ _ different) rfl rfl rfl
      (fun _ => id) (fun _ => rfl) (fun _ => rfl) (fun _ => Or.inl) (fun _ _ => Or.inl) (fun _ _ _ => rfl) ?_
      (fun _ _ _ _ => Or.inl) ?_ ?_ ?_ ?_
    · intro q h known
      by_cases same : q = p
      · subst same
        refine ⟨g, found, ?_⟩
        have equal : { g with ptr := other.ptr } = h := by
          simpa [System.setPointer, System.goto, System.setThread] using known
        rw [← equal]
      · exact ⟨h, by simpa [System.setPointer, System.goto, System.setThread, same] using known, rfl⟩
    · intro t' q w o different storing
      obtain ⟨notW, notQ⟩ := apart t' q w o different storing
      exact ⟨Function.update_of_ne notW _ _, Function.update_of_ne notQ _ _⟩
    · rw [here]
      exact fun source r use at'' => absurd at'' (notPushing source r use)
    · rw [here, notMaking]
      simp
    · rw [here]
      exact fun q w o at'' => absurd at'' (notStoring q w o)
  cases target : (s.refs other.ref).target with
  | none =>
      have next : (s.setPointer p (some { g with ptr := other.ptr })).goto t (.store p v none) = s' := by
        simpa [target, System.setPointer] using run
      exact next ▸ pass _ (by simp) rfl (by simp)
  | some o =>
      have next : (s.setPointer p (some { g with ptr := other.ptr })).goto t (.activate p v o) = s' := by
        simpa [target, System.setPointer] using run
      exact next ▸ pass _ (by simp) rfl (by simp)

theorem Owned.store_threadwise (owned : Owned s) {p v : Nat} {target : Option Nat}
    (at' : (s.threads t).pc = .store p v target) (run : s.store t p target = some s') : Threadwise s s' := by
  obtain ⟨g, found, rfl⟩ : ∃ g, s.pointers p = some g ∧
      (s.setRef g.ref fun record => { record with target }).finish t = s' := by
    simpa [System.store, Option.bind_eq_some_iff] using run
  have here := (s.setRef g.ref fun record => { record with target }).finish_same t
  refine Threadwise.pass (t := t) (System.finish_other _ t) rfl rfl rfl
    (fun _ => id) (fun _ => rfl) (fun _ => rfl) (fun _ => Or.inl) (fun _ _ => Or.inl) ?_ (fun q h known => ⟨h, known, rfl⟩)
    ?_ (fun _ _ _ _ _ _ => ⟨rfl, rfl⟩) ?_ ?_ ?_
  · intro r _ _
    by_cases same : r = g.ref <;> simp [System.setRef, System.finish, System.enter, System.setThread, modifyAt, same]
  · intro q h o known aim
    by_cases same : h.ref = g.ref
    · obtain rfl := owned.records.once q p h g known found same
      obtain rfl := Option.some.inj (known.symm.trans found)
      have equal : target = some o := by
        simpa [System.setRef, System.finish, System.enter, System.setThread, modifyAt] using aim
      exact Or.inr ⟨v, by rw [at', equal], known⟩
    · exact Or.inl (by simpa [System.setRef, System.finish, System.enter, System.setThread, modifyAt, same] using aim)
  all_goals simp [here, Pc.makes]

theorem System.activate_threadwise {o : Nat} {pc : Pc} (notPushing : ∀ source r use, pc ≠ .pushReference source r use)
    (makes : ∀ x, pc.makes = some x → (s.threads t).pc.makes = some x)
    (stores : ∀ p v x, pc = .store p v (some x) → x = o) : Threadwise s ((s.activate o).goto t pc) := by
  have here : ((s.activate o).goto t pc).threads t = { (s.threads t) with pc } := System.setThread_same _ _ _
  have obj (x : Nat) : (((s.activate o).goto t pc).objs x).state = (if x = o then .active else (s.objs x).state) ∧
      (((s.activate o).goto t pc).objs x).payload = (s.objs x).payload ∧
      (((s.activate o).goto t pc).objs x).refHead = (s.objs x).refHead ∧
      (((s.activate o).goto t pc).objs x).next = (s.objs x).next := by
    by_cases same : x = o <;> simp [System.activate, System.setObj, System.goto, System.setThread, modifyAt, same]
  refine Threadwise.pass (t := t) (fun t' different => System.setThread_other _ _ _ different) rfl rfl rfl ?_
    (fun x => (obj x).2.1) (fun x => (obj x).2.2.1) (fun _ => Or.inl) ?_ (fun _ _ _ => rfl)
    (fun q h known => ⟨h, known, rfl⟩) (fun _ _ _ _ => Or.inl) (fun _ _ _ _ _ _ => ⟨rfl, rfl⟩) ?_ ?_ ?_
  · intro x unmarked
    rw [(obj x).1] at unmarked
    split at unmarked
    · cases unmarked
    · exact unmarked
  · exact fun x y link => Or.inl ((obj x).2.2.2 ▸ link)
  · rw [here]
    exact fun source r use at' => absurd at' (notPushing source r use)
  · rw [here]
    exact makes
  · rw [here]
    intro p v x storing
    refine Or.inr ?_
    rw [(obj x).1, if_pos (stores p v x storing)]
    simp

theorem System.pushObject_threadwise {p o previous : Nat} {fails : Bool}
    (at' : (s.threads t).pc = .pushObject p o previous) : Threadwise s (s.pushObject t p o previous fails) := by
  unfold System.pushObject
  split
  · have here := System.setThread_same { s with objects := some o } t fun thread =>
      { thread with pc := .activateMade p o, objectStackHead := some previous }
    refine Threadwise.pass (t := t) (fun t' different => System.setThread_other _ _ _ different) rfl rfl rfl
      (fun _ => id) (fun _ => rfl) (fun _ => rfl) ?_ (fun _ _ => Or.inl) (fun _ _ _ => rfl)
      (fun q h known => ⟨h, known, rfl⟩) (fun _ _ _ _ => Or.inl) (fun _ _ _ _ _ _ => ⟨rfl, rfl⟩) ?_ ?_ ?_
    · intro x first
      obtain rfl : o = x := Option.some.inj first
      exact Or.inr ⟨t, by rw [at']; rfl⟩
    all_goals rw [here]
    · simp
    · rw [at']
      exact fun _ => id
    · simp
  · have obj (x : Nat) : ((s.setObj o fun obj => { obj with next := s.objects }).objs x).state = (s.objs x).state ∧
        ((s.setObj o fun obj => { obj with next := s.objects }).objs x).payload = (s.objs x).payload ∧
        ((s.setObj o fun obj => { obj with next := s.objects }).objs x).refHead = (s.objs x).refHead := by
      by_cases same : x = o <;> simp [System.setObj, modifyAt, same]
    refine Threadwise.pass (t := t) (fun _ _ => rfl) rfl rfl rfl (fun x => (obj x).1 ▸ id) (fun x => (obj x).2.1)
      (fun x => (obj x).2.2) (fun _ => Or.inl) ?_ (fun _ _ _ => rfl) (fun q h known => ⟨h, known, rfl⟩)
      (fun _ _ _ _ => Or.inl) (fun _ _ _ _ _ _ => ⟨rfl, rfl⟩) (fun _ _ _ => id) (fun _ => id)
      (fun _ _ _ storing => Or.inl ⟨storing, rfl, rfl⟩)
    intro x y link
    by_cases same : x = o
    · exact Or.inr (by simpa [System.setObj, modifyAt, same] using link)
    · exact Or.inl (by simpa [System.setObj, modifyAt, same] using link)

theorem Owned.resume_threadwise (owned : Owned s) {fails : Bool} (run : s.resume t fails = some s') :
    Threadwise s s' := by
  unfold System.resume at run
  split at run
  case h_1 => cases run
  case h_2 use at' =>
    cases run
    exact owned.newReference_threadwise at'
  case h_3 source r use at' =>
    cases run
    exact owned.pushReference_threadwise at'
  case h_4 p v at' => exact owned.copy_threadwise at' run
  case h_5 p v o at' =>
    cases run
    refine System.activate_threadwise (by simp) (by simp [Pc.makes]) ?_
    intro q w x equal
    cases equal
    rfl
  case h_6 p v target at' => exact owned.store_threadwise at' run
  case h_7 p o previous at' =>
    cases run
    exact System.pushObject_threadwise at'
  case h_8 p o at' =>
    cases run
    exact System.activate_threadwise (by simp) (by rw [at']; exact fun _ => id) (by simp)

theorem System.registerObject_threadwise {p : Nat} {members : List Nat} : Threadwise s (s.registerObject t p members) := by
  have others := s.registerObject_other t p members
  have here := s.registerObject_same t p members
  have new : (s.registerObject t p members).objs (s.fresh + 1) =
      { next := s.objects, nextMarked := none, payload := some s.fresh, state := .active, refHead := none, live := true } :=
    Function.update_self _ _ _
  have old (o : Nat) (different : o ≠ s.fresh + 1) : (s.registerObject t p members).objs o = s.objs o :=
    Function.update_of_ne different _ _
  constructor
  case collector => rfl
  case destroyed => rfl
  case fresh => exact Nat.le_add_right _ 2
  case state =>
    intro o unmarked
    by_cases same : o = s.fresh + 1
    · rw [same, new] at unmarked
      cases unmarked
    · rwa [old o same] at unmarked
  case payload =>
    intro o a known
    by_cases same : o = s.fresh + 1
    · rw [same, new] at known
      cases known
      exact Or.inr (Nat.le_refl _)
    · exact Or.inl (by rwa [old o same] at known)
  case registered =>
    intro o known
    by_cases same : o = s.fresh + 1
    · simp [System.Registered, same, new]
    · rwa [System.Registered, old o same]
  case refHead =>
    intro o _ none'
    by_cases same : o = s.fresh + 1
    · rw [same, new]
    · rwa [old o same]
  case objects => exact fun _ => Or.inl
  case objNext =>
    intro x o link
    by_cases same : x = s.fresh + 1
    · exact Or.inr (by rwa [same, new] at link)
    · exact Or.inl (by rwa [old x same] at link)
  case refNext => exact fun _ _ _ => rfl
  case created =>
    intro t' source r use at'
    by_cases same : t' = t
    · subst same
      rw [here] at at'
      cases at'
    · exact Or.inl (by rwa [← others t' same])
  case makes =>
    intro t' o making
    by_cases same : t' = t
    · subst same
      rw [here] at making
      obtain rfl : s.fresh + 1 = o := Option.some.inj making
      exact Or.inr ⟨Nat.le_succ _, by simp [System.Registered, new], by simp [new]⟩
    · exact Or.inl (by rwa [← others t' same])
  case stores =>
    intro t' q v o storing
    by_cases same : t' = t
    · subst same
      rw [here] at storing
      cases storing
    · exact Or.inl ⟨by rwa [← others t' same], rfl, rfl⟩
  case aims => exact fun q g o found aim => Or.inl ⟨g, found, rfl, aim⟩
  case listed =>
    have root : objectStackRoot ≠ s.fresh + 1 := Nat.succ_ne_zero _ |>.symm
    exact Or.inl ⟨by rw [old _ root], fun q g found => ⟨g, found, rfl⟩⟩

theorem System.dereference_threadwise {p : Nat} {payloads : Nat → Option (List Nat)} (owned : Owned s)
    (run : System.dereference { s with payloads } p = some s') (unwritten : s.Unwritten p) (unheld : s.Unheld p) :
    Threadwise s s' := by
  obtain ⟨g, found, rfl⟩ : ∃ g, s.pointers p = some g ∧
      (({ s with payloads } : System).setRef g.ref fun record => { record with state := .unreachable }).setPointer p none =
        s' := by
    simpa [System.dereference, Option.bind_eq_some_iff] using run
  have earlier (q : Nat) (h : GcPtr) (known : Function.update s.pointers p none q = some h) : s.pointers q = some h := by
    by_cases same : q = p
    · subst same
      rw [Function.update_self] at known
      cases known
    · rwa [Function.update_of_ne same] at known
  have kept (t q v o : Nat) (storing : (s.threads t).pc = .store q v (some o)) :
      Function.update s.pointers p none v = s.pointers v ∧ Function.update s.pointers p none q = s.pointers q := by
    constructor
    · refine Function.update_of_ne ?_ _ _
      rintro rfl
      exact unheld t (owned.names.copies t q v (by rw [storing]; rfl)).1
    · refine Function.update_of_ne ?_ _ _
      rintro rfl
      exact unwritten t (by rw [storing]; rfl)
  refine Threadwise.pass (t := 0) (fun _ _ => rfl) rfl rfl rfl (fun _ => id) (fun _ => rfl) (fun _ => rfl)
    (fun _ => Or.inl) (fun _ _ => Or.inl) ?_ (fun q h known => ⟨h, earlier q h known, rfl⟩) ?_
    (fun t q v o _ storing => kept t q v o storing) (fun _ _ _ => id) (fun _ => id)
    (fun q v o storing => Or.inl ⟨storing, kept 0 q v o storing⟩)
  · intro r _ _
    by_cases same : r = g.ref <;> simp [System.setRef, System.setPointer, modifyAt, same]
  · intro q h o _ aim
    refine Or.inl ?_
    by_cases same : h.ref = g.ref
    · rw [same]
      simpa [System.setRef, System.setPointer, modifyAt, same] using aim
    · simpa [System.setRef, System.setPointer, modifyAt, same] using aim

theorem Owned.call_threadwise (owned : Owned s) {call : Call} (idle : (s.threads t).pc = .idle)
    (allowed : s.Allowed (.call t call)) (run : s.call t call = some s') : Threadwise s s' := by
  cases call with
  | default p =>
      cases run
      exact System.setThread_threadwise _ (by simp) (by simp [Pc.makes, Use.target]) (by simp)
  | copyNew p v held =>
      cases run
      exact System.setThread_threadwise _ (by simp) (by simp [Pc.makes, Use.target]) (by simp)
  | copyAssign p v held =>
      simp only [System.call] at run
      split at run
      · cases run
        have same : s.setThread t (fun thread => thread) = s := by
          simp only [System.setThread]
          congr 1
          funext t'
          by_cases here : t' = t <;> simp [modifyAt, here]
        have step := System.setThread_threadwise (s := s) (t := t) (fun thread => thread) (by simp [idle]) (by simp)
          (by simp [idle])
        rwa [same] at step
      · cases run
        exact System.setThread_threadwise _ (by simp) (by simp [Pc.makes]) (by simp)
  | destroy p => exact System.dereference_threadwise owned run allowed.2.1 allowed.2.2.1
  | makeGc p members =>
      cases run
      exact System.registerObject_threadwise

end Threadwise

end PrototypeBundle.Tracing.Concurrent
