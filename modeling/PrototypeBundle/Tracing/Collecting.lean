import PrototypeBundle.Tracing.Scanning

set_option autoImplicit false

namespace PrototypeBundle.Tracing.Concurrent

open Memory Intrusive

structure Behind (s s' : System) : Prop where
  threads : s'.threads = s.threads
  pointers : s'.pointers = s.pointers
  payloads : s'.payloads = s.payloads
  fresh : s'.fresh = s.fresh
  destroyed : s'.destroyed = s.destroyed
  payload : ∀ o, (s'.objs o).payload = (s.objs o).payload
  target : ∀ r, (s'.refs r).target = (s.refs r).target
  state : ∀ r, (s'.refs r).state = (s.refs r).state

variable {s s' : System} {front back ahead : List Nat} {current : Option (Nat × Nat)}

section Nothing

variable {γ δ : Type}

theorem nothing_known {p : γ → Prop} : ∀ x, (none : Option γ) = some x → p x := by simp

theorem nothing_collected {p : γ → δ → Prop} : ∀ x y, (none : Option (γ × δ)) = some (x, y) → p x y := by simp

theorem nothing_met {p : γ → Prop} : ∀ x ∈ ([] : List γ), p x := by simp

end Nothing

section Behind

theorem Behind.owned (step : Behind s s') (owned : Owned s) : Owned s' :=
  owned.frame step.threads step.pointers (fun a list known => by rwa [← step.payloads]) step.payload step.fresh
    (by rw [step.destroyed]; exact owned.members.destroyed) step.target step.state

theorem Behind.setCollector (collector : Collector) : Behind s (s.setCollector collector) :=
  ⟨rfl, rfl, rfl, rfl, rfl, fun _ => rfl, fun _ => rfl, fun _ => rfl⟩

theorem Behind.writeObj (o : Nat) {change : Object → Object} {collector : Collector}
    (payload : ∀ obj, (change obj).payload = obj.payload) : Behind s ((s.setObj o change).setCollector collector) := by
  refine ⟨rfl, rfl, rfl, rfl, rfl, fun x => ?_, fun _ => rfl, fun _ => rfl⟩
  by_cases same : x = o <;> simp [System.setObj, System.setCollector, modifyAt, same, payload]

theorem Behind.writeRef (r : Nat) {change : Reference → Reference} {collector : Collector}
    (kept : ∀ record, (change record).target = record.target ∧ (change record).state = record.state) :
    Behind s ((s.setRef r change).setCollector collector) := by
  refine ⟨rfl, rfl, rfl, rfl, rfl, fun _ => rfl, fun x => ?_, fun x => ?_⟩
  all_goals by_cases same : x = r <;> simp [System.setRef, System.setCollector, modifyAt, same, kept]

theorem Behind.forgotten (step : Behind s s') (o : Nat) : s'.Forgotten o ↔ s.Forgotten o := by
  simp only [System.Forgotten, System.Refers, step.pointers, step.target, step.threads]

theorem Behind.covered (step : Behind s s')
    (marked : ∀ o, (s'.objs o).state = .unreachable → (s.objs o).state = .unreachable)
    (covered : Covered s ahead current) : Covered s' ahead current := by
  constructor
  case nodup => exact covered.nodup
  case pointed =>
    rw [step.pointers]
    intro p g o found aim unmarked
    exact covered.pointed p g o found ((step.target _).symm.trans aim) (marked o unmarked)
  case made =>
    rw [step.threads]
    exact fun t o making unmarked => covered.made t o making (marked o unmarked)
  case stored =>
    rw [step.threads, step.pointers]
    exact fun t p v o storing unmarked => covered.stored t p v o storing (marked o unmarked)

theorem Behind.gone (step : Behind s s') (gone : Gone s)
    (releases : ∀ o, s'.collector.releases = some o → s.collector.releases = some o ∨ o < s.fresh ∧ s.Forgotten o) :
    Gone s' := by
  constructor
  case released =>
    intro o releasing
    rw [step.fresh, step.forgotten]
    rcases releases o releasing with old | new
    · exact gone.released o old
    · exact new
  case destroyed =>
    rw [step.destroyed]
    intro o a member payload
    rw [step.forgotten]
    exact gone.destroyed o a member ((step.payload o).symm.trans payload)

theorem Behind.links (step : Behind s s') (links : Links s) (objects : ∀ o, s'.objects = some o → s.Registered o)
    (next : ∀ x o, (s'.objs x).next = some o → s.Registered o) (met : ∀ o ∈ s'.collector.objects, s.Registered o) :
    Links s' := by
  have same (o : Nat) : s'.Registered o ↔ s.Registered o := by rw [System.Registered, System.Registered, step.payload]
  constructor
  case objects => exact fun o first => (same o).mpr (objects o first)
  case next => exact fun x o link => (same o).mpr (next x o link)
  case made =>
    rw [step.threads]
    exact fun t o making => (same o).mpr (links.made t o making)
  case met => exact fun o member => (same o).mpr (met o member)

theorem Behind.lists (step : Behind s s') (lists : Lists s front back)
    (head : ∀ o, (s'.objs o).refHead = (s.objs o).refHead) (next : ∀ r, (s'.refs r).next = (s.refs r).next)
    (hand : s'.collector.stage.hand = s.collector.stage.hand) (rest : s'.collector.stage.rest = s.collector.stage.rest)
    (running : s.collector = .thrown → s'.collector = .thrown)
    (empty : ∀ o stage, s'.collector.collects = some (o, stage) → o ≠ objectStackRoot → stage.nodes = []) :
    Lists s' front back := by
  have detached : s'.detached back = s.detached back := by rw [System.detached, System.detached, hand]
  constructor
  case attached =>
    rw [head]
    exact lists.attached.congr fun r _ => next r
  case rest =>
    rw [rest]
    exact lists.rest.congr fun r _ => next r
  case nodup => rw [detached]; exact lists.nodup
  case below => rw [detached, step.fresh]; exact lists.below
  case created => rw [detached, step.threads]; exact lists.created
  case listed =>
    rw [detached, step.pointers]
    exact fun notThrown => lists.listed fun thrown => notThrown (running thrown)
  case alone => exact fun o different => (head o).trans (lists.alone o different)
  case empty => exact empty

end Behind

section CollectRefs

variable (checkState fails : Bool) (o : Nat) (stage : Stage) (during : Stage → Collector) (after : Collector)

theorem System.collectRefs_frame :
    Behind s (s.collectRefs checkState o fails stage during after) ∧
      (s.collectRefs checkState o fails stage during after).objects = s.objects ∧
      ∀ x, ((s.collectRefs checkState o fails stage during after).objs x).next = (s.objs x).next ∧
        ((s.collectRefs checkState o fails stage during after).objs x).state = (s.objs x).state := by
  unfold System.collectRefs
  split
  case h_1 | h_5 | h_6 => exact ⟨Behind.setCollector _, rfl, fun _ => ⟨rfl, rfl⟩⟩
  case h_2 value stage' _ =>
    refine ⟨Behind.writeObj o fun _ => rfl, rfl, fun x => ?_⟩
    by_cases same : x = o <;> simp [System.setObj, System.setCollector, modifyAt, same]
  case h_3 r value stage' _ =>
    exact ⟨Behind.writeRef r fun _ => ⟨rfl, rfl⟩, rfl, fun _ => ⟨rfl, rfl⟩⟩
  case h_4 r rest _ =>
    exact ⟨Behind.writeRef r fun _ => ⟨rfl, rfl⟩, rfl, fun _ => ⟨rfl, rfl⟩⟩

theorem System.collectRefs_collector :
    (∃ stage', (s.collectRefs checkState o fails stage during after).collector = during stage') ∨
      (s.collectRefs checkState o fails stage during after).collector = after ∨
      (s.collectRefs checkState o fails stage during after).collector = .thrown := by
  unfold System.collectRefs
  split
  case h_1 stage' _ => exact Or.inl ⟨stage', rfl⟩
  case h_2 value stage' _ => exact Or.inl ⟨stage', rfl⟩
  case h_3 r value stage' _ => exact Or.inl ⟨stage', rfl⟩
  case h_4 r rest _ => exact Or.inl ⟨.visit rest, rfl⟩
  case h_5 => exact Or.inr (Or.inl rfl)
  case h_6 => exact Or.inr (Or.inr rfl)

theorem System.collectRefs_empty (none' : (s.objs o).refHead = none) (empty : stage.nodes = []) :
    (∀ x, ((s.collectRefs checkState o fails stage during after).objs x).refHead = (s.objs x).refHead) ∧
      (s.collectRefs checkState o fails stage during after).refs = s.refs ∧
      ((∃ stage', stage'.nodes = [] ∧
          (s.collectRefs checkState o fails stage during after).collector = during stage') ∨
        (s.collectRefs checkState o fails stage during after).collector = after) := by
  have cleared (x : Nat) : (modifyAt s.objs o (fun obj => { obj with refHead := none }) x).refHead = (s.objs x).refHead := by
    by_cases same : x = o <;> simp [modifyAt, same, none']
  unfold System.collectRefs
  cases stage with
  | load =>
      simp only [listCollect, none']
      exact ⟨fun _ => rfl, rfl, Or.inl ⟨.detach none, rfl, rfl⟩⟩
  | detach expected =>
      have isNone : expected = none := by
        cases expected with
        | none => rfl
        | some r => simp [Stage.nodes] at empty
      subst isNone
      simp only [listCollect, none', true_and]
      cases fails with
      | false => exact ⟨cleared, rfl, Or.inl ⟨.visit none, rfl, rfl⟩⟩
      | true => exact ⟨fun _ => rfl, rfl, Or.inl ⟨.detach none, rfl, rfl⟩⟩
  | visit cursor =>
      have isNone : cursor = none := by
        cases cursor with
        | none => rfl
        | some r => simp [Stage.nodes, Stage.hand, Stage.rest] at empty
      subst isNone
      exact ⟨fun _ => rfl, rfl, Or.inr rfl⟩
  | recheck node rest => simp [Stage.nodes, Stage.hand] at empty
  | pushLoad node rest => simp [Stage.nodes, Stage.hand] at empty
  | push node rest => simp [Stage.nodes, Stage.hand] at empty

end CollectRefs

section Root

variable {marks : Option Nat} {stage stage' : Stage}

@[simp] theorem Collector.stage_root : (Collector.collectRefs objectStackRoot marks stage).stage = stage := by
  simp [Collector.stage]

theorem Behind.relist (step : Behind s s') (lists : Lists s front back)
    (at' : s.collector = .collectRefs objectStackRoot marks stage)
    (at'' : s'.collector = .collectRefs objectStackRoot marks stage') {front' back' : List Nat}
    (attached : Chain (fun r => (s'.refs r).next) (s'.objs objectStackRoot).refHead front')
    (rest : Chain (fun r => (s'.refs r).next) stage'.rest back')
    (nodup : (front' ++ (stage'.hand ++ back')).Nodup)
    (subset : front' ++ (stage'.hand ++ back') ⊆ front ++ (stage.hand ++ back))
    (listed : ∀ p g, s.pointers p = some g → g.ref ∈ front ++ (stage.hand ++ back) →
      g.ref ∈ front' ++ (stage'.hand ++ back'))
    (alone : ∀ o, o ≠ objectStackRoot → (s'.objs o).refHead = (s.objs o).refHead) : Lists s' front' back' := by
  have here : s.collector.stage = stage := by simp [at']
  have there : s'.collector.stage = stage' := by simp [at'']
  have before : s.detached back = stage.hand ++ back := by rw [System.detached, here]
  have after : s'.detached back' = stage'.hand ++ back' := by rw [System.detached, there]
  constructor
  case attached => exact attached
  case rest => rwa [there]
  case nodup => rwa [after]
  case below =>
    rw [after, step.fresh]
    exact fun r member => lists.below r (before ▸ subset member)
  case created =>
    rw [after, step.threads]
    exact fun t source r use creating member => lists.created t source r use creating (before ▸ subset member)
  case listed =>
    rw [after, step.pointers]
    intro _ p g found
    refine listed p g found ?_
    rw [← before]
    exact lists.listed (by simp [at']) p g found
  case alone => exact fun o different => (alone o different).trans (lists.alone o different)
  case empty =>
    rw [at'']
    intro o stage'' collects different
    cases collects
    exact absurd rfl different

theorem Lists.collectRoot (lists : Lists s front back) (owned : Owned s) (fails : Bool)
    (at' : s.collector = .collectRefs objectStackRoot marks stage) :
    ∃ front' back', Lists (s.collectRefs true objectStackRoot fails stage (.collectRefs objectStackRoot marks)
      (.loadRefs objectStackRoot marks)) front' back' := by
  have here : s.collector.stage = stage := by simp [at']
  have attached := lists.attached
  have rest := lists.rest
  have nodup := lists.nodup
  simp only [System.detached, here] at rest nodup
  have pass {next : Stage} (hand : next.hand = stage.hand) (rest' : next.rest = stage.rest) :
      Lists (s.setCollector (.collectRefs objectStackRoot marks next)) front back := by
    refine (Behind.setCollector _).relist lists at' rfl attached (rest' ▸ rest) (hand ▸ nodup) ?_ ?_ fun _ _ => rfl
    · rw [hand]
      exact List.Subset.refl _
    · rw [hand]
      exact fun _ _ _ => id
  -- the node in hand is linked to the head of the list
  have relink (node : Nat) (rest' : Option Nat) (hand : stage.hand = [node]) (same : stage.rest = rest') :
      Lists ((s.setRef node fun record => { record with next := (s.objs objectStackRoot).refHead }).setCollector
        (.collectRefs objectStackRoot marks (.push node rest'))) front back := by
    rw [hand] at nodup
    have apart : node ∉ front ∧ node ∉ back := by
      simp only [List.singleton_append, List.nodup_append, List.nodup_cons] at nodup
      exact ⟨fun member => nodup.2.2 node member node (by simp) rfl, nodup.2.1.1⟩
    have next (r : Nat) (different : r ≠ node) :
        (modifyAt s.refs node (fun record => { record with next := (s.objs objectStackRoot).refHead }) r).next =
          (s.refs r).next := congrArg Reference.next (modifyAt_other _ _ _ different)
    refine Behind.relist ?_ lists at' rfl ?_ ?_ ?_ ?_ ?_ fun _ _ => rfl
    · exact Behind.writeRef node fun _ => ⟨rfl, rfl⟩
    · exact attached.congr fun r member => next r fun equal => apart.1 (equal ▸ member)
    · exact (same ▸ rest).congr fun r member => next r fun equal => apart.2 (equal ▸ member)
    · exact nodup
    · rw [hand]
      exact List.Subset.refl _
    · rw [hand]
      exact fun _ _ _ => id
  unfold System.collectRefs
  cases stage with
  | load => exact ⟨front, back, pass rfl rfl⟩
  | detach expected =>
      by_cases equal : (s.objs objectStackRoot).refHead = expected ∧ fails = false
      case neg =>
        simp only [listCollect, if_neg equal]
        exact ⟨front, back, pass rfl rfl⟩
      case pos =>
        simp only [listCollect, if_pos equal]
        have nothing : back = [] := rest.head_none_iff.mp rfl
        subst nothing
        refine ⟨[], front, Behind.relist ?_ lists at' rfl ?_ ?_ ?_ ?_ ?_ ?_⟩
        · exact Behind.writeObj objectStackRoot fun _ => rfl
        · simp [System.setObj, System.setCollector, modifyAt]
        · rw [Stage.rest, ← equal.1]
          exact attached
        · simpa [Stage.hand] using nodup
        · simp [Stage.hand]
        · simp [Stage.hand]
        · intro o different
          simp [System.setObj, System.setCollector, modifyAt, different]
  | visit cursor =>
      cases cursor with
      | none =>
          refine ⟨front, back, (Behind.setCollector _).lists lists (fun _ => rfl) (fun _ => rfl) ?_ ?_ (by simp [at'])
            (by simp [System.setCollector, Collector.collects])⟩
          · rw [here]; rfl
          · rw [here]; rfl
      | some r =>
          obtain ⟨back', rfl, chain⟩ := rest.tail rfl
          by_cases released : true = false ∨ (s.refs r).state = .unreachable
          case pos =>
            simp only [listCollect, if_pos released]
            have dead : (s.refs r).state = .unreachable := by simpa using released
            refine ⟨front, back', Behind.relist ?_ lists at' rfl ?_ ?_ ?_ ?_ ?_ fun _ _ => rfl⟩
            · exact Behind.writeRef r fun _ => ⟨rfl, rfl⟩
            · refine attached.congr fun x _ => ?_
              by_cases same : x = r <;> simp [System.setRef, System.setCollector, modifyAt, same]
            · refine chain.congr fun x _ => ?_
              by_cases same : x = r <;> simp [System.setRef, System.setCollector, modifyAt, same]
            · exact nodup.sublist (List.Sublist.append_left (List.sublist_cons_self r back') front)
            · exact (List.Sublist.append_left (List.sublist_cons_self r back') front).subset
            · intro p g found member
              -- the reference of a pointer is active
              have different : g.ref ≠ r := by
                intro same
                rw [← same, owned.records.active p g found] at dead
                cases dead
              simpa [Stage.hand, different] using member
          case neg =>
            simp only [listCollect, if_neg released]
            refine ⟨front, back', (Behind.setCollector _).relist lists at' rfl attached chain nodup ?_ ?_ fun _ _ => rfl⟩
            · exact List.Subset.refl _
            · exact fun _ _ _ => id
  | recheck node rest' =>
      by_cases active : (s.refs node).state = .active
      case pos =>
        simp only [listCollect, if_pos active]
        exact ⟨front, back, pass rfl rfl⟩
      case neg =>
        simp only [listCollect, if_neg active]
        -- the exception ends the collector
        refine ⟨front, [], attached, rfl, ?_, ?_, ?_, fun running => absurd rfl running, lists.alone, nothing_collected⟩
        · simpa [System.detached, System.setCollector, Collector.stage, Stage.hand] using
            (List.nodup_append.mp nodup).1
        · intro r member
          refine lists.below r (List.mem_append_left _ ?_)
          simpa [System.detached, System.setCollector, Collector.stage, Stage.hand] using member
        · intro t source r use creating member
          refine lists.created t source r use creating (List.mem_append_left _ ?_)
          simpa [System.detached, System.setCollector, Collector.stage, Stage.hand] using member
  | pushLoad node rest' => exact ⟨front, back, relink node rest' rfl rfl⟩
  | push node rest' =>
      by_cases equal : (s.objs objectStackRoot).refHead = (s.refs node).next ∧ fails = false
      case neg =>
        simp only [listCollect, if_neg equal]
        exact ⟨front, back, relink node rest' rfl rfl⟩
      case pos =>
        simp only [listCollect, if_pos equal]
        refine ⟨node :: front, back, Behind.relist ?_ lists at' rfl ?_ ?_ ?_ ?_ ?_ ?_⟩
        · exact Behind.writeObj objectStackRoot fun _ => rfl
        · have head : ((s.setObj objectStackRoot fun obj => { obj with refHead := some node }).objs
              objectStackRoot).refHead = some node := by
            simp [System.setObj, modifyAt]
          refine ⟨head, ?_⟩
          change Chain (fun r => (s.refs r).next) (s.refs node).next front
          rw [← equal.1]
          exact attached
        · exact rest
        · exact (List.perm_middle.nodup_iff).mp nodup
        · intro r member
          simpa [Stage.hand, or_left_comm] using member
        · intro p g _ member
          simpa [Stage.hand, or_left_comm] using member
        · intro o different
          simp [System.setObj, System.setCollector, modifyAt, different]

end Root

section Marking

theorem Covered.tail {r : Nat} {current : Option (Nat × Nat)} {list : List Nat} (owned : Owned s)
    (covered : Covered s list current) (whole : (current.map Prod.fst).toList ++ list = r :: ahead)
    (later : ∀ p g o, s.pointers p = some g → (s.refs g.ref).target = some o → (s.objs o).state = .unreachable →
      g.ref ∈ ahead) : Covered s ahead none := by
  have nodup := covered.nodup
  rw [whole, List.nodup_cons] at nodup
  constructor
  case nodup => exact nodup.2
  case pointed => exact fun p g o found aim unmarked => Or.inl (later p g o found aim unmarked)
  case made => exact covered.made
  case stored =>
    intro t p v o storing unmarked
    obtain ⟨g, h, isV, isP, ordered⟩ := covered.stored t p v o storing unmarked
    refine ⟨g, h, isV, isP, ?_⟩
    rw [whole] at ordered
    rcases List.sublist_cons_iff.mp ordered with sub | ⟨rest, equal, -⟩
    · exact sub
    · -- the source of the copy leads to `o`, so that it is not `r`
      cases equal
      obtain ⟨g', isV', aim⟩ := owned.aims.loaded t p v (some o) (by rw [storing]; rfl)
      obtain rfl := Option.some.inj (isV.symm.trans isV')
      exact absurd (later v g o isV aim unmarked) nodup.1

theorem Covered.skip {r x : Nat} (owned : Owned s) (covered : Covered s ahead (some (r, x)))
    (done : (∀ p g, s.pointers p = some g → g.ref ≠ r) ∨ (s.objs x).state ≠ .unreachable) :
    Covered s ahead none := by
  refine covered.tail owned rfl fun p g o found aim unmarked => ?_
  rcases covered.pointed p g o found aim unmarked with later | here
  · exact later
  · cases here
    rcases done with dead | marked
    · exact absurd rfl (dead p g found)
    · exact absurd unmarked marked

theorem Covered.look {r x : Nat} (covered : Covered s (r :: ahead) none)
    (aim : (s.refs r).target = some x) : Covered s ahead (some (r, x)) := by
  constructor
  case nodup => exact covered.nodup
  case pointed =>
    intro p g o found aim' unmarked
    rcases covered.pointed p g o found aim' unmarked with member | here
    · rcases List.mem_cons.mp member with same | later
      · rw [same, aim] at aim'
        cases aim'
        exact Or.inr (by rw [same])
      · exact Or.inl later
    · cases here
  case made => exact covered.made
  case stored => exact covered.stored

theorem Covered.pass {r : Nat} (owned : Owned s) (covered : Covered s (r :: ahead) none)
    (nowhere : (s.refs r).target = none) : Covered s ahead none := by
  refine covered.tail owned rfl fun p g o found aim unmarked => ?_
  rcases covered.pointed p g o found aim unmarked with member | here
  · rcases List.mem_cons.mp member with same | later
    · rw [same, nowhere] at aim
      cases aim
    · exact later
  · cases here

theorem Covered.forgotten (covered : Covered s [] none) {o : Nat} (unmarked : (s.objs o).state = .unreachable) :
    s.Forgotten o := by
  constructor
  · rintro p ⟨g, found, aim⟩
    rcases covered.pointed p g o found aim unmarked with member | here
    · cases member
    · cases here
  · exact fun t making => covered.made t o making unmarked

theorem Lists.covered (lists : Lists s front back) {marks : Option Nat} {fails : Bool}
    (at' : s.collector = .loadRefs objectStackRoot marks) (quiet : s.Quiet (.collectStep fails)) :
    Covered s front none := by
  have nothing : back = [] := by
    have rest := lists.rest
    rw [at'] at rest
    exact rest.head_none_iff.mp rfl
  have all : front ++ s.detached back = front := by
    rw [System.detached, at', nothing]
    exact List.append_nil front
  constructor
  case nodup => exact all ▸ lists.nodup
  case pointed => exact fun p g o found _ _ => Or.inl (all ▸ lists.listed (by simp [at']) p g found)
  case made => exact fun t o making unmarked => (quiet marks at' t o unmarked).1 making
  case stored =>
    intro t p v o storing unmarked
    obtain ⟨g, h, list, isV, isP, chain, ordered⟩ := (quiet marks at' t o unmarked).2 p v storing
    exact ⟨g, h, isV, isP, chain.unique lists.attached ▸ ordered⟩

end Marking

section Sweep

variable {stage : Stage}

theorem Links.sweep (links : Links s) (fails : Bool) (at' : s.collector = .sweep stage) :
    Behind s (s.sweep fails stage) ∧ (s.sweep fails stage).refs = s.refs ∧
      (∀ x, ((s.sweep fails stage).objs x).refHead = (s.objs x).refHead ∧
        ((s.sweep fails stage).objs x).state = (s.objs x).state) ∧ Links (s.sweep fails stage) ∧
      ((∃ stage', (s.sweep fails stage).collector = .sweep stage') ∨ (s.sweep fails stage).collector = .idle ∨
        (s.sweep fails stage).collector = .thrown ∨
        ∃ o rest, (s.sweep fails stage).collector = .releaseRefs o rest .load ∧ (s.objs o).state = .unreachable ∧
          s.Registered o) := by
  have met := links.met
  rw [at'] at met
  have moves (collector : Collector) (inside : ∀ o ∈ collector.objects, s.Registered o) :
      Links (s.setCollector collector) :=
    (Behind.setCollector _).links links links.objects links.next inside
  have link (node : Nat) (rest : Option Nat) (inside : ∀ o ∈ (Stage.push node rest).nodes, s.Registered o) :
      Behind s ((s.setObj node fun obj => { obj with next := s.objects }).setCollector (.sweep (.push node rest))) ∧
        (∀ x, ((s.setObj node fun obj => { obj with next := s.objects }).objs x).refHead = (s.objs x).refHead ∧
          ((s.setObj node fun obj => { obj with next := s.objects }).objs x).state = (s.objs x).state) ∧
        Links ((s.setObj node fun obj => { obj with next := s.objects }).setCollector (.sweep (.push node rest))) := by
    have step : Behind s
        ((s.setObj node fun obj => { obj with next := s.objects }).setCollector (.sweep (.push node rest))) :=
      Behind.writeObj node fun _ => rfl
    refine ⟨step, fun x => ?_, step.links links links.objects ?_ inside⟩
    · by_cases same : x = node <;> simp [System.setObj, modifyAt, same]
    · intro x o next
      by_cases same : x = node
      · exact links.objects o (by simpa [System.setObj, System.setCollector, modifyAt, same] using next)
      · exact links.next x o (by simpa [System.setObj, System.setCollector, modifyAt, same] using next)
  unfold System.sweep
  cases stage with
  | load =>
      exact ⟨Behind.setCollector _, rfl, fun _ => ⟨rfl, rfl⟩,
        moves _ fun o member => links.objects o (Option.mem_toList.mp member), Or.inl ⟨_, rfl⟩⟩
  | detach expected =>
      by_cases equal : s.objects = expected ∧ fails = false
      · simp only [listCollect, if_pos equal]
        have step : Behind s { s with objects := none, collector := .sweep (.visit expected) } :=
          ⟨rfl, rfl, rfl, rfl, rfl, fun _ => rfl, fun _ => rfl, fun _ => rfl⟩
        refine ⟨step, True.intro, fun _ => by simp, step.links links (by simp) links.next ?_, Or.inl ⟨_, rfl⟩⟩
        exact fun o member => met o member
      · simp only [listCollect, if_neg equal]
        exact ⟨Behind.setCollector _, rfl, fun _ => ⟨rfl, rfl⟩,
          moves _ fun o member => links.objects o (Option.mem_toList.mp member), Or.inl ⟨_, rfl⟩⟩
  | visit cursor =>
      cases cursor with
      | none => exact ⟨Behind.setCollector _, rfl, fun _ => ⟨rfl, rfl⟩, moves _ nothing_met, Or.inr (Or.inl rfl)⟩
      | some o =>
          have registered : s.Registered o := met o (by simp [Collector.objects, Stage.nodes, Stage.rest])
          have later (x : Nat) (member : x ∈ o :: (s.objs o).next.toList) : s.Registered x := by
            rcases List.mem_cons.mp member with rfl | next
            · exact registered
            · exact links.next o x (Option.mem_toList.mp next)
          by_cases unmarked : true = false ∨ (s.objs o).state = .unreachable
          · simp only [listCollect, if_pos unmarked]
            exact ⟨Behind.setCollector _, rfl, fun _ => ⟨rfl, rfl⟩, moves _ later,
              Or.inr (Or.inr (Or.inr ⟨o, _, rfl, by simpa using unmarked, registered⟩))⟩
          · simp only [listCollect, if_neg unmarked]
            exact ⟨Behind.setCollector _, rfl, fun _ => ⟨rfl, rfl⟩, moves _ later, Or.inl ⟨_, rfl⟩⟩
  | recheck node rest =>
      by_cases active : (s.objs node).state = .active
      · simp only [listCollect, if_pos active]
        exact ⟨Behind.setCollector _, rfl, fun _ => ⟨rfl, rfl⟩, moves _ met, Or.inl ⟨_, rfl⟩⟩
      · simp only [listCollect, if_neg active]
        exact ⟨Behind.setCollector _, rfl, fun _ => ⟨rfl, rfl⟩, moves _ nothing_met, Or.inr (Or.inr (Or.inl rfl))⟩
  | pushLoad node rest =>
      obtain ⟨step, same, links'⟩ := link node rest met
      exact ⟨step, rfl, same, links', Or.inl ⟨_, rfl⟩⟩
  | push node rest =>
      by_cases equal : s.objects = (s.objs node).next ∧ fails = false
      · simp only [listCollect, if_pos equal]
        have step : Behind s { s with objects := some node, collector := .sweep (.visit rest) } :=
          ⟨rfl, rfl, rfl, rfl, rfl, fun _ => rfl, fun _ => rfl, fun _ => rfl⟩
        refine ⟨step, True.intro, fun _ => by simp, step.links links ?_ links.next ?_, Or.inl ⟨_, rfl⟩⟩
        · intro o first
          cases first
          exact met node (by simp [Collector.objects, Stage.nodes, Stage.hand])
        · exact fun o member => met o (List.mem_cons_of_mem _ member)
      · simp only [listCollect, if_neg equal]
        obtain ⟨step, same, links'⟩ := link node rest met
        exact ⟨step, rfl, same, links', Or.inl ⟨_, rfl⟩⟩

end Sweep

structure Consistent (s : System) (front back : List Nat) : Prop where
  owned : Owned s
  lists : Lists s front back
  marks : s.Marks front
  gone : Gone s
  links : Links s

section Consistent

theorem Members.registered (members : Members s) {o : Nat} (registered : s.Registered o) :
    o ≠ objectStackRoot ∧ o < s.fresh := by
  obtain ⟨a, known⟩ := Option.isSome_iff_exists.mp registered
  obtain ⟨number, below⟩ := members.payload o a known
  exact ⟨by rw [number]; exact Nat.succ_ne_zero a, below⟩

theorem Consistent.threadwise (state : Consistent s front back) (step : Threadwise s s') (owned : Owned s') :
    ∃ front' back', Consistent s' front' back' := by
  obtain ⟨front', grown, lists⟩ := step.lists state.owned.records state.lists
  exact ⟨front', back, owned, lists, step.marks grown state.lists state.marks, step.gone state.owned state.gone,
    step.links state.links⟩

theorem Consistent.goto (state : Consistent s front back) {collector : Collector}
    (stage : s.collector.stage = .load) (stage' : collector.stage = .load) (running : s.collector ≠ .thrown)
    (collects : collector.collects = none ∨ ∃ o, collector.collects = some (o, .load))
    (marks : (s.setCollector collector).Marks front)
    (releases : ∀ o, collector.releases = some o → o < s.fresh ∧ s.Forgotten o)
    (met : ∀ o ∈ collector.objects, s.Registered o) : Consistent (s.setCollector collector) front back where
  owned := (Behind.setCollector collector).owned state.owned
  lists := by
    refine (Behind.setCollector collector).lists state.lists (fun _ => rfl) (fun _ => rfl) ?_ ?_
      (fun thrown => absurd thrown running) ?_
    · exact (congrArg Stage.hand stage').trans (congrArg Stage.hand stage).symm
    · exact (congrArg Stage.rest stage').trans (congrArg Stage.rest stage).symm
    · intro o at' known _
      change collector.collects = some (o, at') at known
      rcases collects with none' | ⟨x, loads⟩
      · rw [none'] at known
        cases known
      · rw [loads] at known
        cases known
        rfl
  marks := marks
  gone := (Behind.setCollector collector).gone state.gone fun o releasing => Or.inr (releases o releasing)
  links := (Behind.setCollector collector).links state.links state.links.objects state.links.next met

theorem Consistent.write (state : Consistent s front back) {o : Nat} {change : Object → Object} {collector : Collector}
    (kept : ∀ obj, (change obj).payload = obj.payload ∧ (change obj).refHead = obj.refHead ∧ (change obj).next = obj.next)
    (stage : s.collector.stage = .load) (stage' : collector.stage = .load) (running : s.collector ≠ .thrown)
    (collects : collector.collects = none ∨ ∃ o, collector.collects = some (o, .load))
    (marks : ((s.setObj o change).setCollector collector).Marks front)
    (releases : collector.releases = none)
    (met : ∀ o ∈ collector.objects, s.Registered o) :
    Consistent ((s.setObj o change).setCollector collector) front back := by
  have step : Behind s ((s.setObj o change).setCollector collector) := Behind.writeObj o fun obj => (kept obj).1
  have same (x : Nat) : (modifyAt s.objs o change x).refHead = (s.objs x).refHead ∧
      (modifyAt s.objs o change x).next = (s.objs x).next := by
    by_cases here : x = o <;> simp [modifyAt, here, kept]
  refine ⟨step.owned state.owned, ?_, marks, step.gone state.gone ?_, step.links state.links state.links.objects ?_ met⟩
  · refine step.lists state.lists (fun x => (same x).1) (fun _ => rfl) ?_ ?_ (fun thrown => absurd thrown running) ?_
    · exact (congrArg Stage.hand stage').trans (congrArg Stage.hand stage).symm
    · exact (congrArg Stage.rest stage').trans (congrArg Stage.rest stage).symm
    · intro x at' known _
      change collector.collects = some (x, at') at known
      rcases collects with none' | ⟨y, loads⟩
      · rw [none'] at known
        cases known
      · rw [loads] at known
        cases known
        rfl
  · intro x releasing
    change collector.releases = some x at releasing
    rw [releases] at releasing
    cases releasing
  · exact fun x y link => state.links.next x y ((same x).2 ▸ link)

theorem nextMark_stage (next marks : Option Nat) :
    (nextMark next marks).stage = .load ∧
      ((nextMark next marks).collects = none ∨ ∃ o, (nextMark next marks).collects = some (o, .load)) ∧
      (nextMark next marks).releases = none ∧ (nextMark next marks).objects = [] := by
  cases next with
  | some o => exact ⟨by simp [nextMark, Collector.stage], Or.inr ⟨o, rfl⟩, rfl, rfl⟩
  | none =>
      cases marks with
      | some o => exact ⟨by simp [nextMark, Collector.stage], Or.inr ⟨o, rfl⟩, rfl, rfl⟩
      | none => exact ⟨rfl, Or.inl rfl, rfl, rfl⟩

theorem nextMark_marks {next marks : Option Nat} (at' : s.collector = nextMark next marks)
    (covered : Covered s [] none) : s.Marks front := by
  unfold System.Marks
  rw [at']
  cases next with
  | some o => exact fun _ => covered
  | none =>
      cases marks with
      | some o => exact fun _ => covered
      | none => exact covered

theorem Consistent.collectRefs (state : Consistent s front back) {o : Nat} {marks : Option Nat} {stage : Stage}
    {fails : Bool} (at' : s.collector = .collectRefs o marks stage) :
    ∃ front' back', Consistent (s.collectRefs true o fails stage (.collectRefs o marks) (.loadRefs o marks))
      front' back' := by
  obtain ⟨step, objects, obj⟩ := s.collectRefs_frame true fails o stage (.collectRefs o marks) (.loadRefs o marks)
  have there := s.collectRefs_collector true fails o stage (.collectRefs o marks) (.loadRefs o marks)
  generalize next : s.collectRefs true o fails stage (.collectRefs o marks) (.loadRefs o marks) = s' at *
  have marks' (front' : List Nat) (covered : o ≠ objectStackRoot → Covered s [] none) : s'.Marks front' := by
    have covered' (different : o ≠ objectStackRoot) : Covered s' [] none :=
      step.covered (fun x => (obj x).2 ▸ id) (covered different)
    unfold System.Marks
    rcases there with ⟨stage', during⟩ | after | thrown
    · rw [during]
      exact covered'
    · rw [after]
      exact covered'
    · rw [thrown]
      trivial
  have idle : s'.collector.releases = none ∧ s'.collector.objects = [] := by
    rcases there with ⟨stage', during⟩ | after | thrown
    · rw [during]
      exact ⟨rfl, rfl⟩
    · rw [after]
      exact ⟨rfl, rfl⟩
    · rw [thrown]
      exact ⟨rfl, rfl⟩
  have gone : Gone s' := by
    refine step.gone state.gone fun x releasing => ?_
    rw [idle.1] at releasing
    cases releasing
  have links : Links s' := by
    refine step.links state.links ?_ ?_ ?_
    · exact fun x first => state.links.objects x (objects ▸ first)
    · exact fun x y link => state.links.next x y ((obj x).1 ▸ link)
    · simp [idle.2]
  by_cases root : o = objectStackRoot
  · subst root
    obtain ⟨front', back', lists⟩ := state.lists.collectRoot state.owned fails at'
    rw [next] at lists
    exact ⟨front', back', step.owned state.owned, lists, marks' front' fun different => absurd rfl different, gone, links⟩
  · have covered : Covered s [] none := by
      have marked := state.marks
      unfold System.Marks at marked
      rw [at'] at marked
      exact marked root
    have empty : stage.nodes = [] := state.lists.empty o stage (by rw [at']; rfl) root
    obtain ⟨heads, refs, collector⟩ := s.collectRefs_empty true fails o stage (.collectRefs o marks) (.loadRefs o marks)
      (state.lists.alone o root) empty
    rw [next] at heads refs collector
    have stageBefore : s.collector.stage = .load := by rw [at']; exact if_neg root
    have stageAfter : s'.collector.stage = .load := by
      rcases collector with ⟨stage', -, during⟩ | after
      · rw [during]
        exact if_neg root
      · rw [after]
        rfl
    refine ⟨front, back, step.owned state.owned, ?_, marks' front fun _ => covered, gone, links⟩
    refine step.lists state.lists heads (fun r => by rw [refs]) ?_ ?_ (fun thrown => by simp [at'] at thrown) ?_
    · rw [stageBefore, stageAfter]
    · rw [stageBefore, stageAfter]
    · intro x stage'' collects different
      rcases collector with ⟨stage', empty', during⟩ | after
      · rw [during] at collects
        cases collects
        exact empty'
      · rw [after] at collects
        cases collects

theorem Consistent.releaseRefs (state : Consistent s front back) {o : Nat} {rest : Option Nat} {stage : Stage}
    {fails : Bool} (at' : s.collector = .releaseRefs o rest stage) :
    Consistent (s.collectRefs false o fails stage (.releaseRefs o rest) (.dctor o rest)) front back := by
  obtain ⟨step, objects, obj⟩ := s.collectRefs_frame false fails o stage (.releaseRefs o rest) (.dctor o rest)
  have met := state.links.met
  rw [at'] at met
  have root : o ≠ objectStackRoot := (state.owned.members.registered (met o (by simp [Collector.objects]))).1
  have empty : stage.nodes = [] := state.lists.empty o stage (by rw [at']; rfl) root
  obtain ⟨heads, refs, there⟩ := s.collectRefs_empty false fails o stage (.releaseRefs o rest) (.dctor o rest)
    (state.lists.alone o root) empty
  generalize s.collectRefs false o fails stage (.releaseRefs o rest) (.dctor o rest) = s' at *
  have covered : Covered s' [] none := by
    have marked := state.marks
    unfold System.Marks at marked
    rw [at'] at marked
    exact step.covered (fun x => (obj x).2 ▸ id) marked
  have here : s'.collector.stage = .load ∧ s'.collector.releases = some o ∧ s'.collector.objects = o :: rest.toList ∧
      s'.Marks front := by
    unfold System.Marks
    rcases there with ⟨stage', -, during⟩ | after
    · rw [during]
      exact ⟨rfl, rfl, rfl, covered⟩
    · rw [after]
      exact ⟨rfl, rfl, rfl, covered⟩
  refine ⟨step.owned state.owned, ?_, here.2.2.2, ?_, ?_⟩
  · refine step.lists state.lists heads (fun r => by rw [refs]) ?_ ?_ (fun thrown => by simp [at'] at thrown) ?_
    · rw [here.1, at']
      rfl
    · rw [here.1, at']
      rfl
    · intro x stage'' collects _
      rcases there with ⟨stage', empty', during⟩ | after
      · rw [during] at collects
        cases collects
        exact empty'
      · rw [after] at collects
        cases collects
  · refine step.gone state.gone fun x releasing => Or.inl ?_
    rw [here.2.1] at releasing
    rw [at']
    exact releasing
  · refine step.links state.links ?_ ?_ ?_
    · exact fun x first => state.links.objects x (objects ▸ first)
    · exact fun x y link => state.links.next x y ((obj x).1 ▸ link)
    · rw [here.2.2.1]
      exact met

theorem Consistent.sweep (state : Consistent s front back) {stage : Stage} {fails : Bool}
    (at' : s.collector = .sweep stage) : Consistent (s.sweep fails stage) front back := by
  obtain ⟨step, refs, obj, links, there⟩ := state.links.sweep fails at'
  generalize s.sweep fails stage = s' at *
  have covered : Covered s [] none := by
    have marked := state.marks
    unfold System.Marks at marked
    rwa [at'] at marked
  have covered' : Covered s' [] none := step.covered (fun x => (obj x).2 ▸ id) covered
  have here : s'.collector.stage = .load ∧ (s'.collector.collects = none ∨ ∃ o, s'.collector.collects = some (o, .load)) ∧
      s'.Marks front ∧ ∀ o, s'.collector.releases = some o → o < s.fresh ∧ s.Forgotten o := by
    unfold System.Marks
    rcases there with ⟨stage', sweeping⟩ | idle | thrown | ⟨o, rest, releasing, unmarked, registered⟩
    · rw [sweeping]
      exact ⟨rfl, Or.inl rfl, covered', nothing_known⟩
    · rw [idle]
      exact ⟨rfl, Or.inl rfl, True.intro, nothing_known⟩
    · rw [thrown]
      exact ⟨rfl, Or.inl rfl, True.intro, nothing_known⟩
    · rw [releasing]
      refine ⟨rfl, Or.inr ⟨o, rfl⟩, covered', fun x same => ?_⟩
      cases same
      exact ⟨(state.owned.members.registered registered).2, covered.forgotten unmarked⟩
  refine ⟨step.owned state.owned, ?_, here.2.2.1, step.gone state.gone fun o releasing => Or.inr (here.2.2.2 o releasing),
    links⟩
  refine step.lists state.lists (fun x => (obj x).1) (fun r => by rw [refs]) ?_ ?_ (fun thrown => by simp [at'] at thrown) ?_
  · rw [here.1, at']
    rfl
  · rw [here.1, at']
    rfl
  · intro x stage' known _
    rcases here.2.1 with none' | ⟨y, loads⟩
    · rw [none'] at known
      cases known
    · rw [loads] at known
      cases known
      rfl

theorem Consistent.dctor (state : Consistent s front back) {o : Nat} {rest : Option Nat}
    (at' : s.collector = .dctor o rest) : Consistent (s.dctor o rest) front back := by
  have met := state.links.met
  rw [at'] at met
  have released := state.gone.released o (by rw [at']; rfl)
  have covered : Covered s [] none := by
    have marked := state.marks
    unfold System.Marks at marked
    rwa [at'] at marked
  refine ⟨state.owned.dctor o rest, ?_, ?_, ?_, ?_⟩
  · have lists := state.lists
    have same : (s.dctor o rest).detached back = s.detached back := by
      rw [System.detached, System.detached, at']
      rfl
    refine ⟨lists.attached, ?_, same ▸ lists.nodup, same ▸ lists.below, same ▸ lists.created,
      fun _ => same ▸ lists.listed (by simp [at']), lists.alone, nothing_collected⟩
    have rest' := lists.rest
    rw [at'] at rest'
    exact rest'
  · exact ⟨covered.nodup, covered.pointed, covered.made, covered.stored⟩
  · constructor
    case released =>
      intro x same
      cases same
      exact released
    case destroyed =>
      intro x a member payload
      rcases List.mem_append.mp member with new | old
      · -- no other object has the payload
        have same : o = x := by
          rw [(state.owned.members.payload o a (Option.mem_toList.mp new)).1,
            (state.owned.members.payload x a payload).1]
        exact same ▸ released.2
      · exact state.gone.destroyed x a old payload
  · exact ⟨state.links.objects, state.links.next, state.links.made, met⟩

theorem Covered.marks_destroyMembers (covered : Covered s [] none) {o : Nat} {rest : Option Nat}
    (at' : s.collector = .destroyMembers o rest) : s.Marks front := by
  unfold System.Marks
  rwa [at']

theorem Consistent.destroyMembers (state : Consistent s front back) {o : Nat} {rest : Option Nat}
    (at' : s.collector = .destroyMembers o rest) (run : s.destroyMembers o rest = some s') :
    ∃ front' back', Consistent s' front' back' := by
  have met := state.links.met
  rw [at'] at met
  have released := state.gone.released o (by rw [at']; rfl)
  have owned' := state.owned.destroyMembers released.2.1 run
  simp only [System.destroyMembers, Option.bind_eq_bind, Option.bind_eq_some_iff] at run
  obtain ⟨a, owner, run⟩ := run
  split at run
  case h_1 m members known =>
    have inside : s.Inside m o := ⟨a, m :: members, owner, known, by simp⟩
    obtain ⟨unwritten, unheld⟩ := state.owned.members_free released.2.1 inside
    exact state.threadwise (System.dereference_threadwise state.owned run unwritten unheld) owned'
  case h_2 =>
    cases run
    have covered : Covered s [] none := by
      have marked := state.marks
      unfold System.Marks at marked
      rwa [at'] at marked
    have lists := state.lists
    have covered' : Covered { s with payloads := Function.update s.payloads a none } [] none := { covered with }
    have state' : Consistent { s with payloads := Function.update s.payloads a none } front back := by
      refine ⟨?_, { lists with }, ?_, { state.gone with }, { state.links with }⟩
      · exact state.owned.frame rfl rfl (fun _ _ => some_of_update_none) (fun _ => rfl) rfl state.owned.members.destroyed (fun _ => rfl) fun _ => rfl
      · exact covered'.marks_destroyMembers at'
    refine ⟨front, back, state'.write (fun _ => ⟨rfl, rfl, rfl⟩) ?_ rfl ?_ (Or.inl rfl) ?_ rfl ?_⟩
    · simp [at', Collector.stage]
    · simp [at']
    · refine Behind.covered ?_ ?_ covered'
      · exact Behind.writeObj o fun _ => rfl
      intro x unmarked
      by_cases same : x = o
      · simpa [System.setObj, System.setCollector, modifyAt, same] using unmarked
      · simpa [System.setObj, System.setCollector, modifyAt, same] using unmarked
    · exact fun x member => met x (List.mem_cons_of_mem _ member)

theorem Consistent.scan (state : Consistent s front back) {o : Nat} {marks cursor : Option Nat}
    (at' : s.collector = .scan o marks cursor) : Consistent (s.scan o marks cursor) front back := by
  obtain ⟨ahead, chain, inside, covered⟩ : ∃ ahead, Chain (fun r => (s.refs r).next) cursor ahead ∧ ahead ⊆ front ∧
      Covered s ahead none := by
    have marked := state.marks
    unfold System.Marks at marked
    rwa [at'] at marked
  have stage : s.collector.stage = .load := by rw [at']; rfl
  have running : s.collector ≠ .thrown := by simp [at']
  cases cursor with
  | none =>
      obtain ⟨stage', collects, releases, objects⟩ := nextMark_stage (s.objs o).nextMarked marks
      have nothing : ahead = [] := chain.head_none_iff.mp rfl
      subst nothing
      refine state.write (fun _ => ⟨rfl, rfl, rfl⟩) stage stage' running collects (nextMark_marks rfl ?_) releases ?_
      · refine Behind.covered ?_ (fun x unmarked => ?_) covered
        · exact Behind.writeObj o fun _ => rfl
        by_cases same : x = o
        · simp [System.setObj, System.setCollector, modifyAt, same] at unmarked
        · simpa [System.setObj, System.setCollector, modifyAt, same] using unmarked
      · simp [objects]
  | some r =>
      obtain ⟨rest, rfl, chain'⟩ := chain.tail rfl
      cases aim : (s.refs r).target with
      | none =>
          simp only [System.scan, aim]
          refine state.goto stage rfl running (Or.inl rfl) ?_ nothing_known nothing_met
          exact ⟨rest, chain', fun x member => inside (List.mem_cons_of_mem _ member),
            (Behind.setCollector _).covered (fun _ => id) (covered.pass state.owned aim)⟩
      | some x =>
          simp only [System.scan, aim]
          refine state.goto stage rfl running (Or.inl rfl) ?_ nothing_known nothing_met
          exact ⟨rest, chain', inside, (Behind.setCollector _).covered (fun _ => id) (covered.look aim)⟩

theorem Consistent.collectStep (state : Consistent s front back) {fails : Bool}
    (quiet : s.Quiet (.collectStep fails)) (run : s.collectStep fails = some s') :
    ∃ front' back', Consistent s' front' back' := by
  have marked := state.marks
  unfold System.Marks at marked
  unfold System.collectStep at run
  split at run
  all_goals rename_i at'
  all_goals rw [at'] at marked
  case h_1 => cases run
  case h_2 =>
    cases run
    refine ⟨front, back, state.goto (by rw [at']; rfl) rfl (by simp [at']) (Or.inl rfl) True.intro nothing_known ?_⟩
    exact fun o member => state.links.objects o (Option.mem_toList.mp member)
  case h_3 o =>
    cases run
    refine ⟨front, back, state.write (fun _ => ⟨rfl, rfl, rfl⟩) (by rw [at']; rfl) rfl (by simp [at']) (Or.inl rfl)
      True.intro rfl ?_⟩
    exact fun x member => state.links.next o x (Option.mem_toList.mp member)
  case h_4 =>
    cases run
    exact ⟨front, back, state.write (fun _ => ⟨rfl, rfl, rfl⟩) (by rw [at']; rfl) (by simp) (by simp [at'])
      (Or.inr ⟨_, rfl⟩) (fun different => absurd rfl different) rfl nothing_met⟩
  case h_5 o marks stage =>
    cases run
    exact state.collectRefs at'
  case h_6 o marks =>
    cases run
    refine ⟨front, back, state.goto (by rw [at']; rfl) rfl (by simp [at']) (Or.inl rfl) ?_ nothing_known nothing_met⟩
    by_cases root : o = objectStackRoot
    · subst root
      exact ⟨front, state.lists.attached, List.Subset.refl _,
        (Behind.setCollector _).covered (fun _ => id) (state.lists.covered at' quiet)⟩
    · exact ⟨[], state.lists.alone o root, List.nil_subset _, (Behind.setCollector _).covered (fun _ => id) (marked root)⟩
  case h_7 o marks cursor =>
    cases run
    exact ⟨front, back, state.scan at'⟩
  case h_8 o marks r x =>
    obtain ⟨ahead, chain, inside, covered⟩ := marked
    split at run
    case isTrue dead =>
      cases run
      refine ⟨front, back, state.goto (by rw [at']; rfl) rfl (by simp [at']) (Or.inl rfl) ?_ nothing_known nothing_met⟩
      refine ⟨ahead, chain, fun y member => inside (List.mem_cons_of_mem _ member),
        (Behind.setCollector _).covered (fun _ => id) (covered.skip state.owned (Or.inl ?_))⟩
      -- the reference of a pointer is active
      rintro p g found rfl
      rw [state.owned.records.active p g found] at dead
      cases dead
    case isFalse =>
      cases run
      refine ⟨front, back, state.goto (by rw [at']; rfl) rfl (by simp [at']) (Or.inl rfl) ?_ nothing_known nothing_met⟩
      exact ⟨ahead, chain, inside, (Behind.setCollector _).covered (fun _ => id) covered⟩
  case h_9 o marks r x =>
    obtain ⟨ahead, chain, inside, covered⟩ := marked
    split at run
    case isTrue =>
      cases run
      refine ⟨front, back, state.goto (by rw [at']; rfl) rfl (by simp [at']) (Or.inl rfl) ?_ nothing_known nothing_met⟩
      exact ⟨ahead, chain, inside, (Behind.setCollector _).covered (fun _ => id) covered⟩
    case isFalse marked' =>
      cases run
      refine ⟨front, back, state.goto (by rw [at']; rfl) rfl (by simp [at']) (Or.inl rfl) ?_ nothing_known nothing_met⟩
      exact ⟨ahead, chain, fun y member => inside (List.mem_cons_of_mem _ member),
        (Behind.setCollector _).covered (fun _ => id) (covered.skip state.owned (Or.inr marked'))⟩
  case h_10 o marks r x =>
    obtain ⟨ahead, chain, inside, covered⟩ := marked
    cases run
    refine ⟨front, back, state.write (fun _ => ⟨rfl, rfl, rfl⟩) (by rw [at']; rfl) rfl (by simp [at']) (Or.inl rfl) ?_
      rfl nothing_met⟩
    have step : Behind s ((s.setObj x fun obj => { obj with state := .marked, nextMarked := marks }).setCollector
        (.scan o (some x) (s.refs r).next)) := Behind.writeObj x fun _ => rfl
    have covered' := step.covered (fun y unmarked => by
      by_cases same : y = x
      · simp [System.setObj, System.setCollector, modifyAt, same] at unmarked
      · simpa [System.setObj, System.setCollector, modifyAt, same] using unmarked) covered
    refine ⟨ahead, chain, fun y member => inside (List.mem_cons_of_mem _ member),
      covered'.skip (step.owned state.owned) (Or.inr ?_)⟩
    simp [System.setObj, System.setCollector, modifyAt]
  case h_11 stage =>
    cases run
    exact ⟨front, back, state.sweep at'⟩
  case h_12 o rest stage =>
    cases run
    exact ⟨front, back, state.releaseRefs at'⟩
  case h_13 o rest =>
    cases run
    exact ⟨front, back, state.dctor at'⟩
  case h_14 o rest => exact state.destroyMembers at' run
  case h_15 => cases run

end Consistent

end PrototypeBundle.Tracing.Concurrent
