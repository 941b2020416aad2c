import PrototypeBundle.Tracing.Threads

set_option autoImplicit false

namespace PrototypeBundle.Tracing.Concurrent

open Memory

def Pc.writes : Pc → Option Nat
  | idle => none
  | newReference use => some use.pointer
  | pushReference _ _ use => some use.pointer
  | copy p _ => some p
  | activate p _ _ => some p
  | store p _ _ => some p
  | pushObject p _ _ => some p
  | activateMade p _ => some p

def Pc.constructs : Pc → Option Nat
  | newReference use => some use.pointer
  | pushReference _ _ use => some use.pointer
  | pushObject p _ _ => some p
  | activateMade p _ => some p
  | _ => none

def Pc.makes : Pc → Option Nat
  | newReference use => use.target
  | pushReference _ _ use => use.target
  | pushObject _ o _ => some o
  | activateMade _ o => some o
  | _ => none

def Pc.copies : Pc → Option (Nat × Nat)
  | newReference (.copy p v) => some (p, v)
  | pushReference _ _ (.copy p v) => some (p, v)
  | copy p v => some (p, v)
  | activate p v _ => some (p, v)
  | store p v _ => some (p, v)
  | _ => none

def Pc.loaded : Pc → Option (Nat × Nat × Option Nat)
  | activate p v o => some (p, v, some o)
  | store p v target => some (p, v, target)
  | _ => none

theorem Pc.writes_of_constructs {pc : Pc} {p : Nat} (constructs : pc.constructs = some p) : pc.writes = some p := by
  cases pc <;> simp_all [Pc.constructs, Pc.writes]

theorem Pc.writes_of_copies {pc : Pc} {p v : Nat} (copies : pc.copies = some (p, v)) : pc.writes = some p := by
  cases pc with
  | newReference use => cases use <;> simp_all [Pc.copies, Pc.writes, Use.pointer]
  | pushReference _ _ use => cases use <;> simp_all [Pc.copies, Pc.writes, Use.pointer]
  | _ => simp_all [Pc.copies, Pc.writes]

theorem Pc.copies_of_loaded {pc : Pc} {p v : Nat} {target : Option Nat} (loaded : pc.loaded = some (p, v, target)) :
    pc.copies = some (p, v) := by
  cases pc <;> simp_all [Pc.loaded, Pc.copies]

def System.Refers (s : System) (p o : Nat) : Prop :=
  ∃ g, s.pointers p = some g ∧ (s.refs g.ref).target = some o

def System.Inside (s : System) (p o : Nat) : Prop :=
  ∃ payload members, (s.objs o).payload = some payload ∧ s.payloads payload = some members ∧ p ∈ members

def System.Unwritten (s : System) (p : Nat) : Prop := ∀ t, (s.threads t).pc.writes ≠ some p

def System.Unheld (s : System) (p : Nat) : Prop := ∀ t, p ∉ (s.threads t).held

/-- A caller may use these pointers: they exist, are not written by others, and whoever uses a member
of a payload has a pointer to the object. -/
def System.Usable (s : System) (held : List Nat) : Prop :=
  ∀ p ∈ held, (s.pointers p).isSome ∧ s.Unwritten p ∧ ∀ o, s.Inside p o → ∃ h ∈ held, s.Refers h o

def System.Loose (s : System) (p : Nat) : Prop :=
  (s.pointers p).isSome ∧ s.Unwritten p ∧ s.Unheld p ∧ ∀ o, ¬ s.Inside p o

def System.New (s : System) (p : Nat) : Prop := s.pointers p = none ∧ s.Unwritten p

/-- What programs do: no pointer is written while another call uses it. -/
def System.Allowed (s : System) : Action → Prop
  | .call _ (.default p) => s.New p
  | .call _ (.copyNew p v held) => s.New p ∧ v ∈ held ∧ s.Usable held
  | .call _ (.copyAssign p v held) => p ∈ held ∧ v ∈ held ∧ s.Usable held ∧ s.Unheld p
  | .call _ (.destroy p) => s.Loose p
  | .call _ (.makeGc p members) => s.New p ∧ members.Nodup ∧ ∀ m ∈ members, s.Loose m
  | _ => True

/-- From the head of the root's list the reference of `v` is met before that of `p`. -/
def System.MeetsFirst (s : System) (v p : Nat) : Prop :=
  ∃ g h list, s.pointers v = some g ∧ s.pointers p = some h ∧
    Intrusive.Chain (fun r => (s.refs r).next) (s.objs objectStackRoot).refHead list ∧ [g.ref, h.ref].Sublist list

/-- When the scan of the root's references begins, no object that the collection has un-marked is
about to be published behind it. -/
def System.Quiet (s : System) : Action → Prop
  | .collectStep _ => ∀ marks, s.collector = .loadRefs objectStackRoot marks →
      ∀ t o, (s.objs o).state = .unreachable → (s.threads t).pc.makes ≠ some o ∧
        ∀ p v, (s.threads t).pc = .store p v (some o) → s.MeetsFirst v p
  | _ => True

structure Records (s : System) : Prop where
  below : ∀ p g, s.pointers p = some g → g.ref < s.fresh
  once : ∀ p q g h, s.pointers p = some g → s.pointers q = some h → g.ref = h.ref → p = q
  active : ∀ p g, s.pointers p = some g → (s.refs g.ref).state = .active
  created : ∀ t source r use, (s.threads t).pc = .pushReference source r use →
    source = objectStackRoot ∧ r < s.fresh ∧ (s.refs r).state = .active ∧ (s.refs r).target = use.target ∧
      ∀ p g, s.pointers p = some g → g.ref ≠ r
  createdOnce : ∀ t t' source source' r use use', (s.threads t).pc = .pushReference source r use →
    (s.threads t').pc = .pushReference source' r use' → t = t'
  stack : ∀ t, (s.threads t).stackHead = objectStackRoot ∨ ∃ p o, (s.threads t).pc = .pushObject p o objectStackRoot
  previous : ∀ t p o previous, (s.threads t).pc = .pushObject p o previous → previous = objectStackRoot

structure Names (s : System) : Prop where
  constructs : ∀ t p, (s.threads t).pc.constructs = some p → s.pointers p = none
  writes : ∀ t p, (s.threads t).pc.writes = some p → (s.threads t).pc.constructs = none → (s.pointers p).isSome
  writesOnce : ∀ t t' p, (s.threads t).pc.writes = some p → (s.threads t').pc.writes = some p → t = t'
  held : ∀ t p, p ∈ (s.threads t).held → (s.pointers p).isSome
  heldWritten : ∀ t t' p, (s.threads t).pc.writes = some p → p ∈ (s.threads t').held → t' = t
  copies : ∀ t p v, (s.threads t).pc.copies = some (p, v) → v ∈ (s.threads t).held ∧ p ≠ v
  rest : ∀ t, (s.threads t).pc = .idle → (s.threads t).held = []
  writesInside : ∀ t p o, (s.threads t).pc.writes = some p → s.Inside p o → p ∈ (s.threads t).held

structure Members (s : System) : Prop where
  exist : ∀ a members m, s.payloads a = some members → m ∈ members → (s.pointers m).isSome
  nodup : ∀ a members, s.payloads a = some members → members.Nodup
  once : ∀ a b members others m, s.payloads a = some members → s.payloads b = some others →
    m ∈ members → m ∈ others → a = b
  owned : ∀ a members, s.payloads a = some members → (s.objs (a + 1)).payload = some a
  payload : ∀ o a, (s.objs o).payload = some a → o = a + 1 ∧ o < s.fresh
  destroyed : ∀ a ∈ s.destroyed, (s.objs (a + 1)).payload = some a

structure Aims (s : System) : Prop where
  kept : ∀ t p o, p ∈ (s.threads t).held → s.Inside p o → ∃ h ∈ (s.threads t).held, s.Refers h o
  loaded : ∀ t p v target, (s.threads t).pc.loaded = some (p, v, target) →
    ∃ g, s.pointers v = some g ∧ (s.refs g.ref).target = target
  ptr : ∀ p g a, s.pointers p = some g → g.ptr = some a →
    (∃ t v, (s.threads t).pc.loaded = some (p, v, some (a + 1))) ∨
      (s.Refers p (a + 1) ∧ ∀ t v target, (s.threads t).pc.loaded ≠ some (p, v, target))

structure Owned (s : System) : Prop where
  records : Records s
  names : Names s
  members : Members s
  aims : Aims s

variable {s s' : System} {t : Nat}

section Records

theorem Records.advance (records : Records s) (others : ∀ t', t' ≠ t → s'.threads t' = s.threads t')
    (pointers : ∀ p g, s'.pointers p = some g → ∃ g', s.pointers p = some g' ∧ g'.ref = g.ref)
    (fresh : s.fresh ≤ s'.fresh)
    (pointed : ∀ p g, s'.pointers p = some g → (s.refs g.ref).state = .active → (s'.refs g.ref).state = .active)
    (created : ∀ t source r use, (s.threads t).pc = .pushReference source r use →
      (s'.refs r).state = (s.refs r).state ∧ (s'.refs r).target = (s.refs r).target)
    (here : ∀ source r use, (s'.threads t).pc = .pushReference source r use →
      (s.threads t).pc = .pushReference source r use)
    (stack : (s'.threads t).stackHead = objectStackRoot ∨
      ∃ p o, (s'.threads t).pc = .pushObject p o objectStackRoot)
    (previous : ∀ p o previous, (s'.threads t).pc = .pushObject p o previous → previous = objectStackRoot) :
    Records s' := by
  have before (t' source r : Nat) (use : Use) (at' : (s'.threads t').pc = .pushReference source r use) :
      (s.threads t').pc = .pushReference source r use := by
    by_cases same : t' = t
    · subst same
      exact here source r use at'
    · rwa [others t' same] at at'
  constructor
  case below =>
    intro p g found
    obtain ⟨g', found', same⟩ := pointers p g found
    exact same ▸ Nat.lt_of_lt_of_le (records.below p g' found') fresh
  case once =>
    intro p q g h foundP foundQ equal
    obtain ⟨g', foundP', sameP⟩ := pointers p g foundP
    obtain ⟨h', foundQ', sameQ⟩ := pointers q h foundQ
    exact records.once p q g' h' foundP' foundQ' (sameP.trans (equal.trans sameQ.symm))
  case active =>
    intro p g found
    obtain ⟨g', found', same⟩ := pointers p g found
    exact pointed p g found (same ▸ records.active p g' found')
  case created =>
    intro t' source r use at'
    obtain ⟨root, below, active, target, new⟩ := records.created t' source r use (before t' source r use at')
    obtain ⟨sameState, sameTarget⟩ := created t' source r use (before t' source r use at')
    refine ⟨root, Nat.lt_of_lt_of_le below fresh, sameState.trans active, sameTarget.trans target, ?_⟩
    intro p g found
    obtain ⟨g', found', same⟩ := pointers p g found
    exact same ▸ new p g' found'
  case createdOnce =>
    intro t₁ t₂ source source' r use use' first second
    exact records.createdOnce t₁ t₂ source source' r use use' (before t₁ source r use first)
      (before t₂ source' r use' second)
  case stack =>
    intro t'
    by_cases same : t' = t
    · exact same ▸ stack
    · rw [others t' same]
      exact records.stack t'
  case previous =>
    intro t' p o previous' at'
    by_cases same : t' = t
    · subst same
      exact previous p o previous' at'
    · rw [others t' same] at at'
      exact records.previous t' p o previous' at'

theorem Records.stack_root (records : Records s) (keeps : ∀ p o, (s.threads t).pc ≠ .pushObject p o objectStackRoot) :
    (s.threads t).stackHead = objectStackRoot := by
  rcases records.stack t with root | ⟨p, o, pushing⟩
  · exact root
  · exact absurd pushing (keeps p o)

theorem Records.newReference (records : Records s) {use : Use} (at' : (s.threads t).pc = .newReference use) :
    Records (s.newReference t use) := by
  have source := records.stack_root (t := t) (by simp [at'])
  have here := s.newReference_same t use
  have others := s.newReference_other t use
  have old := s.newReference_refs t use
  constructor
  case below => exact fun p g found => Nat.lt_succ_of_lt (records.below p g found)
  case once => exact records.once
  case active =>
    intro p g found
    rw [old g.ref (records.below p g found)]
    exact records.active p g found
  case created =>
    intro t' source' r use' at''
    by_cases same : t' = t
    · subst same
      rw [here] at at''
      cases at''
      refine ⟨source, Nat.lt_succ_self _, ?_, ?_, fun p g found => Nat.ne_of_lt (records.below p g found)⟩
      · simp [System.newReference, System.setThread]
      · simp [System.newReference, System.setThread]
    · rw [others t' same] at at''
      obtain ⟨root, below, active, target, new⟩ := records.created t' source' r use' at''
      rw [old r below]
      exact ⟨root, Nat.lt_succ_of_lt below, active, target, new⟩
  case createdOnce =>
    -- the new reference is the only one with its number
    have new (t' source' r : Nat) (use' : Use) (different : t' ≠ t)
        (at'' : ((s.newReference t use).threads t').pc = .pushReference source' r use') : r ≠ s.fresh := by
      rw [others t' different] at at''
      exact Nat.ne_of_lt (records.created t' source' r use' at'').2.1
    have number (source' r : Nat) (use' : Use)
        (at'' : ((s.newReference t use).threads t).pc = .pushReference source' r use') : r = s.fresh := by
      rw [here] at at''
      cases at''
      rfl
    intro t₁ t₂ source₁ source₂ r use₁ use₂ first second
    by_cases same₁ : t₁ = t
    · by_cases same₂ : t₂ = t
      · rw [same₁, same₂]
      · subst same₁
        exact absurd (number _ _ _ first) (new t₂ _ _ _ same₂ second)
    · by_cases same₂ : t₂ = t
      · subst same₂
        exact absurd (number _ _ _ second) (new t₁ _ _ _ same₁ first)
      · rw [others t₁ same₁] at first
        rw [others t₂ same₂] at second
        exact records.createdOnce t₁ t₂ _ _ r _ _ first second
  case stack =>
    intro t'
    by_cases same : t' = t
    · subst same
      rw [here]
      exact Or.inl source
    · rw [others t' same]
      exact records.stack t'
  case previous =>
    intro t' p o previous at''
    by_cases same : t' = t
    · subst same
      rw [here] at at''
      cases at''
    · rw [others t' same] at at''
      exact records.previous t' p o previous at''

theorem Records.referenced (records : Records s) {source r : Nat} {use : Use}
    (at' : (s.threads t).pc = .pushReference source r use)
    (others : ∀ t', t' ≠ t → s'.threads t' = s.threads t') {p : Nat} {ptr : Option Nat}
    (pointers : s'.pointers = Function.update s.pointers p (some { ref := r, ptr }))
    (fresh : s'.fresh = s.fresh) (refs : s'.refs = s.refs)
    (here : ∀ source r use, (s'.threads t).pc ≠ .pushReference source r use)
    (stack : (s'.threads t).stackHead = (s.threads t).stackHead)
    (previous : ∀ p o previous, (s'.threads t).pc ≠ .pushObject p o previous) : Records s' := by
  obtain ⟨root, below, active, -, new⟩ := records.created t source r use at'
  have cases' (q : Nat) (g : GcPtr) (found : s'.pointers q = some g) :
      q = p ∧ g.ref = r ∨ q ≠ p ∧ s.pointers q = some g := by
    rw [pointers] at found
    by_cases same : q = p
    · subst same
      rw [Function.update_self, Option.some.injEq] at found
      exact Or.inl ⟨rfl, found ▸ rfl⟩
    · rw [Function.update_of_ne same] at found
      exact Or.inr ⟨same, found⟩
  have elsewhere (t' source' r' : Nat) (use' : Use) (at'' : (s'.threads t').pc = .pushReference source' r' use') :
      t' ≠ t ∧ (s.threads t').pc = .pushReference source' r' use' := by
    by_cases same : t' = t
    · subst same
      exact absurd at'' (here _ _ _)
    · rw [others t' same] at at''
      exact ⟨same, at''⟩
  constructor
  case below =>
    intro q g found
    rw [fresh]
    rcases cases' q g found with ⟨-, same⟩ | ⟨-, found'⟩
    · exact same ▸ below
    · exact records.below q g found'
  case once =>
    intro q q' g g' found found' equal
    rcases cases' q g found with ⟨same, isNew⟩ | ⟨different, old⟩
    · rcases cases' q' g' found' with ⟨same', -⟩ | ⟨-, old'⟩
      · rw [same, same']
      · exact absurd (equal.symm.trans isNew) (new q' g' old')
    · rcases cases' q' g' found' with ⟨-, isNew'⟩ | ⟨-, old'⟩
      · exact absurd (equal.trans isNew') (new q g old)
      · exact records.once q q' g g' old old' equal
  case active =>
    intro q g found
    rw [refs]
    rcases cases' q g found with ⟨-, same⟩ | ⟨-, found'⟩
    · exact same ▸ active
    · exact records.active q g found'
  case created =>
    intro t' source' r' use' at''
    obtain ⟨different, before⟩ := elsewhere t' source' r' use' at''
    obtain ⟨root', below', active', target', new'⟩ := records.created t' source' r' use' before
    rw [refs, fresh]
    refine ⟨root', below', active', target', fun q g found => ?_⟩
    rcases cases' q g found with ⟨-, same⟩ | ⟨-, found'⟩
    · rw [same]
      rintro rfl
      exact different (records.createdOnce t' t source' source r use' use before at')
    · exact new' q g found'
  case createdOnce =>
    intro t₁ t₂ source₁ source₂ r' use₁ use₂ first second
    exact records.createdOnce t₁ t₂ source₁ source₂ r' use₁ use₂ (elsewhere _ _ _ _ first).2 (elsewhere _ _ _ _ second).2
  case stack =>
    intro t'
    by_cases same : t' = t
    · subst same
      exact Or.inl (stack.trans (records.stack_root (by simp [at'])))
    · rw [others t' same]
      exact records.stack t'
  case previous =>
    intro t' q o before at''
    by_cases same : t' = t
    · subst same
      exact absurd at'' (previous q o before)
    · rw [others t' same] at at''
      exact records.previous t' q o before at''

theorem Records.dereference (records : Records s) {p : Nat} (run : s.dereference p = some s') : Records s' := by
  obtain ⟨g, found, rfl⟩ : ∃ g, s.pointers p = some g ∧
      (s.setRef g.ref fun record => { record with state := .unreachable }).setPointer p none = s' := by
    simpa [System.dereference, Option.bind_eq_some_iff] using run
  have earlier (q : Nat) (h : GcPtr) (found' : Function.update s.pointers p none q = some h) :
      s.pointers q = some h ∧ h.ref ≠ g.ref := by
    have different : q ≠ p := by
      rintro rfl
      rw [Function.update_self] at found'
      cases found'
    rw [Function.update_of_ne different] at found'
    exact ⟨found', fun same => different (records.once q p h g found' found same)⟩
  have same (r : Nat) (different : r ≠ g.ref) :
      modifyAt s.refs g.ref (fun record => { record with state := .unreachable }) r = s.refs r :=
    modifyAt_other _ _ _ different
  refine records.advance (t := 0) (fun _ _ => rfl) ?_ (Nat.le_refl _) ?_ ?_ (fun _ _ _ => id) (records.stack 0)
    (records.previous 0)
  · exact fun q h found' => ⟨h, (earlier q h found').1, rfl⟩
  · intro q h found' active
    exact (congrArg Reference.state (same h.ref (earlier q h found').2)).trans active
  · intro t' source r use at'
    have different := ((records.created t' source r use at').2.2.2.2 p g found).symm
    exact ⟨congrArg Reference.state (same r different), congrArg Reference.target (same r different)⟩

end Records

section Names

theorem Names.advance (names : Names s) (others : ∀ t', t' ≠ t → s'.threads t' = s.threads t')
    (exist : ∀ p, (s'.pointers p).isSome ↔ (s.pointers p).isSome ∨
      (s.threads t).pc.constructs = some p ∧ (s'.threads t).pc.constructs = none)
    (inside : ∀ p o, s'.Inside p o → s.Inside p o)
    (writes : ∀ p, (s'.threads t).pc.writes = some p → (s.threads t).pc.writes = some p)
    (constructs : ∀ p, (s'.threads t).pc.constructs = some p → (s.threads t).pc.constructs = some p)
    (held : (s'.threads t).held = (s.threads t).held ∨ (s'.threads t).pc = .idle ∧ (s'.threads t).held = [])
    (copies : ∀ p v, (s'.threads t).pc.copies = some (p, v) → (s.threads t).pc.copies = some (p, v))
    (rest : (s'.threads t).pc = .idle → (s'.threads t).held = []) : Names s' := by
  have fewer (t' q : Nat) (member : q ∈ (s'.threads t').held) : q ∈ (s.threads t').held := by
    by_cases same : t' = t
    · subst same
      rcases held with equal | ⟨-, empty⟩
      · exact equal ▸ member
      · rw [empty] at member
        cases member
    · rwa [others t' same] at member
  have before (t' q : Nat) (writing : (s'.threads t').pc.writes = some q) : (s.threads t').pc.writes = some q := by
    by_cases same : t' = t
    · subst same
      exact writes q writing
    · rwa [others t' same] at writing
  have busy (heldIs : (s'.threads t).held = (s.threads t).held ∨ (s'.threads t).pc = .idle ∧ (s'.threads t).held = [])
      {q : Nat} (writing : (s'.threads t).pc.writes = some q) : (s'.threads t).held = (s.threads t).held := by
    rcases heldIs with equal | ⟨idle, -⟩
    · exact equal
    · rw [idle] at writing
      cases writing
  constructor
  case constructs =>
    intro t' p at'
    have absent : s.pointers p = none := by
      by_cases same : t' = t
      · subst same
        exact names.constructs t' p (constructs p at')
      · rw [others t' same] at at'
        exact names.constructs t' p at'
    rw [← Option.not_isSome_iff_eq_none, exist p, absent]
    rintro (known | ⟨new, done⟩)
    · cases known
    · -- the pointer of `t` is not that of another thread
      have same : t' = t := names.writesOnce t' t p (before t' p (Pc.writes_of_constructs at')) (Pc.writes_of_constructs new)
      subst same
      rw [done] at at'
      cases at'
  case writes =>
    intro t' p at' none'
    rw [exist p]
    by_cases same : t' = t
    · subst same
      have at'' := writes p at'
      cases known : (s.threads t').pc.constructs with
      | none => exact Or.inl (names.writes t' p at'' known)
      | some q =>
          have equal : q = p := Option.some.inj ((Pc.writes_of_constructs known).symm.trans at'')
          exact Or.inr ⟨congrArg some equal, none'⟩
    · rw [others t' same] at at' none'
      exact Or.inl (names.writes t' p at' none')
  case writesOnce => exact fun t₁ t₂ p first second => names.writesOnce t₁ t₂ p (before t₁ p first) (before t₂ p second)
  case held => exact fun t' p member => (exist p).mpr (Or.inl (names.held t' p (fewer t' p member)))
  case heldWritten => exact fun t₁ t₂ p at' member => names.heldWritten t₁ t₂ p (before t₁ p at') (fewer t₂ p member)
  case copies =>
    intro t' p v at'
    by_cases same : t' = t
    · subst same
      rw [busy held (Pc.writes_of_copies at')]
      exact names.copies t' p v (copies p v at')
    · rw [others t' same] at at' ⊢
      exact names.copies t' p v at'
  case rest =>
    intro t' idle
    by_cases same : t' = t
    · subst same
      exact rest idle
    · rw [others t' same] at idle ⊢
      exact names.rest t' idle
  case writesInside =>
    intro t' p o at' member
    by_cases same : t' = t
    · subst same
      rw [busy held at']
      exact names.writesInside t' p o (writes p at') (inside p o member)
    · rw [others t' same] at at' ⊢
      exact names.writesInside t' p o at' (inside p o member)

theorem Names.call (names : Names s) (others : ∀ t', t' ≠ t → s'.threads t' = s.threads t')
    (idle : (s.threads t).pc = .idle) (pointers : s'.pointers = s.pointers) {p : Nat}
    (inside : ∀ q o, s'.Inside q o → s.Inside q o ∨ s.Unwritten q ∧ q ≠ p)
    (writes : (s'.threads t).pc.writes = some p) (unwritten : s.Unwritten p) (unheld : s.Unheld p)
    (constructs : (s'.threads t).pc.constructs = some p ∧ s.pointers p = none ∨
      (s'.threads t).pc.constructs = none ∧ p ∈ (s'.threads t).held)
    (usable : ∀ q ∈ (s'.threads t).held, (s.pointers q).isSome ∧ s.Unwritten q)
    (copies : ∀ q v, (s'.threads t).pc.copies = some (q, v) → v ∈ (s'.threads t).held ∧ q ≠ v)
    (known : ∀ q o, s.Inside q o → (s.pointers q).isSome) : Names s' := by
  have own (t' q : Nat) (at' : (s'.threads t').pc.writes = some q) :
      t' = t ∧ q = p ∨ t' ≠ t ∧ (s.threads t').pc.writes = some q := by
    by_cases same : t' = t
    · subst same
      exact Or.inl ⟨rfl, Option.some.inj (at'.symm.trans writes)⟩
    · rw [others t' same] at at'
      exact Or.inr ⟨same, at'⟩
  constructor
  case constructs =>
    intro t' q at'
    rw [pointers]
    by_cases same : t' = t
    · subst same
      rcases constructs with ⟨new, absent⟩ | ⟨none', -⟩
      · rwa [Option.some.inj (at'.symm.trans new)]
      · rw [none'] at at'
        cases at'
    · rw [others t' same] at at'
      exact names.constructs t' q at'
  case writes =>
    intro t' q at' none'
    rw [pointers]
    rcases own t' q at' with ⟨rfl, rfl⟩ | ⟨different, before⟩
    · rcases constructs with ⟨new, -⟩ | ⟨-, member⟩
      · rw [new] at none'
        cases none'
      · exact (usable q member).1
    · rw [others t' different] at none'
      exact names.writes t' q before none'
  case writesOnce =>
    intro t₁ t₂ q first second
    rcases own t₁ q first with ⟨same₁, isP₁⟩ | ⟨-, before₁⟩
    · rcases own t₂ q second with ⟨same₂, -⟩ | ⟨-, before₂⟩
      · rw [same₁, same₂]
      · exact absurd (isP₁ ▸ before₂) (unwritten t₂)
    · rcases own t₂ q second with ⟨-, isP₂⟩ | ⟨-, before₂⟩
      · exact absurd (isP₂ ▸ before₁) (unwritten t₁)
      · exact names.writesOnce t₁ t₂ q before₁ before₂
  case held =>
    intro t' q member
    rw [pointers]
    by_cases same : t' = t
    · subst same
      exact (usable q member).1
    · rw [others t' same] at member
      exact names.held t' q member
  case heldWritten =>
    intro t₁ t₂ q at' member
    rcases own t₁ q at' with ⟨rfl, rfl⟩ | ⟨different, before⟩
    · by_contra apart
      rw [others t₂ apart] at member
      exact unheld t₂ member
    · by_cases same : t₂ = t
      · subst same
        exact absurd before ((usable q member).2 t₁)
      · rw [others t₂ same] at member
        exact names.heldWritten t₁ t₂ q before member
  case copies =>
    intro t' q v at'
    by_cases same : t' = t
    · subst same
      exact copies q v at'
    · rw [others t' same] at at' ⊢
      exact names.copies t' q v at'
  case rest =>
    intro t' idle'
    by_cases same : t' = t
    · subst same
      rw [idle'] at writes
      cases writes
    · rw [others t' same] at idle' ⊢
      exact names.rest t' idle'
  case writesInside =>
    intro t' q o at' member
    rcases own t' q at' with ⟨rfl, rfl⟩ | ⟨different, before⟩
    · rcases constructs with ⟨-, absent⟩ | ⟨-, member'⟩
      · rcases inside q o member with old | ⟨-, different⟩
        · have exists' := known q o old
          rw [absent] at exists'
          cases exists'
        · exact absurd rfl different
      · exact member'
    · rw [others t' different]
      rcases inside q o member with old | ⟨unwritten', -⟩
      · exact names.writesInside t' q o before old
      · exact absurd before (unwritten' t')

theorem Names.drop (names : Names s) {p : Nat} (threads : s'.threads = s.threads)
    (pointers : s'.pointers = Function.update s.pointers p none) (inside : ∀ q o, s'.Inside q o → s.Inside q o)
    (unwritten : s.Unwritten p) (unheld : s.Unheld p) : Names s' := by
  have same (q : Nat) (different : q ≠ p) : s'.pointers q = s.pointers q := by
    rw [pointers, Function.update_of_ne different]
  constructor
  case constructs =>
    intro t q at'
    rw [threads] at at'
    have different : q ≠ p := fun equal => unwritten t (equal ▸ Pc.writes_of_constructs at')
    rw [same q different]
    exact names.constructs t q at'
  case writes =>
    intro t q at' none'
    rw [threads] at at' none'
    have different : q ≠ p := fun equal => unwritten t (equal ▸ at')
    rw [same q different]
    exact names.writes t q at' none'
  case held =>
    intro t q member
    rw [threads] at member
    have different : q ≠ p := fun equal => unheld t (equal ▸ member)
    rw [same q different]
    exact names.held t q member
  case writesOnce => rw [threads]; exact names.writesOnce
  case heldWritten => rw [threads]; exact names.heldWritten
  case copies => rw [threads]; exact names.copies
  case rest => rw [threads]; exact names.rest
  case writesInside =>
    rw [threads]
    exact fun t q o at' member => names.writesInside t q o at' (inside q o member)

end Names

section Members

theorem Members.inside_isSome (members : Members s) {p o : Nat} (inside : s.Inside p o) : (s.pointers p).isSome := by
  obtain ⟨a, list, -, known, member⟩ := inside
  exact members.exist a list p known member

theorem Members.advance (members : Members s) (exist : ∀ p, (s.pointers p).isSome → (s'.pointers p).isSome)
    (fewer : ∀ a list, s'.payloads a = some list → s.payloads a = some list)
    (payload : ∀ o, (s'.objs o).payload = (s.objs o).payload) (fresh : s.fresh ≤ s'.fresh)
    (destroyed : ∀ a ∈ s'.destroyed, (s.objs (a + 1)).payload = some a) : Members s' := by
  constructor
  case exist => exact fun a list m known member => exist m (members.exist a list m (fewer a list known) member)
  case nodup => exact fun a list known => members.nodup a list (fewer a list known)
  case once => exact fun a b list others m known known' => members.once a b list others m (fewer a list known) (fewer b others known')
  case owned => exact fun a list known => (payload _).trans (members.owned a list (fewer a list known))
  case payload =>
    intro o a known
    obtain ⟨number, below⟩ := members.payload o a ((payload o).symm.trans known)
    exact ⟨number, Nat.lt_of_lt_of_le below fresh⟩
  case destroyed => exact fun a member => (payload _).trans (destroyed a member)

end Members

section Aims

theorem Aims.advance (aims : Aims s) (names : Names s) (others : ∀ t', t' ≠ t → s'.threads t' = s.threads t')
    (inside : ∀ p o, s'.Inside p o → s.Inside p o ∨ s.Unheld p)
    (pointers : ∀ p, (s.threads t).pc.writes ≠ some p → s'.pointers p = s.pointers p)
    (target : ∀ p g, s.pointers p = some g → (s.threads t).pc.writes ≠ some p →
      (s'.refs g.ref).target = (s.refs g.ref).target)
    (kept : ∀ p o, p ∈ (s'.threads t).held → s'.Inside p o → ∃ h ∈ (s'.threads t).held, s'.Refers h o)
    (loaded : ∀ p v target, (s'.threads t).pc.loaded = some (p, v, target) → (s.threads t).pc.writes = some p ∧
      ∃ g, s'.pointers v = some g ∧ (s'.refs g.ref).target = target)
    (ptr : ∀ p g a, (s.threads t).pc.writes = some p → s'.pointers p = some g → g.ptr = some a →
      (∃ v, (s'.threads t).pc.loaded = some (p, v, some (a + 1))) ∨
        s'.Refers p (a + 1) ∧ ∀ v target, (s'.threads t).pc.loaded ≠ some (p, v, target)) : Aims s' := by
  have refers (p o : Nat) (unwritten : (s.threads t).pc.writes ≠ some p) (known : s.Refers p o) : s'.Refers p o := by
    obtain ⟨g, found, aim⟩ := known
    exact ⟨g, (pointers p unwritten).trans found, (target p g found unwritten).trans aim⟩
  constructor
  case kept =>
    intro t' p o member member'
    by_cases same : t' = t
    · subst same
      exact kept p o member member'
    · rw [others t' same] at member ⊢
      rcases inside p o member' with old | unheld
      · obtain ⟨h, here, known⟩ := aims.kept t' p o member old
        exact ⟨h, here, refers h o (fun writing => same (names.heldWritten t t' h writing here)) known⟩
      · exact absurd member (unheld t')
  case loaded =>
    intro t' p v x at'
    by_cases same : t' = t
    · subst same
      exact (loaded p v x at').2
    · rw [others t' same] at at'
      obtain ⟨g, found, aim⟩ := aims.loaded t' p v x at'
      have member := (names.copies t' p v (Pc.copies_of_loaded at')).1
      have unwritten : (s.threads t).pc.writes ≠ some v := fun writing => same (names.heldWritten t t' v writing member)
      exact ⟨g, (pointers v unwritten).trans found, (target v g found unwritten).trans aim⟩
  case ptr =>
    intro p g a found holds
    by_cases writing : (s.threads t).pc.writes = some p
    · have apart (t' v : Nat) (x : Option Nat) (different : t' ≠ t) : (s'.threads t').pc.loaded ≠ some (p, v, x) := by
        intro at'
        rw [others t' different] at at'
        exact different (names.writesOnce t' t p (Pc.writes_of_copies (Pc.copies_of_loaded at')) writing)
      rcases ptr p g a writing found holds with ⟨v, at'⟩ | ⟨aim, free⟩
      · exact Or.inl ⟨t, v, at'⟩
      · refine Or.inr ⟨aim, fun t' v x => ?_⟩
        by_cases same : t' = t
        · exact same ▸ free v x
        · exact apart t' v x same
    · rw [pointers p writing] at found
      rcases aims.ptr p g a found holds with ⟨t', v, at'⟩ | ⟨aim, free⟩
      · have different : t' ≠ t := by
          rintro rfl
          exact writing (Pc.writes_of_copies (Pc.copies_of_loaded at'))
        exact Or.inl ⟨t', v, by rw [others t' different]; exact at'⟩
      · refine Or.inr ⟨refers p _ writing aim, fun t' v x => ?_⟩
        by_cases same : t' = t
        · subst same
          exact fun at' => writing (loaded p v x at').1
        · rw [others t' same]
          exact free t' v x

end Aims

section Steps

theorem System.inside_of_fewer (fewer : ∀ a list, s'.payloads a = some list → s.payloads a = some list)
    (payload : ∀ o, (s'.objs o).payload = (s.objs o).payload) (p o : Nat) (inside : s'.Inside p o) : s.Inside p o := by
  obtain ⟨a, list, owner, known, member⟩ := inside
  exact ⟨a, list, (payload o).symm.trans owner, fewer a list known, member⟩

theorem Owned.pass (owned : Owned s) (others : ∀ t', t' ≠ t → s'.threads t' = s.threads t')
    (pointers : s'.pointers = s.pointers) (fewer : ∀ a list, s'.payloads a = some list → s.payloads a = some list)
    (payload : ∀ o, (s'.objs o).payload = (s.objs o).payload) (fresh : s'.fresh = s.fresh)
    (destroyed : ∀ a ∈ s'.destroyed, (s.objs (a + 1)).payload = some a)
    (target : ∀ r, (s'.refs r).target = (s.refs r).target)
    (state : ∀ r, (s'.refs r).state = (s.refs r).state)
    (here : ∀ source r use, (s'.threads t).pc = .pushReference source r use →
      (s.threads t).pc = .pushReference source r use)
    (stack : (s'.threads t).stackHead = objectStackRoot ∨
      ∃ p o, (s'.threads t).pc = .pushObject p o objectStackRoot)
    (previous : ∀ p o previous, (s'.threads t).pc = .pushObject p o previous → previous = objectStackRoot)
    (writes : (s'.threads t).pc.writes = (s.threads t).pc.writes)
    (constructs : (s'.threads t).pc.constructs = (s.threads t).pc.constructs)
    (held : (s'.threads t).held = (s.threads t).held)
    (copies : (s'.threads t).pc.copies = (s.threads t).pc.copies)
    (loaded : (s'.threads t).pc.loaded = (s.threads t).pc.loaded)
    (rest : (s'.threads t).pc = .idle → (s.threads t).pc = .idle) : Owned s' := by
  have inside := System.inside_of_fewer fewer payload
  have refers (p o : Nat) : s'.Refers p o ↔ s.Refers p o := by simp only [System.Refers, pointers, target]
  refine ⟨?_, ?_, ?_, ?_⟩
  · refine owned.records.advance others ?_ (Nat.le_of_eq fresh.symm) ?_ (fun _ _ r _ _ => ⟨state r, target r⟩) here stack previous
    · exact fun p g found => ⟨g, by rwa [← pointers], rfl⟩
    · exact fun p g _ active => (state g.ref).trans active
  · refine owned.names.advance others ?_ inside (fun p => by rw [writes]; exact id)
      (fun p => by rw [constructs]; exact id) (Or.inl held) (fun p v => by rw [copies]; exact id) ?_
    · intro p
      rw [pointers, constructs]
      constructor
      · exact Or.inl
      · rintro (known | ⟨new, none'⟩)
        · exact known
        · rw [none'] at new
          cases new
    · exact fun idle => held.trans (owned.names.rest t (rest idle))
  · exact owned.members.advance (fun p known => by rwa [pointers]) fewer payload (Nat.le_of_eq fresh.symm) destroyed
  · refine owned.aims.advance owned.names others (fun p o => Or.inl ∘ inside p o)
      (fun p _ => by rw [pointers]) (fun p g _ _ => target g.ref) ?_ ?_ ?_
    · intro p o member member'
      rw [held] at member ⊢
      obtain ⟨h, here', known⟩ := owned.aims.kept t p o member (inside p o member')
      exact ⟨h, here', (refers h o).mpr known⟩
    · intro p v x at'
      rw [loaded] at at'
      obtain ⟨g, found, aim⟩ := owned.aims.loaded t p v x at'
      exact ⟨Pc.writes_of_copies (Pc.copies_of_loaded at'), g, by rwa [pointers], (target g.ref).trans aim⟩
    · intro p g a writing found holds
      rw [pointers] at found
      rw [loaded, refers]
      rcases owned.aims.ptr p g a found holds with ⟨t', v, at'⟩ | ⟨aim, free⟩
      · have same : t' = t :=
          owned.names.writesOnce t' t p (Pc.writes_of_copies (Pc.copies_of_loaded at')) writing
        exact Or.inl ⟨v, same ▸ at'⟩
      · exact Or.inr ⟨aim, free t⟩

theorem Owned.frame (owned : Owned s) (threads : s'.threads = s.threads) (pointers : s'.pointers = s.pointers)
    (fewer : ∀ a list, s'.payloads a = some list → s.payloads a = some list)
    (payload : ∀ o, (s'.objs o).payload = (s.objs o).payload) (fresh : s'.fresh = s.fresh)
    (destroyed : ∀ a ∈ s'.destroyed, (s.objs (a + 1)).payload = some a)
    (target : ∀ r, (s'.refs r).target = (s.refs r).target) (state : ∀ r, (s'.refs r).state = (s.refs r).state) :
    Owned s' := by
  refine owned.pass (t := 0) (fun t' _ => by rw [threads]) pointers fewer payload fresh destroyed target state
    ?_ ?_ ?_ ?_ ?_ ?_ ?_ ?_ ?_
  all_goals rw [threads]
  · exact fun _ _ _ => id
  · exact owned.records.stack 0
  · exact owned.records.previous 0
  · exact id

theorem Owned.newReference (owned : Owned s) {use : Use} (at' : (s.threads t).pc = .newReference use) :
    Owned (s.newReference t use) := by
  have here := s.newReference_same t use
  have others := s.newReference_other t use
  have old (p : Nat) (g : GcPtr) (found : s.pointers p = some g) : (s.newReference t use).refs g.ref = s.refs g.ref :=
    s.newReference_refs t use g.ref (owned.records.below p g found)
  have absent (p : Nat) (writing : (s.threads t).pc.writes = some p) : s.pointers p = none :=
    owned.names.constructs t p (by rw [at'] at writing ⊢; exact writing)
  refine ⟨owned.records.newReference at', ?_, ?_, ?_⟩
  · refine owned.names.advance others ?_ (fun _ _ => id) ?_ ?_ ?_ ?_ ?_
    · intro p
      rw [here]
      simp [Pc.constructs, System.newReference, System.setThread]
    · simp [here, at', Pc.writes]
    · simp [here, at', Pc.constructs]
    · exact Or.inl (by rw [here])
    · rw [here, at']
      cases use <;> simp [Pc.copies]
    · simp [here]
  · exact owned.members.advance (fun _ => id) (fun _ _ => id) (fun _ => rfl) (Nat.le_succ _) owned.members.destroyed
  · refine owned.aims.advance owned.names others (fun _ _ => Or.inl) (fun _ _ => rfl)
      (fun p g found _ => congrArg Reference.target (old p g found)) ?_ ?_ ?_
    · intro p o member inside
      rw [here] at member ⊢
      obtain ⟨h, held, g, found, aim⟩ := owned.aims.kept t p o member inside
      exact ⟨h, held, g, found, (congrArg Reference.target (old h g found)).trans aim⟩
    · intro p v x loaded
      rw [here] at loaded
      cases loaded
    · intro p g a writing found
      rw [System.newReference] at found
      exact absurd (found.symm.trans (absent p writing)) (by simp)

theorem System.referenced_threads (r : Nat) (use : Use) :
    (∀ t', t' ≠ t → (s.referenced t r use).threads t' = s.threads t') ∧
      (∃ ptr, (s.referenced t r use).pointers = Function.update s.pointers use.pointer (some { ref := r, ptr }) ∧
        ∀ a, ptr = some a → ∃ o, use.target = some o ∧ (s.objs o).payload = some a) ∧
      ((s.referenced t r use).threads t).stackHead = (s.threads t).stackHead ∧
      (((s.referenced t r use).threads t).pc = .idle ∧ ((s.referenced t r use).threads t).held = [] ∨
        ∃ p v, use = .copy p v ∧ ((s.referenced t r use).threads t).pc = .copy p v ∧
          ((s.referenced t r use).threads t).held = (s.threads t).held) := by
  cases use with
  | default p =>
      have here := System.setThread_same (s.setPointer p (some { ref := r, ptr := none })) t
        fun thread => { thread with pc := .idle, held := [] }
      refine ⟨fun t' different => System.setThread_other _ _ _ different, ⟨none, rfl, by simp⟩, ?_, Or.inl ?_⟩
      · exact (congrArg Thread.stackHead here :)
      · exact ⟨congrArg Thread.pc here, (congrArg Thread.held here :)⟩
  | copy p v =>
      have here := System.setThread_same (s.setPointer p (some { ref := r, ptr := none })) t
        fun thread => { thread with pc := .copy p v }
      refine ⟨fun t' different => System.setThread_other _ _ _ different, ⟨none, rfl, by simp⟩, ?_, Or.inr ?_⟩
      · exact (congrArg Thread.stackHead here :)
      · exact ⟨p, v, rfl, congrArg Thread.pc here, (congrArg Thread.held here :)⟩
  | make p o =>
      have here := System.setThread_same (s.setPointer p (some { ref := r, ptr := (s.objs o).payload })) t
        fun thread => { thread with pc := .idle, held := [] }
      refine ⟨fun t' different => System.setThread_other _ _ _ different, ⟨_, rfl, ?_⟩, ?_, Or.inl ?_⟩
      · exact fun a known => ⟨o, rfl, known⟩
      · exact (congrArg Thread.stackHead here :)
      · exact ⟨congrArg Thread.pc here, (congrArg Thread.held here :)⟩

theorem System.referenced_frame (r : Nat) (use : Use) :
    (s.referenced t r use).refs = s.refs ∧ (s.referenced t r use).objs = s.objs ∧
      (s.referenced t r use).payloads = s.payloads ∧ (s.referenced t r use).fresh = s.fresh ∧
      (s.referenced t r use).destroyed = s.destroyed ∧ (s.referenced t r use).collector = s.collector := by
  cases use <;> exact ⟨rfl, rfl, rfl, rfl, rfl, rfl⟩

theorem Owned.referenced (owned : Owned s) {source r : Nat} {use : Use}
    (at' : (s.threads t).pc = .pushReference source r use) : Owned (s.referenced t r use) := by
  obtain ⟨others, ⟨ptr, pointers, holds⟩, stack, here⟩ := System.referenced_threads (s := s) (t := t) r use
  obtain ⟨refs, objs, payloads, fresh, destroyed, -⟩ := System.referenced_frame (s := s) (t := t) r use
  obtain ⟨root, below, active, target, new⟩ := owned.records.created t source r use at'
  have absent : s.pointers use.pointer = none := owned.names.constructs t _ (by rw [at']; rfl)
  have fewer (a : Nat) (list : List Nat) (known : (s.referenced t r use).payloads a = some list) :
      s.payloads a = some list := by rwa [← payloads]
  have inside := System.inside_of_fewer fewer fun o => by rw [objs]
  have writes : (s.threads t).pc.writes = some use.pointer := by rw [at']; rfl
  have constructs : (s.threads t).pc.constructs = some use.pointer := by rw [at']; rfl
  have done : ((s.referenced t r use).threads t).pc.constructs = none := by
    rcases here with ⟨idle, -⟩ | ⟨p, v, -, copying, -⟩
    · rw [idle]; rfl
    · rw [copying]; rfl
  have nothing : ((s.referenced t r use).threads t).pc.loaded = none := by
    rcases here with ⟨idle, -⟩ | ⟨p, v, -, copying, -⟩
    · rw [idle]; rfl
    · rw [copying]; rfl
  have others' (p : Nat) (different : p ≠ use.pointer) : (s.referenced t r use).pointers p = s.pointers p := by
    rw [pointers, Function.update_of_ne different]
  refine ⟨?_, ?_, ?_, ?_⟩
  · refine owned.records.referenced at' others pointers fresh refs ?_ stack ?_
    · rcases here with ⟨idle, -⟩ | ⟨p, v, -, copying, -⟩
      · simp [idle]
      · simp [copying]
    · rcases here with ⟨idle, -⟩ | ⟨p, v, -, copying, -⟩
      · simp [idle]
      · simp [copying]
  · refine owned.names.advance others ?_ inside ?_ ?_ ?_ ?_ ?_
    · intro p
      by_cases same : p = use.pointer
      · subst same
        simp [pointers, constructs, done]
      · rw [others' p same, constructs, Option.some.injEq]
        simp [Ne.symm same]
    · intro p writing
      rw [writes]
      rcases here with ⟨idle, -⟩ | ⟨q, v, rfl, copying, -⟩
      · rw [idle] at writing
        cases writing
      · rw [copying] at writing
        exact writing
    · simp [done]
    · rcases here with ⟨idle, empty⟩ | ⟨q, v, -, -, held⟩
      · exact Or.inr ⟨idle, empty⟩
      · exact Or.inl held
    · intro p v copies
      rcases here with ⟨idle, -⟩ | ⟨q, w, rfl, copying, -⟩
      · rw [idle] at copies
        cases copies
      · rw [copying] at copies
        rw [at']
        exact copies
    · intro idle
      rcases here with ⟨-, empty⟩ | ⟨q, w, -, copying, -⟩
      · exact empty
      · rw [copying] at idle
        cases idle
  · refine owned.members.advance ?_ fewer (fun o => by rw [objs]) (Nat.le_of_eq fresh.symm) (by rw [destroyed]; exact owned.members.destroyed)
    intro p known
    have different : p ≠ use.pointer := by
      rintro rfl
      rw [absent] at known
      cases known
    rwa [others' p different]
  · refine owned.aims.advance owned.names others (fun p o => Or.inl ∘ inside p o) ?_ ?_ ?_ ?_ ?_
    · intro p notWriting
      exact others' p fun same => notWriting (writes.trans (congrArg some same.symm))
    · intro p g _ _
      rw [refs]
    · intro p o member member'
      rcases here with ⟨-, empty⟩ | ⟨q, v, -, -, held⟩
      · rw [empty] at member
        cases member
      · rw [held] at member ⊢
        obtain ⟨h, held', g, found, aim⟩ := owned.aims.kept t p o member (inside p o member')
        have different : h ≠ use.pointer := by
          rintro rfl
          rw [absent] at found
          cases found
        exact ⟨h, held', g, by rwa [others' h different], by rwa [refs]⟩
    · simp [nothing]
    · intro p g a writing found isSome
      have same : p = use.pointer := Option.some.inj (writing.symm.trans writes)
      subst same
      rw [pointers, Function.update_self, Option.some.injEq] at found
      subst found
      obtain ⟨o, made, payload⟩ := holds a isSome
      refine Or.inr ⟨⟨_, by rw [pointers, Function.update_self], ?_⟩, by simp [nothing]⟩
      rw [refs, ← (owned.members.payload o a payload).1]
      exact target.trans made

theorem Owned.pushReference (owned : Owned s) {source r : Nat} {use : Use} {fails : Bool}
    (at' : (s.threads t).pc = .pushReference source r use) : Owned (s.pushReference t source r use fails) := by
  unfold System.pushReference
  simp only
  split
  · have pushing : ((s.setObj source fun obj => { obj with refHead := some r }).threads t).pc =
        .pushReference source r use := at'
    refine Owned.referenced ?_ pushing
    refine owned.frame rfl rfl (fun _ _ => id) ?_ rfl owned.members.destroyed (fun _ => rfl) fun _ => rfl
    intro o
    by_cases same : o = source <;> simp [System.setObj, modifyAt, same]
  · refine owned.frame rfl rfl (fun _ _ => id) (fun _ => rfl) rfl owned.members.destroyed ?_ ?_
    all_goals intro r'; by_cases same : r' = r <;> simp [System.setRef, modifyAt, same]

theorem Owned.copy (owned : Owned s) {p v : Nat} (at' : (s.threads t).pc = .copy p v)
    (run : s.copy t p v = some s') : Owned s' := by
  obtain ⟨g, found, other, found', run⟩ : ∃ g, s.pointers p = some g ∧ ∃ other, s.pointers v = some other ∧
      (s.setPointer p (some { g with ptr := other.ptr })).goto t
        ((s.refs other.ref).target.elim (.store p v none) (.activate p v)) = s' := by
    simp only [System.copy, Option.bind_eq_bind, Option.bind_eq_some_iff] at run
    obtain ⟨g, found, other, found', run⟩ := run
    refine ⟨g, found, other, found', ?_⟩
    cases target : (s.refs other.ref).target <;> simpa [target, System.setPointer] using run
  obtain ⟨held, different⟩ := owned.names.copies t p v (by rw [at']; rfl)
  have others (t' : Nat) (apart : t' ≠ t) : s'.threads t' = s.threads t' := by
    rw [← run]
    exact System.setThread_other _ _ _ apart
  have here : s'.threads t = { (s.threads t) with
      pc := (s.refs other.ref).target.elim (.store p v none) (.activate p v) } := by
    rw [← run]
    exact System.setThread_same _ _ _
  have pointers : s'.pointers = Function.update s.pointers p (some { g with ptr := other.ptr }) := by rw [← run]; rfl
  have refs : s'.refs = s.refs := by rw [← run]; rfl
  have fewer (a : Nat) (list : List Nat) (known : s'.payloads a = some list) : s.payloads a = some list := by
    rw [← run] at known
    exact known
  have inside := System.inside_of_fewer fewer fun _ => by rw [← run]; rfl
  have fresh : s'.fresh = s.fresh := by rw [← run]; rfl
  have others' (q : Nat) (apart : q ≠ p) : s'.pointers q = s.pointers q := by rw [pointers, Function.update_of_ne apart]
  have record (q : Nat) (h : GcPtr) (known : s'.pointers q = some h) : ∃ h', s.pointers q = some h' ∧ h'.ref = h.ref := by
    by_cases same : q = p
    · subst same
      rw [pointers, Function.update_self, Option.some.injEq] at known
      exact ⟨g, found, by rw [← known]⟩
    · exact ⟨h, by rwa [← others' q same], rfl⟩
  have loaded : (s'.threads t).pc.loaded = some (p, v, (s.refs other.ref).target) := by
    rw [here]
    cases (s.refs other.ref).target <;> rfl
  have refers (q o : Nat) (known : s.Refers q o) : s'.Refers q o := by
    obtain ⟨h, isQ, aim⟩ := known
    by_cases same : q = p
    · subst same
      obtain rfl := Option.some.inj (found.symm.trans isQ)
      exact ⟨_, by rw [pointers, Function.update_self], by rw [refs]; exact aim⟩
    · exact ⟨h, by rwa [others' q same], by rwa [refs]⟩
  refine ⟨?_, ?_, ?_, ?_⟩
  · refine owned.records.advance others record (Nat.le_of_eq fresh.symm) ?_ ?_ ?_ ?_ ?_
    · exact fun q h _ active => by rwa [refs]
    · exact fun _ _ _ _ _ => by rw [refs]; exact ⟨rfl, rfl⟩
    · rw [here]
      cases (s.refs other.ref).target <;> simp
    · have stack : (s'.threads t).stackHead = (s.threads t).stackHead := by rw [here]; rfl
      exact Or.inl (stack.trans (owned.records.stack_root (by simp [at'])))
    · rw [here]
      cases (s.refs other.ref).target <;> simp
  · refine owned.names.advance others ?_ inside ?_ ?_ (Or.inl (by rw [here])) ?_ ?_
    · intro q
      rw [at']
      simp only [Pc.constructs, reduceCtorEq, false_and, or_false]
      by_cases same : q = p
      · subst same
        simp [pointers, found]
      · rw [others' q same]
    all_goals rw [here]; try rw [at']
    all_goals cases (s.refs other.ref).target <;> simp [Pc.writes, Pc.constructs, Pc.copies]
  · refine owned.members.advance ?_ fewer (fun _ => by rw [← run]; rfl) (Nat.le_of_eq fresh.symm)
      (by rw [← run]; exact owned.members.destroyed)
    intro q known
    by_cases same : q = p
    · subst same
      simp [pointers]
    · rwa [others' q same]
  · refine owned.aims.advance owned.names others (fun q o => Or.inl ∘ inside q o) ?_ (fun q h _ _ => by rw [refs])
      ?_ ?_ ?_
    · intro q notWriting
      refine others' q fun same => notWriting ?_
      rw [at', same]
      rfl
    · intro q o member member'
      have same : (s'.threads t).held = (s.threads t).held := by rw [here]
      rw [same] at member ⊢
      obtain ⟨h, isHeld, known⟩ := owned.aims.kept t q o member (inside q o member')
      exact ⟨h, isHeld, refers h o known⟩
    · intro q w x at''
      rw [loaded] at at''
      cases at''
      refine ⟨by rw [at']; rfl, other, ?_, by rw [refs]⟩
      rwa [others' v (Ne.symm different)]
    · intro q h a writing found'' holds
      obtain rfl : p = q := by
        rw [at'] at writing
        exact Option.some.inj writing
      rw [pointers, Function.update_self, Option.some.injEq] at found''
      subst found''
      -- nobody else assigns to `v`, hence it holds what its record says
      rcases owned.aims.ptr v other a found' holds with ⟨t', w, at''⟩ | ⟨⟨h, isV, aim⟩, -⟩
      · have same := owned.names.heldWritten t' t v (Pc.writes_of_copies (Pc.copies_of_loaded at'')) held
        subst same
        rw [at'] at at''
        cases at''
      · obtain rfl := Option.some.inj (found'.symm.trans isV)
        exact Or.inl ⟨v, by rw [loaded, aim]⟩

theorem Owned.store (owned : Owned s) {p v : Nat} {target : Option Nat} (at' : (s.threads t).pc = .store p v target)
    (run : s.store t p target = some s') : Owned s' := by
  obtain ⟨g, found, rfl⟩ : ∃ g, s.pointers p = some g ∧
      (s.setRef g.ref fun record => { record with target }).finish t = s' := by
    simpa [System.store, Option.bind_eq_some_iff] using run
  have others := (s.setRef g.ref fun record => { record with target }).finish_other t
  have here := (s.setRef g.ref fun record => { record with target }).finish_same t
  have same (r : Nat) (different : r ≠ g.ref) :
      modifyAt s.refs g.ref (fun record => { record with target }) r = s.refs r := modifyAt_other _ _ _ different
  have state (r : Nat) : (modifyAt s.refs g.ref (fun record => { record with target }) r).state = (s.refs r).state := by
    by_cases equal : r = g.ref <;> simp [modifyAt, equal]
  refine ⟨?_, ?_, ?_, ?_⟩
  · refine owned.records.advance others (fun q h known => ⟨h, known, rfl⟩) (Nat.le_refl _)
      (fun q h _ active => (state h.ref).trans active) ?_ ?_ ?_ ?_
    · intro t' source r use creating
      have different := ((owned.records.created t' source r use creating).2.2.2.2 p g found).symm
      exact ⟨state r, congrArg Reference.target (same r different)⟩
    · simp [here]
    · rw [here]
      exact Or.inl (owned.records.stack_root (by simp [at']))
    · simp [here]
  · refine owned.names.advance others ?_ (fun _ _ => id) ?_ ?_ (Or.inr ?_) ?_ ?_
    · intro q
      rw [at']
      simp only [Pc.constructs, reduceCtorEq, false_and, or_false]
      exact Iff.rfl
    all_goals rw [here]; simp [Pc.writes, Pc.constructs, Pc.copies]
  · exact owned.members.advance (fun _ => id) (fun _ _ => id) (fun _ => rfl) (Nat.le_refl _) owned.members.destroyed
  · refine owned.aims.advance owned.names others (fun _ _ => Or.inl) (fun _ _ => rfl) ?_ ?_ ?_ ?_
    · intro q h known notWriting
      refine congrArg Reference.target (same h.ref fun equal => notWriting ?_)
      rw [at', owned.records.once q p h g known found equal]
      rfl
    · simp [here]
    · simp [here, Pc.loaded]
    · intro q h a writing known holds
      obtain rfl : p = q := by
        rw [at'] at writing
        exact Option.some.inj writing
      obtain rfl : g = h := Option.some.inj (found.symm.trans known)
      have aim : target = some (a + 1) := by
        rcases owned.aims.ptr p g a found holds with ⟨t', w, at''⟩ | ⟨-, free⟩
        · have isT := owned.names.writesOnce t' t p (Pc.writes_of_copies (Pc.copies_of_loaded at''))
            (by rw [at']; rfl)
          subst isT
          rw [at'] at at''
          cases at''
          rfl
        · exact absurd (by rw [at']; rfl) (free t v target)
      refine Or.inr ⟨⟨g, found, ?_⟩, by simp [here, Pc.loaded]⟩
      exact (congrArg Reference.target (modifyAt_same _ _ _)).trans aim

theorem Owned.resume (owned : Owned s) {fails : Bool} (run : s.resume t fails = some s') : Owned s' := by
  have payload (o o' : Nat) :
      (modifyAt s.objs o (fun obj => { obj with state := .active }) o').payload = (s.objs o').payload := by
    by_cases same : o' = o <;> simp [modifyAt, same]
  unfold System.resume at run
  split at run
  case h_1 => cases run
  case h_2 use at' =>
    cases run
    exact owned.newReference at'
  case h_3 source r use at' =>
    cases run
    exact owned.pushReference at'
  case h_4 p v at' => exact owned.copy at' run
  case h_5 p v o at' =>
    cases run
    have here := System.setThread_same (s.activate o) t fun thread => { thread with pc := .store p v (some o) }
    refine owned.pass (fun t' apart => System.setThread_other _ _ _ apart) rfl (fun _ _ => id) (payload o) rfl
      owned.members.destroyed (fun _ => rfl) (fun _ => rfl) ?_ (Or.inl ?_) ?_ ?_ ?_ ?_ ?_ ?_ ?_
    all_goals rw [System.goto, here]
    all_goals simp [at', Pc.writes, Pc.constructs, Pc.copies, Pc.loaded, System.activate, System.setObj]
    exact owned.records.stack_root (by simp [at'])
  case h_6 p v target at' => exact owned.store at' run
  case h_7 p o previous at' =>
    cases run
    unfold System.pushObject
    split
    · have here := System.setThread_same { s with objects := some o } t fun thread =>
        { thread with pc := .activateMade p o, objectStackHead := some previous }
      refine owned.pass (fun t' apart => System.setThread_other _ _ _ apart) rfl (fun _ _ => id) (fun _ => rfl) rfl
        owned.members.destroyed (fun _ => rfl) (fun _ => rfl) ?_ (Or.inl ?_) ?_ ?_ ?_ ?_ ?_ ?_ ?_
      all_goals rw [here]
      all_goals simp [at', Pc.writes, Pc.constructs, Pc.copies, Pc.loaded]
      exact owned.records.previous t p o previous at'
    · refine owned.frame rfl rfl (fun _ _ => id) ?_ rfl owned.members.destroyed (fun _ => rfl) fun _ => rfl
      intro o'
      by_cases same : o' = o <;> simp [System.setObj, modifyAt, same]
  case h_8 p o at' =>
    cases run
    have here := System.setThread_same (s.activate o) t fun thread => { thread with pc := .newReference (.make p o) }
    refine owned.pass (fun t' apart => System.setThread_other _ _ _ apart) rfl (fun _ _ => id) (payload o) rfl
      owned.members.destroyed (fun _ => rfl) (fun _ => rfl) ?_ (Or.inl ?_) ?_ ?_ ?_ ?_ ?_ ?_ ?_
    all_goals rw [System.goto, here]
    all_goals simp [at', Pc.writes, Pc.constructs, Pc.copies, Pc.loaded, Use.pointer, System.activate, System.setObj]
    exact owned.records.stack_root (by simp [at'])

theorem Owned.enter (owned : Owned s) (idle : (s.threads t).pc = .idle) {pc : Pc} {held : List Nat} {p : Nat}
    (writes : pc.writes = some p) (unwritten : s.Unwritten p) (unheld : s.Unheld p)
    (constructs : pc.constructs = some p ∧ s.pointers p = none ∨ pc.constructs = none ∧ p ∈ held)
    (usable : s.Usable held) (copies : ∀ q v, pc.copies = some (q, v) → v ∈ held ∧ q ≠ v) (loaded : pc.loaded = none)
    (notPushing : ∀ source r use, pc ≠ .pushReference source r use)
    (notRegistering : ∀ p o previous, pc ≠ .pushObject p o previous) : Owned (s.enter t pc held) := by
  have others := s.enter_other t pc held
  have here := s.enter_same t pc held
  have nothing (q : Nat) : (s.threads t).pc.writes ≠ some q := by simp [idle, Pc.writes]
  refine ⟨?_, ?_, ?_, ?_⟩
  · refine owned.records.advance others (fun q g known => ⟨g, known, rfl⟩) (Nat.le_refl _) (fun _ _ _ => id)
      (fun _ _ _ _ _ => ⟨rfl, rfl⟩) ?_ (Or.inl ?_) ?_
    · simp [here, notPushing]
    · rw [here]
      exact owned.records.stack_root (by simp [idle])
    · simp [here, notRegistering]
  · refine owned.names.call others idle rfl (fun _ _ => Or.inl) (by rw [here]; exact writes) unwritten unheld ?_ ?_ ?_
      fun q o => owned.members.inside_isSome
    · rw [here]
      exact constructs
    · rw [here]
      exact fun q member => ⟨(usable q member).1, (usable q member).2.1⟩
    · rw [here]
      exact copies
  · exact owned.members.advance (fun _ => id) (fun _ _ => id) (fun _ => rfl) (Nat.le_refl _) owned.members.destroyed
  · refine owned.aims.advance owned.names others (fun _ _ => Or.inl) (fun _ _ => rfl) (fun _ _ _ _ => rfl) ?_ ?_ ?_
    · rw [here]
      exact fun q o member inside => (usable q member).2.2 o inside
    · simp [here, loaded]
    · exact fun q _ _ writing => absurd writing (nothing q)

theorem System.registerObject_payload (s : System) (t p : Nat) (members : List Nat) (o : Nat) :
    ((s.registerObject t p members).objs o).payload = if o = s.fresh + 1 then some s.fresh else (s.objs o).payload := by
  by_cases same : o = s.fresh + 1 <;> simp [System.registerObject, System.setThread, same]

theorem System.registerObject_payloads (s : System) (t p : Nat) (members : List Nat) (a : Nat) :
    (s.registerObject t p members).payloads a = if a = s.fresh then some members else s.payloads a := by
  by_cases same : a = s.fresh <;> simp [System.registerObject, System.setThread, same]

theorem Members.registerObject (shape : Members s) {p : Nat} {members : List Nat} (nodup : members.Nodup)
    (loose : ∀ m ∈ members, s.Loose m) : Members (s.registerObject t p members) := by
  have payload := s.registerObject_payload t p members
  have payloads := s.registerObject_payloads t p members
  constructor
  case exist =>
    intro a list m known member
    rw [payloads] at known
    split at known
    · cases known
      exact (loose m member).1
    · exact shape.exist a list m known member
  case nodup =>
    intro a list known
    rw [payloads] at known
    split at known
    · cases known
      exact nodup
    · exact shape.nodup a list known
  case once =>
    intro a b list others' m known known' member member'
    -- a member of an older payload is not loose
    have apart (c : Nat) (list' : List Nat) (isC : s.payloads c = some list') (inC : m ∈ list') : m ∉ members :=
      fun new => (loose m new).2.2.2 (c + 1) ⟨c, list', shape.owned c list' isC, isC, inC⟩
    rw [payloads] at known known'
    split at known
    case isTrue isA =>
      split at known'
      case isTrue isB => rw [isA, isB]
      case isFalse =>
        cases known
        exact absurd member (apart b others' known' member')
    case isFalse =>
      split at known'
      case isTrue =>
        cases known'
        exact absurd member' (apart a list known member)
      case isFalse => exact shape.once a b list others' m known known' member member'
  case owned =>
    intro a list known
    rw [payloads] at known
    rw [payload]
    split at known
    case isTrue isA => rw [if_pos (by rw [isA]), isA]
    case isFalse notA =>
      rw [if_neg (fun same => notA (Nat.succ.inj same))]
      exact shape.owned a list known
  case payload =>
    intro o a known
    have fresh : (s.registerObject t p members).fresh = s.fresh + 2 := rfl
    rw [payload] at known
    rw [fresh]
    split at known
    case isTrue isO =>
      cases known
      omega
    case isFalse =>
      have := shape.payload o a known
      omega
  case destroyed =>
    intro a member
    have known := shape.destroyed a member
    have older : a + 1 ≠ s.fresh + 1 := by
      have := (shape.payload _ a known).2
      omega
    rw [payload, if_neg older, known]

theorem System.registerObject_inside {p q o : Nat} {members : List Nat}
    (member : (s.registerObject t p members).Inside q o) : s.Inside q o ∨ q ∈ members := by
  obtain ⟨a, list, owner, known, inList⟩ := member
  rw [System.registerObject_payloads] at known
  rw [System.registerObject_payload] at owner
  by_cases same : a = s.fresh
  · rw [if_pos same, Option.some.injEq] at known
    exact Or.inr (known ▸ inList)
  · rw [if_neg same] at known
    have apart : o ≠ s.fresh + 1 := by
      rintro rfl
      rw [if_pos rfl, Option.some.injEq] at owner
      exact same owner.symm
    rw [if_neg apart] at owner
    exact Or.inl ⟨a, list, owner, known, inList⟩

theorem Owned.registerObject (owned : Owned s) (idle : (s.threads t).pc = .idle) {p : Nat} {members : List Nat}
    (new : s.New p) (nodup : members.Nodup) (loose : ∀ m ∈ members, s.Loose m) :
    Owned (s.registerObject t p members) := by
  obtain ⟨absent, unwritten⟩ := new
  have others := s.registerObject_other t p members
  have here := s.registerObject_same t p members
  have stack := owned.records.stack_root (t := t) (by simp [idle])
  have rest : (s.threads t).held = [] := owned.names.rest t idle
  have nothing (q : Nat) : (s.threads t).pc.writes ≠ some q := by simp [idle, Pc.writes]
  refine ⟨?_, ?_, ?_, ?_⟩
  · refine owned.records.advance others (fun q g known => ⟨g, known, rfl⟩) (Nat.le_add_right _ 2) (fun _ _ _ => id)
      (fun _ _ _ _ _ => ⟨rfl, rfl⟩) ?_ (Or.inr ⟨p, s.fresh + 1, ?_⟩) ?_
    · simp [here]
    · rw [here, stack]
    · rintro q o previous at'
      rw [here, stack] at at'
      cases at'
      rfl
  · refine owned.names.call others idle rfl ?_ (by rw [here]; rfl) unwritten ?_ (Or.inl ⟨by rw [here]; rfl, absent⟩) ?_
      ?_ fun q o => owned.members.inside_isSome
    · intro q o member
      rcases System.registerObject_inside member with known | new
      · exact Or.inl known
      · refine Or.inr ⟨(loose q new).2.1, ?_⟩
        rintro rfl
        have exists' := (loose q new).1
        rw [absent] at exists'
        cases exists'
    · intro t' member
      have exists' := owned.names.held t' p member
      rw [absent] at exists'
      cases exists'
    · simp [here, rest]
    · simp [here, Pc.copies]
  · exact owned.members.registerObject nodup loose
  · refine owned.aims.advance owned.names others ?_ (fun _ _ => rfl) (fun _ _ _ _ => rfl) ?_ ?_ ?_
    · intro q o member
      rcases System.registerObject_inside member with known | new
      · exact Or.inl known
      · exact Or.inr (loose q new).2.2.1
    · simp [here, rest]
    · simp [here, Pc.loaded]
    · exact fun q _ _ writing => absurd writing (nothing q)

theorem Owned.dereference (owned : Owned s) {p : Nat} {payloads : Nat → Option (List Nat)}
    (run : System.dereference { s with payloads } p = some s') (unwritten : s.Unwritten p) (unheld : s.Unheld p)
    (fewer : ∀ a list, payloads a = some list → p ∉ list ∧ ∃ list', s.payloads a = some list' ∧ list.Sublist list') :
    Owned s' := by
  have records : Records { s with payloads } := { owned.records with }
  have records' := records.dereference run
  obtain ⟨g, found, rfl⟩ : ∃ g, s.pointers p = some g ∧
      (({ s with payloads } : System).setRef g.ref fun record => { record with state := .unreachable }).setPointer p none =
        s' := by
    simpa [System.dereference, Option.bind_eq_some_iff] using run
  have target (r : Nat) : (modifyAt s.refs g.ref (fun record => { record with state := .unreachable }) r).target =
      (s.refs r).target := by
    by_cases same : r = g.ref <;> simp [modifyAt, same]
  have others (q : Nat) (different : q ≠ p) : Function.update s.pointers p none q = s.pointers q :=
    Function.update_of_ne different _ _
  have inside (q o : Nat) (member : ∃ a list, (s.objs o).payload = some a ∧ payloads a = some list ∧ q ∈ list) :
      s.Inside q o := by
    obtain ⟨a, list, owner, known, inList⟩ := member
    obtain ⟨-, list', known', sub⟩ := fewer a list known
    exact ⟨a, list', owner, known', sub.subset inList⟩
  have refers (q o : Nat) (different : q ≠ p) (known : s.Refers q o) : ∃ h, Function.update s.pointers p none q = some h ∧
      (modifyAt s.refs g.ref (fun record => { record with state := .unreachable }) h.ref).target = some o := by
    obtain ⟨h, isQ, aim⟩ := known
    exact ⟨h, (others q different).trans isQ, (target h.ref).trans aim⟩
  refine ⟨records', owned.names.drop rfl rfl inside unwritten unheld, ?_, ?_⟩
  · constructor
    case exist =>
      intro a list m known member
      obtain ⟨notIn, list', known', sub⟩ := fewer a list known
      have different : m ≠ p := by
        rintro rfl
        exact notIn member
      exact (congrArg Option.isSome (others m different)).trans (owned.members.exist a list' m known' (sub.subset member))
    case nodup =>
      intro a list known
      obtain ⟨-, list', known', sub⟩ := fewer a list known
      exact sub.nodup (owned.members.nodup a list' known')
    case once =>
      intro a b list others' m known known' member member'
      obtain ⟨-, list₁, known₁, sub₁⟩ := fewer a list known
      obtain ⟨-, list₂, known₂, sub₂⟩ := fewer b others' known'
      exact owned.members.once a b list₁ list₂ m known₁ known₂ (sub₁.subset member) (sub₂.subset member')
    case owned =>
      intro a list known
      obtain ⟨-, list', known', -⟩ := fewer a list known
      exact owned.members.owned a list' known'
    case payload => exact owned.members.payload
    case destroyed => exact owned.members.destroyed
  · constructor
    case kept =>
      intro t q o member member'
      obtain ⟨h, held, known⟩ := owned.aims.kept t q o member (inside q o member')
      have different : h ≠ p := by
        rintro rfl
        exact unheld t held
      exact ⟨h, held, refers h o different known⟩
    case loaded =>
      intro t q v x at'
      obtain ⟨h, isV, aim⟩ := owned.aims.loaded t q v x at'
      have different : v ≠ p := by
        rintro rfl
        exact unheld t (owned.names.copies t q v (Pc.copies_of_loaded at')).1
      exact ⟨h, (others v different).trans isV, (target h.ref).trans aim⟩
    case ptr =>
      intro q h a known holds
      have different : q ≠ p := by
        rintro rfl
        change Function.update s.pointers q none q = some h at known
        rw [Function.update_self] at known
        cases known
      have known' : s.pointers q = some h := (others q different).symm.trans known
      rcases owned.aims.ptr q h a known' holds with ⟨t, v, at'⟩ | ⟨aim, free⟩
      · exact Or.inl ⟨t, v, at'⟩
      · exact Or.inr ⟨refers q _ different aim, free⟩

theorem Owned.call (owned : Owned s) {call : Call} (idle : (s.threads t).pc = .idle)
    (allowed : s.Allowed (.call t call)) (run : s.call t call = some s') : Owned s' := by
  have unheld (p : Nat) (new : s.New p) : s.Unheld p := by
    intro t' member
    have exists' := owned.names.held t' p member
    rw [new.1] at exists'
    cases exists'
  cases call with
  | default p =>
      cases run
      exact owned.enter idle (p := p) rfl allowed.2 (unheld p allowed) (Or.inl ⟨rfl, allowed.1⟩) (by simp [System.Usable])
        (by simp [Pc.copies]) rfl (by simp) (by simp)
  | copyNew p v held =>
      cases run
      obtain ⟨new, member, usable⟩ := allowed
      refine owned.enter idle (p := p) rfl new.2 (unheld p new) (Or.inl ⟨rfl, new.1⟩) usable ?_ rfl (by simp) (by simp)
      intro q w copies
      cases copies
      refine ⟨member, ?_⟩
      rintro rfl
      have exists' := (usable p member).1
      rw [new.1] at exists'
      cases exists'
  | copyAssign p v held =>
      obtain ⟨isP, isV, usable, free⟩ := allowed
      simp only [System.call] at run
      split at run
      case isTrue =>
        cases run
        exact owned
      case isFalse different =>
        cases run
        refine owned.enter idle (p := p) rfl (usable p isP).2.1 free (Or.inr ⟨rfl, isP⟩) usable ?_ rfl (by simp) (by simp)
        intro q w copies
        cases copies
        exact ⟨isV, different⟩
  | destroy p =>
      obtain ⟨-, unwritten, free, notInside⟩ := allowed
      refine owned.dereference run unwritten free fun a list known => ⟨?_, list, known, List.Sublist.refl _⟩
      exact fun member => notInside (a + 1) ⟨a, list, owned.members.owned a list known, known, member⟩
  | makeGc p members =>
      cases run
      exact owned.registerObject idle allowed.1 allowed.2.1 allowed.2.2

theorem Owned.members_free (owned : Owned s) {o m : Nat} (gone : ∀ p, ¬ s.Refers p o) (inside : s.Inside m o) :
    s.Unwritten m ∧ s.Unheld m := by
  have unheld : s.Unheld m := by
    intro t member
    obtain ⟨h, -, aim⟩ := owned.aims.kept t m o member inside
    exact gone h aim
  exact ⟨fun t writing => unheld t (owned.names.writesInside t m o writing inside), unheld⟩

theorem some_of_update_none {α : Type} {f : Nat → Option α} {a b : Nat} {x : α}
    (known : Function.update f a none b = some x) : f b = some x := by
  by_cases same : b = a
  · rw [same, Function.update_self] at known
    cases known
  · rwa [Function.update_of_ne same] at known

theorem Owned.destroyMembers (owned : Owned s) {o : Nat} {rest : Option Nat} (gone : ∀ p, ¬ s.Refers p o)
    (run : s.destroyMembers o rest = some s') : Owned s' := by
  simp only [System.destroyMembers, Option.bind_eq_bind, Option.bind_eq_some_iff] at run
  obtain ⟨a, owner, run⟩ := run
  split at run
  case h_1 m members known =>
    have inside : s.Inside m o := ⟨a, m :: members, owner, known, by simp⟩
    obtain ⟨unwritten, unheld⟩ := owned.members_free gone inside
    refine owned.dereference run unwritten unheld ?_
    intro b list isB
    by_cases same : b = a
    · subst same
      rw [Function.update_self, Option.some.injEq] at isB
      subst isB
      exact ⟨(List.nodup_cons.mp (owned.members.nodup b _ known)).1, m :: members, known, List.sublist_cons_self m members⟩
    · rw [Function.update_of_ne same] at isB
      refine ⟨fun member => same ?_, list, isB, List.Sublist.refl _⟩
      exact owned.members.once b a list (m :: members) m isB known member (by simp)
  case h_2 =>
    cases run
    refine owned.frame rfl rfl (fun _ _ => some_of_update_none) ?_ rfl owned.members.destroyed (fun _ => rfl)
      fun _ => rfl
    intro o'
    by_cases same : o' = o <;> simp [System.setObj, System.setCollector, modifyAt, same]

theorem Owned.dctor (owned : Owned s) (o : Nat) (rest : Option Nat) : Owned (s.dctor o rest) := by
  refine owned.frame rfl rfl (fun _ _ => id) (fun _ => rfl) rfl ?_ (fun _ => rfl) fun _ => rfl
  intro a member
  rcases List.mem_append.mp member with new | old
  · have known := Option.mem_toList.mp new
    rwa [← (owned.members.payload o a known).1]
  · exact owned.members.destroyed a old

end Steps

end PrototypeBundle.Tracing.Concurrent
