import PrototypeBundle.Buddy.Runs

set_option autoImplicit false

namespace PrototypeBundle.Buddy

open Memory Dyadic

structure Call where
  page : Page
  reads : List Nat

abbrev Attempt := ExceptT Fault (StateM Call)

-- `_free_levels[level].head`; the table has the entries `0 .. _top_level`.
def readLevel (level : Nat) : Attempt (Option Nat) := do
  modify fun c => { c with reads := level :: c.reads }
  let c ← get
  if c.page.topLevel < level then throw .undefined
  return c.page.freeLevels level

def fromOption {α : Type} : Option α → Attempt α
  | some a => return a
  | none => throw .undefined

-- `register_as_used` and `register_as_free`, whose list is the one of `level`.
def register (level : Nat) (change : Page → Option Page) : Attempt Unit := do
  let _ ← readLevel level
  let page ← fromOption (change (← get).page)
  modify fun c => { c with page }

def searchCall : Nat → Nat → Attempt Nat
  | 0, _ => throw .outOfMemory
  | fuel + 1, level => do
      match ← readLevel level with
      | some _ => return level
      | none =>
          if (← get).page.topLevel < level + 1 then throw .outOfMemory
          searchCall fuel (level + 1)

def splitCall (h expectedLevel : Nat) : Nat → Attempt Unit
  | 0 => return
  | rest + 1 => do
      let b ← fromOption (findBuddy h (expectedLevel + rest))
      register (expectedLevel + rest) fun p => p.registerAsFree b (expectedLevel + rest)
      splitCall h expectedLevel rest

def takeCall (level expectedLevel : Nat) : Attempt Nat := do
  let hFreeNode ← fromOption (← readLevel level)
  let h ← fromOption ((← get).page.availableNodes.nodes hFreeNode).val
  register ((← get).page.buffer h).level fun p => p.registerAsUsed h expectedLevel
  splitCall h expectedLevel (level - expectedLevel)
  return h

def allocateCall (len : Nat) : Attempt Nat := do
  let expectedLevel ← fromOption (levelOf (nextPow2 ((len + headerSize) % 2 ^ 64)))
  let level ← searchCall ((← get).page.topLevel + 1) expectedLevel
  takeCall level expectedLevel

section Outcomes

variable {α β : Type}

def outcome (x : Attempt α) (c : Call) : Except Fault α × Call := (ExceptT.run x).run c

@[simp] theorem outcome_pure (a : α) (c : Call) : outcome (pure a : Attempt α) c = (.ok a, c) := rfl

@[simp] theorem outcome_throw (fault : Fault) (c : Call) :
    outcome (throw fault : Attempt α) c = (.error fault, c) := rfl

@[simp] theorem outcome_get (c : Call) : outcome (get : Attempt Call) c = (.ok c, c) := rfl

@[simp] theorem outcome_modify (f : Call → Call) (c : Call) :
    outcome (modify f : Attempt PUnit) c = (.ok ⟨⟩, f c) := rfl

theorem outcome_bind (x : Attempt α) (f : α → Attempt β) (c : Call) :
    outcome (x >>= f) c = match outcome x c with
      | (.ok a, c') => outcome (f a) c'
      | (.error fault, c') => (.error fault, c') := by
  simp only [outcome, ExceptT.run_bind, StateT.run_bind]
  rcases (ExceptT.run x).run c with ⟨fault | a, c'⟩ <;> rfl

theorem outcome_bind_ok {x : Attempt α} {a : α} {c c' : Call} (done : outcome x c = (.ok a, c'))
    (f : α → Attempt β) : outcome (x >>= f) c = outcome (f a) c' := by
  rw [outcome_bind, done]

theorem outcome_bind_error {x : Attempt α} {fault : Fault} {c c' : Call}
    (failed : outcome x c = (.error fault, c')) (f : α → Attempt β) :
    outcome (x >>= f) c = (.error fault, c') := by
  rw [outcome_bind, failed]

@[simp] theorem outcome_fromOption_some (a : α) (c : Call) : outcome (fromOption (some a)) c = (.ok a, c) := rfl

@[simp] theorem outcome_fromOption_none (c : Call) :
    outcome (fromOption (none : Option α)) c = (.error .undefined, c) := rfl

def Call.InTable (c : Call) : Prop := ∀ i ∈ c.reads, i ≤ c.page.topLevel

theorem outcome_readLevel_inside {c : Call} {level : Nat} (inside : level ≤ c.page.topLevel) :
    outcome (readLevel level) c = (.ok (c.page.freeLevels level), { c with reads := level :: c.reads }) := by
  have notBeyond : ¬ c.page.topLevel < level := by omega
  simp [readLevel, outcome_bind, notBeyond]

theorem outcome_readLevel_beyond {c : Call} {level : Nat} (beyond : c.page.topLevel < level) :
    outcome (readLevel level) c = (.error .undefined, { c with reads := level :: c.reads }) := by
  simp [readLevel, outcome_bind, beyond]

theorem outcome_register {c : Call} {level : Nat} {change : Page → Option Page} {p : Page}
    (inside : level ≤ c.page.topLevel) (done : change c.page = some p) :
    outcome (register level change) c = (.ok ⟨⟩, { page := p, reads := level :: c.reads }) := by
  simp [register, outcome_bind, outcome_readLevel_inside inside, done]

theorem outcome_register_none {c : Call} {level : Nat} {change : Page → Option Page}
    (failed : change c.page = none) : ∃ c', outcome (register level change) c = (.error .undefined, c') := by
  by_cases inside : level ≤ c.page.topLevel
  · simp [register, outcome_bind, outcome_readLevel_inside inside, failed]
  · simp [register, outcome_bind, outcome_readLevel_beyond (by omega : c.page.topLevel < level)]

end Outcomes

section Refinement

theorem registerAsFree_table {p p' : Page} {h level : Nat} (done : p.registerAsFree h level = some p') :
    level ≤ p.topLevel ∧ p'.topLevel = p.topLevel := by
  simp only [Page.registerAsFree, Option.bind_eq_bind, Option.bind_eq_some_iff] at done
  obtain ⟨⟨freeNode, availableNodes⟩, -, done⟩ := done
  split at done
  · cases done
  · rename_i inside
    obtain rfl := Option.some.inj done
    exact ⟨by omega, rfl⟩

theorem registerAsUsed_table {p p' : Page} {h level : Nat} (done : p.registerAsUsed h level = some p') :
    (p.buffer h).level ≤ p.topLevel ∧ p'.topLevel = p.topLevel := by
  simp only [Page.registerAsUsed, Option.bind_eq_bind, Option.bind_eq_some_iff] at done
  obtain ⟨freeNode, -, done⟩ := done
  split at done
  · cases done
  · rename_i inside
    obtain rfl := Option.some.inj done
    exact ⟨by omega, rfl⟩

theorem findFit_error {p : Page} {fuel start : Nat} {fault : Fault} (failed : p.findFit fuel start = .error fault) :
    fault = .outOfMemory ∧ (p.topLevel < start + fuel → ∀ l, start ≤ l → l ≤ p.topLevel → p.freeLevels l = none) := by
  induction fuel generalizing start with
  | zero =>
      obtain rfl := Except.error.inj failed
      exact ⟨rfl, fun last l lower upper => by omega⟩
  | succ fuel ih =>
      unfold Page.findFit at failed
      cases head : p.freeLevels start with
      | some node => simp [head] at failed
      | none =>
          simp only [head] at failed
          split at failed
          · rename_i last
            obtain rfl := Except.error.inj failed
            refine ⟨rfl, fun _ l lower upper => ?_⟩
            obtain rfl : l = start := by omega
            exact head
          · obtain ⟨out, later⟩ := ih failed
            refine ⟨out, fun last l lower upper => ?_⟩
            by_cases first : l = start
            · exact first ▸ head
            · exact later (by omega) l (by omega) upper

theorem searchCall_outcome (fuel : Nat) {level : Nat} {c : Call} (inside : level ≤ c.page.topLevel)
    (inTable : c.InTable) : ∃ reads, outcome (searchCall fuel level) c =
      (c.page.findFit fuel level, { c with reads }) ∧ Call.InTable { c with reads } := by
  induction fuel generalizing level c with
  | zero => exact ⟨c.reads, rfl, inTable⟩
  | succ fuel ih =>
      have now : Call.InTable { c with reads := level :: c.reads } := List.forall_mem_cons.mpr ⟨inside, inTable⟩
      rw [searchCall, outcome_bind_ok (outcome_readLevel_inside inside), Page.findFit]
      cases head : c.page.freeLevels level with
      | some node => exact ⟨_, rfl, now⟩
      | none =>
          simp only [outcome_bind, outcome_get]
          by_cases last : c.page.topLevel < level + 1
          · exact ⟨level :: c.reads, by simp [last], now⟩
          · have next : level + 1 ≤ c.page.topLevel := by omega
            obtain ⟨reads, searched, later⟩ := ih (c := { c with reads := level :: c.reads }) next now
            exact ⟨reads, by simpa [last] using searched, later⟩

theorem splitCall_some {h expectedLevel : Nat} (rest : Nat) {c : Call} {p : Page}
    (done : c.page.split h expectedLevel rest = some p) (inTable : c.InTable) :
    ∃ reads, outcome (splitCall h expectedLevel rest) c = (.ok ⟨⟩, { page := p, reads }) ∧
      Call.InTable { page := p, reads } := by
  induction rest generalizing c with
  | zero =>
      obtain rfl := Option.some.inj done
      exact ⟨c.reads, rfl, inTable⟩
  | succ rest ih =>
      simp only [Page.split, Option.bind_eq_bind, Option.bind_eq_some_iff] at done
      obtain ⟨b, buddy, p₁, freed, done⟩ := done
      obtain ⟨inside, top⟩ := registerAsFree_table freed
      have registered : outcome (register (expectedLevel + rest) fun p => p.registerAsFree b (expectedLevel + rest)) c =
          (.ok ⟨⟩, { page := p₁, reads := (expectedLevel + rest) :: c.reads }) := outcome_register inside freed
      have now : Call.InTable { page := p₁, reads := (expectedLevel + rest) :: c.reads } := by
        rw [Call.InTable, top]
        exact List.forall_mem_cons.mpr ⟨inside, inTable⟩
      obtain ⟨reads, split, later⟩ := ih done now
      refine ⟨reads, ?_, later⟩
      rw [splitCall, buddy, outcome_bind_ok (outcome_fromOption_some b c), outcome_bind_ok registered, split]

theorem splitCall_none {h expectedLevel : Nat} (rest : Nat) {c : Call}
    (failed : c.page.split h expectedLevel rest = none) :
    ∃ c', outcome (splitCall h expectedLevel rest) c = (.error .undefined, c') := by
  induction rest generalizing c with
  | zero => cases failed
  | succ rest ih =>
      rw [splitCall]
      cases buddy : findBuddy h (expectedLevel + rest) with
      | none => exact ⟨_, outcome_bind_error (outcome_fromOption_none c) _⟩
      | some b =>
          rw [outcome_bind_ok (outcome_fromOption_some b c)]
          let change : Page → Option Page := fun p => p.registerAsFree b (expectedLevel + rest)
          cases freed : change c.page with
          | none =>
              obtain ⟨c', stopped⟩ := outcome_register_none freed
              exact ⟨c', outcome_bind_error stopped _⟩
          | some p =>
              have registered := outcome_register (registerAsFree_table freed).1 freed
              simp only [change] at freed
              simp only [Page.split, buddy, freed, Option.bind_eq_bind, Option.bind_some] at failed
              obtain ⟨c', stopped⟩ := ih (c := { page := p, reads := _ }) failed
              exact ⟨c', (outcome_bind_ok registered _).trans stopped⟩

theorem takeCall_some {c : Call} {level expectedLevel h : Nat} {p : Page}
    (done : c.page.take level expectedLevel = some (h, p)) (inside : level ≤ c.page.topLevel)
    (inTable : c.InTable) :
    ∃ reads, outcome (takeCall level expectedLevel) c = (.ok h, { page := p, reads }) ∧
      Call.InTable { page := p, reads } := by
  simp only [Page.take, Option.bind_eq_bind, Option.bind_eq_some_iff] at done
  obtain ⟨node, head, o, val, p₁, used, p₂, split, result⟩ := done
  obtain ⟨rfl, rfl⟩ := Prod.mk.inj (Option.some.inj result)
  obtain ⟨insideUsed, top⟩ := registerAsUsed_table used
  let c₁ : Call := { c with reads := level :: c.reads }
  have registered : outcome (register (c₁.page.buffer o).level fun p => p.registerAsUsed o expectedLevel) c₁ =
      (.ok ⟨⟩, { page := p₁, reads := (c₁.page.buffer o).level :: c₁.reads }) := outcome_register insideUsed used
  have now : Call.InTable { page := p₁, reads := (c₁.page.buffer o).level :: c₁.reads } := by
    rw [Call.InTable, top]
    exact List.forall_mem_cons.mpr ⟨insideUsed, List.forall_mem_cons.mpr ⟨inside, inTable⟩⟩
  obtain ⟨reads, cut, later⟩ := splitCall_some (level - expectedLevel) (c := { page := p₁, reads := _ }) split now
  refine ⟨reads, ?_, later⟩
  rw [takeCall, outcome_bind_ok (outcome_readLevel_inside inside), head,
    outcome_bind_ok (outcome_fromOption_some node _), outcome_bind_ok (outcome_get _), val,
    outcome_bind_ok (outcome_fromOption_some o _), outcome_bind_ok (outcome_get _), outcome_bind_ok registered,
    outcome_bind_ok cut]
  rfl

theorem takeCall_none {c : Call} {level expectedLevel : Nat}
    (failed : c.page.take level expectedLevel = none) (inside : level ≤ c.page.topLevel) :
    ∃ c', outcome (takeCall level expectedLevel) c = (.error .undefined, c') := by
  rw [takeCall, outcome_bind_ok (outcome_readLevel_inside inside)]
  cases head : c.page.freeLevels level with
  | none => exact ⟨_, outcome_bind_error (outcome_fromOption_none _) _⟩
  | some node =>
      rw [outcome_bind_ok (outcome_fromOption_some node _), outcome_bind_ok (outcome_get _)]
      cases val : (c.page.availableNodes.nodes node).val with
      | none => exact ⟨_, outcome_bind_error (outcome_fromOption_none _) _⟩
      | some h =>
          rw [outcome_bind_ok (outcome_fromOption_some h _), outcome_bind_ok (outcome_get _)]
          let change : Page → Option Page := fun p => p.registerAsUsed h expectedLevel
          cases used : change c.page with
          | none =>
              obtain ⟨c', stopped⟩ := outcome_register_none (c := { c with reads := level :: c.reads }) used
              exact ⟨c', outcome_bind_error stopped _⟩
          | some p =>
              have registered := outcome_register (c := { c with reads := level :: c.reads })
                (registerAsUsed_table used).1 used
              simp only [change] at used
              simp only [Page.take, head, val, used, Option.bind_eq_bind, Option.bind_some] at failed
              have uncut : p.split h expectedLevel (level - expectedLevel) = none :=
                Option.eq_none_iff_forall_ne_some.mpr (by simpa using failed)
              obtain ⟨c', stopped⟩ := splitCall_none _ (c := { page := p, reads := _ }) uncut
              exact ⟨c', (outcome_bind_ok registered _).trans (outcome_bind_error stopped _)⟩

theorem allocateCall_eq {len expectedLevel : Nat} {p : Page}
    (level : levelOf (nextPow2 ((len + headerSize) % 2 ^ 64)) = some expectedLevel) :
    outcome (allocateCall len) { page := p, reads := [] } =
      outcome (searchCall (p.topLevel + 1) expectedLevel >>= fun level => takeCall level expectedLevel)
        { page := p, reads := [] } := by
  rw [allocateCall, level, outcome_bind_ok (outcome_fromOption_some expectedLevel _), outcome_bind_ok (outcome_get _)]

/-- `allocateCall` does what `allocate` does, keeps the page where it throws, and reads in the table where
the program has a meaning. -/
theorem allocateCall_refines (p : Page) (len : Nat) :
    match p.allocate len with
    | .ok (h, p') => ∃ reads, outcome (allocateCall len) { page := p, reads := [] } = (.ok h, { page := p', reads }) ∧
        ∀ i ∈ reads, i ≤ p'.topLevel
    | .error .outOfMemory => ∃ reads, outcome (allocateCall len) { page := p, reads := [] } =
        (.error .outOfMemory, { page := p, reads }) ∧ ∀ i ∈ reads, i ≤ p.topLevel
    | .error .undefined => ∃ c, outcome (allocateCall len) { page := p, reads := [] } = (.error .undefined, c) := by
  unfold Page.allocate
  cases level : levelOf (nextPow2 ((len + headerSize) % 2 ^ 64)) with
  | none => exact ⟨_, by rw [allocateCall, level]; exact outcome_bind_error (outcome_fromOption_none _) _⟩
  | some expectedLevel =>
      simp only [allocateCall_eq level]
      by_cases beyond : p.topLevel < expectedLevel
      · rw [if_pos beyond]
        have stopped : outcome (searchCall (p.topLevel + 1) expectedLevel) { page := p, reads := [] } =
            (.error .undefined, { page := p, reads := [expectedLevel] }) := by
          rw [searchCall, outcome_bind_error (outcome_readLevel_beyond beyond)]
        exact ⟨_, outcome_bind_error stopped _⟩
      · rw [if_neg beyond]
        have begins : expectedLevel ≤ p.topLevel := by omega
        obtain ⟨reads, searched, inTable⟩ := searchCall_outcome (p.topLevel + 1)
          (c := { page := p, reads := [] }) begins (by simp [Call.InTable])
        cases found : p.findFit (p.topLevel + 1) expectedLevel with
        | error fault =>
            rw [found] at searched
            obtain ⟨rfl, -⟩ := findFit_error found
            exact ⟨reads, outcome_bind_error searched _, inTable⟩
        | ok level =>
            rw [found] at searched
            simp only [outcome_bind_ok searched]
            obtain ⟨-, inside, -⟩ := findFit_ok begins found
            cases taken : p.take level expectedLevel with
            | none => exact takeCall_none (c := { page := p, reads }) taken inside
            | some result =>
                obtain ⟨h, p'⟩ := result
                exact takeCall_some (c := { page := p, reads }) taken inside inTable

end Refinement

def requiredLevel (len : Nat) : Option Nat := levelOf (nextPow2 ((len + headerSize) % 2 ^ 64))

def Answered (capacity : Nat) (s : PageRun) (len : Nat) : Prop :=
  let (result, c) := outcome (allocateCall len) { page := s.page, reads := [] }
  (∀ i ∈ c.reads, i ≤ s.page.topLevel) ∧
    match result with
    | .ok h => len + headerSize ≤ 32 <<< (c.page.buffer h).level ∧
        ∃ free, Consistent capacity { page := c.page, live := (h, len) :: s.live } free
    | .error .outOfMemory => c.page = s.page ∧
        ∀ required ∈ requiredLevel len, ∀ l, required ≤ l → l ≤ s.page.topLevel → ∀ o, ¬ s.page.FreeAt l o
    | .error .undefined => False

variable {K : Nat} {s : PageRun} {free : Set Block}

theorem requiredLevel_wrapped {len : Nat} (sizeT : len < 2 ^ 64) (wraps : 2 ^ 64 ≤ len + headerSize) :
    requiredLevel len = none := by
  have small : ∀ v < 16, levelOf (nextPow2 v) = none := by decide
  have rest : (len + headerSize) % 2 ^ 64 < 16 := by simp only [headerSize] at wraps ⊢; omega
  exact small _ rest

theorem allocate_undefined {p : Page} {len : Nat} (beyond : ∀ required ∈ requiredLevel len, p.topLevel < required) :
    p.allocate len = .error .undefined := by
  cases level : requiredLevel len with
  | none =>
      rw [requiredLevel] at level
      rw [Page.allocate, level]
  | some expectedLevel =>
      have high := beyond expectedLevel level
      rw [requiredLevel] at level
      rw [Page.allocate, level]
      exact if_pos high

theorem allocate_inside {p : Page} {len required : Nat} (level : requiredLevel len = some required)
    (begins : required ≤ p.topLevel) : p.allocate len = (do
      let found ← p.findFit (p.topLevel + 1) required
      match p.take found required with
      | some result => .ok result
      | none => .error .undefined) := by
  have notBeyond : ¬ p.topLevel < required := by omega
  rw [requiredLevel] at level
  rw [Page.allocate, level]
  simp only
  rw [if_neg notBeyond]
  cases p.findFit (p.topLevel + 1) required <;> rfl

theorem Inv.refuses (inv : Inv K s free) {len : Nat} (sizeT : len < 2 ^ 64) (large : 2 ^ K ≤ len + headerSize) :
    s.page.allocate len = .error .undefined := by
  refine allocate_undefined fun required level => ?_
  by_cases wraps : 2 ^ 64 ≤ len + headerSize
  · rw [requiredLevel_wrapped sizeT wraps] at level
    cases level
  · rcases allocate_level len (by omega) with ⟨none, -⟩ | ⟨required', level', -, upper⟩
    · exact absurd (none.symm.trans level) (by simp)
    · obtain rfl := Option.some.inj (level'.symm.trans level)
      have less : K < required' + 5 := (Nat.pow_lt_pow_iff_right (by omega : 1 < 2)).mp (by omega)
      have top := inv.top
      omega

theorem Inv.answers (inv : Inv K s free) (wide : K < 64) {len : Nat} (ok : Fits (2 ^ K) (.allocate len))
    (small : len + headerSize < 2 ^ K) : Answered (2 ^ K) s len := by
  have half : 2 ^ K ≤ 2 ^ 63 := Nat.pow_le_pow_right (by omega) (by omega)
  have fits : len + headerSize < 2 ^ 64 := by omega
  obtain ⟨required, level, lower, upper⟩ := (allocate_level len fits).resolve_left (by omega)
  have less : required + 4 < K := (Nat.pow_lt_pow_iff_right (by omega : 1 < 2)).mp (by omega)
  have top := inv.top
  have begins : required ≤ s.page.topLevel := by omega
  have allocated := allocate_inside level begins
  have refines := allocateCall_refines s.page len
  unfold Answered
  cases found : s.page.findFit (s.page.topLevel + 1) required with
  | error fault =>
      obtain ⟨rfl, empty⟩ := findFit_error found
      have failed : s.page.allocate len = .error .outOfMemory := by
        rw [allocated, found]
        rfl
      simp only [failed] at refines
      obtain ⟨reads, threw, inTable⟩ := refines
      rw [threw]
      refine ⟨inTable, rfl, fun required' level' l lower upper o isFree => ?_⟩
      obtain rfl := Option.some.inj (level.symm.trans level')
      obtain ⟨nodes, list, n, inside, -⟩ := isFree
      rw [empty (by omega) l lower upper] at list
      simp [(Intrusive.Chain.head_none_iff list.isChain).mp rfl] at inside
  | ok found' =>
      obtain ⟨order, bound, node, head⟩ := findFit_ok begins found
      obtain ⟨h, p', free', taken, hand, header, -⟩ :=
        take_spec inv order bound (ok.low upper order (by omega)) head
      have done : s.page.allocate len = .ok (h, p') := by
        rw [allocated, found]
        simp only [bind, Except.bind, taken]
      simp only [done] at refines
      obtain ⟨reads, returned, inTable⟩ := refines
      obtain ⟨⟨free'', inv'⟩, -⟩ := allocate_inv inv fits ok done
      have top' := inv'.top
      simp only at top'
      rw [returned]
      refine ⟨fun i inside => ?_, ?_, inv'.consistent⟩
      · have := inTable i inside
        omega
      · rw [size_eq]
        exact (inv'.busy (h, len) (by simp)).2

/-- After every run whose buddies are found, a request that also finds its buddies does what it should
exactly if it and its header leave a byte of the page over. -/
theorem page_run_answered (K : Nat) (large : 6 ≤ K) (wide : K < 64) (contents : Nat → Header) (ops : List PageOp)
    (final : PageRun) (fits : ∀ op ∈ ops, Fits (2 ^ K) op) (run : pageRun (2 ^ K) contents ops = some final)
    (len : Nat) (sizeT : len < 2 ^ 64) (ok : Fits (2 ^ K) (.allocate len)) :
    Answered (2 ^ K) final len ↔ len + headerSize < 2 ^ K := by
  obtain ⟨free, inv⟩ := pageRun_inv large fits run
  constructor
  · intro answered
    by_contra tooLarge
    have refines := allocateCall_refines final.page len
    simp only [inv.refuses sizeT (by omega)] at refines
    obtain ⟨c, stopped⟩ := refines
    rw [Answered, stopped] at answered
    exact answered.2
  · exact inv.answers wide ok

theorem page_run_answered_two : Answered 128
    ((pageRun 128 zeroed [.allocate 1, .allocate 10]).get (by decide)) 40 ↔ 40 + headerSize < 128 :=
  page_run_answered 7 (by decide) (by decide) zeroed [.allocate 1, .allocate 10] _ (by simp [Fits])
    (Option.some_get _).symm 40 (by decide) (by simp [Fits])

theorem page_unanswered : ∃ final, pageRun (2 ^ 6) zeroed [] = some final ∧ ¬ Answered (2 ^ 6) final 48 := by
  obtain ⟨p, start, inv⟩ := page_inv (K := 6) (by decide) zeroed
  refine ⟨{ page := p, live := [] }, ?_, fun answered => ?_⟩
  · rw [pageRun, start, Option.bind_some]
    rfl
  · have refines := allocateCall_refines p 48
    have refused : p.allocate 48 = .error .undefined := inv.refuses (by decide) (by decide)
    simp only [refused] at refines
    obtain ⟨c, stopped⟩ := refines
    rw [Answered, stopped] at answered
    exact answered.2

end PrototypeBundle.Buddy
