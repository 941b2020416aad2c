import Mathlib.Logic.Basic

set_option autoImplicit false

/-!
# Runs of a partial step function

`step s a = none` means that action `a` cannot be taken in state `s`.
-/

namespace Runs

variable {σ α ε τ : Type}

def exec (step : σ → α → Option σ) : σ → List α → Option σ
  | s, [] => some s
  | s, a :: rest => (step s a).bind fun next => exec step next rest

/-- Every action of the run is taken in a state where `ok` holds of it. -/
def Along (step : σ → α → Option σ) (ok : σ → α → Prop) : σ → List α → Prop
  | _, [] => True
  | s, a :: rest => ok s a ∧ ∀ next, step s a = some next → Along step ok next rest

/-- Every state of the run satisfies `holds`. -/
def Through (step : σ → α → Option σ) (holds : σ → Prop) : σ → List α → Prop
  | s, [] => holds s
  | s, a :: rest => holds s ∧ ∀ next, step s a = some next → Through step holds next rest

def check (step : σ → α → Option σ) (ok : σ → α → Prop) [∀ s a, Decidable (ok s a)] : σ → List α → Bool
  | _, [] => true
  | s, a :: rest =>
      decide (ok s a) && match step s a with
        | some next => check step ok next rest
        | none => true

def trace (step : σ → α → Option σ) (emit : σ → α → List ε) : σ → List α → List ε
  | _, [] => []
  | s, a :: rest =>
      emit s a ++ match step s a with
        | some next => trace step emit next rest
        | none => []

@[simp] theorem exec_nil (step : σ → α → Option σ) (s : σ) : exec step s [] = some s := rfl

theorem exec_cons {step : σ → α → Option σ} {s final : σ} {a : α} {rest : List α} :
    exec step s (a :: rest) = some final ↔
      ∃ next, step s a = some next ∧ exec step next rest = some final := by
  simp [exec, Option.bind_eq_some_iff]

theorem exec_append {step : σ → α → Option σ} {s final : σ} {first second : List α} :
    exec step s (first ++ second) = some final ↔
      ∃ middle, exec step s first = some middle ∧ exec step middle second = some final := by
  induction first generalizing s with
  | nil => simp
  | cons a rest ih =>
      simp only [List.cons_append, exec_cons, ih]
      constructor
      · rintro ⟨next, taken, middle, left, right⟩
        exact ⟨middle, ⟨next, taken, left⟩, right⟩
      · rintro ⟨middle, ⟨next, taken, left⟩, right⟩
        exact ⟨next, taken, middle, left, right⟩

theorem exec_snoc {step : σ → α → Option σ} {s final : σ} {first : List α} {a : α} :
    exec step s (first ++ [a]) = some final ↔ ∃ middle, exec step s first = some middle ∧ step middle a = some final := by
  simp [exec_append, exec]

theorem trace_append {step : σ → α → Option σ} (emit : σ → α → List ε) {s middle : σ} {first : List α}
    (run : exec step s first = some middle) (second : List α) :
    trace step emit s (first ++ second) = trace step emit s first ++ trace step emit middle second := by
  induction first generalizing s with
  | nil =>
      rw [exec_nil, Option.some.injEq] at run
      rw [run, trace, List.nil_append, List.nil_append]
  | cons a rest ih =>
      obtain ⟨next, taken, run⟩ := exec_cons.mp run
      simp only [List.cons_append, trace, taken, ih run, List.append_assoc]

theorem trace_cons {step : σ → α → Option σ} (emit : σ → α → List ε) {s next : σ} {a : α} (taken : step s a = some next)
    (rest : List α) : trace step emit s (a :: rest) = emit s a ++ trace step emit next rest := by
  rw [trace, taken]

theorem Along.trivial (step : σ → α → Option σ) (s : σ) (actions : List α) :
    Along step (fun _ _ => True) s actions := by
  induction actions generalizing s with
  | nil => exact True.intro
  | cons a rest ih => exact ⟨True.intro, fun next _ => ih next⟩

theorem Along.of_forall {step : σ → α → Option σ} {ok : α → Prop} {s : σ} {actions : List α}
    (all : ∀ a ∈ actions, ok a) : Along step (fun _ a => ok a) s actions := by
  induction actions generalizing s with
  | nil => exact True.intro
  | cons a rest ih =>
      exact ⟨all a (by simp), fun next _ => ih fun b member => all b (List.mem_cons_of_mem _ member)⟩

theorem Along.mono {step : σ → α → Option σ} {ok ok' : σ → α → Prop} {s : σ} {actions : List α}
    (along : Along step ok s actions) (implies : ∀ s a, ok s a → ok' s a) : Along step ok' s actions := by
  induction actions generalizing s with
  | nil => exact True.intro
  | cons a rest ih => exact ⟨implies s a along.1, fun next taken => ih (along.2 next taken)⟩

theorem Along.implies {step : σ → α → Option σ} {enabled ok ok' : σ → α → Prop} {s : σ} {actions : List α}
    (along : Along step ok s actions) (invariant : σ → Prop) (implies : ∀ s a, invariant s → ok s a → ok' s a)
    (preserved : ∀ s a next, invariant s → enabled s a → step s a = some next → invariant next)
    (others : Along step enabled s actions) (initial : invariant s) : Along step ok' s actions := by
  induction actions generalizing s with
  | nil => exact True.intro
  | cons a rest ih =>
      refine ⟨implies s a initial along.1, fun next taken => ?_⟩
      exact ih (along.2 next taken) (others.2 next taken) (preserved s a next initial others.1 taken)

theorem Along.cons {step : σ → α → Option σ} {ok : σ → α → Prop} {s next : σ} {a : α} {rest : List α}
    (holds : ok s a) (taken : step s a = some next) (along : Along step ok next rest) :
    Along step ok s (a :: rest) := by
  refine ⟨holds, fun other taken' => ?_⟩
  obtain rfl := Option.some.inj (taken.symm.trans taken')
  exact along

theorem along_cons {step : σ → α → Option σ} {ok : σ → α → Prop} {s next : σ} {a : α} {rest : List α}
    (taken : step s a = some next) : Along step ok s (a :: rest) ↔ ok s a ∧ Along step ok next rest :=
  ⟨fun along => ⟨along.1, along.2 next taken⟩, fun along => .cons along.1 taken along.2⟩

theorem along_append {step : σ → α → Option σ} {ok : σ → α → Prop} {s middle : σ} {first second : List α}
    (along : Along step ok s (first ++ second)) (run : exec step s first = some middle) :
    Along step ok s first ∧ Along step ok middle second := by
  induction first generalizing s with
  | nil =>
      obtain rfl := Option.some.inj run
      exact ⟨True.intro, along⟩
  | cons a rest ih =>
      obtain ⟨next, taken, run⟩ := exec_cons.mp run
      obtain ⟨holds, later⟩ := (along_cons taken).mp along
      obtain ⟨before, after⟩ := ih later run
      exact ⟨.cons holds taken before, after⟩

theorem Along.append {step : σ → α → Option σ} {ok : σ → α → Prop} {s : σ} {first second : List α}
    (before : Along step ok s first) (after : ∀ middle, exec step s first = some middle → Along step ok middle second) :
    Along step ok s (first ++ second) := by
  induction first generalizing s with
  | nil => exact after s rfl
  | cons a rest ih =>
      refine ⟨before.1, fun next taken => ih (before.2 next taken) fun middle run => ?_⟩
      exact after middle (exec_cons.mpr ⟨next, taken, run⟩)

theorem Along.and {step : σ → α → Option σ} {ok ok' : σ → α → Prop} {s : σ} {actions : List α}
    (first : Along step ok s actions) (second : Along step ok' s actions) :
    Along step (fun s a => ok s a ∧ ok' s a) s actions := by
  induction actions generalizing s with
  | nil => exact True.intro
  | cons a rest ih =>
      exact ⟨⟨first.1, second.1⟩, fun next taken => ih (first.2 next taken) (second.2 next taken)⟩

theorem Along.of_check {step : σ → α → Option σ} {ok : σ → α → Prop} [∀ s a, Decidable (ok s a)] {s : σ}
    {actions : List α} (passes : check step ok s actions = true) : Along step ok s actions := by
  induction actions generalizing s with
  | nil => exact True.intro
  | cons a rest ih =>
      simp only [check, Bool.and_eq_true, decide_eq_true_eq] at passes
      refine ⟨passes.1, fun next taken => ih ?_⟩
      rw [taken] at passes
      exact passes.2

theorem exec_of_any {step : σ → α → Option σ} {start : Option σ} {actions : List α} {holds : σ → Bool}
    (passes : (start.bind fun s => exec step s actions).any holds = true) :
    ∃ s final, start = some s ∧ exec step s actions = some final ∧ holds final = true := by
  obtain ⟨final, run, meets⟩ := (Option.any_eq_true _ _).mp passes
  obtain ⟨s, begun, run⟩ := Option.bind_eq_some_iff.mp run
  exact ⟨s, final, begun, run, meets⟩

/-- What one step preserves, given that its action meets `ok`, a whole run preserves. -/
theorem Along.invariant {step : σ → α → Option σ} {ok : σ → α → Prop} (invariant : σ → Prop)
    (preserved : ∀ s a next, invariant s → ok s a → step s a = some next → invariant next)
    {s final : σ} {actions : List α} (along : Along step ok s actions)
    (initial : invariant s) (run : exec step s actions = some final) : invariant final := by
  induction actions generalizing s with
  | nil =>
      rw [exec_nil, Option.some.injEq] at run
      exact run ▸ initial
  | cons a rest ih =>
      obtain ⟨next, taken, run⟩ := exec_cons.mp run
      exact ih (along.2 next taken) (preserved s a next initial along.1 taken) run

theorem Through.initial {step : σ → α → Option σ} {holds : σ → Prop} {s : σ} {actions : List α}
    (through : Through step holds s actions) : holds s := by
  cases actions with
  | nil => exact through
  | cons a rest => exact through.1

/-- Where actions that meet `ok` preserve an invariant that implies `holds`, and
others break `holds` at once, `holds` stays true exactly along the runs of the former. -/
theorem Along.through_iff {step : σ → α → Option σ} {enabled ok : σ → α → Prop} {holds : σ → Prop} (invariant : σ → Prop)
    (implies : ∀ s, invariant s → holds s)
    (preserved : ∀ s a next, invariant s → enabled s a → ok s a → step s a = some next → invariant next)
    (breaks : ∀ s a, invariant s → enabled s a → ¬ ok s a → ∃ next, step s a = some next ∧ ¬ holds next)
    {s : σ} {actions : List α} (along : Along step enabled s actions) (initial : invariant s) :
    Through step holds s actions ↔ Along step ok s actions := by
  induction actions generalizing s with
  | nil => exact ⟨fun _ => True.intro, fun _ => implies s initial⟩
  | cons a rest ih =>
      constructor
      · intro through
        have meets : ok s a := by
          apply Classical.byContradiction
          intro fails
          obtain ⟨next, taken, broken⟩ := breaks s a initial along.1 fails
          exact broken (through.2 next taken).initial
        refine ⟨meets, fun next taken => ?_⟩
        exact (ih (along.2 next taken) (preserved s a next initial along.1 meets taken)).mp (through.2 next taken)
      · intro meets
        refine ⟨implies s initial, fun next taken => ?_⟩
        exact (ih (along.2 next taken) (preserved s a next initial along.1 meets.1 taken)).mpr (meets.2 next taken)

/-- Where actions that meet `ok` are `kept` and preserve an invariant, and others are not
`kept`, the two hold along the same runs. -/
theorem Along.iff_of {step : σ → α → Option σ} {ok kept : σ → α → Prop} (invariant : σ → Prop)
    (sound : ∀ s a, invariant s → ok s a → kept s a ∧ ∀ next, step s a = some next → invariant next)
    (breaks : ∀ s a, invariant s → ¬ ok s a → ¬ kept s a) {s : σ} (actions : List α) (initial : invariant s) :
    Along step kept s actions ↔ Along step ok s actions := by
  induction actions generalizing s with
  | nil => exact Iff.rfl
  | cons a rest ih =>
      constructor
      · intro along
        have meets : ok s a := by
          apply Classical.byContradiction
          intro fails
          exact breaks s a initial fails along.1
        exact ⟨meets, fun next taken => (ih ((sound s a initial meets).2 next taken)).mp (along.2 next taken)⟩
      · intro along
        obtain ⟨holds, later⟩ := sound s a initial along.1
        exact ⟨holds, fun next taken => (ih (later next taken)).mpr (along.2 next taken)⟩

theorem preserved_of_taken {step : σ → α → Option σ} {ok : σ → α → Prop} {invariant : σ → Prop}
    (taken : ∀ s a, invariant s → ok s a → ∃ next, step s a = some next ∧ invariant next) :
    ∀ s a next, invariant s → ok s a → step s a = some next → invariant next := by
  intro s a next holds meets run
  obtain ⟨other, run', after⟩ := taken s a holds meets
  exact Option.some.inj (run'.symm.trans run) ▸ after

theorem Along.congr {step : σ → α → Option σ} {enabled ok ok' : σ → α → Prop} (invariant : σ → Prop)
    (preserved : ∀ s a next, invariant s → enabled s a → step s a = some next → invariant next)
    (same : ∀ s a, invariant s → enabled s a → (ok s a ↔ ok' s a)) {s : σ} {actions : List α}
    (along : Along step enabled s actions) (initial : invariant s) :
    Along step ok s actions ↔ Along step ok' s actions := by
  induction actions generalizing s with
  | nil => exact Iff.rfl
  | cons a rest ih =>
      refine and_congr (same s a initial along.1) (forall₂_congr fun next taken => ?_)
      exact ih (along.2 next taken) (preserved s a next initial along.1 taken)

/-- Where no action that meets `ok` can fail, the run does not fail either. -/
theorem Along.progress {step : σ → α → Option σ} {ok : σ → α → Prop} (invariant : σ → Prop)
    (taken : ∀ s a, invariant s → ok s a → ∃ next, step s a = some next ∧ invariant next)
    {s : σ} {actions : List α} (along : Along step ok s actions) (initial : invariant s) :
    ∃ final, exec step s actions = some final ∧ invariant final := by
  induction actions generalizing s with
  | nil => exact ⟨s, rfl, initial⟩
  | cons a rest ih =>
      obtain ⟨next, step', holds⟩ := taken s a initial along.1
      obtain ⟨final, run, last⟩ := ih (along.2 next step') holds
      exact ⟨final, exec_cons.mpr ⟨next, step', run⟩, last⟩

theorem exec_invariant {step : σ → α → Option σ} (invariant : σ → Prop)
    (preserved : ∀ s a next, invariant s → step s a = some next → invariant next)
    {s final : σ} {actions : List α} (initial : invariant s)
    (run : exec step s actions = some final) : invariant final :=
  (Along.trivial step s actions).invariant invariant
    (fun s a next holds _ taken => preserved s a next holds taken) initial run

/-- Lock-step simulation: a machine that matches each step of another one runs along. -/
theorem exec_matched {step : σ → α → Option σ} {step' : τ → α → Option τ} (related : σ → τ → Prop)
    (matched : ∀ s a next t, related s t → step s a = some next → ∃ t', step' t a = some t' ∧ related next t')
    {s final : σ} {t : τ} {actions : List α} (initial : related s t) (run : exec step s actions = some final) :
    ∃ t', exec step' t actions = some t' ∧ related final t' := by
  induction actions generalizing s t with
  | nil =>
      rw [exec_nil, Option.some.injEq] at run
      exact ⟨t, rfl, run ▸ initial⟩
  | cons a rest ih =>
      obtain ⟨next, taken, run⟩ := exec_cons.mp run
      obtain ⟨middle, first, relation⟩ := matched s a next t initial taken
      obtain ⟨t', second, last⟩ := ih relation run
      exact ⟨t', exec_cons.mpr ⟨middle, first, second⟩, last⟩

/-- A machine that answers each action as another one does, where `ok` holds of that one, answers alike all along. -/
theorem Along.refines {step : σ → α → Option σ} {step' : τ → α → Option τ} {emit : σ → α → List ε} {emit' : τ → α → List ε}
    {ok : τ → α → Prop} (related : σ → τ → Prop)
    (matched : ∀ s t a, related s t → ok t a → ∃ next next', step s a = some next ∧ step' t a = some next' ∧
      related next next' ∧ emit s a = emit' t a)
    {s : σ} {t : τ} {actions : List α} (along : Along step' ok t actions) (initial : related s t) :
    trace step emit s actions = trace step' emit' t actions ∧
      ∃ final final', exec step s actions = some final ∧ exec step' t actions = some final' ∧ related final final' := by
  induction actions generalizing s t with
  | nil => exact ⟨rfl, s, t, rfl, rfl, initial⟩
  | cons a rest ih =>
      obtain ⟨next, next', taken, taken', relation, same⟩ := matched s t a initial along.1
      obtain ⟨events, final, final', run, run', last⟩ := ih (along.2 next' taken') relation
      refine ⟨?_, final, final', exec_cons.mpr ⟨next, taken, run⟩, exec_cons.mpr ⟨next', taken', run'⟩, last⟩
      rw [trace_cons emit taken, trace_cons emit' taken', events, same]

theorem Along.lockstep {step : σ → α → Option σ} {step' : τ → α → Option τ} {ok : σ → α → Prop} {ok' : τ → α → Prop}
    (related : σ → τ → Prop)
    (matched : ∀ s t a, related s t → ok' t a → ok s a ∧ ∃ next next', step s a = some next ∧ step' t a = some next' ∧
      related next next')
    {s : σ} {t : τ} {actions : List α} (along : Along step' ok' t actions) (initial : related s t) :
    Along step ok s actions ∧
      ∃ final final', exec step s actions = some final ∧ exec step' t actions = some final' ∧ related final final' := by
  induction actions generalizing s t with
  | nil => exact ⟨True.intro, s, t, rfl, rfl, initial⟩
  | cons a rest ih =>
      obtain ⟨meets, next, next', taken, taken', relation⟩ := matched s t a initial along.1
      obtain ⟨later, final, final', run, run', last⟩ := ih (along.2 next' taken') relation
      exact ⟨.cons meets taken later, final, final', exec_cons.mpr ⟨next, taken, run⟩,
        exec_cons.mpr ⟨next', taken', run'⟩, last⟩

/-- Forward simulation: the events a run emits drive the abstract machine
along, and the two machines stay related. -/
theorem Along.simulation {step : σ → α → Option σ} {emit : σ → α → List ε}
    {abstract : τ → ε → Option τ} {ok : σ → α → Prop} (related : σ → τ → Prop)
    (matched : ∀ s a next t, related s t → ok s a → step s a = some next →
      ∃ t', exec abstract t (emit s a) = some t' ∧ related next t')
    {s final : σ} {t : τ} {actions : List α} (along : Along step ok s actions)
    (initial : related s t) (run : exec step s actions = some final) :
    ∃ t', exec abstract t (trace step emit s actions) = some t' ∧ related final t' := by
  induction actions generalizing s t with
  | nil =>
      rw [exec_nil, Option.some.injEq] at run
      exact ⟨t, rfl, run ▸ initial⟩
  | cons a rest ih =>
      obtain ⟨next, taken, run⟩ := exec_cons.mp run
      obtain ⟨middle, first, relation⟩ := matched s a next t initial along.1 taken
      obtain ⟨t', second, final⟩ := ih (along.2 next taken) relation run
      refine ⟨t', ?_, final⟩
      simp only [trace, taken]
      exact exec_append.mpr ⟨middle, first, second⟩

end Runs
