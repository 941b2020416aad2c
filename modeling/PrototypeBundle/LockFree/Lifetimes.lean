import PrototypeBundle.LockFree.Sequential

set_option autoImplicit false

namespace PrototypeBundle.LockFree

open Memory Intrusive

inductive Mark where
  | allocated
  | constructed
  | destroyed
  | deleted
  deriving DecidableEq, Repr

namespace Mark

/-- Every life of a node and its value has been complete. -/
def Whole : List Mark → Prop
  | [] => True
  | allocated :: constructed :: destroyed :: deleted :: later => Whole later
  | _ => False

theorem whole_append {first second : List Mark} (whole : Whole first) : Whole (first ++ second) ↔ Whole second := by
  fun_induction Whole first with
  | case1 => simp
  | case2 later ih =>
      simp only [List.cons_append, Whole]
      exact ih whole
  | case3 => exact whole.elim

def about (a : Nat) (marks : List (Nat × Mark)) : List Mark := (marks.filter (·.1 = a)).map Prod.snd

theorem about_append (a : Nat) (first second : List (Nat × Mark)) :
    about a (first ++ second) = about a first ++ about a second := by
  simp [about]

theorem about_deleted (a : Nat) {L : List Nat} (nodup : L.Nodup) :
    about a (L.map fun b => (b, deleted)) = if a ∈ L then [deleted] else [] := by
  induction L with
  | nil => rfl
  | cons b L ih =>
      obtain ⟨fresh, rest⟩ := List.nodup_cons.mp nodup
      have tail := ih rest
      by_cases same : b = a
      · subst same
        rw [if_neg fresh] at tail
        simpa [about] using tail
      · simpa [about, same, Ne.symm same] using tail

end Mark

open Mark

inductive Outcome : List Nat → List (Nat × Mark) → Bool → List Nat → Prop where
  | push {L : List Nat} {node : Nat} (fresh : node ∉ L) :
      Outcome L [(node, allocated), (node, constructed)] true (node :: L)
  | popEmpty : Outcome [] [] true []
  | pop (node : Nat) (L : List Nat) : Outcome (node :: L) [(node, destroyed), (node, deleted)] true L
  | clear (L : List Nat) : Outcome L (L.map fun a => (a, deleted)) L.isEmpty []

inductive Outcomes : List Nat → List (Nat × Mark) → Bool → List Nat → Prop where
  | nil (L : List Nat) : Outcomes L [] true L
  | cons {L L₁ L₂ : List Nat} {marks later : List (Nat × Mark)} {ends endLater : Bool} (first : Outcome L marks ends L₁)
      (rest : Outcomes L₁ later endLater L₂) : Outcomes L (marks ++ later) (ends && endLater) L₂

structure Living (L : List Nat) (history : Nat → List Mark) : Prop where
  nodup : L.Nodup
  inside : ∀ a ∈ L, ∃ past, Whole past ∧ history a = past ++ [allocated, constructed]
  outside : ∀ a, a ∉ L → Whole (history a)

section Lives

variable {L L' : List Nat} {history : Nat → List Mark} {marks : List (Nat × Mark)}

theorem Living.step (living : Living L history) (outcome : Outcome L marks true L') :
    Living L' fun a => history a ++ about a marks := by
  generalize ended : true = ends at outcome
  cases outcome with
  | popEmpty => simpa [about] using living
  | @push _ node fresh =>
      refine ⟨List.nodup_cons.mpr ⟨fresh, living.nodup⟩, fun a member => ?_, fun a outside => ?_⟩
      · by_cases same : a = node
        · subst same
          exact ⟨history a, living.outside a fresh, by simp [about]⟩
        · obtain ⟨past, whole, known⟩ := living.inside a ((List.mem_cons.mp member).resolve_left same)
          exact ⟨past, whole, by simp [about, known, Ne.symm same]⟩
      · obtain ⟨different, absent⟩ := not_or.mp (fun h => outside (List.mem_cons.mpr h))
        simpa [about, Ne.symm different] using living.outside a absent
  | pop node =>
      obtain ⟨fresh, nodup⟩ := List.nodup_cons.mp living.nodup
      refine ⟨nodup, fun a member => ?_, fun a outside => ?_⟩
      · have different : node ≠ a := by
          rintro rfl
          exact fresh member
        obtain ⟨past, whole, known⟩ := living.inside a (List.mem_cons_of_mem _ member)
        exact ⟨past, whole, by simp [about, known, different]⟩
      · by_cases same : node = a
        · subst same
          obtain ⟨past, whole, known⟩ := living.inside node (List.mem_cons_self ..)
          simp [about, known, whole_append whole, Whole]
        · simpa [about, same] using living.outside a (by simp [outside, Ne.symm same])
  | clear =>
      obtain rfl : L = [] := List.isEmpty_iff.mp ended.symm
      simpa [about] using living

theorem Living.leak (living : Living L history) (outcome : Outcome L marks false L') (later : List (Nat × Mark)) :
    ∃ a, ¬ Whole (history a ++ about a (marks ++ later)) := by
  generalize ended : false = ends at outcome
  cases outcome with
  | popEmpty => cases ended
  | push => cases ended
  | pop => cases ended
  | clear =>
      cases L with
      | nil => cases ended
      | cons a L =>
          obtain ⟨past, whole, known⟩ := living.inside a (List.mem_cons_self ..)
          refine ⟨a, ?_⟩
          rw [known, about_append, about_deleted a living.nodup, if_pos (List.mem_cons_self ..), List.append_assoc,
            whole_append whole]
          exact fun impossible => impossible

/-- All lives are complete if and only if no call leaves values behind, and none is in the stack. -/
theorem Living.whole_iff {ends : Bool} (living : Living L history) (outcomes : Outcomes L marks ends L') :
    (∀ a, Whole (history a ++ about a marks)) ↔ ends = true ∧ L' = [] := by
  induction outcomes generalizing history with
  | nil L =>
      constructor
      · intro whole
        refine ⟨rfl, List.eq_nil_iff_forall_not_mem.mpr fun a member => ?_⟩
        obtain ⟨past, complete, known⟩ := living.inside a member
        have last := whole a
        rw [known, List.append_assoc, whole_append complete] at last
        exact last
      · rintro ⟨-, rfl⟩ a
        simpa [about] using living.outside a (by simp)
  | @cons L L₁ L₂ marks later ends endLater first rest ih =>
      cases ends with
      | true =>
          rw [Bool.true_and, ← ih (living.step first)]
          simp only [about_append, List.append_assoc]
      | false =>
          simp only [Bool.false_and, Bool.false_eq_true, false_and, iff_false, not_forall]
          exact living.leak first later

end Lives

section Execution

variable {V : Type} {s next final : State V} {t : Nat} {c c' : Client V}

-- What the next access of a client does to a node.
def Client.marks : Client V → List (Nat × Mark)
  | construct node _ => [(node, .constructed)]
  | destroyData unhooked _ => [(unhooked, .destroyed)]
  | delete collectable _ _ => [(collectable, .deleted)]
  | _ => []

def mark (s : State V) : Nat × Action V → List (Nat × Mark)
  | (_, .call _) => []
  | (_, .allocate node) => [(node, allocated)]
  | (t, .access _) => (s.clients t).marks

inductive Drives (t : Nat) : State V → List (Nat × Mark) → State V → Prop where
  | done {s : State V} (idle : s.clients t = .idle) : Drives t s [] s
  | access {s next final : State V} {marks : List (Nat × Mark)} (taken : s.access t false (s.clients t) = some next)
      (rest : Drives t next marks final) : Drives t s ((s.clients t).marks ++ marks) final

@[simp] theorem State.put_put (s : State V) (t : Nat) (c c' : Client V) : (s.put t c).put t c' = s.put t c' := by
  simp [State.put]

theorem access_put (s : State V) (t : Nat) (fails : Bool) (c c₀ : Client V) :
    (s.put t c₀).access t fails c = s.access t fails c := by
  cases c <;> simp only [State.access, State.put, Function.update_idem]

theorem Drives.step {marks : List (Nat × Mark)} (taken : s.access t false c = some next)
    (rest : Drives t next marks final) : Drives t (s.put t c) (c.marks ++ marks) final := by
  have self : (s.put t c).clients t = c := Function.update_self ..
  have access : (s.put t c).access t false ((s.put t c).clients t) = some next := by
    rw [self, access_put]
    exact taken
  have driven := Drives.access access rest
  rwa [self] at driven

theorem Drives.quiet {marks : List (Nat × Mark)} (taken : s.access t false c = some next) (quiet : c.marks = [])
    (rest : Drives t next marks final) : Drives t (s.put t c) marks final := by
  have driven := Drives.step taken rest
  rwa [quiet] at driven

theorem Drives.act {marks : List (Nat × Mark)} {m : Nat × Mark} (taken : s.access t false c = some next)
    (act : c.marks = [m]) (rest : Drives t next marks final) : Drives t (s.put t c) (m :: marks) final := by
  have driven := Drives.step taken rest
  rwa [act] at driven

theorem Drives.stop (s : State V) (t : Nat) : Drives t (s.put t .idle) [] (s.put t .idle) :=
  .done (Function.update_self ..)

theorem drives_link (s : State V) (t node : Nat) :
    Drives t (s.put t (.link node .load)) [] (({ s with
      nodes := modifyAt s.nodes node fun n => { n with next := s.head }
      head := some node
      size := s.size + 1 } : State V).put t .idle) := by
  let nodes := modifyAt s.nodes node fun n => { n with next := s.head }
  have exchanged : ({ s with nodes } : State V).access t false (.link node (.compareAndSwap (nodes node).next)) =
      some (({ s with nodes, head := some node } : State V).put t .countUp) := by
    simp [State.access, pushAccess, nodes, modifyAt_same]
  exact .quiet rfl rfl (.quiet rfl rfl (.quiet rfl rfl (.quiet exchanged rfl (.quiet rfl rfl (.stop _ t)))))

theorem drives_retire (s : State V) {t first last : Nat} {result : Result V} {marks : List (Nat × Mark)}
    (rest : Drives t (({ s with
      nodes := modifyAt s.nodes last fun n => { n with next := s.collectionHead }
      collectionHead := some first } : State V).put t (.loadCollection result)) marks final) :
    Drives t (s.put t (.retire first last .load result)) marks final := by
  refine .quiet rfl rfl (.quiet rfl rfl (.quiet rfl rfl (.quiet ?_ rfl rest)))
  simp [State.access, pushAccess, modifyAt_same]

theorem drives_delete {D : List Nat} {head : Option Nat} (t : Nat) (result : Result V) (chain : Chain s.next head D)
    (single : s.criticalClients = 1) :
    ∃ nodes, Drives t (s.put t (collectFrom result head)) (D.map fun a => (a, deleted))
        (({ s with nodes, criticalClients := 0 } : State V).put t .idle) ∧
      (∀ a, (nodes a).next = s.next a) ∧
      ∀ a, (nodes a).alive = true ↔ (s.nodes a).alive = true ∧ a ∉ D := by
  induction D generalizing s head with
  | nil =>
      obtain rfl := chain
      refine ⟨s.nodes, ?_, by simp, by simp⟩
      rw [collectFrom]
      refine .quiet ?_ rfl (.stop _ t)
      simp [State.access, single]
  | cons a D ih =>
      obtain ⟨rfl, chain⟩ := chain
      let s₁ : State V := { s with nodes := modifyAt s.nodes a fun n => { n with alive := false } }
      have next₁ (b : Nat) : s₁.next b = s.next b := by
        by_cases same : b = a <;> simp [s₁, State.next, modifyAt, same]
      obtain ⟨nodes, driven, next, alive⟩ := ih (s := s₁) (chain.congr fun b _ => next₁ b) single
      refine ⟨nodes, .quiet rfl rfl (.act rfl rfl driven), fun b => (next b).trans (next₁ b), fun b => ?_⟩
      rw [alive b]
      by_cases same : b = a <;> simp [s₁, modifyAt, same]

theorem drives_collect {D : List Nat} (t : Nat) (result : Result V) (chain : Chain s.next s.collectionHead D)
    (single : s.criticalClients = 1) :
    ∃ nodes, Drives t (s.put t (.loadCollection result)) (D.map fun a => (a, deleted))
        (({ s with nodes, criticalClients := 0, collectionHead := none } : State V).put t .idle) ∧
      (∀ a, (nodes a).next = s.next a) ∧
      ∀ a, (nodes a).alive = true ↔ (s.nodes a).alive = true ∧ a ∉ D := by
  obtain ⟨nodes, driven, next, alive⟩ :=
    drives_delete (s := { s with collectionHead := none }) t result chain single
  refine ⟨nodes, .quiet rfl rfl (.quiet (if_pos single) rfl (.quiet ?_ rfl driven)), next, alive⟩
  simp [State.access]

theorem drives_findTail (t first : Nat) {tail : Nat} {L : List Nat} (chain : Chain s.next (some tail) L) :
    ∃ last ∈ L, s.next last = none ∧ ∀ marks final,
      Drives t (s.put t (.retire first last .load .cleared)) marks final →
      Drives t (s.put t (.findTail first tail)) marks final := by
  induction L generalizing tail with
  | nil => simp at chain
  | cons a L ih =>
      obtain ⟨same, rest⟩ := chain
      obtain rfl := Option.some.inj same
      cases following : (s.nodes tail).next with
      | none =>
          refine ⟨tail, by simp, following, fun marks final => .quiet ?_ rfl⟩
          simp only [State.access]
          rw [following]
      | some next =>
          rw [State.next, following] at rest
          obtain ⟨last, inside, ends, driven⟩ := ih rest
          refine ⟨last, List.mem_cons_of_mem _ inside, ends, fun marks final finish => .quiet ?_ rfl (driven marks final finish)⟩
          simp only [State.access]
          rw [following]

structure Quiet (s : State V) (L : List Nat) : Prop where
  idle : ∀ u, s.clients u = .idle
  head : Chain s.next s.head L
  collection : s.collectionHead = none
  critical : s.criticalClients = 0
  alive : ∀ a, (s.nodes a).alive = true ↔ a ∈ L

variable {L : List Nat}

theorem Quiet.returned (quiet : Quiet s L) {nodes : Nat → Node V} {head : Option Nat} {size : BitVec 64} {L' : List Nat}
    (chain : Chain (fun a => (nodes a).next) head L') (alive : ∀ a, (nodes a).alive = true ↔ a ∈ L') :
    Quiet (({ s with nodes, head, size, collectionHead := none, criticalClients := 0 } : State V).put t .idle) L' where
  idle := by
    intro u
    by_cases same : u = t
    · rw [same]
      exact Function.update_self ..
    · exact (Function.update_of_ne same ..).trans (quiet.idle u)
  head := chain
  collection := rfl
  critical := rfl
  alive := alive

theorem Quiet.push (quiet : Quiet s L) {node : Nat} (value : V) (dead : (s.nodes node).alive = false) :
    ∃ final, Drives t (({ s with
        nodes := modifyAt s.nodes node fun n => { n with storage := none, alive := true } } : State V).put t
        (.construct node value)) [(node, constructed)] final ∧ Quiet final (node :: L) := by
  have fresh : node ∉ L := by
    rw [← quiet.alive, dead]
    simp
  have chain : Chain s.next s.head L := quiet.head
  have returned : Quiet (({ s with
      nodes := modifyAt (modifyAt (modifyAt s.nodes node fun n => { n with storage := none, alive := true }) node
        fun n => { n with storage := some value }) node fun n => { n with next := s.head }
      head := some node
      size := s.size + 1
      collectionHead := none
      criticalClients := 0 } : State V).put t .idle) (node :: L) := quiet.returned ?_ ?_
  · rw [← quiet.collection, ← quiet.critical] at returned
    exact ⟨_, .act rfl rfl (drives_link _ t node), returned⟩
  · refine chain.push (by simp [modifyAt]) fun a member => ?_
    have different : a ≠ node := by
      rintro rfl
      exact fresh member
    simp [modifyAt, different, State.next]
  · intro a
    by_cases same : a = node
    · simp [modifyAt, same]
    · simpa [modifyAt, same] using quiet.alive a

theorem drives_enterPop {marks : List (Nat × Mark)} {head : Option Nat} (single : s.criticalClients = 0)
    (found : s.head = head)
    (rest : Drives t (({ s with criticalClients := 1, size := s.size - 1 } : State V).put t (withHead head)) marks final) :
    Drives t (s.put t .enterPop) marks final := by
  have entered : s.criticalClients + 1 = 1 := by rw [single]; rfl
  refine .quiet rfl rfl (.quiet rfl rfl (.quiet rfl rfl ?_))
  simpa only [entered, found] using rest

theorem drives_readNext {marks : List (Nat × Mark)} {node : Nat} (found : s.head = some node)
    (rest : Drives t (({ s with
      head := s.next node
      nodes := modifyAt (modifyAt s.nodes node fun n => { n with storage := none }) node
        fun n => { n with next := s.collectionHead }
      collectionHead := some node } : State V).put t (.loadCollection (.popped (s.nodes node).storage))) marks final) :
    Drives t (s.put t (.readNext node)) ((node, destroyed) :: marks) final := by
  refine .quiet rfl rfl (.quiet (if_pos ⟨found, rfl⟩) rfl (.quiet rfl rfl (.act rfl rfl ?_)))
  exact drives_retire _ rest

theorem Quiet.pop (quiet : Quiet s L) (t : Nat) :
    ∃ marks final L', Drives t (s.put t .enterPop) marks final ∧ Outcome L marks true L' ∧ Quiet final L' := by
  cases L with
  | nil =>
      have null : s.head = none := quiet.head
      obtain ⟨nodes, driven, next, alive⟩ := drives_collect (s := { s with criticalClients := 1, size := s.size - 1 })
        (D := []) t (.popped none) quiet.collection rfl
      refine ⟨_, _, [], drives_enterPop quiet.critical null driven, .popEmpty, quiet.returned null fun a => ?_⟩
      exact (alive a).trans (by simpa using quiet.alive a)
  | cons node rest =>
      obtain ⟨found, chain⟩ : s.head = some node ∧ Chain s.next (s.next node) rest := quiet.head
      have fresh : node ∉ rest := (List.nodup_cons.mp quiet.head.nodup).1
      obtain ⟨nodes, driven, next, alive⟩ := drives_collect (D := [node]) t (.popped (s.nodes node).storage)
        (s := { s with
          criticalClients := 1
          size := s.size - 1
          head := s.next node
          nodes := modifyAt (modifyAt s.nodes node fun n => { n with storage := none }) node
            fun n => { n with next := s.collectionHead }
          collectionHead := some node })
        ⟨rfl, by simp [modifyAt, State.next, quiet.collection]⟩ rfl
      refine ⟨_, _, rest, drives_enterPop quiet.critical found (drives_readNext found driven), .pop node rest,
        quiet.returned (chain.congr fun a member => ?_) fun a => ?_⟩
      · have different : a ≠ node := by
          rintro rfl
          exact fresh member
        rw [next a]
        simp [State.next, modifyAt, different]
      · rw [alive a]
        by_cases same : a = node
        · simp [same, fresh]
        · simpa [modifyAt, same] using quiet.alive a

theorem drives_enterClear {marks : List (Nat × Mark)} (single : s.criticalClients = 0)
    (rest : Drives t (({ s with criticalClients := 1 } : State V).put t .detach) marks final) :
    Drives t (s.put t .enterClear) marks final := by
  have entered : s.criticalClients + 1 = 1 := by rw [single]; rfl
  refine .quiet rfl rfl ?_
  simpa only [entered] using rest

theorem Quiet.clear (quiet : Quiet s L) (t : Nat) :
    ∃ final, Drives t (s.put t .enterClear) (L.map fun a => (a, deleted)) final ∧ Quiet final [] := by
  cases L with
  | nil =>
      have null : s.head = none := quiet.head
      obtain ⟨nodes, driven, next, alive⟩ := drives_collect (s := { s with criticalClients := 1 })
        (D := []) t .cleared quiet.collection rfl
      refine ⟨_, drives_enterClear quiet.critical (.quiet ?_ rfl driven), quiet.returned null fun a => ?_⟩
      · simp [State.access, null]
      · exact (alive a).trans (by simpa using quiet.alive a)
  | cons first rest =>
      have chain : Chain s.next s.head (first :: rest) := quiet.head
      have found : s.head = some first := chain.1
      obtain ⟨last, inside, ends, finish⟩ := drives_findTail (s := { s with criticalClients := 1, head := none }) t
        first (found ▸ chain)
      -- the last node is linked to the collection, which is empty
      have detached : Chain (fun a => ((modifyAt s.nodes last fun n => { n with next := s.collectionHead }) a).next)
          (some first) (first :: rest) := by
        refine (found ▸ chain).congr fun a _ => ?_
        by_cases same : a = last
        · subst same
          simpa [modifyAt, quiet.collection] using ends.symm
        · simp [modifyAt, same, State.next]
      obtain ⟨nodes, driven, next, alive⟩ := drives_collect (D := first :: rest) t .cleared
        (s := { s with
          criticalClients := 1
          head := none
          nodes := modifyAt s.nodes last fun n => { n with next := s.collectionHead }
          collectionHead := some first })
        detached rfl
      refine ⟨_, drives_enterClear quiet.critical (.quiet ?_ rfl (finish _ _ (drives_retire _ driven))),
        quiet.returned rfl fun a => ?_⟩
      · simp [State.access, found]
      · have living := quiet.alive a
        rw [alive a]
        by_cases same : a = last
        · simp [same, inside]
        · simp only [modifyAt, if_neg same, living, List.not_mem_nil, iff_false, not_and, not_not]
          exact id

end Execution

section Histories

variable {V : Type} {s s₂ final : State V} {t : Nat} {L : List Nat}

def Drained (s : State V) : Nat × Action V → Prop
  | (_, .call .clear) => s.head = none
  | _ => True

structure Follows (s : State V) (actions : List (Nat × Action V)) (marks : List (Nat × Mark)) (s₂ : State V)
    (rest : List (Nat × Action V)) (final : State V) : Prop where
  run : Runs.exec State.step s₂ rest = some final
  marks : Runs.trace State.step mark s actions = marks ++ Runs.trace State.step mark s₂ rest
  sequential : Runs.Along State.step Sequential s₂ rest
  drained : Runs.Along State.step Drained s actions ↔ Runs.Along State.step Drained s₂ rest
  suffix : rest <:+ actions

theorem access_busy {fails : Bool} {next : State V} (taken : s.access t fails (s.clients t) = some next) :
    s.clients t ≠ .idle := by
  intro idle
  simp [idle, State.access] at taken

theorem Follows.cons {action : Nat × Action V} {next : State V} {marks : List (Nat × Mark)}
    {tail rest : List (Nat × Action V)} (follows : Follows next tail marks s₂ rest final)
    (taken : s.step action = some next) (drained : Drained s action) :
    Follows s (action :: tail) (mark s action ++ marks) s₂ rest final where
  run := follows.run
  marks := by rw [Runs.trace_cons mark taken, follows.marks, List.append_assoc]
  sequential := follows.sequential
  drained := by
    rw [Runs.along_cons taken, follows.drained]
    exact and_iff_right drained
  suffix := follows.suffix.trans (List.suffix_cons ..)

theorem Drives.follow {marks : List (Nat × Mark)} (driven : Drives t s marks s₂)
    (others : ∀ u, u ≠ t → s.clients u = .idle) {actions : List (Nat × Action V)}
    (sequential : Runs.Along State.step Sequential s actions) (genuine : ∀ a ∈ actions, a.2 ≠ .access true)
    (run : Runs.exec State.step s actions = some final) (idle : ∀ u, final.clients u = .idle) :
    ∃ rest, Follows s actions marks s₂ rest final := by
  induction driven generalizing actions with
  | done => exact ⟨actions, run, rfl, sequential, Iff.rfl, List.suffix_rfl⟩
  | @access s next _ marks taken _ ih =>
      have busy := access_busy taken
      cases actions with
      | nil =>
          obtain rfl := Option.some.inj run
          exact absurd (idle t) busy
      | cons first tail =>
          obtain ⟨next', step, later⟩ := Runs.exec_cons.mp run
          obtain ⟨u, action⟩ := first
          cases action with
          | call call => exact absurd (sequential.1 t) busy
          | allocate node =>
              by_cases same : u = t
              · subst same
                simp only [State.step] at step
                split at step
                case h_1 client => simp [client, State.access] at taken
                case h_2 => simp at step
              · simp [State.step, others u same] at step
          | access fails =>
              obtain rfl : u = t := by
                by_contra other
                simp [State.step, others u other, State.access] at step
              obtain rfl : fails = false := by
                cases fails with
                | false => rfl
                | true => exact absurd rfl (genuine _ (List.mem_cons_self ..))
              obtain rfl : next' = next := Option.some.inj (step.symm.trans taken)
              obtain ⟨rest, follows⟩ := ih (fun v other => (access_clients taken other).trans (others v other))
                (sequential.2 _ step) (fun a member => genuine a (List.mem_cons_of_mem _ member)) later
              exact ⟨rest, follows.cons step trivial⟩

theorem follow_push {value : V} {actions : List (Nat × Action V)} (quiet : Quiet s L)
    (sequential : Runs.Along State.step Sequential (s.put t (.allocate value)) actions)
    (genuine : ∀ a ∈ actions, a.2 ≠ .access true)
    (run : Runs.exec State.step (s.put t (.allocate value)) actions = some final)
    (idle : ∀ u, final.clients u = .idle) :
    ∃ node rest s₂, node ∉ L ∧ Quiet s₂ (node :: L) ∧
      Follows (s.put t (.allocate value)) actions [(node, allocated), (node, constructed)] s₂ rest final := by
  have self : (s.put t (.allocate value)).clients t = .allocate value := Function.update_self ..
  have others (u : Nat) (other : u ≠ t) : (s.put t (.allocate value)).clients u = .idle :=
    (Function.update_of_ne other ..).trans (quiet.idle u)
  cases actions with
  | nil =>
      obtain rfl := Option.some.inj run
      have returned := idle t
      rw [self] at returned
      cases returned
  | cons first tail =>
      obtain ⟨next, step, later⟩ := Runs.exec_cons.mp run
      obtain ⟨u, action⟩ := first
      obtain rfl : u = t := by
        by_contra other
        cases action with
        | call call =>
            have returned := sequential.1 t
            rw [self] at returned
            cases returned
        | allocate node => simp [State.step, others u other] at step
        | access fails => simp [State.step, others u other, State.access] at step
      cases action with
      | call call =>
          have returned := sequential.1 u
          rw [self] at returned
          cases returned
      | access fails =>
          rw [State.step, self] at step
          cases step
      | allocate node =>
          have taken := step
          simp only [State.step, self] at step
          split at step
          case isTrue => simp at step
          case isFalse dead =>
            rw [Option.some.injEq] at step
            have absent : node ∉ L := by
              rw [← quiet.alive]
              exact dead
            obtain ⟨s₂, driven, quiet'⟩ := quiet.push (t := u) value (by simpa [State.put] using dead)
            have arrived : ({ s with
                nodes := modifyAt s.nodes node fun n => { n with storage := none, alive := true } } : State V).put u
                (.construct node value) = next := by
              rw [← step]
              simp [State.put]
            rw [arrived] at driven
            obtain ⟨rest, follows⟩ := driven.follow
              (fun v other => by
                rw [← arrived]
                exact (Function.update_of_ne other ..).trans (quiet.idle v))
              (sequential.2 _ taken) (fun a member => genuine a (List.mem_cons_of_mem _ member)) later idle
            exact ⟨node, rest, s₂, absent, quiet', follows.cons taken trivial⟩

theorem Quiet.head_none (quiet : Quiet s L) : s.head = none ↔ L = [] := by
  constructor
  · exact fun null => quiet.head.head_none_iff.mp null
  · rintro rfl
    exact quiet.head

theorem Quiet.serve (quiet : Quiet s L) (call : Call V) {actions : List (Nat × Action V)}
    (sequential : Runs.Along State.step Sequential (s.put t (begin call)) actions)
    (genuine : ∀ a ∈ actions, a.2 ≠ .access true)
    (run : Runs.exec State.step (s.put t (begin call)) actions = some final) (idle : ∀ u, final.clients u = .idle) :
    ∃ marks ends L₁ s₂ rest, Outcome L marks ends L₁ ∧ Quiet s₂ L₁ ∧
      Follows (s.put t (begin call)) actions marks s₂ rest final ∧ (Drained s (t, .call call) ↔ ends = true) ∧
      (call = .clear → L₁ = []) := by
  have others (u : Nat) (other : u ≠ t) : (s.put t (begin call)).clients u = .idle :=
    (Function.update_of_ne other ..).trans (quiet.idle u)
  cases call with
  | push value =>
      obtain ⟨node, rest, s₂, fresh, quiet', follows⟩ := follow_push quiet sequential genuine run idle
      exact ⟨_, _, _, s₂, rest, .push fresh, quiet', follows, iff_of_true trivial rfl, by simp⟩
  | pop =>
      obtain ⟨marks, s₂, L₁, driven, outcome, quiet'⟩ := quiet.pop t
      obtain ⟨rest, follows⟩ := driven.follow others sequential genuine run idle
      exact ⟨marks, true, L₁, s₂, rest, outcome, quiet', follows, iff_of_true trivial rfl, by simp⟩
  | clear =>
      obtain ⟨s₂, driven, quiet'⟩ := quiet.clear t
      obtain ⟨rest, follows⟩ := driven.follow others sequential genuine run idle
      refine ⟨_, _, [], s₂, rest, .clear L, quiet', follows, ?_, fun _ => rfl⟩
      rw [List.isEmpty_iff]
      exact quiet.head_none

theorem Quiet.called (quiet : Quiet s L) {action : Action V} {next : State V} (taken : s.step (t, action) = some next) :
    ∃ call, action = .call call ∧ next = s.put t (begin call) := by
  cases action with
  | call call => exact ⟨call, rfl, by simpa [State.step, quiet.idle, eq_comm] using taken⟩
  | allocate node => simp [State.step, quiet.idle] at taken
  | access fails => simp [State.step, quiet.idle, State.access] at taken

theorem Quiet.outcomes (quiet : Quiet s L) {actions : List (Nat × Action V)}
    (sequential : Runs.Along State.step Sequential s actions) (genuine : ∀ a ∈ actions, a.2 ≠ .access true)
    (run : Runs.exec State.step s actions = some final) (idle : ∀ u, final.clients u = .idle) :
    ∃ ends L', Outcomes L (Runs.trace State.step mark s actions) ends L' ∧
      (Runs.Along State.step Drained s actions ↔ ends = true) ∧ Quiet final L' := by
  -- the rest of a run after a call is shorter
  generalize length : actions.length = n
  induction n using Nat.strong_induction_on generalizing s L actions with
  | _ n ih =>
      cases actions with
      | nil =>
          obtain rfl := Option.some.inj run
          exact ⟨true, L, .nil L, iff_of_true trivial rfl, quiet⟩
      | cons first tail =>
          obtain ⟨next, taken, later⟩ := Runs.exec_cons.mp run
          obtain ⟨t, action⟩ := first
          obtain ⟨call, rfl, rfl⟩ := quiet.called taken
          obtain ⟨marks, ends, L₁, s₂, rest, outcome, quiet₂, follows, drained, -⟩ :=
            quiet.serve call (sequential.2 _ taken) (fun a member => genuine a (List.mem_cons_of_mem _ member)) later idle
          have shorter := follows.suffix.length_le
          rw [List.length_cons] at length
          obtain ⟨ends', L', outcomes, drained', quiet'⟩ := ih rest.length (by omega) quiet₂ follows.sequential
            (fun a member => genuine a (List.mem_cons_of_mem _ (follows.suffix.subset member))) follows.run rfl
          refine ⟨ends && ends', L', ?_, ?_, quiet'⟩
          · rw [Runs.trace_cons mark taken, follows.marks]
            have both : Outcomes L (marks ++ Runs.trace State.step mark s₂ rest) (ends && ends') L' := .cons outcome outcomes
            exact both
          · rw [Runs.along_cons taken, drained, follows.drained, drained', Bool.and_eq_true]

theorem Quiet.cleared (quiet : Quiet s L) {actions : List (Nat × Action V)}
    (sequential : Runs.Along State.step Sequential s ((t, .call .clear) :: actions))
    (genuine : ∀ a ∈ actions, a.2 ≠ .access true) (last : ∀ a ∈ actions, ∀ call, a.2 ≠ .call call)
    (run : Runs.exec State.step s ((t, .call .clear) :: actions) = some final) (idle : ∀ u, final.clients u = .idle) :
    final.head = none := by
  obtain ⟨next, taken, later⟩ := Runs.exec_cons.mp run
  obtain ⟨call, same, rfl⟩ := quiet.called taken
  obtain rfl := Action.call.inj same
  obtain ⟨marks, ends, L₁, s₂, rest, -, quiet₂, follows, -, empty⟩ :=
    quiet.serve .clear (sequential.2 _ taken) genuine later idle
  have ended : rest = [] := by
    cases rest with
    | nil => rfl
    | cons first rest =>
        obtain ⟨next, taken, -⟩ := Runs.exec_cons.mp follows.run
        obtain ⟨u, action⟩ := first
        obtain ⟨call, rfl, -⟩ := quiet₂.called taken
        exact absurd rfl (last _ (follows.suffix.subset (List.mem_cons_self ..)) call)
  subst ended
  obtain rfl := Option.some.inj follows.run
  exact quiet₂.head_none.mpr (empty rfl)

theorem start_quiet : Quiet (start : State V) [] where
  idle := fun _ => rfl
  head := rfl
  collection := rfl
  critical := rfl
  alive := by simp [start]

end Histories

/-- The values and nodes of a stack that is destroyed at the end of a sequential run: `~stack` is a last `clear`. -/
theorem lives_whole_iff {V : Type} {earlier later : List (Nat × Action V)} {t : Nat} {final : State V}
    (sequential : Runs.Along State.step Sequential start (earlier ++ (t, .call .clear) :: later))
    (genuine : ∀ a ∈ earlier ++ (t, .call .clear) :: later, a.2 ≠ .access true)
    (last : ∀ a ∈ later, ∀ call, a.2 ≠ .call call)
    (run : Runs.exec State.step start (earlier ++ (t, .call .clear) :: later) = some final)
    (idle : ∀ u, final.clients u = .idle) :
    (∀ a, Whole (about a (Runs.trace State.step mark start (earlier ++ (t, .call .clear) :: later)))) ↔
      Runs.Along State.step Drained start (earlier ++ (t, .call .clear) :: later) := by
  obtain ⟨ends, L, outcomes, drained, quiet⟩ := start_quiet.outcomes sequential genuine run idle
  have empty : L = [] := by
    obtain ⟨middle, first, second⟩ := Runs.exec_append.mp run
    obtain ⟨before, rest⟩ := Runs.along_append sequential first
    have between : ∀ u, middle.clients u = .idle := rest.1
    obtain ⟨-, L', -, -, quiet'⟩ := start_quiet.outcomes before
      (fun a member => genuine a (List.mem_append_left _ member)) first between
    refine quiet.head_none.mp (quiet'.cleared rest (fun a member => ?_) last second idle)
    exact genuine a (List.mem_append_right _ (List.mem_cons_of_mem _ member))
  have living : Living [] fun _ => [] := ⟨List.nodup_nil, by simp, fun _ _ => trivial⟩
  have whole := living.whole_iff outcomes
  simp only [List.nil_append] at whole
  rw [whole, drained, and_iff_left empty]

instance {V : Type} (s : State V) : (action : Nat × Action V) → Decidable (Drained s action)
  | (_, .call .clear) => inferInstanceAs (Decidable (s.head = none))
  | (_, .call (.push _)) => isTrue trivial
  | (_, .call .pop) => isTrue trivial
  | (_, .allocate _) => isTrue trivial
  | (_, .access _) => isTrue trivial

def pushPop : List (Nat × Action Nat) := pushed 0 7 10 ++ (0, .call .pop) :: accesses 0 17

theorem allocates_seven {actions : List (Nat × Action Nat)} (only : ∀ a ∈ actions, ∀ node, a.2 = .allocate node → node = 7)
    (node : Nat) (member : (0, .allocate node) ∈ actions) : 0 < node ∧ node < 2 ^ 64 := by
  obtain rfl := only _ member node rfl
  decide

theorem lives_whole_pushPop :
    (Runs.exec State.step start (pushPop ++ (0, .call .clear) :: accesses 0 6)).isSome ∧
      ∀ a, Whole (about a (Runs.trace State.step mark start (pushPop ++ (0, .call .clear) :: accesses 0 6))) := by
  obtain ⟨s, run, returned⟩ : ∃ s, Runs.exec State.step start (pushPop ++ (0, .call .clear) :: accesses 0 6) = some s ∧
      s.clients 0 = .idle := ⟨_, rfl, rfl⟩
  obtain ⟨sequential, idle⟩ := all_idle (by decide) (allocates_seven (by simp [pushPop, pushed, accesses])) run returned
  refine ⟨run ▸ rfl, ?_⟩
  exact (lives_whole_iff sequential (by simp [pushPop, pushed, accesses]) (by simp [accesses]) run idle).mpr
    (.of_check (by decide +kernel))

theorem lives_leaked :
    ¬ ∀ (earlier later : List (Nat × Action Nat)) t final,
      Runs.Along State.step Sequential start (earlier ++ (t, .call .clear) :: later) →
      (∀ a ∈ earlier ++ (t, .call .clear) :: later, a.2 ≠ .access true) → (∀ a ∈ later, ∀ call, a.2 ≠ .call call) →
      Runs.exec State.step start (earlier ++ (t, .call .clear) :: later) = some final →
      (∀ u, final.clients u = .idle) →
      ∀ a, Whole (about a (Runs.trace State.step mark start (earlier ++ (t, .call .clear) :: later))) := by
  intro whole
  obtain ⟨s, run, returned⟩ : ∃ s, Runs.exec State.step start (pushed 0 7 10 ++ (0, .call .clear) :: accesses 0 13) = some s ∧
      s.clients 0 = .idle := ⟨_, rfl, rfl⟩
  obtain ⟨sequential, idle⟩ := all_idle (by decide) (allocates_seven (by simp [pushed, accesses])) run returned
  have marks : about 7 (Runs.trace State.step mark start (pushed 0 7 10 ++ (0, .call .clear) :: accesses 0 13)) =
      [allocated, constructed, deleted] := by decide +kernel
  have last := whole _ _ 0 s sequential (by simp [pushed, accesses]) (by simp [accesses]) run idle 7
  rw [marks] at last
  exact last

end PrototypeBundle.LockFree
