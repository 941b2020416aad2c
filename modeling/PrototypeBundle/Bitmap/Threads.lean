import PrototypeBundle.Bitmap.Map
import PrototypeBundle.Shared.Guarded
import PrototypeBundle.SpinLock.Mutexes
import Mathlib.Data.List.Nodup

set_option autoImplicit false

namespace PrototypeBundle.Bitmap

open Runs SpinLock Guarded

variable {op ret β : Type}

theorem answered_once {log : List (Nat × op × ret)} {responses : List (Nat × ret)} (f : ret → Option β)
    (answered : responses.Subperm (log.map fun entry => (entry.1, entry.2.2)))
    (once : ((answers log).filterMap fun answer => f answer.2).Nodup) : (responses.filterMap fun r => f r.2).Nodup := by
  obtain ⟨part, same, among⟩ := answered
  have returned : ((log.map fun entry => (entry.1, entry.2.2)).filterMap fun r => f r.2).Nodup := by
    rw [answers, List.filterMap_map, List.filterMap_reverse, List.nodup_reverse] at once
    rw [List.filterMap_map]
    exact once
  exact ((same.filterMap _).nodup_iff).mp (returned.sublist (among.filterMap _))

namespace Map

inductive Loc where
  | scan
  -- `data &= ~(1 << index)`
  | load (index : Int)
  | store (index : Int) (data : BitVec 64)

-- `none` for a shift that is undefined
def access (scan : BitVec 32 → Int) : Loc → BitVec 64 → BitVec 64 × (Loc ⊕ Option (BitVec 64))
  | .scan, data =>
      let index := scan (data.setWidth 32)
      (data, if index = 64 then .inr (some noBlock)
        else if 0 ≤ index ∧ index < 64 then .inl (.load index)
        else .inr none)
  | .load index, data => (data, .inl (.store index (data &&& ~~~(1#64 <<< index.toNat))))
  | .store index data, _ => (data, .inr (some (BitVec.ofInt 64 index)))

def apply (scan : BitVec 32 → Int) (data : BitVec 64) (_ : Unit) : BitVec 64 × Option (BitVec 64) :=
  match pop scan data with
  | some (block, rest) => (rest, some block)
  | none => (data, none)

theorem access_ends (scan : BitVec 32 → Int) (data : BitVec 64) :
    Finishes (access scan) .scan data (apply scan data ()) := by
  by_cases sentinel : scan (data.setWidth 32) = 64
  · have popped : apply scan data () = (data, some noBlock) := by simp only [apply, pop, if_pos sentinel]
    rw [popped]
    exact .last (by simp only [access, if_pos sentinel])
  · by_cases position : 0 ≤ scan (data.setWidth 32) ∧ scan (data.setWidth 32) < 64
    · have popped : apply scan data () = (data &&& ~~~(1#64 <<< (scan (data.setWidth 32)).toNat),
          some (BitVec.ofInt 64 (scan (data.setWidth 32)))) := by
        simp only [apply, pop, if_neg sentinel, if_pos position]
      rw [popped]
      exact .next (by simp only [access, if_neg sentinel, if_pos position]; rfl) (.next rfl (.last rfl))
    · have popped : apply scan data () = (data, none) := by simp only [apply, pop, if_neg sentinel, if_neg position]
      rw [popped]
      exact .last (by simp only [access, if_neg sentinel, if_neg position])

def guarded (scan : BitVec 32 → Int) : Guarded.Section (BitVec 64) Loc Unit (Option (BitVec 64)) where
  enter := fun _ => .scan
  access := access scan
  apply := apply scan
  ends := fun data _ => access_ends scan data

abbrev Threads := Guarded.State Bool DemoC.Code (BitVec 64) Loc Unit (Option (BitVec 64))

abbrev Access := Nat × Guarded.Action Unit Unit

def threadsStep (scan : BitVec 32 → Int) : Threads → Access → Option Threads :=
  Guarded.step DemoC.spinMutex (guarded scan)

def threadsEmit (scan : BitVec 32 → Int) : Threads → Access → List (Atomic.Event Unit (Option (BitVec 64))) :=
  Guarded.emit DemoC.spinMutex (guarded scan)

def threadsStart : Threads := Guarded.start DemoC.spinMutex initial

variable {scan : BitVec 32 → Int}

theorem legal_remaining (documented : Documented scan) {log : List (Nat × Unit × Option (BitVec 64))} {data : BitVec 64}
    (legal : Atomic.Legal (apply scan) initial log data) (few : log.length ≤ 32) :
    data = remaining log.length ∧
      (Guarded.answers log).map Prod.snd = (List.range log.length).map fun i => some (BitVec.ofNat 64 i) := by
  induction log generalizing data with
  | nil => exact ⟨legal, rfl⟩
  | cons entry log ih =>
      obtain ⟨t, o, r⟩ := entry
      obtain ⟨before, legal, applied⟩ := legal
      obtain ⟨rfl, earlier⟩ := ih legal (Nat.le_of_succ_le few)
      rw [apply, pop_remaining documented few, Prod.mk.injEq] at applied
      obtain ⟨rfl, rfl⟩ := applied
      refine ⟨rfl, ?_⟩
      rw [Guarded.answers, List.length_cons, List.range_succ, List.map_append, ← earlier]
      simp [Guarded.answers]

/-- No two of the first 32 pops get the same block, whichever threads make them. -/
theorem map_threads (documented : Documented scan) {actions : List Access} {s : Threads}
    (run : exec (threadsStep scan) threadsStart actions = some s) :
    (∀ t u, Guarded.Inside s t → Guarded.Inside s u → t = u) ∧
      ∃ x, exec (Atomic.Object.step (apply scan)) (Atomic.Object.initial initial)
          (trace (threadsStep scan) (threadsEmit scan) threadsStart actions) = some x ∧
        (x.log.length ≤ 32 → (∀ response ∈ x.responses, ∃ i < x.log.length, response.2 = some (BitVec.ofNat 64 i)) ∧
          (x.responses.filterMap Prod.snd).Nodup) := by
  obtain ⟨⟨x, abstract, ok, -⟩, exclusive⟩ := Guarded.linearizable run
  refine ⟨exclusive, x, abstract, fun few => ?_⟩
  have blocks := (legal_remaining documented ok.legal few).2
  have answered := ok.responses_subperm
  constructor
  · rintro ⟨t, r⟩ member
    have logged := answered.subset member
    obtain ⟨⟨u, o, r'⟩, among, same⟩ := List.mem_map.mp logged
    obtain rfl := (Prod.mk.inj same).2
    have listed : r' ∈ (Guarded.answers x.log).map Prod.snd :=
      List.mem_map.mpr ⟨(o, r'), List.mem_map.mpr ⟨(u, o, r'), List.mem_reverse.mpr among, rfl⟩, rfl⟩
    rw [blocks] at listed
    obtain ⟨i, bound, rfl⟩ := List.mem_map.mp listed
    exact ⟨i, List.mem_range.mp bound, rfl⟩
  · refine answered_once id answered ?_
    have once : ((List.range x.log.length).map fun i => BitVec.ofNat 64 i).Nodup := by
      refine List.Nodup.map_on (fun i first j second same => ?_) List.nodup_range
      have value := congrArg BitVec.toNat same
      rw [List.mem_range] at first second
      rwa [BitVec.toNat_ofNat, BitVec.toNat_ofNat, Nat.mod_eq_of_lt (by omega), Nat.mod_eq_of_lt (by omega)] at value
    have found : (Guarded.answers x.log).filterMap (fun answer => id answer.2) =
        (List.range x.log.length).map fun i => BitVec.ofNat 64 i := by
      calc
        _ = ((Guarded.answers x.log).map Prod.snd).filterMap id := List.filterMap_map.symm
        _ = ((List.range x.log.length).map fun i => some (BitVec.ofNat 64 i)).filterMap id := by rw [blocks]
        _ = _ := by
          rw [List.filterMap_map]
          exact congrFun (List.filterMap_eq_map (f := fun i => BitVec.ofNat 64 i)) _
    exact found ▸ once

-- Thread 1 spins while thread 0 takes block 0.
def twoPops : List Access :=
  [(0, .call ()), (1, .call ()), (0, .sync ()), (1, .sync ()), (0, .work), (0, .work), (1, .sync ()), (0, .work),
    (0, .sync ()), (1, .sync ()), (1, .sync ()), (1, .work), (1, .work), (1, .work), (1, .sync ())]

theorem map_threads_two : ∃ s x, exec (threadsStep (scanOr 64)) threadsStart twoPops = some s ∧
    exec (Atomic.Object.step (apply (scanOr 64))) (Atomic.Object.initial initial)
      (trace (threadsStep (scanOr 64)) (threadsEmit (scanOr 64)) threadsStart twoPops) = some x ∧
    x.responses = [(1, some 1), (0, some 0)] ∧
    (∀ response ∈ x.responses, ∃ i < x.log.length, response.2 = some (BitVec.ofNat 64 i)) ∧
    (x.responses.filterMap Prod.snd).Nodup := by
  obtain ⟨s, run⟩ : ∃ s, exec (threadsStep (scanOr 64)) threadsStart twoPops = some s :=
    Option.isSome_iff_exists.mp (by decide +kernel)
  obtain ⟨-, x, abstract, blocks⟩ := map_threads (scanOr_documented 64) run
  have results : ((exec (Atomic.Object.step (apply (scanOr 64))) (Atomic.Object.initial initial)
      (trace (threadsStep (scanOr 64)) (threadsEmit (scanOr 64)) threadsStart twoPops)).map fun x =>
        (x.log.length, x.responses)) = some (2, [(1, some 1), (0, some 0)]) := by decide +kernel
  rw [abstract] at results
  obtain ⟨count, responses⟩ := Prod.mk.inj (Option.some.inj results)
  have few : x.log.length ≤ 32 := by
    rw [count]
    decide
  exact ⟨s, x, run, abstract, responses, (blocks few).1, (blocks few).2⟩

end Map

namespace Stack

inductive Thread where
  | idle
  | load
  -- `old_head->next`
  | link (old : Nat)
  | exchange (old : Nat) (next : Option Nat)
  | answer (result : Option Nat)

structure Shared where
  stack : Stack
  threads : Nat → Thread

inductive Action where
  | call
  | access (spurious : Bool)
  deriving DecidableEq

-- What follows when `old_head` has been read.
def tested : Option Nat → Thread
  | none => .answer none
  | some old => .link old

def Thread.access (s : Stack) (spurious : Bool) : Thread → Option (Stack × Thread)
  | .idle => none
  | .load => some (s, tested s.head)
  | .link old => some (s, .exchange old (s.next old))
  | .exchange old next =>
      if spurious = false ∧ s.head = some old then some ({ s with head := next }, .answer (some old))
      else some (s, tested s.head)
  | .answer _ => some (s, .idle)

def Shared.step (s : Shared) : Nat × Action → Option Shared
  | (t, .call) =>
      match s.threads t with
      | .idle => some { s with threads := Function.update s.threads t .load }
      | _ => none
  | (t, .access spurious) =>
      ((s.threads t).access s.stack spurious).map fun next => ⟨next.1, Function.update s.threads t next.2⟩

def Thread.events (s : Stack) (t : Nat) (spurious : Bool) : Thread → List (Atomic.Event Unit (Option Nat))
  | .idle => []
  | .load => if s.head = none then [.commit t] else []
  | .link _ => []
  | .exchange old _ => if (spurious = false ∧ s.head = some old) ∨ s.head = none then [.commit t] else []
  | .answer result => [.respond t result]

/-- A pop takes effect with the exchange that succeeds, or when it sees that the stack is empty. -/
def Shared.emit (s : Shared) : Nat × Action → List (Atomic.Event Unit (Option Nat))
  | (t, .call) => [.call t ()]
  | (t, .access spurious) => (s.threads t).events s.stack t spurious

def shared : Shared := ⟨stack, fun _ => .idle⟩

def apply (head : Option Nat) (_ : Unit) : Option Nat × Option Nat := (head.bind stack.next, head)

def Thread.status : Thread → Atomic.Status Unit (Option Nat)
  | idle => .idle
  | load => .called ()
  | link _ => .called ()
  | exchange _ _ => .called ()
  | answer result => .done result

structure Related (s : Shared) (x : Atomic.Object (Option Nat) Unit (Option Nat)) : Prop where
  links : s.stack.next = stack.next
  head : x.state = s.stack.head
  read : ∀ t old next, s.threads t = .exchange old next → next = stack.next old
  status : ∀ t, x.status t = (s.threads t).status

variable {s s' : Shared} {x : Atomic.Object (Option Nat) Unit (Option Nat)} {t : Nat}

theorem Related.put (related : Related s x) {head : Option Nat} {thread : Thread}
    {x' : Atomic.Object (Option Nat) Unit (Option Nat)} {status : Atomic.Status Unit (Option Nat)}
    (state : x'.state = head) (statuses : x'.status = Function.update x.status t status) (same : status = thread.status)
    (read : ∀ old next, thread = .exchange old next → next = stack.next old) :
    Related ⟨{ s.stack with head }, Function.update s.threads t thread⟩ x' := by
  constructor
  · exact related.links
  · exact state
  · intro u old next at'
    by_cases equal : u = t
    · subst equal
      exact read old next ((Function.update_self ..).symm.trans at')
    · exact related.read u old next ((Function.update_of_ne equal ..).symm.trans at')
  · intro u
    simp only [statuses]
    by_cases equal : u = t
    · simp only [equal, Function.update_self, same]
    · simp only [Function.update_of_ne equal, related.status]

theorem Related.call (related : Related s x) (taken : s.step (t, .call) = some s') :
    ∃ x', exec (Atomic.Object.step apply) x (s.emit (t, .call)) = some x' ∧ Related s' x' := by
  simp only [Shared.step] at taken
  split at taken
  case h_1 idle =>
    obtain rfl := Option.some.inj taken
    have ready : x.status t = .idle := by rw [related.status, idle, Thread.status]
    exact ⟨_, exec_cons.mpr ⟨_, Atomic.Object.step_call () ready, rfl⟩, related.put related.head rfl rfl (by simp)⟩
  case h_2 => cases taken

theorem Related.quiet (related : Related s x) {thread : Thread} (same : thread.status = (s.threads t).status)
    (read : ∀ old next, thread = .exchange old next → next = stack.next old) :
    Related { s with threads := Function.update s.threads t thread } x :=
  related.put related.head (Function.update_eq_self ..).symm ((related.status t).trans same.symm) read

theorem Related.empty (related : Related s x) (called : x.status t = .called ()) (null : s.stack.head = none) :
    ∃ x', exec (Atomic.Object.step apply) x [.commit t] = some x' ∧
      Related { s with threads := Function.update s.threads t (.answer none) } x' := by
  refine ⟨_, exec_cons.mpr ⟨_, Atomic.Object.step_commit called, rfl⟩, ?_⟩
  have state : x.state = none := related.head.trans null
  refine related.put (?_ : _ = s.stack.head) rfl ?_ (by simp)
  · simp [apply, state, null]
  · simp [apply, state, Thread.status]

theorem Related.access (related : Related s x) {spurious : Bool} (taken : s.step (t, .access spurious) = some s') :
    ∃ x', exec (Atomic.Object.step apply) x (s.emit (t, .access spurious)) = some x' ∧ Related s' x' := by
  obtain ⟨⟨after, thread⟩, accessed, rfl⟩ := Option.map_eq_some_iff.mp taken
  have status := related.status t
  simp only [Shared.emit]
  cases at' : s.threads t with
  | idle => simp [at', Thread.access] at accessed
  | load =>
      rw [at', Thread.access, Option.some.injEq, Prod.mk.injEq] at accessed
      obtain ⟨rfl, rfl⟩ := accessed
      rw [at', Thread.status] at status
      cases head : s.stack.head with
      | none => simpa only [Thread.events, head, if_true, tested] using related.empty status head
      | some old =>
          simp only [Thread.events, head, reduceCtorEq, if_false]
          exact ⟨x, rfl, related.quiet (by rw [at']; rfl) (by simp [tested])⟩
  | link old =>
      rw [at', Thread.access, Option.some.injEq, Prod.mk.injEq] at accessed
      obtain ⟨rfl, rfl⟩ := accessed
      refine ⟨x, rfl, related.quiet (by rw [at']; rfl) ?_⟩
      rintro _ _ ⟨⟩
      rw [related.links]
  | exchange old next =>
      rw [at', Thread.status] at status
      rw [at', Thread.access] at accessed
      by_cases success : spurious = false ∧ s.stack.head = some old
      · rw [if_pos success, Option.some.injEq, Prod.mk.injEq] at accessed
        obtain ⟨rfl, rfl⟩ := accessed
        simp only [Thread.events, if_pos (Or.inl success)]
        refine ⟨_, exec_cons.mpr ⟨_, Atomic.Object.step_commit status, rfl⟩, ?_⟩
        have state : x.state = some old := related.head.trans success.2
        refine related.put (?_ : _ = next) rfl ?_ (by simp)
        · simp [apply, state, related.read t old next at']
        · simp [apply, state, Thread.status]
      · rw [if_neg success, Option.some.injEq, Prod.mk.injEq] at accessed
        obtain ⟨rfl, rfl⟩ := accessed
        cases head : s.stack.head with
        | none => simpa only [Thread.events, head, or_true, if_true, tested] using related.empty status head
        | some new =>
            have fails : ¬ ((spurious = false ∧ s.stack.head = some old) ∨ s.stack.head = none) := by
              rintro (taken | empty)
              · exact success taken
              · cases head.symm.trans empty
            rw [Thread.events, if_neg (head ▸ fails)]
            exact ⟨x, rfl, related.quiet (by rw [at']; rfl) (by simp [tested])⟩
  | answer result =>
      rw [at', Thread.access, Option.some.injEq, Prod.mk.injEq] at accessed
      obtain ⟨rfl, rfl⟩ := accessed
      rw [at', Thread.status] at status
      exact ⟨_, exec_cons.mpr ⟨_, Atomic.Object.step_respond status, rfl⟩, related.put related.head rfl rfl (by simp)⟩

theorem shared_related : Related shared (Atomic.Object.initial (some 0)) where
  links := rfl
  head := rfl
  read := by simp [shared]
  status := fun _ => rfl

theorem block_next (popped : Nat) : (block popped).bind stack.next = block (popped + 1) := by
  rw [block]
  split
  next inside => rw [Option.bind_some, stack_next, block]; grind
  next => rw [block]; grind

theorem legal_blocks {log : List (Nat × Unit × Option Nat)} {head : Option Nat}
    (legal : Atomic.Legal apply (some 0) log head) :
    head = block log.length ∧ (Guarded.answers log).map Prod.snd = (List.range log.length).map block := by
  induction log generalizing head with
  | nil => exact ⟨legal, rfl⟩
  | cons entry log ih =>
      obtain ⟨t, o, r⟩ := entry
      obtain ⟨before, legal, applied⟩ := legal
      obtain ⟨rfl, earlier⟩ := ih legal
      rw [apply, block_next, Prod.mk.injEq] at applied
      obtain ⟨rfl, rfl⟩ := applied
      refine ⟨rfl, ?_⟩
      rw [Guarded.answers, List.length_cons, List.range_succ, List.map_append, ← earlier]
      simp [Guarded.answers]

/-- The pops take the blocks in their order, each once, and null comes after all 64 of them. -/
theorem stack_threads {actions : List (Nat × Action)} {s : Shared} (run : exec Shared.step shared actions = some s) :
    ∃ x, exec (Atomic.Object.step apply) (Atomic.Object.initial (some 0)) (trace Shared.step Shared.emit shared actions) =
        some x ∧
      (Guarded.answers x.log).map Prod.snd = (List.range x.log.length).map block ∧
      x.responses.Subperm (x.log.map fun entry => (entry.1, entry.2.2)) ∧ (x.responses.filterMap Prod.snd).Nodup := by
  obtain ⟨x, abstract, related⟩ := (Along.trivial _ _ actions).simulation Related
    (fun _ a _ _ related _ taken => match a with
      | (_, .call) => related.call taken
      | (_, .access _) => related.access taken) shared_related run
  have ok := Atomic.Object.run_ok abstract
  obtain ⟨-, blocks⟩ := legal_blocks ok.legal
  refine ⟨x, abstract, blocks, ok.responses_subperm, answered_once id ok.responses_subperm ?_⟩
  have found : (Guarded.answers x.log).filterMap (fun answer => id answer.2) = (List.range x.log.length).filterMap block := by
    calc
      _ = ((Guarded.answers x.log).map Prod.snd).filterMap id := List.filterMap_map.symm
      _ = ((List.range x.log.length).map block).filterMap id := by rw [blocks]
      _ = _ := List.filterMap_map
  rw [found]
  refine List.Nodup.filterMap (fun i j b first second => ?_) List.nodup_range
  simp only [block, Option.mem_def, Option.ite_none_right_eq_some, Option.some.injEq] at first second
  exact first.2.trans second.2.symm

-- The exchange of thread 1 fails once, for thread 0 has taken block 0.
def overtaken : List (Nat × Action) :=
  [(0, .call), (1, .call), (0, .access false), (1, .access false), (0, .access false), (1, .access false),
    (0, .access false), (1, .access false), (1, .access false), (1, .access false), (0, .access false), (1, .access false)]

theorem stack_threads_overtaken : ∃ s x, exec Shared.step shared overtaken = some s ∧
    exec (Atomic.Object.step apply) (Atomic.Object.initial (some 0)) (trace Shared.step Shared.emit shared overtaken) =
      some x ∧ (x.responses.filterMap Prod.snd).Nodup := by
  obtain ⟨s, run⟩ : ∃ s, exec Shared.step shared overtaken = some s := ⟨_, rfl⟩
  obtain ⟨x, abstract, -, -, once⟩ := stack_threads run
  exact ⟨s, x, run, abstract, once⟩

end Stack

end PrototypeBundle.Bitmap
