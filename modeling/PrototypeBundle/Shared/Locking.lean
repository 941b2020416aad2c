import PrototypeBundle.Shared.Run
import Mathlib.Logic.Function.Basic

set_option autoImplicit false

/-!
# Locks

The code of a lock is a set of places, from each of which a thread makes one access to
the word of the lock.
-/

namespace Locking

open Runs

variable {ω κ γ : Type}

inductive Outcome (κ : Type) where
  | moves (k : κ)
  | acquires
  -- `try_lock` is false
  | refuses
  -- the lock is free again; `unlock` returns, or goes on at a place
  | releases (k : Option κ)
  | returns

def Outcome.Sound (held : ω → Bool) (releasing : κ → Bool) (k : κ) (w w' : ω) : Outcome κ → Prop
  | moves k' => held w' = held w ∧ releasing k' = releasing k
  | acquires => held w = false ∧ held w' = true ∧ releasing k = false
  | refuses => held w' = held w ∧ releasing k = false
  | releases next => releasing k = true ∧ held w' = false ∧ ∀ k', next = some k' → releasing k' = false
  | returns => held w' = held w ∧ releasing k = false

/-- The accesses of thread `t`, with a choice where more than one thing may happen; `none` if it is blocked.
Whoever is at a place of `unlock` before the release still owns the lock. -/
structure Lock (ω κ γ : Type) where
  initial : ω
  lock : κ
  tryLock : Option κ
  unlock : κ
  access : (t : Nat) → γ → κ → ω → Option (ω × Outcome κ)
  held : ω → Bool
  releasing : κ → Bool
  free : held initial = false
  entry : releasing lock = false ∧ (∀ k, tryLock = some k → releasing k = false) ∧ releasing unlock = true
  sound : ∀ t c k w w' outcome, access t c k w = some (w', outcome) → outcome.Sound held releasing k w w'

inductive Place (κ : Type) where
  | idle
  | code (k : κ)
  | holds

def Place.isIdle : Place κ → Bool
  | idle => true
  | _ => false

def Place.isHolds : Place κ → Bool
  | holds => true
  | _ => false

structure State (ω κ : Type) where
  word : ω
  threads : Nat → Place κ

inductive Action (γ : Type) where
  | lock
  | tryLock
  | unlock
  | access (c : γ)
  deriving DecidableEq

def State.put (s : State ω κ) (t : Nat) (place : Place κ) : State ω κ :=
  { s with threads := Function.update s.threads t place }

def Outcome.place : Outcome κ → Place κ
  | moves k => .code k
  | acquires => .holds
  | refuses => .idle
  | releases (some k) => .code k
  | releases none => .idle
  | returns => .idle

variable (L : Lock ω κ γ)

def Lock.start : State ω κ := ⟨L.initial, fun _ => .idle⟩

def Lock.step (s : State ω κ) : Nat × Action γ → Option (State ω κ)
  | (t, .lock) =>
      match s.threads t with
      | .idle => some (s.put t (.code L.lock))
      | _ => none
  | (t, .tryLock) =>
      match s.threads t, L.tryLock with
      | .idle, some k => some (s.put t (.code k))
      | _, _ => none
  | (t, .unlock) =>
      match s.threads t with
      | .holds => some (s.put t (.code L.unlock))
      | _ => none
  | (t, .access c) =>
      match s.threads t with
      | .code k => (L.access t c k s.word).map fun next => ({ s with word := next.1 } : State ω κ).put t next.2.place
      | _ => none

def Lock.owns : Place κ → Bool
  | .idle => false
  | .code k => L.releasing k
  | .holds => true

structure Lock.Inv (s : State ω κ) : Prop where
  exclusive : ∀ t u, L.owns (s.threads t) = true → L.owns (s.threads u) = true → t = u
  word : L.held s.word = true ↔ ∃ t, L.owns (s.threads t) = true

section Step

variable {L} {s s' : State ω κ} {t : Nat}

@[simp] theorem put_word (place : Place κ) : (s.put t place).word = s.word := rfl

@[simp] theorem put_self (place : Place κ) : (s.put t place).threads t = place := Function.update_self ..

theorem put_other {u : Nat} (other : u ≠ t) (place : Place κ) : (s.put t place).threads u = s.threads u :=
  Function.update_of_ne other ..

theorem owns_put (place : Place κ) (u : Nat) :
    L.owns ((s.put t place).threads u) = if u = t then L.owns place else L.owns (s.threads u) := by
  by_cases same : u = t
  · rw [same, put_self, if_pos rfl]
  · rw [put_other same, if_neg same]

theorem Lock.start_inv : L.Inv L.start where
  exclusive := by simp [start, owns]
  word := by simp [start, owns, L.free]

theorem Lock.Inv.keep (inv : L.Inv s) {w : ω} {place : Place κ} (word : L.held w = L.held s.word)
    (same : L.owns place = L.owns (s.threads t)) : L.Inv (({ s with word := w } : State ω κ).put t place) := by
  have owners (u : Nat) : L.owns ((({ s with word := w } : State ω κ).put t place).threads u) = L.owns (s.threads u) := by
    rw [owns_put]
    split
    next equal => rw [equal, same]
    next => rfl
  constructor
  · intro u v ownsU ownsV
    rw [owners] at ownsU ownsV
    exact inv.exclusive u v ownsU ownsV
  · simp only [put_word, owners, word]
    exact inv.word

theorem Lock.Inv.acquire (inv : L.Inv s) {w : ω} {place : Place κ} (before : L.held s.word = false)
    (after : L.held w = true) (gets : L.owns place = true) : L.Inv (({ s with word := w } : State ω κ).put t place) := by
  have nobody (u : Nat) : L.owns (s.threads u) = false := by
    rw [← Bool.not_eq_true]
    intro owns
    have held := inv.word.mpr ⟨u, owns⟩
    rw [before] at held
    cases held
  constructor
  · intro u v ownsU ownsV
    rw [owns_put] at ownsU ownsV
    by_cases sameU : u = t
    · by_cases sameV : v = t
      · rw [sameU, sameV]
      · simp [sameV, nobody] at ownsV
    · simp [sameU, nobody] at ownsU
  · refine iff_of_true after ⟨t, ?_⟩
    rw [put_self]
    exact gets

theorem Lock.Inv.release (inv : L.Inv s) {w : ω} {place : Place κ} (owner : L.owns (s.threads t) = true)
    (after : L.held w = false) (lost : L.owns place = false) :
    L.Inv (({ s with word := w } : State ω κ).put t place) := by
  have nobody (u : Nat) : L.owns ((({ s with word := w } : State ω κ).put t place).threads u) = false := by
    rw [owns_put]
    split
    next => exact lost
    next other =>
      rw [← Bool.not_eq_true]
      exact fun owns => other (inv.exclusive u t owns owner)
  constructor
  · intro u v ownsU
    rw [nobody] at ownsU
    cases ownsU
  · refine iff_of_false ?_ ?_
    · rw [put_word, after]
      exact Bool.false_ne_true
    · rintro ⟨u, owns⟩
      rw [nobody] at owns
      cases owns

theorem Lock.step_access {c : γ} (taken : L.step s (t, .access c) = some s') :
    ∃ k w outcome, s.threads t = .code k ∧ L.access t c k s.word = some (w, outcome) ∧
      s' = ({ s with word := w } : State ω κ).put t outcome.place := by
  simp only [step] at taken
  split at taken
  case h_1 k at' =>
    obtain ⟨⟨w, outcome⟩, accessed, rfl⟩ := Option.map_eq_some_iff.mp taken
    exact ⟨k, w, outcome, at', accessed, rfl⟩
  case h_2 => cases taken

theorem Lock.access_taken {c : γ} {k : κ} {w : ω} {outcome : Outcome κ} (at' : s.threads t = .code k)
    (accessed : L.access t c k s.word = some (w, outcome)) :
    L.step s (t, .access c) = some (({ s with word := w } : State ω κ).put t outcome.place) := by
  simp only [step, at', accessed, Option.map_some]

theorem Lock.step_lock (taken : L.step s (t, .lock) = some s') :
    s.threads t = .idle ∧ s' = s.put t (.code L.lock) := by
  simp only [step] at taken
  split at taken
  case h_1 idle => exact ⟨idle, (Option.some.inj taken).symm⟩
  case h_2 => cases taken

theorem Lock.step_tryLock (taken : L.step s (t, .tryLock) = some s') :
    ∃ k, s.threads t = .idle ∧ L.tryLock = some k ∧ s' = s.put t (.code k) := by
  simp only [step] at taken
  split at taken
  case h_1 k idle code => exact ⟨k, idle, code, (Option.some.inj taken).symm⟩
  case h_2 => cases taken

theorem Lock.step_unlock (taken : L.step s (t, .unlock) = some s') :
    s.threads t = .holds ∧ s' = s.put t (.code L.unlock) := by
  simp only [step] at taken
  split at taken
  case h_1 holds => exact ⟨holds, (Option.some.inj taken).symm⟩
  case h_2 => cases taken

theorem Lock.step_other {u : Nat} (other : u ≠ t) {a : Action γ} (taken : L.step s (t, a) = some s') :
    s'.threads u = s.threads u := by
  cases a with
  | lock =>
      obtain ⟨-, rfl⟩ := step_lock taken
      exact put_other other _
  | tryLock =>
      obtain ⟨k, -, -, rfl⟩ := step_tryLock taken
      exact put_other other _
  | unlock =>
      obtain ⟨-, rfl⟩ := step_unlock taken
      exact put_other other _
  | access c =>
      obtain ⟨k, w, outcome, -, -, rfl⟩ := step_access taken
      exact put_other other _

theorem Lock.Inv.accessed (inv : L.Inv s) {c : γ} {k : κ} {w : ω} {outcome : Outcome κ} (at' : s.threads t = .code k)
    (accessed : L.access t c k s.word = some (w, outcome)) :
    L.Inv (({ s with word := w } : State ω κ).put t outcome.place) := by
  have sound := L.sound t c k s.word w outcome accessed
  have owner : L.owns (s.threads t) = L.releasing k := by rw [at', owns]
  cases outcome with
  | moves k' => exact inv.keep sound.1 (sound.2.trans owner.symm)
  | acquires => exact inv.acquire sound.1 sound.2.1 rfl
  | refuses => exact inv.keep sound.1 (sound.2.symm.trans owner.symm)
  | releases next =>
      refine inv.release (owner.trans sound.1) sound.2.1 ?_
      cases next with
      | none => rfl
      | some k' => exact sound.2.2 k' rfl
  | returns => exact inv.keep sound.1 (sound.2.symm.trans owner.symm)

theorem Lock.Inv.step (inv : L.Inv s) {a : Nat × Action γ} (taken : L.step s a = some s') : L.Inv s' := by
  obtain ⟨t, action⟩ := a
  cases action with
  | lock =>
      obtain ⟨idle, rfl⟩ := step_lock taken
      exact inv.keep (w := s.word) rfl (by rw [idle, owns, owns, L.entry.1])
  | tryLock =>
      obtain ⟨k, idle, code, rfl⟩ := step_tryLock taken
      exact inv.keep (w := s.word) rfl (by rw [idle, owns, owns, L.entry.2.1 k code])
  | unlock =>
      obtain ⟨holds, rfl⟩ := step_unlock taken
      exact inv.keep (w := s.word) rfl (by rw [holds, owns, owns, L.entry.2.2])
  | access c =>
      obtain ⟨k, w, outcome, at', accessed, rfl⟩ := step_access taken
      exact inv.accessed at' accessed

theorem Lock.run_inv {actions : List (Nat × Action γ)} (run : exec L.step L.start actions = some s) : L.Inv s :=
  exec_invariant L.Inv (fun _ _ _ inv taken => inv.step taken) L.start_inv run

end Step

end Locking
