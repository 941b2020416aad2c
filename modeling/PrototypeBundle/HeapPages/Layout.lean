import PrototypeBundle.HeapPages.Page
import Mathlib.Data.List.Basic

set_option autoImplicit false

namespace PrototypeBundle.HeapPages

open Memory

variable {β : Type} {store store' : Store β} {buffer : Nat}

/-- `blocks` lie one behind the other from `start` to `last`. -/
def Laid (store : Store β) (buffer : Nat) : Nat → List (Block β) → Nat → Prop
  | start, [], last => start = last
  | start, b :: rest, last => store buffer start = some b ∧ Laid store buffer (start + b.size) rest last

def Filled (store : Store β) (page : Page) (blocks : List (Block β)) : Prop :=
  Laid store page.buffer 0 blocks page.offset

instance Laid.decidable [DecidableEq β] (store : Store β) (buffer : Nat) :
    (start : Nat) → (blocks : List (Block β)) → (last : Nat) → Decidable (Laid store buffer start blocks last)
  | start, [], last => inferInstanceAs (Decidable (start = last))
  | start, b :: rest, last =>
      have := Laid.decidable store buffer (start + b.size) rest last
      inferInstanceAs (Decidable (_ ∧ Laid store buffer (start + b.size) rest last))

instance [DecidableEq β] (store : Store β) : DecidableRel (Filled store) := fun _ _ =>
  inferInstanceAs (Decidable (Laid _ _ _ _ _))

theorem Laid.le {start last : Nat} {blocks : List (Block β)} (laid : Laid store buffer start blocks last) :
    start ≤ last := by
  induction blocks generalizing start with
  | nil => exact Nat.le_of_eq laid
  | cons b rest ih =>
      have later := ih laid.2
      omega

theorem Laid.congr {start last : Nat} {blocks : List (Block β)} (laid : Laid store buffer start blocks last)
    (same : ∀ at' b, start ≤ at' → at' + b.size ≤ last → store buffer at' = some b → store' buffer at' = some b) :
    Laid store' buffer start blocks last := by
  induction blocks generalizing start with
  | nil => exact laid
  | cons b rest ih =>
      obtain ⟨here, laid⟩ := laid
      refine ⟨same start b (Nat.le_refl _) laid.le here, ih laid fun at' b' after inside found => ?_⟩
      exact same at' b' (by omega) inside found

theorem Laid.concat {start last : Nat} {blocks : List (Block β)} {b : Block β}
    (laid : Laid store buffer start blocks last) (found : store buffer last = some b) :
    Laid store buffer start (blocks ++ [b]) (last + b.size) := by
  induction blocks generalizing start with
  | nil =>
      obtain rfl : start = last := laid
      exact ⟨found, rfl⟩
  | cons c rest ih => exact ⟨laid.1, ih laid.2⟩

theorem Laid.unique {start last : Nat} {blocks blocks' : List (Block β)} (laid : Laid store buffer start blocks last)
    (laid' : Laid store buffer start blocks' last) : blocks = blocks' := by
  induction blocks generalizing start blocks' with
  | nil =>
      cases blocks' with
      | nil => rfl
      | cons b rest =>
          have later := laid'.2.le
          have positive := b.size_pos
          have same : start = last := laid
          omega
  | cons b rest ih =>
      cases blocks' with
      | nil =>
          have later := laid.2.le
          have positive := b.size_pos
          have same : start = last := laid'
          omega
      | cons b' rest' =>
          obtain rfl := Option.some.inj (laid.1.symm.trans laid'.1)
          rw [ih laid.2 laid'.2]

section Write

variable {offset : Nat} {b : Block β}

theorem write_same : store.write buffer offset b buffer offset = some b := by simp [Store.write]

theorem write_other {other : Nat} (different : other ≠ buffer) :
    store.write buffer offset b other = store other := by
  funext at'
  simp [Store.write, different]

theorem write_before {at' : Nat} {old : Block β} (found : store buffer at' = some old) (before : at' + old.size ≤ offset) :
    store.write buffer offset b buffer at' = some old := by
  have positive := old.size_pos
  have apart : ¬ Overlap at' old.size offset b.size := fun meet => by
    have late := meet.2
    omega
  simp [Store.write, found, apart, show at' ≠ offset by omega]

theorem Laid.write_other {other start last : Nat} {blocks : List (Block β)} (laid : Laid store other start blocks last)
    (different : other ≠ buffer) : Laid (store.write buffer offset b) other start blocks last := by
  refine laid.congr fun at' old _ _ found => ?_
  rw [HeapPages.write_other different]
  exact found

theorem Laid.write {start : Nat} {blocks : List (Block β)} (laid : Laid store buffer start blocks offset) :
    Laid (store.write buffer offset b) buffer start (blocks ++ [b]) (offset + b.size) := by
  refine Laid.concat (laid.congr fun at' old _ inside found => ?_) write_same
  exact write_before found inside

end Write

def Pointed (ptr : Nat → Option (Nat × Nat)) (buffer : Nat) : Nat → List (Block β) → Prop
  | _, [] => True
  | start, b :: rest => ptr b.node = some (buffer, start + headerSize) ∧ Pointed ptr buffer (start + b.size) rest

theorem Pointed.congr {ptr ptr' : Nat → Option (Nat × Nat)} {start : Nat} {blocks : List (Block β)}
    (pointed : Pointed ptr buffer start blocks) (same : ∀ b ∈ blocks, ptr' b.node = ptr b.node) :
    Pointed ptr' buffer start blocks := by
  induction blocks generalizing start with
  | nil => exact True.intro
  | cons b rest ih =>
      refine ⟨(same b (by simp)).trans pointed.1, ih pointed.2 fun b' member => ?_⟩
      exact same b' (List.mem_cons_of_mem _ member)

theorem Pointed.concat {ptr : Nat → Option (Nat × Nat)} {start last : Nat} {blocks : List (Block β)} {b : Block β}
    (pointed : Pointed ptr buffer start blocks) (laid : Laid store buffer start blocks last)
    (here : ptr b.node = some (buffer, last + headerSize)) : Pointed ptr buffer start (blocks ++ [b]) := by
  induction blocks generalizing start with
  | nil =>
      obtain rfl : start = last := laid
      exact ⟨here, True.intro⟩
  | cons c rest ih => exact ⟨pointed.1, ih pointed.2 laid.2⟩

def addresses (buffer : Nat) : Nat → List (Block β) → List (Nat × Nat)
  | _, [] => []
  | start, b :: rest => (buffer, start) :: addresses buffer (start + b.size) rest

end PrototypeBundle.HeapPages
