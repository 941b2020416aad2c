import PrototypeBundle.Shared.ObjectHeap

set_option autoImplicit false

/-!
# Variables that refer to objects

What a program means by its pointers to collected objects. A variable belongs to the root or to an
object, and objects go with their variables once no variables lead to them from the root.
-/

namespace Variables

open ObjectHeap

variable {ν π α : Type}

structure Environment (ν π α : Type) where
  object : ν → Option α
  -- who owns a variable, and what it refers to
  pointer : π → Option (ν × Option ν)
  -- the objects whose constructors run, the innermost first
  building : List ν

inductive Action (ν π α : Type) where
  | allocate (node : ν) (value : α)
  | construct (p : π)
  | default (p : π)
  | copyNew (p v : π)
  | moveNew (p v : π)
  | copyAssign (p v : π)
  | moveAssign (p v : π)
  | destroy (p : π)
  | store (p : π) (value : α)
  | collect (dead : List (ν × α))

def Environment.empty : Environment ν π α := ⟨fun _ => none, fun _ => none, []⟩

/-- The variables that are not null are the references between objects. -/
def Environment.heap (s : Environment ν π α) : Heap ν π α where
  object := s.object
  edge p := (s.pointer p).bind fun (owner, target) => target.map fun n => (owner, n)

def Environment.get (s : Environment ν π α) (p : π) : Option α := (s.pointer p).bind fun (_, target) => target.bind s.object

def Environment.creator (root : ν) (s : Environment ν π α) : ν := s.building.headD root

open Classical in
noncomputable def Environment.keep (root : ν) (s : Environment ν π α) : Environment ν π α where
  object := (s.heap.keep root).object
  pointer p := (s.pointer p).filter fun (owner, _) => s.heap.Reached root owner
  building := s.building

/-- Every variable has an owner, and refers to an object if it is not null. -/
structure Environment.Sound (root : ν) (s : Environment ν π α) : Prop where
  owner : ∀ p owner target, s.pointer p = some (owner, target) → s.heap.Owner root owner
  target : ∀ p owner n, s.pointer p = some (owner, some n) → (s.object n).isSome
  built : ∀ n ∈ s.building, (s.object n).isSome

variable {root : ν} {s next : Environment ν π α}

theorem Environment.empty_sound : (Environment.empty : Environment ν π α).Sound root where
  owner := by simp [empty]
  target := by simp [empty]
  built := by simp [empty]

theorem Environment.heap_edge (s : Environment ν π α) (p : π) (a b : ν) :
    s.heap.edge p = some (a, b) ↔ s.pointer p = some (a, some b) := by
  rcases known : s.pointer p with _ | ⟨owner, _ | n⟩ <;> simp [heap, known]

theorem Environment.Sound.get_isSome (sound : s.Sound root) {p : π} {owner n : ν} (found : s.pointer p = some (owner, some n)) :
    (s.get p).isSome := by
  rw [Environment.get, found]
  exact sound.target p owner n found

theorem Environment.Sound.creator (sound : s.Sound root) : s.heap.Owner root (s.creator root) := by
  rw [Environment.creator]
  cases building : s.building with
  | nil => exact Or.inl rfl
  | cons n rest => exact Or.inr (sound.built n (by simp [building]))

theorem Environment.Sound.keep (sound : s.Sound root) (idle : s.building = []) : (s.keep root).Sound root := by
  have kept {n : ν} (reached : s.heap.Reached root n) : (s.keep root).object n = s.object n := if_pos reached
  constructor
  · intro p a target found
    obtain ⟨found, reached⟩ := Option.filter_eq_some_iff.mp found
    refine (sound.owner p a target found).imp_right fun isObject => ?_
    change ((s.keep root).object a).isSome
    rwa [kept (by simpa using reached)]
  · intro p a n found
    obtain ⟨found, reached⟩ := Option.filter_eq_some_iff.mp found
    have fromRoot : s.heap.Reached root a := by simpa using reached
    rw [kept (fromRoot.tail ⟨p, (s.heap_edge p a n).mpr found⟩)]
    exact sound.target p a n found
  · intro n inside
    rw [Environment.keep, idle] at inside
    cases inside

section Put

variable [DecidableEq π]

def Environment.put (s : Environment ν π α) (p : π) (entry : Option (ν × Option ν)) : Environment ν π α :=
  { s with pointer := Function.update s.pointer p entry }

theorem Environment.put_cases {p q : π} {entry : Option (ν × Option ν)} {known : ν × Option ν}
    (found : (s.put p entry).pointer q = some known) : entry = some known ∨ s.pointer q = some known := by
  change Function.update s.pointer p entry q = some known at found
  by_cases same : q = p
  · rw [same, Function.update_self] at found
    exact Or.inl found
  · rw [Function.update_of_ne same] at found
    exact Or.inr found

theorem Environment.Sound.put (sound : s.Sound root) (p : π) {entry : Option (ν × Option ν)}
    (owned : ∀ owner target, entry = some (owner, target) → s.heap.Owner root owner)
    (aimed : ∀ owner n, entry = some (owner, some n) → (s.object n).isSome) : (s.put p entry).Sound root where
  owner q a target found := (put_cases found).elim (owned a target) (sound.owner q a target)
  target q a n found := (put_cases found).elim (aimed a n) (sound.target q a n)
  built := sound.built

end Put

section Write

variable [DecidableEq ν]

def Environment.write (s : Environment ν π α) (n : ν) (value : α) : Environment ν π α :=
  { s with object := Function.update s.object n (some value) }

theorem Environment.write_isSome (s : Environment ν π α) (n : ν) (value : α) {m : ν} (isObject : (s.object m).isSome) :
    ((s.write n value).object m).isSome := by
  rw [write]
  by_cases same : m = n
  · subst same
    simp
  · simpa [same] using isObject

theorem Environment.Sound.write (sound : s.Sound root) (n : ν) (value : α) : (s.write n value).Sound root where
  owner p a target found := (sound.owner p a target found).imp_right (s.write_isSome n value)
  target p a m found := s.write_isSome n value (sound.target p a m found)
  built m inside := s.write_isSome n value (sound.built m inside)

end Write

section Steps

variable [DecidableEq ν] [DecidableEq π]

open Classical in
noncomputable def Environment.step (root : ν) (s : Environment ν π α) : Action ν π α → Option (Environment ν π α)
  | .allocate n value =>
      if s.heap.Owner root n then none else some { s.write n value with building := n :: s.building }
  | .construct p =>
      match s.building, s.pointer p with
      | n :: building, none => some ({ s with building }.put p (some (building.headD root, some n)))
      | _, _ => none
  | .default p =>
      match s.pointer p with
      | none => some (s.put p (some (s.creator root, none)))
      | some _ => none
  | .copyNew p v =>
      match s.pointer p, s.pointer v with
      | none, some (_, target) => some (s.put p (some (s.creator root, target)))
      | _, _ => none
  | .moveNew p v =>
      match s.pointer p, s.pointer v with
      | none, some (owner, target) =>
          some ((s.put v (some (owner, none))).put p (some (s.creator root, target)))
      | _, _ => none
  | .copyAssign p v =>
      match s.pointer p, s.pointer v with
      | some (owner, _), some (_, target) => some (s.put p (some (owner, target)))
      | _, _ => none
  | .moveAssign p v =>
      match s.pointer p, s.pointer v with
      | some (owner, target), some (owner', target') =>
          some ((s.put v (some (owner', target))).put p (some (owner, target')))
      | _, _ => none
  | .destroy p =>
      match s.pointer p with
      | some _ => some (s.put p none)
      | none => none
  | .store p value =>
      match s.pointer p with
      | some (_, some n) => some (s.write n value)
      | _ => none
  | .collect dead => if s.building = [] ∧ s.heap.Dead root dead then some (s.keep root) else none

theorem Environment.step_sound (s : Environment ν π α) (action : Action ν π α) (next : Environment ν π α)
    (sound : s.Sound root) (taken : s.step root action = some next) : next.Sound root := by
  cases action with
  | allocate n value =>
      obtain ⟨-, taken⟩ := Option.ite_none_left_eq_some.mp taken
      obtain rfl := Option.some.inj taken
      have written := sound.write n value
      refine ⟨written.owner, written.target, fun m inside => ?_⟩
      rcases List.mem_cons.mp inside with rfl | inside
      · simp [Environment.write]
      · exact written.built m inside
  | construct p =>
      simp only [step] at taken
      split at taken
      · rename_i n building running absent
        obtain rfl := Option.some.inj taken
        have shorter : ({ s with building } : Environment ν π α).Sound root :=
          ⟨sound.owner, sound.target, fun m inside => sound.built m (by simp [running, inside])⟩
        refine shorter.put p ?_ ?_
        · rintro owner target ⟨⟩
          exact shorter.creator
        · rintro owner m ⟨⟩
          exact sound.built n (by simp [running])
      · cases taken
  | default p =>
      simp only [step] at taken
      split at taken
      · obtain rfl := Option.some.inj taken
        refine sound.put p ?_ ?_
        · rintro owner target ⟨⟩
          exact sound.creator
        · rintro owner n ⟨⟩
      · cases taken
  | copyNew p v =>
      simp only [step] at taken
      split at taken
      · rename_i source target absent found
        obtain rfl := Option.some.inj taken
        refine sound.put p ?_ ?_
        · rintro owner target ⟨⟩
          exact sound.creator
        · rintro owner n ⟨⟩
          exact sound.target v source n found
      · cases taken
  | moveNew p v =>
      simp only [step] at taken
      split at taken
      · rename_i source target absent found
        obtain rfl := Option.some.inj taken
        have emptied : (s.put v (some (source, none))).Sound root := by
          refine sound.put v ?_ ?_
          · rintro owner t ⟨⟩
            exact sound.owner v source target found
          · rintro owner n ⟨⟩
        refine emptied.put p ?_ ?_
        · rintro owner t ⟨⟩
          exact sound.creator
        · rintro owner n ⟨⟩
          exact sound.target v source n found
      · cases taken
  | copyAssign p v =>
      simp only [step] at taken
      split at taken
      · rename_i owner old source target known found
        obtain rfl := Option.some.inj taken
        refine sound.put p ?_ ?_
        · rintro a t ⟨⟩
          exact sound.owner p owner old known
        · rintro a n ⟨⟩
          exact sound.target v source n found
      · cases taken
  | moveAssign p v =>
      simp only [step] at taken
      split at taken
      · rename_i owner target owner' target' known found
        obtain rfl := Option.some.inj taken
        have first : (s.put v (some (owner', target))).Sound root := by
          refine sound.put v ?_ ?_
          · rintro a t ⟨⟩
            exact sound.owner v owner' target' found
          · rintro a n ⟨⟩
            exact sound.target p owner n known
        refine first.put p ?_ ?_
        · rintro a t ⟨⟩
          exact sound.owner p owner target known
        · rintro a n ⟨⟩
          exact sound.target v owner' n found
      · cases taken
  | destroy p =>
      simp only [step] at taken
      split at taken
      · obtain rfl := Option.some.inj taken
        exact sound.put p (by rintro owner target ⟨⟩) (by rintro owner n ⟨⟩)
      · cases taken
  | store p value =>
      simp only [step] at taken
      split at taken
      · obtain rfl := Option.some.inj taken
        exact sound.write _ value
      · cases taken
  | collect dead =>
      obtain ⟨⟨idle, -⟩, taken⟩ := Option.ite_none_right_eq_some.mp taken
      obtain rfl := Option.some.inj taken
      exact sound.keep idle

end Steps

end Variables
