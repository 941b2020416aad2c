import PrototypeBundle.Shared.Run
import Mathlib.Logic.Function.Basic
import Mathlib.Logic.Relation

set_option autoImplicit false

/-!
# Heaps of objects that refer to each other

What a program knows of its heap, wherever the objects lie: their values, and the references from
the root and from objects. A collection takes exactly the objects that the root does not reach.
-/

namespace ObjectHeap

variable {ν ρ α : Type}

structure Heap (ν ρ α : Type) where
  object : ν → Option α
  edge : ρ → Option (ν × ν)

inductive Event (ν ρ α : Type) where
  | allocate (node : ν) (value : α)
  | store (node : ν) (value : α)
  | link (ref : ρ) (source target : ν)
  | unlink (ref : ρ)
  | collect (dead : List (ν × α))

def Heap.empty : Heap ν ρ α := ⟨fun _ => none, fun _ => none⟩

def Heap.Owner (root : ν) (h : Heap ν ρ α) (n : ν) : Prop := n = root ∨ (h.object n).isSome

def Heap.Leads (h : Heap ν ρ α) (a b : ν) : Prop := ∃ r, h.edge r = some (a, b)

def Heap.Reached (root : ν) (h : Heap ν ρ α) (n : ν) : Prop := Relation.ReflTransGen h.Leads root n

/-- The objects that `dead` lists with their values are those to be taken, each once. -/
def Heap.Dead (root : ν) (h : Heap ν ρ α) (dead : List (ν × α)) : Prop :=
  (dead.map Prod.fst).Nodup ∧ ∀ n v, (n, v) ∈ dead ↔ h.object n = some v ∧ ¬ h.Reached root n

open Classical in
noncomputable def Heap.keep (root : ν) (h : Heap ν ρ α) : Heap ν ρ α where
  object n := if h.Reached root n then h.object n else none
  edge r := (h.edge r).filter fun e => h.Reached root e.1

def Heap.Closed (root : ν) (h : Heap ν ρ α) : Prop := ∀ r a b, h.edge r = some (a, b) → h.Owner root a ∧ h.Owner root b

variable {root : ν} {h : Heap ν ρ α}

theorem Heap.Closed.keep (closed : h.Closed root) : (h.keep root).Closed root := by
  intro r a b known
  obtain ⟨known, reached⟩ := Option.filter_eq_some_iff.mp known
  have from' : h.Reached root a := by simpa using reached
  obtain ⟨first, second⟩ := closed r a b known
  refine ⟨first.imp_right fun isObject => ?_, second.imp_right fun isObject => ?_⟩
  · simpa [Heap.keep, from'] using isObject
  · have next : h.Reached root b := from'.tail ⟨r, known⟩
    simpa [Heap.keep, next] using isObject

section Steps

variable [DecidableEq ν]

theorem Heap.Owner.update {n : ν} (owner : h.Owner root n) (m : ν) (v : α) :
    Heap.Owner root { h with object := Function.update h.object m (some v) } n := by
  refine owner.imp_right fun isObject => ?_
  by_cases same : n = m
  · subst same
    simp
  · simpa [same] using isObject

variable [DecidableEq ρ]

open Classical in
noncomputable def Heap.step (root : ν) (h : Heap ν ρ α) : Event ν ρ α → Option (Heap ν ρ α)
  | .allocate n v => if h.Owner root n then none else some { h with object := Function.update h.object n (some v) }
  | .store n v => if (h.object n).isSome then some { h with object := Function.update h.object n (some v) } else none
  | .link r a b =>
      if h.edge r = none ∧ h.Owner root a ∧ h.Owner root b then some { h with edge := Function.update h.edge r (some (a, b)) }
      else none
  | .unlink r => if (h.edge r).isSome then some { h with edge := Function.update h.edge r none } else none
  | .collect dead => if h.Dead root dead then some (h.keep root) else none

theorem Heap.step_closed (h : Heap ν ρ α) (event : Event ν ρ α) (next : Heap ν ρ α) (closed : h.Closed root)
    (taken : h.step root event = some next) : next.Closed root := by
  cases event with
  | allocate n v =>
      obtain ⟨-, taken⟩ := Option.ite_none_left_eq_some.mp taken
      obtain rfl := Option.some.inj taken
      exact fun r a b known => (closed r a b known).imp (·.update n v) (·.update n v)
  | store n v =>
      obtain ⟨-, taken⟩ := Option.ite_none_right_eq_some.mp taken
      obtain rfl := Option.some.inj taken
      exact fun r a b known => (closed r a b known).imp (·.update n v) (·.update n v)
  | link ref source target =>
      obtain ⟨⟨-, owners⟩, taken⟩ := Option.ite_none_right_eq_some.mp taken
      obtain rfl := Option.some.inj taken
      intro r a b known
      by_cases same : r = ref
      · subst same
        obtain ⟨rfl, rfl⟩ : source = a ∧ target = b := by simpa using known
        exact owners
      · exact closed r a b (by simpa [same] using known)
  | unlink ref =>
      obtain ⟨-, taken⟩ := Option.ite_none_right_eq_some.mp taken
      obtain rfl := Option.some.inj taken
      intro r a b known
      by_cases same : r = ref
      · subst same
        simp at known
      · exact closed r a b (by simpa [same] using known)
  | collect dead =>
      obtain ⟨-, taken⟩ := Option.ite_none_right_eq_some.mp taken
      obtain rfl := Option.some.inj taken
      exact closed.keep

theorem Heap.run_closed {events : List (Event ν ρ α)} {final : Heap ν ρ α}
    (run : Runs.exec (Heap.step root) Heap.empty events = some final) : final.Closed root :=
  Runs.exec_invariant (Heap.Closed root) Heap.step_closed (fun _ _ _ known => by cases known) run

end Steps

end ObjectHeap
