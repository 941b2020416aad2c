import PrototypeBundle.Shared.Run

set_option autoImplicit false

/-!
# Stacks with removals

The most recently pushed element comes first.
-/

namespace Recency

variable {α : Type}

inductive Call (α : Type) where
  | push (v : α)
  | pop
  | detach (v : α)
  deriving DecidableEq, Repr

def answer (list : List α) : Call α → Option α
  | .push _ => none
  | .pop => list.head?
  | .detach _ => none

variable [DecidableEq α]

def rest (list : List α) : Call α → List α
  | .push v => v :: list
  | .pop => list.tail
  | .detach v => list.erase v

def step (list : List α) (call : Call α) : Option (List α) := some (rest list call)

def emit (list : List α) (call : Call α) : List (Call α × Option α) := [(call, answer list call)]

def Allowed (list : List α) : Call α → Prop
  | .push v => v ∉ list
  | .pop => True
  | .detach v => v ∈ list

instance (list : List α) (call : Call α) : Decidable (Allowed list call) :=
  match call with
  | .push v => inferInstanceAs (Decidable (v ∉ list))
  | .pop => inferInstanceAs (Decidable True)
  | .detach v => inferInstanceAs (Decidable (v ∈ list))

theorem rest_nodup {list : List α} {call : Call α} (distinct : list.Nodup) (allowed : Allowed list call) :
    (rest list call).Nodup := by
  cases call with
  | push v => exact List.nodup_cons.mpr ⟨allowed, distinct⟩
  | pop => exact distinct.sublist (List.tail_sublist list)
  | detach v => exact distinct.sublist (List.erase_sublist ..)

end Recency
