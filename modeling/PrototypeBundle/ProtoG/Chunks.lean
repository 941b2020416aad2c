import Mathlib.Data.List.Range
import Mathlib.Tactic.Ring
import PrototypeBundle.Shared.Countdown

set_option autoImplicit false

namespace PrototypeBundle.ProtoG

structure Span where
  offset : Nat
  length : Nat
deriving DecidableEq

def Span.elements (span : Span) : List Nat := List.range' span.offset span.length

-- `push_parallel`'s loop from `i` on, with `left` rounds to go.
def chunksFrom (jobDiv rem : Nat) : (left i stride : Nat) → List Span
  | 0, _, _ => []
  | left + 1, i, stride =>
      let offset := i * stride
      let stride := if i = jobDiv - 1 then stride + rem else stride
      ⟨offset, stride⟩ :: chunksFrom jobDiv rem left (i + 1) stride

def chunks (jobDiv size : Nat) : List Span := chunksFrom jobDiv (size % jobDiv) jobDiv 0 (size / jobDiv)

theorem chunksFrom_length (jobDiv rem left i stride : Nat) : (chunksFrom jobDiv rem left i stride).length = left := by
  induction left generalizing i stride with
  | zero => rfl
  | succ left ih => simp [chunksFrom, ih]

theorem chunks_length (jobDiv size : Nat) : (chunks jobDiv size).length = jobDiv := chunksFrom_length ..

theorem chunksFrom_elements (jobDiv rem : Nat) {left i stride : Nat} (remaining : i + (left + 1) = jobDiv) :
    (chunksFrom jobDiv rem (left + 1) i stride).flatMap Span.elements =
      List.range' (i * stride) ((left + 1) * stride + rem) := by
  induction left generalizing i with
  | zero =>
      have last : i = jobDiv - 1 := by omega
      simp [chunksFrom, ← last, Span.elements]
  | succ left ih =>
      have notLast : i ≠ jobDiv - 1 := by omega
      rw [chunksFrom]
      simp only [if_neg notLast, List.flatMap_cons, Span.elements]
      rw [ih (by omega)]
      have next : (i + 1) * stride = i * stride + stride := by ring
      have total : stride + ((left + 1) * stride + rem) = (left + 1 + 1) * stride + rem := by ring
      rw [← total, next, List.range'_append_1]

theorem chunks_elements {jobDiv : Nat} (positive : 0 < jobDiv) (size : Nat) :
    (chunks jobDiv size).flatMap Span.elements = List.range size := by
  obtain ⟨left, rfl⟩ := Nat.exists_eq_add_of_lt positive
  rw [chunks]
  simp only [Nat.zero_add]
  rw [chunksFrom_elements (left + 1) _ (by omega), Nat.zero_mul, Nat.div_add_mod, List.range_eq_range']

example : chunks 4 10 = [⟨0, 2⟩, ⟨2, 2⟩, ⟨4, 2⟩, ⟨6, 4⟩] := by decide

end PrototypeBundle.ProtoG
