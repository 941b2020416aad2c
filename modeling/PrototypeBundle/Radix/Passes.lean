import PrototypeBundle.Radix.Sort
import PrototypeBundle.Shared.Buckets

set_option autoImplicit false

namespace PrototypeBundle.Radix

open Buckets

/-- Up to `n` the counters do not wrap and do not overflow. -/
def Exact (add : Nat → Nat → Option Nat) (n : Nat) : Prop := ∀ a b, a + b ≤ n → add a b = some (a + b)

theorem addUint32_exact {n : Nat} (bound : n < 2 ^ 32) : Exact addUint32 n := by
  intro a b small
  rw [addUint32, Nat.mod_eq_of_lt (by omega)]

theorem addInt_exact {n : Nat} (bound : n < 2 ^ 31) : Exact addInt n := by
  intro a b small
  rw [addInt, if_pos (by omega)]

theorem byteAt_lt (radix : Nat) (item : RenderCommand) : byteAt radix item < 256 := Nat.mod_lt _ (by omega)

section Counting

variable {add : Nat → Nat → Option Nat} {n : Nat} (exact' : Exact add n) (radix : Nat)

include exact'

theorem hit_spec {histograph : Histograph} {item : RenderCommand} (room : histograph (byteAt radix item) + 1 ≤ n) :
    hit add radix histograph item =
      some (Function.update histograph (byteAt radix item) (histograph (byteAt radix item) + 1)) := by
  rw [hit, exact' _ _ room]
  rfl

theorem hitCount_spec (items : List RenderCommand) (histograph : Histograph)
    (room : ∀ b, histograph b + (bucket (byteAt radix) items b).length ≤ n) :
    hitCount add radix items histograph =
      some fun b => histograph b + (bucket (byteAt radix) items b).length := by
  induction items generalizing histograph with
  | nil => rfl
  | cons item rest ih =>
      let counted := Function.update histograph (byteAt radix item) (histograph (byteAt radix item) + 1)
      have sum (b : Nat) : counted b + (bucket (byteAt radix) rest b).length =
          histograph b + (bucket (byteAt radix) (item :: rest) b).length := by
        by_cases here : byteAt radix item = b
        · subst here
          simp [counted, bucket]
          omega
        · rw [show counted b = histograph b from Function.update_of_ne (Ne.symm here) ..]
          simp [bucket, here]
      have one := room (byteAt radix item)
      rw [← sum, show counted (byteAt radix item) = _ from Function.update_self ..] at one
      rw [hitCount, hit_spec exact' radix (by omega)]
      refine (ih _ fun b => ?_).trans ?_
      · rw [sum]
        exact room b
      · exact congrArg some (funext sum)

theorem offsets_spec (items : List RenderCommand) (bound : items.length ≤ n) (count b : Nat)
    (histograph : Histograph) (hits : ∀ c, b ≤ c → histograph c = (bucket (byteAt radix) items c).length) :
    ∃ indexes, offsets add count b (start (byteAt radix) items b) histograph = some indexes ∧
      ∀ c, indexes c = if b ≤ c ∧ c < b + count then start (byteAt radix) items c else histograph c := by
  induction count generalizing b histograph with
  | zero =>
      refine ⟨histograph, rfl, fun c => ?_⟩
      rw [if_neg (by omega)]
  | succ count ih =>
      have next := start_succ (byteAt radix) items b
      have most := start_le (byteAt radix) items (b + 1)
      have sum : add (start (byteAt radix) items b) (histograph b) = some (start (byteAt radix) items (b + 1)) := by
        rw [hits b (Nat.le_refl b), exact' _ _ (by omega), next]
      obtain ⟨indexes, run, places⟩ := ih (b + 1)
        (Function.update histograph b (start (byteAt radix) items b)) (by
          intro c above
          rw [Function.update_of_ne (by omega)]
          exact hits c (by omega))
      refine ⟨indexes, ?_, fun c => ?_⟩
      · rw [offsets, sum]
        exact run
      · rw [places c]
        by_cases here : c = b
        · subst here
          rw [if_neg (by omega), if_pos (by omega), Function.update_self]
        · rw [Function.update_of_ne here]
          by_cases inside : b + 1 ≤ c ∧ c < b + 1 + count
          · rw [if_pos inside, if_pos (by omega)]
          · rw [if_neg inside, if_neg (by omega)]

structure Placed (radix : Nat) (all done : List RenderCommand) (histograph : Histograph) (swap : List RenderCommand) :
    Prop where
  length : swap.length = all.length
  cursors : ∀ b < 256, histograph b = start (byteAt radix) all b + (bucket (byteAt radix) done b).length
  places : ∀ b < 256, ∀ k < (bucket (byteAt radix) done b).length,
    swap[start (byteAt radix) all b + k]? = (bucket (byteAt radix) done b)[k]?

omit exact' in
theorem Placed.move {radix : Nat} {all done rest : List RenderCommand} {item : RenderCommand} {histograph : Histograph}
    {swap : List RenderCommand} (placed : Placed radix all done histograph swap) (split : all = done ++ item :: rest) :
    let index := histograph (byteAt radix item)
    index < swap.length ∧
      Placed radix all (done ++ [item]) (Function.update histograph (byteAt radix item) (index + 1))
        (swap.set index item) := by
  intro index
  have byte := byteAt_lt radix item
  have here : index = _ := placed.cursors _ byte
  have grown (b : Nat) : bucket (byteAt radix) (done ++ [item]) b =
      bucket (byteAt radix) done b ++ if byteAt radix item = b then [item] else [] := by
    by_cases same : byteAt radix item = b <;> simp [bucket, same]
  have part (b : Nat) : (bucket (byteAt radix) (done ++ [item]) b).length ≤ (bucket (byteAt radix) all b).length := by
    have whole : all = done ++ [item] ++ rest := by simp [split]
    rw [whole, bucket, bucket, List.filter_append _ rest]
    simp
  have own := part (byteAt radix item)
  rw [grown, if_pos rfl, List.length_append, List.length_singleton] at own
  have inside : index < swap.length := by
    have next := start_succ (byteAt radix) all (byteAt radix item)
    have most := start_le (byteAt radix) all (byteAt radix item + 1)
    have length := placed.length
    omega
  refine ⟨inside, by rw [List.length_set, placed.length], ?_, ?_⟩
  · intro b below
    rw [grown, List.length_append]
    by_cases same : byteAt radix item = b
    · subst same
      rw [Function.update_self, if_pos rfl, here]
      rfl
    · rw [Function.update_of_ne (Ne.symm same), if_neg same]
      exact placed.cursors b below
  · intro b below k filled
    rw [grown] at filled ⊢
    by_cases old : k < (bucket (byteAt radix) done b).length
    · have apart : index ≠ start (byteAt radix) all b + k := by
        intro equal
        have outside : k < (bucket (byteAt radix) all b).length := by
          have larger := part b
          rw [grown, List.length_append] at larger
          omega
        obtain ⟨same, last⟩ := places_apart (byteAt radix) (a := byteAt radix item) (b := b) (by omega) outside
          (here.symm.trans equal)
        subst same
        omega
      rw [List.getElem?_set_ne apart, List.getElem?_append_left old]
      exact placed.places b below k old
    · by_cases same : byteAt radix item = b
      · subst same
        rw [if_pos rfl, List.length_append, List.length_singleton] at filled
        have last : k = (bucket (byteAt radix) done (byteAt radix item)).length := by omega
        rw [if_pos rfl, last, ← here, List.getElem?_set_self inside, List.getElem?_concat_length]
      · rw [if_neg same, List.append_nil] at filled
        exact absurd filled old

theorem swapValues_spec {all : List RenderCommand} (bound : all.length ≤ n) (rest : List RenderCommand) :
    ∀ {done swap : List RenderCommand} {histograph : Histograph}, all = done ++ rest →
      Placed radix all done histograph swap →
      ∃ cursors, swapValues add radix rest histograph swap = some (cursors, arrange (byteAt radix) 256 all) := by
  induction rest with
  | nil =>
      intro done swap histograph split placed
      rw [List.append_nil] at split
      subst split
      refine ⟨histograph, congrArg some (Prod.ext rfl ?_)⟩
      apply eq_arrange (byteAt radix) 256 _ placed.places
      rw [placed.length, start_all]
      exact fun item _ => byteAt_lt radix item
  | cons item rest ih =>
      intro done swap histograph split placed
      obtain ⟨inside, moved⟩ := placed.move split
      have length := placed.length
      obtain ⟨cursors, run⟩ := ih (by simpa using split) moved
      refine ⟨cursors, ?_⟩
      rw [swapValues, hit_spec exact' radix (by omega)]
      exact (if_pos inside).trans run

theorem pass_spec {items swap : List RenderCommand} (bound : items.length ≤ n) (scratch : swap.length = items.length) :
    ∃ histograph, pass add radix items swap = some (arrange (byteAt radix) 256 items, items, histograph) := by
  have hits := hitCount_spec exact' radix items cleared (by
    intro b
    have part : (bucket (byteAt radix) items b).length ≤ items.length := List.length_filter_le ..
    simp only [cleared]
    omega)
  obtain ⟨indexes, run, places⟩ := offsets_spec exact' radix items bound 256 0
    (fun b => cleared b + (bucket (byteAt radix) items b).length) (by simp [cleared])
  have placed : Placed radix items [] indexes swap := by
    refine ⟨scratch, ?_, by simp [bucket]⟩
    intro b below
    rw [places b, if_pos (by omega)]
    rfl
  obtain ⟨cursors, moved⟩ := swapValues_spec exact' radix bound items rfl placed
  refine ⟨cursors, ?_⟩
  rw [start_zero] at run
  simp [pass, hits, run, moved]

end Counting

def arranged : Nat → Nat → List RenderCommand → List RenderCommand
  | 0, _, items => items
  | count + 1, radix, items => arranged count (radix + 1) (arrange (byteAt radix) 256 items)

theorem arranged_perm (count radix : Nat) (items : List RenderCommand) : (arranged count radix items).Perm items := by
  induction count generalizing radix items with
  | zero => exact List.Perm.refl _
  | succ count ih =>
      exact (ih (radix + 1) _).trans (arrange_perm (byteAt radix) fun item _ => byteAt_lt radix item)

def Ordered (radix : Nat) (x y : RenderCommand) : Prop := x.toNat % 256 ^ radix ≤ y.toNat % 256 ^ radix

theorem Ordered.succ {radix : Nat} {x y : RenderCommand}
    (related : byteAt radix x < byteAt radix y ∨ byteAt radix x = byteAt radix y ∧ Ordered radix x y) :
    Ordered (radix + 1) x y := by
  have positive : 0 < 256 ^ radix := Nat.pow_pos (by omega)
  have small := Nat.mod_lt x.toNat positive
  rw [Ordered, Nat.mod_pow_succ, Nat.mod_pow_succ]
  simp only [byteAt, Ordered] at related
  cases related with
  | inl below =>
      have larger := Nat.mul_le_mul_left (256 ^ radix) (Nat.succ_le_of_lt below)
      rw [Nat.mul_succ] at larger
      omega
  | inr equal =>
      rw [equal.1]
      exact Nat.add_le_add_right equal.2 _

theorem arranged_pairwise (count radix : Nat) {items : List RenderCommand} (ordered : items.Pairwise (Ordered radix)) :
    (arranged count radix items).Pairwise (Ordered (radix + count)) := by
  induction count generalizing radix items with
  | zero => exact ordered
  | succ count ih =>
      have refined := (arrange_pairwise (byteAt radix) 256 ordered).imp Ordered.succ
      have final := ih (radix + 1) refined
      rwa [show radix + 1 + count = radix + (count + 1) by omega] at final

def Sorted (items : List RenderCommand) : Prop := items.Pairwise fun x y => x.toNat ≤ y.toNat

theorem arranged_sorted (items : List RenderCommand) : Sorted (arranged radixCount 0 items) := by
  have whole (x : RenderCommand) : x.toNat % 256 ^ radixCount = x.toNat := Nat.mod_eq_of_lt x.isLt
  have trivial : items.Pairwise (Ordered 0) := by
    apply List.pairwise_of_forall
    intro x y
    simp [Ordered, Nat.mod_one]
  refine (arranged_pairwise radixCount 0 trivial).imp ?_
  intro x y related
  rw [Nat.zero_add, Ordered, whole, whole] at related
  exact related

theorem Sorted.unique {first second : List RenderCommand} (left : Sorted first) (right : Sorted second)
    (same : first.Perm second) : first = second :=
  List.Perm.eq_of_pairwise (fun _ _ _ _ below above => BitVec.eq_of_toNat_eq (Nat.le_antisymm below above)) left right same

theorem sortRadix_spec {add : Nat → Nat → Option Nat} {n : Nat} (exact' : Exact add n) (count radix : Nat)
    (items swap : List RenderCommand) (bound : items.length ≤ n) (scratch : swap.length = items.length)
    (histograph : Histograph) :
    ∃ swap' histograph', sortRadix add count radix items swap histograph =
        some (arranged count radix items, swap', histograph') ∧ swap'.length = items.length := by
  induction count generalizing radix items swap histograph with
  | zero => exact ⟨swap, histograph, rfl, scratch⟩
  | succ count ih =>
      obtain ⟨cursors, run⟩ := pass_spec exact' radix bound scratch
      have length : (arrange (byteAt radix) 256 items).length = items.length :=
        (arrange_perm (byteAt radix) fun item _ => byteAt_lt radix item).length_eq
      obtain ⟨swap', histograph', rest, scratch'⟩ := ih (radix + 1) _ _ (by omega) length.symm cursors
      refine ⟨swap', histograph', ?_, scratch'.trans length⟩
      rw [sortRadix, run]
      exact rest

end PrototypeBundle.Radix
