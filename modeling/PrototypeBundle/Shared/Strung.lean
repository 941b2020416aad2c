import Mathlib.Data.List.Chain
import Mathlib.Data.List.Nodup

set_option autoImplicit false

namespace Intrusive

variable {α : Type}

/-- Neighbours in `nodes`, sentinels included, point at each other. -/
def Strung (prev next : α → Option α) (nodes : List α) : Prop :=
  nodes.IsChain fun x y => next x = some y ∧ prev y = some x

section Edit

variable {prev next prev' next' : α → Option α} {before after : List α} {a b x : α}

theorem Strung.congr {nodes : List α} (strung : Strung prev next nodes) (samePrev : ∀ y ∈ nodes, prev' y = prev y)
    (sameNext : ∀ y ∈ nodes, next' y = next y) : Strung prev' next' nodes := by
  refine List.IsChain.imp_of_mem_imp ?_ strung
  intro y z left right link
  rw [sameNext y left, samePrev z right]
  exact link

theorem Strung.neighbours (strung : Strung prev next (before ++ a :: b :: after)) : next a = some b ∧ prev b = some a :=
  (List.isChain_append_cons_cons.mp strung).2.1

theorem Strung.congr_front (strung : Strung prev next (before ++ [a]))
    (samePrev : ∀ y ∈ before ++ [a], prev' y = prev y) (sameNext : ∀ y ∈ before, next' y = next y) :
    Strung prev' next' (before ++ [a]) := by
  induction before with
  | nil => exact List.isChain_singleton a
  | cons y before ih =>
      obtain ⟨link, strung⟩ := List.isChain_cons.mp strung
      refine List.isChain_cons.mpr ⟨fun z head => ?_, ?_⟩
      · have member : z ∈ before ++ [a] := List.mem_of_mem_head? head
        rw [sameNext y (by simp), samePrev z (List.mem_cons_of_mem _ member)]
        exact link z head
      · exact ih strung (fun z member => samePrev z (List.mem_cons_of_mem _ member))
          fun z member => sameNext z (List.mem_cons_of_mem _ member)

theorem Strung.congr_back (strung : Strung prev next (b :: after)) (samePrev : ∀ y ∈ after, prev' y = prev y)
    (sameNext : ∀ y ∈ b :: after, next' y = next y) : Strung prev' next' (b :: after) := by
  refine List.IsChain.imp_of_mem_tail_imp ?_ strung
  intro y z left right linked
  rw [samePrev z right, sameNext y left]
  exact linked

theorem Strung.edit (removed inserted : List α) (strung : Strung prev next (before ++ a :: (removed ++ b :: after)))
    (distinct : (before ++ a :: b :: after).Nodup) (middle : Strung prev' next' (a :: inserted ++ [b]))
    (samePrev : ∀ y ∈ before ++ a :: b :: after, y ≠ b → prev' y = prev y)
    (sameNext : ∀ y ∈ before ++ a :: b :: after, y ≠ a → next' y = next y) :
    Strung prev' next' (before ++ a :: (inserted ++ b :: after)) := by
  have parts := List.nodup_append.mp distinct
  have tail := List.nodup_cons.mp parts.2.1
  have last := List.nodup_cons.mp tail.2
  obtain ⟨front, rest⟩ := List.isChain_split.mp strung
  have back := (List.isChain_split.mp (show List.IsChain _ ((a :: removed) ++ b :: after) from rest)).2
  refine List.isChain_split.mpr ⟨?_, (List.isChain_split.mpr ⟨middle, ?_⟩ : List.IsChain _ (a :: inserted ++ b :: after))⟩
  · refine Strung.congr_front front ?_ ?_
    · intro y member
      refine samePrev y (by simp at member ⊢; tauto) ?_
      rintro rfl
      rcases List.mem_append.mp member with early | same
      · exact parts.2.2 y early y (by simp) rfl
      · exact tail.1 (by simp_all)
    · intro y member
      refine sameNext y (by simp [member]) ?_
      exact parts.2.2 y member a (by simp)
  · refine Strung.congr_back back ?_ ?_
    · intro y member
      refine samePrev y (by simp [member]) ?_
      rintro rfl
      exact last.1 member
    · intro y member
      refine sameNext y (by simp at member ⊢; tauto) ?_
      rintro rfl
      exact tail.1 member

theorem Strung.insert (strung : Strung prev next (before ++ a :: b :: after))
    (distinct : (before ++ a :: b :: after).Nodup)
    (first : next' a = some x ∧ prev' x = some a) (second : next' x = some b ∧ prev' b = some x)
    (samePrev : ∀ y ∈ before ++ a :: b :: after, y ≠ b → prev' y = prev y)
    (sameNext : ∀ y ∈ before ++ a :: b :: after, y ≠ a → next' y = next y) :
    Strung prev' next' (before ++ a :: x :: b :: after) := by
  have middle : Strung prev' next' [a, x, b] :=
    List.isChain_cons_cons.mpr ⟨first, List.isChain_cons_cons.mpr ⟨second, List.isChain_singleton b⟩⟩
  exact strung.edit [] [x] distinct middle samePrev sameNext

theorem Strung.remove (strung : Strung prev next (before ++ a :: x :: b :: after))
    (distinct : (before ++ a :: x :: b :: after).Nodup)
    (link : next' a = some b ∧ prev' b = some a)
    (samePrev : ∀ y ∈ before ++ a :: b :: after, y ≠ b → prev' y = prev y)
    (sameNext : ∀ y ∈ before ++ a :: b :: after, y ≠ a → next' y = next y) :
    Strung prev' next' (before ++ a :: b :: after) := by
  have middle : Strung prev' next' [a, b] := List.isChain_cons_cons.mpr ⟨link, List.isChain_singleton b⟩
  have distinct' : (before ++ a :: b :: after).Nodup :=
    distinct.sublist (((List.sublist_cons_self x _).cons_cons a).append_left before)
  exact strung.edit [x] [] distinct' middle samePrev sameNext

end Edit

section Walk

variable [DecidableEq α]

def walk (link : α → Option α) (stop : α) : Nat → α → Option (List α)
  | 0, _ => none
  | fuel + 1, n => (link n).bind fun m => if m = stop then some [] else (walk link stop fuel m).map (m :: ·)

theorem walk_eq {link : α → Option α} {stop n : α} {nodes : List α} {fuel : Nat}
    (links : (n :: (nodes ++ [stop])).IsChain fun x y => link x = some y) (apart : stop ∉ nodes)
    (enough : nodes.length < fuel) : walk link stop fuel n = some nodes := by
  induction nodes generalizing n fuel with
  | nil =>
      obtain ⟨fuel, rfl⟩ := Nat.exists_eq_add_of_lt enough
      have last := (List.isChain_cons_cons.mp links).1
      simp [walk, last]
  | cons m nodes ih =>
      obtain ⟨fuel, rfl⟩ := Nat.exists_eq_add_of_lt enough
      obtain ⟨link', rest⟩ := List.isChain_cons_cons.mp links
      have other : m ≠ stop := fun same => apart (same ▸ List.mem_cons_self ..)
      have later : walk link stop (nodes.length + 1 + fuel) m = some nodes :=
        ih rest (fun member => apart (List.mem_cons_of_mem _ member)) (by omega)
      rw [List.length_cons, walk, link', Option.bind_some, if_neg other, later, Option.map_some]

variable {prev next : α → Option α} {a b : α} {nodes : List α} {fuel : Nat}

theorem Strung.walk_forward (strung : Strung prev next (a :: (nodes ++ [b]))) (apart : b ∉ nodes)
    (enough : nodes.length < fuel) : walk next b fuel a = some nodes :=
  walk_eq (List.IsChain.imp (fun _ _ link => link.1) strung) apart enough

theorem Strung.walk_backward (strung : Strung prev next (a :: (nodes ++ [b]))) (apart : a ∉ nodes)
    (enough : nodes.length < fuel) : walk prev a fuel b = some nodes.reverse := by
  have links : (a :: (nodes ++ [b])).IsChain fun x y => prev y = some x := List.IsChain.imp (fun _ _ link => link.2) strung
  have turned : (b :: (nodes.reverse ++ [a])).IsChain fun x y => prev x = some y := by
    simpa using List.isChain_reverse.mpr links
  exact walk_eq turned (by simpa using apart) (by simpa using enough)

end Walk

end Intrusive
