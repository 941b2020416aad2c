import PrototypeBundle.Radix.Passes

set_option autoImplicit false

namespace PrototypeBundle.Radix

open Buckets

section Insertion

theorem insertDown_spec (j : Nat) :
    ∀ {prior : List RenderCommand} (item : RenderCommand) (post : List RenderCommand), prior.length = j →
      Sorted prior → ∃ inserted, insertDown j (prior ++ item :: post) = inserted ++ post ∧ Sorted inserted ∧
        inserted.Perm (prior ++ [item]) := by
  induction j with
  | zero =>
      intro prior item post length _
      obtain rfl := List.eq_nil_of_length_eq_zero length
      exact ⟨[item], rfl, List.pairwise_singleton .., List.Perm.refl _⟩
  | succ j ih =>
      intro prior item post length sorted
      obtain ⟨front, last, rfl⟩ := List.eq_nil_or_concat' prior |>.resolve_left (by rintro rfl; simp at length)
      have front_length : front.length = j := by simpa using length
      have left : (front ++ [last] ++ item :: post)[j]? = some last := by simp [← front_length]
      have right : (front ++ [last] ++ item :: post)[j + 1]? = some item := by simp [← front_length]
      obtain ⟨sorted', below⟩ : Sorted front ∧ ∀ x ∈ front, x.toNat ≤ last.toNat := by
        rw [Sorted, List.pairwise_append] at sorted
        exact ⟨sorted.1, fun x member => sorted.2.2 x member last (by simp)⟩
      rw [insertDown, left, right]
      by_cases smaller : item.toNat < last.toNat
      · have swapped : ((front ++ [last] ++ item :: post).set j item).set (j + 1) last =
            front ++ item :: (last :: post) := by
          rw [← front_length]
          simp
        obtain ⟨inserted, run, order, same⟩ := ih item (last :: post) front_length sorted'
        refine ⟨inserted ++ [last], ?_, ?_, ?_⟩
        · simp only [smaller, if_true, swapped, run]
          simp
        · rw [Sorted, List.pairwise_append]
          refine ⟨order, List.pairwise_singleton .., ?_⟩
          intro x member y single
          obtain rfl : y = last := by simpa using single
          have place := same.subset member
          rw [List.mem_append, List.mem_singleton] at place
          cases place with
          | inl inFront => exact below x inFront
          | inr isItem => exact isItem ▸ Nat.le_of_lt smaller
        · have moved : (front ++ [item] ++ [last]).Perm (front ++ [last] ++ [item]) := by
            rw [List.append_assoc, List.append_assoc]
            exact List.Perm.append_left _ (List.Perm.swap ..)
          exact (same.append_right _).trans moved
      · refine ⟨front ++ [last] ++ [item], by simp [smaller], ?_, List.Perm.refl _⟩
        rw [Sorted, List.pairwise_append]
        refine ⟨sorted, List.pairwise_singleton .., ?_⟩
        intro x member y single
        obtain rfl : y = item := by simpa using single
        rw [List.mem_append, List.mem_singleton] at member
        cases member with
        | inl inFront =>
            have order := below x inFront
            omega
        | inr isLast =>
            subst isLast
            omega

theorem insertAll_spec (rest : List RenderCommand) :
    ∀ prior : List RenderCommand, Sorted prior →
      Sorted (insertAll rest.length prior.length (prior ++ rest)) ∧
        (insertAll rest.length prior.length (prior ++ rest)).Perm (prior ++ rest) := by
  induction rest with
  | nil =>
      intro prior sorted
      rw [List.append_nil]
      exact ⟨sorted, List.Perm.refl _⟩
  | cons item rest ih =>
      intro prior sorted
      obtain ⟨inserted, run, order, same⟩ := insertDown_spec prior.length item rest rfl sorted
      have length : prior.length + 1 = inserted.length := by
        rw [same.length_eq, List.length_append, List.length_singleton]
      rw [List.length_cons, insertAll, run, length]
      refine ⟨(ih _ order).1, (ih _ order).2.trans ?_⟩
      rw [← List.singleton_append (x := item), ← List.append_assoc]
      exact same.append_right rest

theorem sortInsert_spec (items : List RenderCommand) : Sorted (sortInsert items) ∧ (sortInsert items).Perm items := by
  cases items with
  | nil => exact ⟨List.Pairwise.nil, List.Perm.refl _⟩
  | cons item rest =>
      have loop := insertAll_spec rest [item] (List.pairwise_singleton ..)
      by_cases short : (item :: rest).length < 2
      · rw [sortInsert, if_pos short]
        refine ⟨?_, List.Perm.refl _⟩
        cases rest with
        | nil => exact List.pairwise_singleton ..
        | cons =>
            simp only [List.length_cons] at short
            omega
      · rw [sortInsert, if_neg short]
        exact loop

end Insertion

section Reference

variable {n : Nat} (bound : n < 2 ^ 32)

include bound

theorem reference_sort_spec {r : ReferenceRadix} {items : List RenderCommand} (length : items.length = n)
    (scratch : r.swap.length = n) :
    ∃ sorted r', r.sort items = some (sorted, r') ∧ Sorted sorted ∧ sorted.Perm items ∧ r'.swap.length = n := by
  obtain ⟨swap, histograph, run, scratch'⟩ := sortRadix_spec (addUint32_exact bound) radixCount 0
    items r.swap (by omega) (by omega) r.histograph
  refine ⟨arranged radixCount 0 items, { swap, histograph }, ?_, arranged_sorted items, arranged_perm .., scratch'.trans length⟩
  rw [ReferenceRadix.sort, run]
  rfl

end Reference

/-- What a sort leaves in the items it was called with. -/
def SortedAs (items sorted : List RenderCommand) : Prop := Sorted sorted ∧ sorted.Perm items

/-- Any number of sorts of vectors of one length on the same object: none of them writes
outside of `swap`, which keeps its length. -/
theorem reference_sorts_correct (n : Nat) (bound : n < 2 ^ 32) (inputs : List (List RenderCommand))
    (lengths : ∀ items ∈ inputs, items.length = n) (r : ReferenceRadix) (scratch : r.swap.length = n) :
    ∃ outputs r', r.sorts inputs = some (outputs, r') ∧ List.Forall₂ SortedAs inputs outputs ∧ r'.swap.length = n := by
  induction inputs generalizing r with
  | nil => exact ⟨[], r, rfl, List.Forall₂.nil, scratch⟩
  | cons items rest ih =>
      obtain ⟨sorted, r₁, first, order, same, scratch₁⟩ :=
        reference_sort_spec bound (lengths items (by simp)) scratch
      obtain ⟨outputs, r₂, others, all, scratch₂⟩ := ih (fun l member => lengths l (by simp [member])) r₁ scratch₁
      refine ⟨sorted :: outputs, r₂, ?_, List.Forall₂.cons ⟨order, same⟩ all, scratch₂⟩
      simp [ReferenceRadix.sorts, first, others]

theorem reference_sorts_correct_two :
    ∃ outputs r', (ReferenceRadix.mk [0, 0, 0] cleared).sorts [[3, 1, 2], [0x100, 0xff, 7]] = some (outputs, r') ∧
      List.Forall₂ SortedAs [[3, 1, 2], [0x100, 0xff, 7]] outputs ∧ r'.swap.length = 3 :=
  reference_sorts_correct 3 (by decide) _ (by decide) _ rfl

section Precalc

variable {n : Nat} (exact' : Exact addInt n)

include exact'

theorem hitAll_spec (item : RenderCommand) (count : Nat) :
    ∀ (radix : Nat) (histograph : Nat → Histograph),
      (∀ ρ, radix ≤ ρ → ρ < radix + count → histograph ρ (byteAt ρ item) + 1 ≤ n) →
      ∃ counted, hitAll count radix histograph item = some counted ∧ (∀ ρ < radix, counted ρ = histograph ρ) ∧
        ∀ ρ, radix ≤ ρ → ρ < radix + count →
          counted ρ = Function.update (histograph ρ) (byteAt ρ item) (histograph ρ (byteAt ρ item) + 1) := by
  induction count with
  | zero =>
      intro radix histograph _
      exact ⟨histograph, rfl, fun _ _ => rfl, fun ρ above below => by omega⟩
  | succ count ih =>
      intro radix histograph room
      have first := hit_spec exact' radix (room radix (by omega) (by omega))
      let here := Function.update (histograph radix) (byteAt radix item) (histograph radix (byteAt radix item) + 1)
      let next := Function.update histograph radix here
      have kept (ρ : Nat) (other : ρ ≠ radix) : next ρ = histograph ρ := Function.update_of_ne other ..
      obtain ⟨counted, run, frame, entries⟩ := ih (radix + 1) next (by
        intro ρ above below
        rw [kept ρ (by omega)]
        exact room ρ (by omega) (by omega))
      refine ⟨counted, ?_, fun ρ below => (frame ρ (by omega)).trans (kept ρ (by omega)), fun ρ above below => ?_⟩
      · rw [hitAll, first]
        exact run
      · by_cases same : ρ = radix
        · subst same
          rw [frame ρ (by omega)]
          exact Function.update_self ..
        · rw [entries ρ (by omega) (by omega), kept ρ same]

theorem precalc_spec (items : List RenderCommand) (histograph : Nat → Histograph)
    (room : ∀ ρ < radixCount, ∀ b, histograph ρ b + (bucket (byteAt ρ) items b).length ≤ n) :
    ∃ counted, precalc items histograph = some counted ∧
      ∀ ρ < radixCount, ∀ b, counted ρ b = histograph ρ b + (bucket (byteAt ρ) items b).length := by
  induction items generalizing histograph with
  | nil => exact ⟨histograph, rfl, fun _ _ _ => rfl⟩
  | cons item rest ih =>
      have one (ρ : Nat) (below : ρ < radixCount) : histograph ρ (byteAt ρ item) + 1 ≤ n := by
        have whole := room ρ below (byteAt ρ item)
        simp only [bucket, List.filter_cons_of_pos, decide_true, List.length_cons] at whole
        omega
      obtain ⟨next, run, -, entries⟩ := hitAll_spec exact' item radixCount 0 histograph
        (fun ρ _ below => one ρ (by omega))
      have sum (ρ : Nat) (below : ρ < radixCount) (b : Nat) : next ρ b + (bucket (byteAt ρ) rest b).length =
          histograph ρ b + (bucket (byteAt ρ) (item :: rest) b).length := by
        rw [entries ρ (by omega) (by omega)]
        by_cases here : byteAt ρ item = b
        · subst here
          simp [bucket]
          omega
        · rw [Function.update_of_ne (Ne.symm here)]
          simp [bucket, here]
      obtain ⟨counted, others, total⟩ := ih next (by
        intro ρ below b
        rw [sum ρ below]
        exact room ρ below b)
      refine ⟨counted, ?_, fun ρ below b => (total ρ below b).trans (sum ρ below b)⟩
      rw [precalc, run]
      exact others

theorem offsetsAll_spec (items : List RenderCommand) (bound : items.length ≤ n) (count : Nat) :
    ∀ (radix : Nat) (histograph : Nat → Histograph),
      (∀ ρ, radix ≤ ρ → ρ < radix + count → ∀ b, histograph ρ b = (bucket (byteAt ρ) items b).length) →
      ∃ indexes, offsetsAll count radix histograph = some indexes ∧ (∀ ρ < radix, indexes ρ = histograph ρ) ∧
        ∀ ρ, radix ≤ ρ → ρ < radix + count → ∀ b < 256, indexes ρ b = start (byteAt ρ) items b := by
  induction count with
  | zero =>
      intro radix histograph _
      exact ⟨histograph, rfl, fun _ _ => rfl, fun ρ above below => by omega⟩
  | succ count ih =>
      intro radix histograph hits
      obtain ⟨here, first, places⟩ := offsets_spec exact' radix items bound 256 0 (histograph radix)
        (fun b _ => hits radix (by omega) (by omega) b)
      let next := Function.update histograph radix here
      have kept (ρ : Nat) (other : ρ ≠ radix) : next ρ = histograph ρ := Function.update_of_ne other ..
      obtain ⟨indexes, run, frame, entries⟩ := ih (radix + 1) next (by
        intro ρ above below b
        rw [kept ρ (by omega)]
        exact hits ρ (by omega) (by omega) b)
      refine ⟨indexes, ?_, fun ρ below => (frame ρ (by omega)).trans (kept ρ (by omega)), fun ρ above below b byte => ?_⟩
      · rw [start_zero] at first
        rw [offsetsAll, first]
        exact run
      · by_cases same : ρ = radix
        · subst same
          rw [frame ρ (by omega), show next ρ = here from Function.update_self .., places b, if_pos (by omega)]
        · exact entries ρ (by omega) (by omega) b byte

-- The cursors that were computed from the first order of the items stay right, because each
-- pass permutes the items.
theorem reorder_spec (all : List RenderCommand) (bound : all.length ≤ n) (count : Nat) :
    ∀ (radix : Nat) (items swap : List RenderCommand) (histograph : Nat → Histograph), items.Perm all →
      swap.length = all.length →
      (∀ ρ, radix ≤ ρ → ρ < radix + count → ∀ b < 256, histograph ρ b = start (byteAt ρ) all b) →
      ∃ swap' histograph', reorder count radix items swap histograph =
          some (arranged count radix items, swap', histograph') ∧ swap'.length = all.length := by
  induction count with
  | zero =>
      intro radix items swap histograph _ scratch _
      exact ⟨swap, histograph, rfl, scratch⟩
  | succ count ih =>
      intro radix items swap histograph same scratch indexes
      have length := same.length_eq
      have placed : Placed radix items [] (histograph radix) swap := by
        refine ⟨by omega, ?_, by simp [bucket]⟩
        intro b byte
        rw [indexes radix (by omega) (by omega) b byte, start_perm (byteAt radix) same]
        rfl
      have fits : items.length ≤ n := by omega
      obtain ⟨cursors, moved⟩ := swapValues_spec exact' radix fits items rfl placed
      have permuted := arrange_perm (byteAt radix) (l := items) (m := 256) fun item _ => byteAt_lt radix item
      obtain ⟨swap', histograph', run, scratch'⟩ := ih (radix + 1) (arrange (byteAt radix) 256 items) items
        (Function.update histograph radix cursors) (permuted.trans same) length (by
          intro ρ above below b byte
          rw [Function.update_of_ne (by omega)]
          exact indexes ρ (by omega) (by omega) b byte)
      refine ⟨swap', histograph', ?_, scratch'⟩
      rw [reorder, moved]
      exact run

end Precalc

theorem shortcut_sort_spec {r : ShortcutRadix} {items : List RenderCommand} (bound : items.length < 2 ^ 31)
    (scratch : r.swap.length = items.length) : ∃ sorted r', r.sort items = some (sorted, r') ∧ SortedAs items sorted := by
  by_cases short : items.length < 64
  · exact ⟨sortInsert items, r, if_pos short, sortInsert_spec items⟩
  · obtain ⟨swap, histograph, run, -⟩ := sortRadix_spec (addInt_exact bound) radixCount 0 items r.swap (Nat.le_refl _) scratch
      r.histograph
    refine ⟨arranged radixCount 0 items, { swap, histograph }, ?_, arranged_sorted items, arranged_perm ..⟩
    rw [ShortcutRadix.sort, if_neg short, run]
    rfl

theorem precalc_sort_spec {r : PrecalcShortcutRadix} {items : List RenderCommand} (bound : items.length < 2 ^ 31)
    (scratch : r.swap.length = items.length) : ∃ sorted r', r.sort items = some (sorted, r') ∧ SortedAs items sorted := by
  by_cases short : items.length < 64
  · exact ⟨sortInsert items, r, if_pos short, sortInsert_spec items⟩
  · have exact' := addInt_exact bound
    have part (ρ b : Nat) : (bucket (byteAt ρ) items b).length ≤ items.length := List.length_filter_le ..
    obtain ⟨counted, counts, hits⟩ := precalc_spec exact' items (fun _ => cleared) (by
      intro ρ _ b
      have small := part ρ b
      simp only [cleared]
      omega)
    obtain ⟨indexes, converts, -, places⟩ := offsetsAll_spec exact' items (Nat.le_refl _) radixCount 0 counted (by
      intro ρ _ below b
      rw [hits ρ (by omega) b, cleared, Nat.zero_add])
    obtain ⟨swap, histograph, run, -⟩ := reorder_spec exact' items (Nat.le_refl _) radixCount 0 items r.swap indexes
      (List.Perm.refl _) scratch places
    refine ⟨arranged radixCount 0 items, { swap, histograph }, ?_, arranged_sorted items, arranged_perm ..⟩
    rw [PrecalcShortcutRadix.sort, if_neg short, PrecalcShortcutRadix.sortRadix, counts]
    simp [converts, run]

/-- The three sorts leave the same items, whichever branch the length selects. -/
theorem shortcuts_match_reference (items : List RenderCommand) (bound : items.length < 2 ^ 31) (reference : ReferenceRadix)
    (shortcut : ShortcutRadix) (precalc : PrecalcShortcutRadix) (scratch : reference.swap.length = items.length)
    (scratch' : shortcut.swap.length = items.length) (scratch'' : precalc.swap.length = items.length) :
    ∃ sorted reference' shortcut' precalc', reference.sort items = some (sorted, reference') ∧
      shortcut.sort items = some (sorted, shortcut') ∧ precalc.sort items = some (sorted, precalc') := by
  obtain ⟨sorted, reference', run, order, same, -⟩ := reference_sort_spec (n := items.length) (by omega) rfl scratch
  obtain ⟨sorted₁, shortcut', run₁, order₁, same₁⟩ := shortcut_sort_spec bound scratch'
  obtain ⟨sorted₂, precalc', run₂, order₂, same₂⟩ := precalc_sort_spec bound scratch''
  obtain rfl := order.unique order₁ (same.trans same₁.symm)
  obtain rfl := order.unique order₂ (same.trans same₂.symm)
  exact ⟨sorted, reference', shortcut', precalc', run, run₁, run₂⟩

-- Long enough for the radix passes, and the wrong way round in two bytes.
def descending : List RenderCommand := (List.range 70).reverse.map fun n => BitVec.ofNat 64 (n * (2 ^ 24 + 1))

theorem shortcuts_match_reference_descending :
    ∃ reference' shortcut' precalc',
      (ReferenceRadix.mk (List.replicate 70 0) cleared).sort descending = some (descending.reverse, reference') ∧
      (ShortcutRadix.mk (List.replicate 70 0) cleared).sort descending = some (descending.reverse, shortcut') ∧
      (PrecalcShortcutRadix.mk (List.replicate 70 0) fun _ => cleared).sort descending =
        some (descending.reverse, precalc') := by
  have count : (List.replicate 70 (0 : RenderCommand)).length = descending.length := by simp [descending]
  have bound : descending.length < 2 ^ 31 := by simp [descending]
  obtain ⟨sorted, reference', shortcut', precalc', run, run', run''⟩ :=
    shortcuts_match_reference descending bound (ReferenceRadix.mk (List.replicate 70 0) cleared)
      (ShortcutRadix.mk (List.replicate 70 0) cleared) (PrecalcShortcutRadix.mk (List.replicate 70 0) fun _ => cleared)
      count count count
  obtain ⟨sorted', _, again, order, same⟩ :=
    shortcut_sort_spec (r := ShortcutRadix.mk (List.replicate 70 0) cleared) bound count
  obtain ⟨rfl, -⟩ := Prod.mk.inj (Option.some.inj (run'.symm.trans again))
  have upwards : Sorted descending.reverse := by
    unfold Sorted
    decide +kernel
  obtain rfl := order.unique upwards (same.trans (List.reverse_perm _).symm)
  exact ⟨reference', shortcut', precalc', run, run', run''⟩

end PrototypeBundle.Radix
