import PrototypeBundle.Radix.Correct
import PrototypeBundle.Radix.Counters

set_option autoImplicit false

namespace PrototypeBundle.Radix

open Buckets

-- `std::vector::resize`
def resize (v : List RenderCommand) (capacity : Nat) : List RenderCommand :=
  v.take capacity ++ List.replicate (capacity - v.length) 0

def ReferenceRadix.reserve (r : ReferenceRadix) (capacity : Nat) : ReferenceRadix :=
  { r with swap := resize r.swap capacity }

def ShortcutRadix.reserve (r : ShortcutRadix) (capacity : Nat) : ShortcutRadix :=
  { r with swap := resize r.swap capacity }

def PrecalcShortcutRadix.reserve (r : PrecalcShortcutRadix) (capacity : Nat) : PrecalcShortcutRadix :=
  { r with swap := resize r.swap capacity }

def ReferenceRadix.fresh : ReferenceRadix := ⟨[], cleared⟩

def ShortcutRadix.fresh : ShortcutRadix := ⟨[], cleared⟩

def PrecalcShortcutRadix.fresh : PrecalcShortcutRadix := ⟨[], fun _ => cleared⟩

/-- Every write is inside of its vector, and the items are as many as before, and sorted. -/
def Sorts (items : List RenderCommand) (result : Option (List RenderCommand)) : Prop :=
  ∃ sorted, result = some sorted ∧ sorted.length = items.length ∧ SortedAs items sorted

def ReferenceRadix.Meets (capacity : Nat) (items : List RenderCommand) : Prop :=
  Sorts items (((fresh.reserve capacity).sort items).map Prod.fst)

def ShortcutRadix.Meets (capacity : Nat) (items : List RenderCommand) : Prop :=
  Sorts items (((fresh.reserve capacity).sort items).map Prod.fst)

def PrecalcShortcutRadix.Meets (capacity : Nat) (items : List RenderCommand) : Prop :=
  Sorts items (((fresh.reserve capacity).sort items).map Prod.fst)

theorem resize_nil (capacity : Nat) : resize [] capacity = List.replicate capacity 0 := by
  rw [resize, List.take_nil, List.nil_append, List.length_nil, Nat.sub_zero]

theorem Sorts.of_sortedAs {items sorted : List RenderCommand} {result : Option (List RenderCommand)}
    (run : result = some sorted) (order : SortedAs items sorted) : Sorts items result :=
  ⟨sorted, run, order.2.length_eq, order⟩

section Pass

variable {add : Nat → Nat → Option Nat} {radix : Nat}

theorem swapValues_append {items swap swap' : List RenderCommand} {histograph histograph' : Histograph}
    (run : swapValues add radix items histograph swap = some (histograph', swap')) (tail : List RenderCommand) :
    swapValues add radix items histograph (swap ++ tail) = some (histograph', swap' ++ tail) := by
  induction items generalizing swap histograph with
  | nil =>
      obtain ⟨rfl, rfl⟩ := Prod.mk.inj (Option.some.inj run)
      rfl
  | cons item rest ih =>
      obtain ⟨counted, first, inside, run⟩ := swapValues_cases run
      have more : histograph (byteAt radix item) < (swap ++ tail).length := by
        rw [List.length_append]
        omega
      rw [swapValues, first]
      simp only [Option.bind_eq_bind, Option.bind_some, if_pos more]
      rw [List.set_append_left _ _ inside]
      exact ih run

theorem pass_append {items swap items' swap' : List RenderCommand} {histograph : Histograph}
    (run : pass add radix items swap = some (items', swap', histograph)) (tail : List RenderCommand) :
    pass add radix items (swap ++ tail) = some (items' ++ tail, swap', histograph) := by
  obtain ⟨rfl, counted, indexes, first, second, third⟩ := pass_cases run
  rw [pass, first]
  simp only [Option.bind_eq_bind, Option.bind_some, second, swapValues_append third tail]
  rfl

-- With a vector that is too short some write is outside of it. Otherwise the same writes would
-- leave the end of a longer vector as it is, whatever is there.
theorem pass_short {items swap : List RenderCommand}
    (whole : ∀ scratch : List RenderCommand, scratch.length = items.length →
      ∃ histograph, pass add radix items scratch = some (arrange (byteAt radix) 256 items, items, histograph))
    (short : swap.length < items.length) : pass add radix items swap = none := by
  cases run : pass add radix items swap with
  | none => rfl
  | some result =>
      obtain ⟨items', swap', histograph⟩ := result
      have same (fill : RenderCommand) :
          items' ++ List.replicate (items.length - swap.length) fill = arrange (byteAt radix) 256 items := by
        obtain ⟨histograph', longer⟩ := whole (swap ++ List.replicate (items.length - swap.length) fill) (by
          rw [List.length_append, List.length_replicate]
          omega)
        rw [pass_append run] at longer
        exact (Prod.mk.inj (Option.some.inj longer)).1
      have ends := List.append_cancel_left ((same 0).trans (same 1).symm)
      obtain ⟨more, missing⟩ : ∃ more, items.length - swap.length = more + 1 := ⟨items.length - swap.length - 1, by omega⟩
      rw [missing, List.replicate_succ, List.replicate_succ] at ends
      exact absurd (List.cons.inj ends).1 (by decide)

-- The second pass reads the vector that was reserved and writes to the one that was passed.
theorem sortRadix_short {items swap : List RenderCommand} {histograph : Histograph} {count : Nat}
    (second : ∀ moved : List RenderCommand, moved.length = swap.length → pass add (radix + 1) moved items = none) :
    sortRadix add (count + 2) radix items swap histograph = none := by
  cases run : sortRadix add (count + 2) radix items swap histograph with
  | none => rfl
  | some result =>
      obtain ⟨items', swap', histograph'⟩ := result
      obtain ⟨moved, counted, first, rest⟩ := sortRadix_cases run
      obtain ⟨back, counted', again, -⟩ := sortRadix_cases rest
      rw [second moved (pass_length first)] at again
      simp at again

end Pass

section Reference

theorem reference_sort_eq (capacity : Nat) (items : List RenderCommand) :
    ((ReferenceRadix.fresh.reserve capacity).sort items).map Prod.fst =
      (sortRadix addUint32 radixCount 0 items (List.replicate capacity 0) cleared).map Prod.fst := by
  rw [ReferenceRadix.sort, ReferenceRadix.reserve, ReferenceRadix.fresh, resize_nil]
  cases sortRadix addUint32 radixCount 0 items (List.replicate capacity 0) cleared <;> rfl

theorem reference_meets {capacity : Nat} {items : List RenderCommand} (exactly : capacity = items.length)
    (short : capacity ≤ 2 ^ 32) : ReferenceRadix.Meets capacity items := by
  have scratch : (List.replicate capacity (0 : RenderCommand)).length = items.length := by
    rw [List.length_replicate, exactly]
  obtain ⟨swap', histograph, run, -⟩ := sortRadix_spec (addNat_exact items.length) radixCount 0 items _ (Nat.le_refl _)
    scratch cleared
  obtain ⟨final, run⟩ := sortRadix_wrapped (by omega) (by omega) run cleared
  have leaves : ((ReferenceRadix.fresh.reserve capacity).sort items).map Prod.fst = some (arranged radixCount 0 items) := by
    rw [reference_sort_eq, run]
    rfl
  exact .of_sortedAs leaves ⟨arranged_sorted items, arranged_perm ..⟩

theorem reference_fails {capacity : Nat} {items : List RenderCommand} (less : items.length < capacity)
    (short : capacity ≤ 2 ^ 32) : ¬ ReferenceRadix.Meets capacity items := by
  rintro ⟨sorted, run, -⟩
  have second (moved : List RenderCommand) (length : moved.length = (List.replicate capacity (0 : RenderCommand)).length) :
      pass addUint32 (0 + 1) moved items = none := by
    rw [List.length_replicate] at length
    exact pass_short (fun scratch same => pass_uint32 (by omega) same) (by omega)
  rw [reference_sort_eq, show radixCount = 6 + 2 by rfl, sortRadix_short second] at run
  simp at run

-- Beyond 2^32 places nothing overwrites the last one, and the next pass moves it last.
theorem pass_zero {radix : Nat} {items swap moved back : List RenderCommand} {counted counted' : Histograph}
    (long : 2 ^ 32 < swap.length) (last : swap.getLast? = some 0)
    (first : pass addUint32 radix items swap = some (moved, items, counted))
    (second : pass addUint32 (radix + 1) moved items = some (back, moved, counted')) :
    moved.length = swap.length ∧ moved.getLast? = some 0 ∧ 0 ∈ back := by
  have length := pass_length first
  have kept : moved.getLast? = some 0 := by
    rw [List.getLast?_eq_getElem?, length, pass_high first (by omega), ← List.getLast?_eq_getElem?, last]
  obtain ⟨front, rfl⟩ := List.getLast?_eq_some_iff.mp kept
  obtain ⟨-, hits, indexes, -, -, run⟩ := pass_cases second
  exact ⟨length, kept, swapValues_last run⟩

theorem sortRadix_zero (count : Nat) {radix : Nat} {items swap items' swap' : List RenderCommand}
    {histograph histograph' : Histograph} (long : 2 ^ 32 < swap.length) (last : swap.getLast? = some 0)
    (run : sortRadix addUint32 (2 * count + 2) radix items swap histograph = some (items', swap', histograph')) :
    0 ∈ items' := by
  induction count generalizing radix items swap histograph with
  | zero =>
      obtain ⟨moved, counted, first, run⟩ := sortRadix_cases run
      obtain ⟨back, counted', second, run⟩ := sortRadix_cases run
      obtain ⟨rfl, -⟩ := Prod.mk.inj (Option.some.inj run)
      exact (pass_zero long last first second).2.2
  | succ count ih =>
      have run : sortRadix addUint32 (2 * count + 2 + 2) radix items swap histograph = some (items', swap', histograph') := run
      obtain ⟨moved, counted, first, run⟩ := sortRadix_cases run
      obtain ⟨back, counted', second, run⟩ := sortRadix_cases run
      obtain ⟨length, kept, -⟩ := pass_zero long last first second
      exact ih (by omega) kept run

theorem reference_loses {capacity : Nat} {items : List RenderCommand} (long : 2 ^ 32 < capacity)
    (nonzero : 0 ∉ items) : ¬ ReferenceRadix.Meets capacity items := by
  rintro ⟨sorted, run, -, -, same⟩
  rw [reference_sort_eq, Option.map_eq_some_iff] at run
  obtain ⟨⟨items', swap', histograph⟩, run, rfl⟩ := run
  have last : (List.replicate capacity (0 : RenderCommand)).getLast? = some 0 := by
    rw [List.getLast?_replicate, if_neg (by omega)]
  have zero := sortRadix_zero 3 (by rwa [List.length_replicate]) last run
  exact nonzero (same.subset zero)

theorem reference_iff {capacity n : Nat} (le : n ≤ capacity) :
    (∀ items, items.length = n → ReferenceRadix.Meets capacity items) ↔ capacity = n ∧ n ≤ 2 ^ 32 := by
  constructor
  · intro meets
    by_cases short : capacity ≤ 2 ^ 32
    · by_contra other
      refine reference_fails ?_ short (meets (List.replicate n 0) List.length_replicate)
      rw [List.length_replicate]
      omega
    · have nonzero : (0 : RenderCommand) ∉ List.replicate n 1 := by
        intro member
        exact absurd (List.eq_of_mem_replicate member) (by decide)
      exact absurd (meets _ List.length_replicate) (reference_loses (by omega) nonzero)
  · rintro ⟨rfl, short⟩ items rfl
    exact reference_meets rfl short

end Reference

section Shortcut

theorem shortcut_meets_short {capacity : Nat} {items : List RenderCommand} (short : items.length < 64) :
    ShortcutRadix.Meets capacity items := by
  refine .of_sortedAs ?_ (sortInsert_spec items)
  rw [ShortcutRadix.sort, if_pos short]
  rfl

theorem shortcut_meets {capacity : Nat} {items : List RenderCommand} (exactly : capacity = items.length)
    (bound : items.length < 2 ^ 31) : ShortcutRadix.Meets capacity items := by
  have scratch : (ShortcutRadix.fresh.reserve capacity).swap.length = items.length := by
    rw [ShortcutRadix.reserve, ShortcutRadix.fresh, resize_nil, List.length_replicate, exactly]
  obtain ⟨sorted, r', run, order⟩ := shortcut_sort_spec bound scratch
  exact .of_sortedAs (by rw [run]; rfl) order

theorem shortcut_needs {capacity : Nat} {items : List RenderCommand} (le : items.length ≤ capacity)
    (many : ¬ items.length < 64) (meets : ShortcutRadix.Meets capacity items) :
    capacity = items.length ∧ items.length < 2 ^ 31 := by
  obtain ⟨sorted, run, -⟩ := meets
  rw [ShortcutRadix.sort, if_neg many, ShortcutRadix.reserve, ShortcutRadix.fresh, resize_nil] at run
  cases passes : sortRadix addInt radixCount 0 items (List.replicate capacity 0) cleared with
  | none =>
      rw [passes] at run
      simp at run
  | some result =>
      obtain ⟨items', swap', histograph⟩ := result
      obtain ⟨moved, counted, first, rest⟩ := sortRadix_cases passes
      refine ⟨?_, pass_int first⟩
      by_contra other
      obtain ⟨back, counted', second, -⟩ := sortRadix_cases rest
      have length := pass_length first
      rw [List.length_replicate] at length
      have exact' := addInt_exact (pass_int second)
      have outside := pass_short (fun scratch same => pass_spec exact' (0 + 1) (Nat.le_refl _) same)
        (show items.length < moved.length by omega)
      rw [outside] at second
      simp at second

theorem shortcut_iff {capacity : Nat} {items : List RenderCommand} (le : items.length ≤ capacity) :
    ShortcutRadix.Meets capacity items ↔ items.length < 64 ∨ capacity = items.length ∧ items.length < 2 ^ 31 := by
  constructor
  · intro meets
    by_cases short : items.length < 64
    · exact Or.inl short
    · exact Or.inr (shortcut_needs le short meets)
  · rintro (short | ⟨exactly, bound⟩)
    · exact shortcut_meets_short short
    · exact shortcut_meets exactly bound

end Shortcut

section Precalc

theorem precalc_meets_short {capacity : Nat} {items : List RenderCommand} (short : items.length < 64) :
    PrecalcShortcutRadix.Meets capacity items := by
  refine .of_sortedAs ?_ (sortInsert_spec items)
  rw [PrecalcShortcutRadix.sort, if_pos short]
  rfl

theorem precalc_meets {capacity : Nat} {items : List RenderCommand} (exactly : capacity = items.length)
    (bound : items.length < 2 ^ 31) : PrecalcShortcutRadix.Meets capacity items := by
  have scratch : (PrecalcShortcutRadix.fresh.reserve capacity).swap.length = items.length := by
    rw [PrecalcShortcutRadix.reserve, PrecalcShortcutRadix.fresh, resize_nil, List.length_replicate, exactly]
  obtain ⟨sorted, r', run, order⟩ := precalc_sort_spec bound scratch
  exact .of_sortedAs (by rw [run]; rfl) order

theorem byteAt_zero (radix : Nat) : byteAt radix 0 = 0 := by
  simp [byteAt]

theorem swapValues_zeros {radix count : Nat} {histograph : Histograph} {swap : List RenderCommand}
    (inside : histograph 0 ≤ swap.length) (more : swap.length < histograph 0 + count) :
    swapValues addInt radix (List.replicate count 0) histograph swap = none := by
  cases run : swapValues addInt radix (List.replicate count 0) histograph swap with
  | none => rfl
  | some result =>
      obtain ⟨cursors, swap'⟩ := result
      induction count generalizing histograph swap with
      | zero => omega
      | succ count ih =>
          rw [List.replicate_succ] at run
          obtain ⟨counted, first, index, rest⟩ := swapValues_cases run
          obtain ⟨next, sum, rfl⟩ := hit_cases first
          rw [byteAt_zero] at sum index rest
          have value := (addInt_cases sum).1
          refine ih ?_ ?_ rest
          · rw [Function.update_self, List.length_set]
            omega
          · rw [Function.update_self, List.length_set]
            omega

theorem swapValues_keeps_zeros {radix count length : Nat} {histograph cursors : Histograph} {swap : List RenderCommand}
    (run : swapValues addInt radix (List.replicate count 0) histograph (List.replicate length 0) = some (cursors, swap)) :
    swap = List.replicate length 0 := by
  induction count generalizing histograph with
  | zero => exact (Prod.mk.inj (Option.some.inj run)).2.symm
  | succ count ih =>
      rw [List.replicate_succ] at run
      obtain ⟨counted, -, -, run⟩ := swapValues_cases run
      rw [List.set_replicate_self] at run
      exact ih run

theorem reorder_zeros (count : Nat) {n capacity : Nat} {histograph : Nat → Histograph} (less : n < capacity)
    (start : histograph 1 0 = 0) :
    reorder (count + 2) 0 (List.replicate n 0) (List.replicate capacity 0) histograph = none := by
  rw [reorder]
  cases run : swapValues addInt 0 (List.replicate n 0) (histograph 0) (List.replicate capacity 0) with
  | none => rfl
  | some result =>
      obtain ⟨cursors, swap⟩ := result
      obtain rfl := swapValues_keeps_zeros run
      have kept : Function.update histograph 0 cursors 1 = histograph 1 := Function.update_of_ne (by omega) ..
      have outside : swapValues addInt 1 (List.replicate capacity 0) (histograph 1) (List.replicate n 0) = none := by
        refine swapValues_zeros (by omega) ?_
        rw [List.length_replicate, start]
        omega
      simp only [Option.bind_eq_bind, Option.bind_some]
      rw [reorder, kept, outside]
      rfl

theorem hitAll_frame {item : RenderCommand} {count radix : Nat} {histograph counted : Nat → Histograph}
    (run : hitAll count radix histograph item = some counted) {ρ : Nat} (below : ρ < radix) : counted ρ = histograph ρ := by
  induction count generalizing radix histograph with
  | zero => rw [← Option.some.inj run]
  | succ count ih =>
      obtain ⟨here, -, run⟩ := Option.bind_eq_some_iff.mp run
      rw [ih run (by omega), Function.update_of_ne (by omega)]

theorem precalc_zeros {count : Nat} {histograph : Nat → Histograph} (small : histograph 0 0 < 2 ^ 31)
    (many : 2 ^ 31 ≤ histograph 0 0 + count) : precalc (List.replicate count 0) histograph = none := by
  induction count generalizing histograph with
  | zero => omega
  | succ count ih =>
      rw [List.replicate_succ, precalc]
      cases run : hitAll radixCount 0 histograph 0 with
      | none => rfl
      | some next =>
          obtain ⟨here, first, rest⟩ := Option.bind_eq_some_iff.mp run
          obtain ⟨value, sum, rfl⟩ := hit_cases first
          have same := hitAll_frame rest (show 0 < 0 + 1 by omega)
          rw [Function.update_self, byteAt_zero] at same
          rw [byteAt_zero] at sum
          have grown : next 0 0 = histograph 0 0 + 1 := by
            rw [same, Function.update_self]
            exact (addInt_cases sum).1
          exact ih (by rw [grown]; exact (addInt_cases sum).2) (by rw [grown]; omega)

theorem precalc_fails {capacity n : Nat} (le : n ≤ capacity) (many : ¬ n < 64)
    (other : ¬ (capacity = n ∧ n < 2 ^ 31)) : ¬ PrecalcShortcutRadix.Meets capacity (List.replicate n 0) := by
  rintro ⟨sorted, run, -⟩
  rw [PrecalcShortcutRadix.sort, List.length_replicate, if_neg many, PrecalcShortcutRadix.sortRadix,
    PrecalcShortcutRadix.reserve, PrecalcShortcutRadix.fresh, resize_nil] at run
  by_cases bound : n < 2 ^ 31
  · have exact' := addInt_exact bound
    have part (ρ b : Nat) : (bucket (byteAt ρ) (List.replicate n 0) b).length ≤ n :=
      Nat.le_trans (List.length_filter_le ..) (Nat.le_of_eq List.length_replicate)
    obtain ⟨counted, counts, hits⟩ := precalc_spec exact' (List.replicate n 0) (fun _ => cleared) (by
      intro ρ _ b
      exact Nat.le_trans (Nat.le_of_eq (Nat.zero_add _)) (part ρ b))
    obtain ⟨indexes, converts, -, places⟩ := offsetsAll_spec exact' (List.replicate n 0)
      (Nat.le_of_eq List.length_replicate) radixCount 0 counted (by
        intro ρ _ below b
        rw [hits ρ (by omega) b]
        exact Nat.zero_add _)
    have start : indexes 1 0 = 0 := by
      rw [places 1 (by omega) (by decide) 0 (by omega), start_zero]
    have outside := reorder_zeros 6 (show n < capacity by omega) start
    rw [counts] at run
    simp only [Option.bind_eq_bind, Option.bind_some, converts] at run
    rw [show radixCount = 6 + 2 by rfl, outside] at run
    simp at run
  · have overflow : precalc (List.replicate n 0) (fun _ => cleared) = none := by
      refine precalc_zeros (Nat.two_pow_pos 31) ?_
      rw [cleared]
      omega
    rw [overflow] at run
    simp at run

theorem precalc_iff {capacity n : Nat} (le : n ≤ capacity) :
    (∀ items, items.length = n → PrecalcShortcutRadix.Meets capacity items) ↔
      n < 64 ∨ capacity = n ∧ n < 2 ^ 31 := by
  constructor
  · intro meets
    by_contra other
    simp only [not_or] at other
    exact precalc_fails le other.1 other.2 (meets _ List.length_replicate)
  · rintro (short | ⟨rfl, bound⟩) items rfl
    · exact precalc_meets_short short
    · exact precalc_meets rfl bound

end Precalc

theorem reference_vector_iff {capacity : Nat} {items : List RenderCommand} (le : items.length ≤ capacity)
    (short : capacity ≤ 2 ^ 32) : ReferenceRadix.Meets capacity items ↔ capacity = items.length := by
  constructor
  · intro meets
    by_contra other
    exact reference_fails (by omega) short meets
  · intro exactly
    exact reference_meets exactly short

/-- All vectors of one length are sorted exactly when that is the length reserved (or short enough to be
inserted), and the counters can count it. -/
theorem reserve_sort_iff (capacity n : Nat) (le : n ≤ capacity) :
    ((∀ items, items.length = n → ReferenceRadix.Meets capacity items) ↔ capacity = n ∧ n ≤ 2 ^ 32) ∧
      (∀ items, items.length = n → capacity ≤ 2 ^ 32 → (ReferenceRadix.Meets capacity items ↔ capacity = n)) ∧
      (∀ items, items.length = n →
        (ShortcutRadix.Meets capacity items ↔ n < 64 ∨ capacity = n ∧ n < 2 ^ 31)) ∧
      ((∀ items, items.length = n → PrecalcShortcutRadix.Meets capacity items) ↔
        n < 64 ∨ capacity = n ∧ n < 2 ^ 31) := by
  refine ⟨reference_iff le, ?_, ?_, precalc_iff le⟩
  · rintro items rfl short
    exact reference_vector_iff le short
  · rintro items rfl
    exact shortcut_iff le

-- A hundred items: with 128 places no sorter is right for all of them, with 100 places each of them is.
theorem reserve_sort_iff_hundred :
    (¬ (∀ items, items.length = 100 → ReferenceRadix.Meets 128 items) ∧
      ¬ (∀ items, items.length = 100 → ShortcutRadix.Meets 128 items) ∧
      ¬ ∀ items, items.length = 100 → PrecalcShortcutRadix.Meets 128 items) ∧
    ∀ items, items.length = 100 →
      ReferenceRadix.Meets 100 items ∧ ShortcutRadix.Meets 100 items ∧ PrecalcShortcutRadix.Meets 100 items := by
  obtain ⟨reference, -, shortcut, precalc⟩ := reserve_sort_iff 128 100 (by decide)
  obtain ⟨reference', -, shortcut', precalc'⟩ := reserve_sort_iff 100 100 (by decide)
  refine ⟨⟨?_, ?_, ?_⟩, fun items length => ⟨?_, ?_, ?_⟩⟩
  · exact fun meets => absurd (reference.mp meets) (by decide)
  · exact fun meets => absurd ((shortcut (List.replicate 100 0) rfl).mp (meets _ rfl)) (by decide)
  · exact fun meets => absurd (precalc.mp meets) (by decide)
  · exact reference'.mpr (by decide) items length
  · exact (shortcut' items length).mpr (by decide)
  · exact precalc'.mpr (by decide) items length

/-- One place more than there are items: the second pass writes outside of the vector that was passed. -/
theorem reserve_more : ¬ ReferenceRadix.Meets 2 [1] := reference_fails (by decide) (by decide)

end PrototypeBundle.Radix
