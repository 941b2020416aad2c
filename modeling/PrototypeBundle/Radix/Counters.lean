import PrototypeBundle.Radix.Passes

set_option autoImplicit false

-- The passes with exact counters, which no length exceeds, compared with those of the source.

namespace PrototypeBundle.Radix

open Buckets

def addNat (a b : Nat) : Option Nat := some (a + b)

theorem addNat_exact (n : Nat) : Exact addNat n := fun _ _ _ => rfl

section Passes

variable {add : Nat → Nat → Option Nat} {radix : Nat}

theorem hit_cases {histograph counted : Histograph} {item : RenderCommand}
    (run : hit add radix histograph item = some counted) :
    ∃ count, add (histograph (byteAt radix item)) 1 = some count ∧
      counted = Function.update histograph (byteAt radix item) count := by
  obtain ⟨count, sum, same⟩ := Option.bind_eq_some_iff.mp run
  exact ⟨count, sum, (Option.some.inj same).symm⟩

theorem hitCount_cases {item : RenderCommand} {rest : List RenderCommand} {histograph counted : Histograph}
    (run : hitCount add radix (item :: rest) histograph = some counted) :
    ∃ next, hit add radix histograph item = some next ∧ hitCount add radix rest next = some counted :=
  Option.bind_eq_some_iff.mp run

theorem offsets_cases {count b offset : Nat} {histograph indexes : Histograph}
    (run : offsets add (count + 1) b offset histograph = some indexes) :
    ∃ next, add offset (histograph b) = some next ∧
      offsets add count (b + 1) next (Function.update histograph b offset) = some indexes :=
  Option.bind_eq_some_iff.mp run

theorem swapValues_cases {item : RenderCommand} {rest swap swap' : List RenderCommand}
    {histograph histograph' : Histograph}
    (run : swapValues add radix (item :: rest) histograph swap = some (histograph', swap')) :
    ∃ counted, hit add radix histograph item = some counted ∧ histograph (byteAt radix item) < swap.length ∧
      swapValues add radix rest counted (swap.set (histograph (byteAt radix item)) item) = some (histograph', swap') := by
  rw [swapValues] at run
  obtain ⟨counted, first, run⟩ := Option.bind_eq_some_iff.mp run
  obtain ⟨inside, run⟩ := Option.ite_none_right_eq_some.mp run
  exact ⟨counted, first, inside, run⟩

theorem pass_cases {items swap items' swap' : List RenderCommand} {histograph : Histograph}
    (run : pass add radix items swap = some (items', swap', histograph)) :
    swap' = items ∧ ∃ counted indexes, hitCount add radix items cleared = some counted ∧
      offsets add 256 0 0 counted = some indexes ∧
      swapValues add radix items indexes swap = some (histograph, items') := by
  obtain ⟨counted, first, run⟩ := Option.bind_eq_some_iff.mp run
  obtain ⟨indexes, second, run⟩ := Option.bind_eq_some_iff.mp run
  obtain ⟨⟨cursors, moved⟩, third, same⟩ := Option.bind_eq_some_iff.mp run
  simp only [Option.pure_def, Option.some.injEq, Prod.mk.injEq] at same
  obtain ⟨rfl, rfl, rfl⟩ := same
  exact ⟨rfl, counted, indexes, first, second, third⟩

theorem sortRadix_cases {count : Nat} {items swap items' swap' : List RenderCommand} {histograph histograph' : Histograph}
    (run : sortRadix add (count + 1) radix items swap histograph = some (items', swap', histograph')) :
    ∃ moved counted, pass add radix items swap = some (moved, items, counted) ∧
      sortRadix add count (radix + 1) moved items counted = some (items', swap', histograph') := by
  obtain ⟨⟨moved, left, counted⟩, first, rest⟩ := Option.bind_eq_some_iff.mp run
  obtain ⟨rfl, -⟩ := pass_cases first
  exact ⟨moved, counted, first, rest⟩

theorem swapValues_length {items swap swap' : List RenderCommand} {histograph histograph' : Histograph}
    (run : swapValues add radix items histograph swap = some (histograph', swap')) : swap'.length = swap.length := by
  induction items generalizing histograph swap with
  | nil =>
      obtain ⟨-, rfl⟩ := Prod.mk.inj (Option.some.inj run)
      rfl
  | cons item rest ih =>
      obtain ⟨counted, -, -, run⟩ := swapValues_cases run
      rw [ih run, List.length_set]

theorem pass_length {items swap items' swap' : List RenderCommand} {histograph : Histograph}
    (run : pass add radix items swap = some (items', swap', histograph)) : items'.length = swap.length := by
  obtain ⟨-, counted, indexes, -, -, moved⟩ := pass_cases run
  exact swapValues_length moved

end Passes

section Wrapping

def wrapped (histograph : Histograph) : Histograph := fun b => histograph b % 2 ^ 32

theorem wrapped_update (histograph : Histograph) (b value : Nat) :
    Function.update (wrapped histograph) b (value % 2 ^ 32) = wrapped (Function.update histograph b value) := by
  funext c
  by_cases here : c = b
  · subst here
    simp [wrapped]
  · simp [wrapped, here]

variable {radix : Nat}

theorem hit_wrapped (histograph : Histograph) (item : RenderCommand) :
    hit addUint32 radix (wrapped histograph) item = (hit addNat radix histograph item).map wrapped := by
  have sum : (wrapped histograph (byteAt radix item) + 1) % 2 ^ 32 = (histograph (byteAt radix item) + 1) % 2 ^ 32 :=
    Nat.mod_add_mod ..
  simp only [hit, addUint32, addNat, Option.bind_eq_bind, Option.bind_some, sum, wrapped_update]
  rfl

theorem hitCount_wrapped (radix : Nat) (items : List RenderCommand) (histograph : Histograph) :
    hitCount addUint32 radix items (wrapped histograph) = (hitCount addNat radix items histograph).map wrapped := by
  induction items generalizing histograph with
  | nil => rfl
  | cons item rest ih =>
      rw [hitCount, hitCount, hit_wrapped]
      cases hit addNat radix histograph item with
      | none => rfl
      | some counted => exact ih counted

theorem offsets_wrapped (count b offset : Nat) (histograph : Histograph) :
    offsets addUint32 count b (offset % 2 ^ 32) (wrapped histograph) =
      (offsets addNat count b offset histograph).map wrapped := by
  induction count generalizing b offset histograph with
  | zero => rfl
  | succ count ih =>
      have sum : addUint32 (offset % 2 ^ 32) (wrapped histograph b) = some ((offset + histograph b) % 2 ^ 32) :=
        congrArg some (Nat.add_mod ..).symm
      rw [offsets, offsets, sum, wrapped_update]
      exact ih ..

theorem swapValues_wrapped {items swap swap' : List RenderCommand} {histograph histograph' : Histograph}
    (short : swap.length ≤ 2 ^ 32)
    (run : swapValues addNat radix items histograph swap = some (histograph', swap')) :
    swapValues addUint32 radix items (wrapped histograph) swap = some (wrapped histograph', swap') := by
  induction items generalizing swap histograph with
  | nil =>
      obtain ⟨rfl, rfl⟩ := Prod.mk.inj (Option.some.inj run)
      rfl
  | cons item rest ih =>
      obtain ⟨counted, first, inside, run⟩ := swapValues_cases run
      have index : wrapped histograph (byteAt radix item) = histograph (byteAt radix item) :=
        Nat.mod_eq_of_lt (by omega)
      rw [swapValues, hit_wrapped, first, index]
      simp only [Option.map_some, Option.bind_eq_bind, Option.bind_some, if_pos inside]
      exact ih (by rwa [List.length_set]) run

theorem pass_wrapped {items swap items' swap' : List RenderCommand} {histograph : Histograph}
    (short : swap.length ≤ 2 ^ 32) (run : pass addNat radix items swap = some (items', swap', histograph)) :
    pass addUint32 radix items swap = some (items', swap', wrapped histograph) := by
  obtain ⟨rfl, counted, indexes, first, second, third⟩ := pass_cases run
  have counts := hitCount_wrapped radix swap' cleared
  have places := offsets_wrapped 256 0 0 counted
  rw [first] at counts
  rw [second] at places
  have moves := swapValues_wrapped short third
  change hitCount addUint32 radix swap' cleared = _ at counts
  change offsets addUint32 256 0 0 _ = _ at places
  rw [pass, counts]
  simp only [Option.map_some, Option.bind_eq_bind, Option.bind_some, places, moves]
  rfl

theorem sortRadix_wrapped {count : Nat} {items swap items' swap' : List RenderCommand}
    {histograph final : Histograph} (short : items.length ≤ 2 ^ 32) (scratch : swap.length ≤ 2 ^ 32)
    (run : sortRadix addNat count radix items swap histograph = some (items', swap', final)) (histograph' : Histograph) :
    ∃ final', sortRadix addUint32 count radix items swap histograph' = some (items', swap', final') := by
  induction count generalizing radix items swap histograph histograph' with
  | zero =>
      simp only [sortRadix, Option.some.injEq, Prod.mk.injEq] at run
      obtain ⟨rfl, rfl, -⟩ := run
      exact ⟨histograph', rfl⟩
  | succ count ih =>
      obtain ⟨moved, counted, first, rest⟩ := sortRadix_cases run
      have length := pass_length first
      obtain ⟨final', others⟩ := ih (by omega) short rest (wrapped counted)
      refine ⟨final', ?_⟩
      rw [sortRadix, pass_wrapped scratch first]
      exact others

-- Up to 2^32 items the indexes are right, though a count may wrap to 0.
theorem pass_uint32 {items swap : List RenderCommand} (short : items.length ≤ 2 ^ 32)
    (scratch : swap.length = items.length) :
    ∃ histograph, pass addUint32 radix items swap = some (arrange (byteAt radix) 256 items, items, histograph) := by
  obtain ⟨histograph, run⟩ := pass_spec (addNat_exact items.length) radix (Nat.le_refl _) scratch
  exact ⟨wrapped histograph, pass_wrapped (by omega) run⟩

end Wrapping

section Narrow

variable {radix : Nat}

def Narrow (histograph : Histograph) : Prop := ∀ b, histograph b < 2 ^ 32

theorem Narrow.update {histograph : Histograph} (narrow : Narrow histograph) (b : Nat) {value : Nat}
    (small : value < 2 ^ 32) : Narrow (Function.update histograph b value) := by
  intro c
  by_cases here : c = b
  · rwa [here, Function.update_self]
  · rw [Function.update_of_ne here]
    exact narrow c

theorem addUint32_narrow {a b sum : Nat} (run : addUint32 a b = some sum) : sum < 2 ^ 32 := by
  obtain rfl := Option.some.inj run
  exact Nat.mod_lt _ (Nat.two_pow_pos _)

theorem Narrow.hit {histograph counted : Histograph} {item : RenderCommand} (narrow : Narrow histograph)
    (run : hit addUint32 radix histograph item = some counted) : Narrow counted := by
  obtain ⟨count, sum, rfl⟩ := hit_cases run
  exact narrow.update _ (addUint32_narrow sum)

theorem Narrow.hitCount {items : List RenderCommand} {histograph counted : Histograph} (narrow : Narrow histograph)
    (run : hitCount addUint32 radix items histograph = some counted) : Narrow counted := by
  induction items generalizing histograph with
  | nil => exact Option.some.inj run ▸ narrow
  | cons item rest ih =>
      obtain ⟨next, first, others⟩ := hitCount_cases run
      exact ih (narrow.hit first) others

theorem Narrow.offsets {count b offset : Nat} {histograph indexes : Histograph} (narrow : Narrow histograph)
    (small : offset < 2 ^ 32) (run : offsets addUint32 count b offset histograph = some indexes) : Narrow indexes := by
  induction count generalizing b offset histograph with
  | zero => exact Option.some.inj run ▸ narrow
  | succ count ih =>
      obtain ⟨next, sum, others⟩ := offsets_cases run
      exact ih (narrow.update b small) (addUint32_narrow sum) others

theorem swapValues_high {items swap swap' : List RenderCommand} {histograph histograph' : Histograph}
    (narrow : Narrow histograph) (run : swapValues addUint32 radix items histograph swap = some (histograph', swap'))
    {place : Nat} (high : 2 ^ 32 ≤ place) : swap'[place]? = swap[place]? := by
  induction items generalizing swap histograph with
  | nil =>
      obtain ⟨-, rfl⟩ := Prod.mk.inj (Option.some.inj run)
      rfl
  | cons item rest ih =>
      obtain ⟨counted, first, -, run⟩ := swapValues_cases run
      have index := narrow (byteAt radix item)
      rw [ih (narrow.hit first) run, List.getElem?_set_ne (by omega)]

theorem pass_high {items swap items' swap' : List RenderCommand} {histograph : Histograph}
    (run : pass addUint32 radix items swap = some (items', swap', histograph)) {place : Nat} (high : 2 ^ 32 ≤ place) :
    items'[place]? = swap[place]? := by
  obtain ⟨-, counted, indexes, first, second, third⟩ := pass_cases run
  have start : Narrow cleared := fun _ => Nat.two_pow_pos 32
  exact swapValues_high ((start.hitCount first).offsets (Nat.two_pow_pos 32) second) third high

end Narrow

theorem swapValues_last {add : Nat → Nat → Option Nat} {radix : Nat} {items swap swap' : List RenderCommand}
    {histograph histograph' : Histograph} {item : RenderCommand}
    (run : swapValues add radix (items ++ [item]) histograph swap = some (histograph', swap')) : item ∈ swap' := by
  induction items generalizing swap histograph with
  | nil =>
      obtain ⟨counted, -, inside, run⟩ := swapValues_cases run
      obtain ⟨-, rfl⟩ := Prod.mk.inj (Option.some.inj run)
      exact List.mem_set inside item
  | cons first rest ih =>
      obtain ⟨counted, -, -, run⟩ := swapValues_cases run
      exact ih run

section Overflow

variable {radix : Nat}

theorem addInt_cases {a b sum : Nat} (run : addInt a b = some sum) : sum = a + b ∧ a + b < 2 ^ 31 := by
  obtain ⟨small, same⟩ := Option.ite_none_right_eq_some.mp run
  exact ⟨(Option.some.inj same).symm, small⟩

theorem hitCount_int {items : List RenderCommand} {histograph counted : Histograph}
    (run : hitCount addInt radix items histograph = some counted) :
    hitCount addNat radix items histograph = some counted := by
  induction items generalizing histograph with
  | nil => exact run
  | cons item rest ih =>
      obtain ⟨next, first, others⟩ := hitCount_cases run
      obtain ⟨count, sum, rfl⟩ := hit_cases first
      rw [(addInt_cases sum).1] at others
      rw [hitCount, hit, addNat]
      exact ih others

theorem offsets_int {items : List RenderCommand} {count b : Nat} {histograph indexes : Histograph}
    (hits : ∀ c, b ≤ c → histograph c = (bucket (byteAt radix) items c).length)
    (run : offsets addInt (count + 1) b (start (byteAt radix) items b) histograph = some indexes) :
    start (byteAt radix) items (b + (count + 1)) < 2 ^ 31 := by
  induction count generalizing b histograph with
  | zero =>
      obtain ⟨next, sum, -⟩ := offsets_cases run
      have small := (addInt_cases sum).2
      rw [hits b (Nat.le_refl b), ← start_succ] at small
      exact small
  | succ count ih =>
      obtain ⟨next, sum, others⟩ := offsets_cases run
      have same := (addInt_cases sum).1
      rw [hits b (Nat.le_refl b), ← start_succ] at same
      rw [same] at others
      rw [show b + (count + 1 + 1) = b + 1 + (count + 1) by omega]
      refine ih ?_ others
      intro c above
      rw [Function.update_of_ne (by omega)]
      exact hits c (by omega)

theorem pass_int {items swap items' swap' : List RenderCommand} {histograph : Histograph}
    (run : pass addInt radix items swap = some (items', swap', histograph)) : items.length < 2 ^ 31 := by
  obtain ⟨-, counted, indexes, first, second, -⟩ := pass_cases run
  have part (b : Nat) : cleared b + (bucket (byteAt radix) items b).length ≤ items.length :=
    Nat.le_trans (Nat.le_of_eq (Nat.zero_add _)) (List.length_filter_le ..)
  have counts := hitCount_spec (addNat_exact items.length) radix items cleared part
  have hits := Option.some.inj ((hitCount_int first).symm.trans counts)
  have whole := start_all (byteAt radix) (l := items) (m := 256) fun item _ => byteAt_lt radix item
  have places : offsets addInt (255 + 1) 0 (start (byteAt radix) items 0) counted = some indexes := by
    rw [start_zero]
    exact second
  rw [← whole]
  refine offsets_int ?_ places
  intro c _
  rw [hits]
  exact Nat.zero_add _

end Overflow

end PrototypeBundle.Radix
