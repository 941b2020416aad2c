import PrototypeBundle.PageCache.Threads

set_option autoImplicit false

namespace PrototypeBundle.PageCache

open BinAlloc (Config)
open Intrusive

variable (cfg : Config) (bin : Nat)

/-- `pageBlocks` and `binBlocks` are the lists of the pages and of the bins. The head of a bin
may be in use; some block of each page is neither free nor will it be given back. -/
structure BlockInv (s : System) (active : Set Page) (pageBlocks : Page → List Block) (binBlocks : Nat → List Block) :
    Prop where
  lists : ∀ p ∈ active, Active cfg s.store p (pageBlocks p)
  chains : ∀ t, Chain s.store.links (s.heads t) (binBlocks t)
  live : ∀ b ∈ s.live, b.page ∈ active ∧ b.index < cfg.binObjectCount bin ∧ b ∉ pageBlocks b.page
  once : s.live.Nodup
  cached : ∀ t, ∀ b ∈ binBlocks t, b.page ∈ active ∧ b.index < cfg.binObjectCount bin ∧ b ∉ pageBlocks b.page
  apart : ∀ t t', ∀ b ∈ binBlocks t, b ∈ binBlocks t' → t = t'
  behind : ∀ t, ∀ b ∈ (binBlocks t).tail, b ∉ s.live
  stuck : ∀ p ∈ active, ∃ i, i < cfg.binObjectCount bin ∧ Block.mk p i ∉ pageBlocks p ∧ Block.mk p i ∉ s.live ∧
    ∀ t, Block.mk p i ∉ (binBlocks t).tail

section Blocks

variable {cfg bin} {s s' : System} {active : Set Page} {pageBlocks : Page → List Block} {binBlocks : Nat → List Block}
  {t : Nat} {p : Page}

theorem BlockInv.congr (inv : BlockInv cfg bin s active pageBlocks binBlocks)
    (pages : ∀ p ∈ active, (s'.store.pages (.page p)).freeList = (s.store.pages (.page p)).freeList ∧
      (s'.store.pages (.page p)).used = (s.store.pages (.page p)).used ∧
      (s'.store.pages (.page p)).binIndex = (s.store.pages (.page p)).binIndex)
    (links : ∀ b : Block, b.page ∈ active → s'.store.links b = s.store.links b) (heads : s'.heads = s.heads)
    (live : s'.live = s.live) : BlockInv cfg bin s' active pageBlocks binBlocks := by
  constructor
  case lists =>
    intro p member
    have same := pages p member
    exact (inv.lists p member).congr same.1 same.2.1 same.2.2 (fun i => links _ member)
  case chains =>
    intro t
    rw [heads]
    exact (inv.chains t).congr (fun b member => links b (inv.cached t b member).1)
  case live =>
    rw [live]
    exact inv.live
  case once =>
    rw [live]
    exact inv.once
  case cached => exact inv.cached
  case apart => exact inv.apart
  case behind =>
    rw [live]
    exact inv.behind
  case stuck =>
    rw [live]
    exact inv.stuck

theorem BlockInv.advance (inv : BlockInv cfg bin s active pageBlocks binBlocks) {head : Block} {rest : List Block}
    (shape : binBlocks t = head :: rest) :
    BlockInv cfg bin
      { s with
        heads := Function.update s.heads t (s.store.links head)
        live := (s.store.links head).toList ++ s.live }
      active pageBlocks (Function.update binBlocks t rest) := by
  have chain := inv.chains t
  rw [shape] at chain
  have distinct := chain.nodup
  have inside (b : Block) (member : b ∈ rest) : b ∈ binBlocks t := by simp [shape, member]
  have unused (b : Block) (member : b ∈ rest) : b ∉ s.live := inv.behind t b (by simp [shape, member])
  have within (t' : Nat) (b : Block) (member : b ∈ Function.update binBlocks t rest t') : b ∈ binBlocks t' := by
    by_cases same : t' = t
    · subst same
      exact inside b (by simpa using member)
    · simpa [same] using member
  have next : s.store.links head = rest.head? := by
    cases rest with
    | nil => exact chain.2
    | cons b rest => exact chain.2.1
  have given (b : Block) (member : b ∈ (s.store.links head).toList) : b ∈ rest ∧ b ∉ rest.tail := by
    rw [next] at member
    cases rest with
    | nil => simp at member
    | cons c rest =>
        simp only [List.head?_cons, Option.toList_some, List.mem_singleton] at member
        subst member
        exact ⟨by simp, (List.nodup_cons.mp (List.nodup_cons.mp distinct).2).1⟩
  constructor
  case lists => exact inv.lists
  case chains =>
    intro t'
    by_cases same : t' = t
    · subst same
      simpa using chain.2
    · simpa [same] using inv.chains t'
  case live =>
    intro b member
    rcases List.mem_append.mp member with new | old
    · exact inv.cached t b (inside b (given b new).1)
    · exact inv.live b old
  case once =>
    refine List.nodup_append.mpr ⟨?_, inv.once, ?_⟩
    · cases s.store.links head <;> simp
    · rintro b new c old rfl
      exact unused b (given b new).1 old
  case cached =>
    intro t' b member
    exact inv.cached t' b (within t' b member)
  case apart =>
    intro t₁ t₂ b first second
    exact inv.apart t₁ t₂ b (within t₁ b first) (within t₂ b second)
  case behind =>
    intro t' b member live
    rcases List.mem_append.mp live with new | old
    · have from' := given b new
      by_cases same : t' = t
      · subst same
        rw [Function.update_self] at member
        exact from'.2 member
      · rw [Function.update_of_ne same] at member
        exact same (inv.apart t' t b (List.mem_of_mem_tail member) (inside b from'.1))
    · by_cases same : t' = t
      · subst same
        rw [Function.update_self] at member
        exact unused b (List.mem_of_mem_tail member) old
      · rw [Function.update_of_ne same] at member
        exact inv.behind t' b member old
  case stuck =>
    intro p member
    obtain ⟨i, below, free, out, away⟩ := inv.stuck p member
    have missing : Block.mk p i ∉ rest := by
      have tail := away t
      rwa [shape] at tail
    refine ⟨i, below, free, ?_, ?_⟩
    · intro live
      rcases List.mem_append.mp live with new | old
      · exact missing (given _ new).1
      · exact out old
    · intro t' listed
      by_cases same : t' = t
      · subst same
        rw [Function.update_self] at listed
        exact missing (List.mem_of_mem_tail listed)
      · rw [Function.update_of_ne same] at listed
        exact away t' listed

theorem BlockInv.take (inv : BlockInv cfg bin s active pageBlocks binBlocks) {list : List Block}
    (chain : Chain s.store.links (s.store.pages (.page p)).freeList list)
    (own : ∀ b ∈ list, b.page = p ∧ b.index < cfg.binObjectCount bin)
    (unused : ∀ b ∈ list, b ∉ s.live ∧ ∀ t', b ∉ binBlocks t') (empty : s.heads t = none)
    (lists : ∀ q ∈ insert p active, Active cfg (s.store.transferTo cfg p).1 q (Function.update pageBlocks p [] q))
    (stuck : ∃ i, i < cfg.binObjectCount bin ∧ Block.mk p i ∉ s.live ∧ (∀ t', Block.mk p i ∉ (binBlocks t').tail) ∧
      list.head? ≠ some ⟨p, i⟩ ∧ Block.mk p i ∉ list.tail.tail) :
    BlockInv cfg bin
      ({ s with
        store := (s.store.transferTo cfg p).1
        heads := Function.update s.heads t ((s.store.pages (.page p)).freeList.bind s.store.links)
        live := (s.store.pages (.page p)).freeList.toList ++ s.live }.goto t .idle)
      (insert p active) (Function.update pageBlocks p []) (Function.update binBlocks t list.tail) := by
  have none' : binBlocks t = [] := (inv.chains t).head_none_iff.mp empty
  have first : (s.store.pages (.page p)).freeList = list.head? := by
    cases list with
    | nil => exact chain
    | cons b rest => exact chain.1
  have given (b : Block) (member : b ∈ (s.store.pages (.page p)).freeList.toList) : b ∈ list ∧ b ∉ list.tail := by
    rw [first] at member
    have distinct := chain.nodup
    cases list with
    | nil => simp at member
    | cons c rest =>
        simp only [List.head?_cons, Option.toList_some, List.mem_singleton] at member
        subst member
        exact ⟨by simp, (List.nodup_cons.mp distinct).1⟩
  have within (t' : Nat) (b : Block) (member : b ∈ Function.update binBlocks t list.tail t') :
      t' = t ∧ b ∈ list.tail ∨ t' ≠ t ∧ b ∈ binBlocks t' := by
    by_cases same : t' = t
    · subst same
      exact Or.inl ⟨rfl, by simpa using member⟩
    · exact Or.inr ⟨same, by simpa [same] using member⟩
  have rest (b : Block) (member : b.page ∈ active ∧ b.index < cfg.binObjectCount bin ∧ b ∉ pageBlocks b.page) :
      b.page ∈ insert p active ∧ b.index < cfg.binObjectCount bin ∧ b ∉ Function.update pageBlocks p [] b.page := by
    refine ⟨Or.inr member.1, member.2.1, ?_⟩
    by_cases same : b.page = p
    · simp [same]
    · simpa [same] using member.2.2
  have mine (b : Block) (member : b ∈ list) :
      b.page ∈ insert p active ∧ b.index < cfg.binObjectCount bin ∧ b ∉ Function.update pageBlocks p [] b.page := by
    have known := own b member
    exact ⟨Or.inl known.1, known.2, by simp [known.1]⟩
  constructor
  case lists => exact lists
  case chains =>
    intro t'
    by_cases same : t' = t
    · subst same
      cases list with
      | nil => simp [first, Store.transferTo, System.goto]
      | cons b list => simpa [first, Store.transferTo, System.goto] using chain.2
    · simpa [same, Store.transferTo, System.goto] using inv.chains t'
  case live =>
    intro b member
    rcases List.mem_append.mp member with new | old
    · exact mine b (given b new).1
    · exact rest b (inv.live b old)
  case once =>
    refine List.nodup_append.mpr ⟨?_, inv.once, ?_⟩
    · cases (s.store.pages (.page p)).freeList <;> simp
    · rintro b new c old rfl
      exact (unused b (given b new).1).1 old
  case cached =>
    intro t' b member
    rcases within t' b member with ⟨_, new⟩ | ⟨_, old⟩
    · exact mine b (List.mem_of_mem_tail new)
    · exact rest b (inv.cached t' b old)
  case apart =>
    intro t₁ t₂ b one two
    rcases within t₁ b one with ⟨here, new⟩ | ⟨_, old⟩
    · rcases within t₂ b two with ⟨here', _⟩ | ⟨_, old⟩
      · rw [here, here']
      · exact absurd old ((unused b (List.mem_of_mem_tail new)).2 t₂)
    · rcases within t₂ b two with ⟨_, new⟩ | ⟨_, old'⟩
      · exact absurd old ((unused b (List.mem_of_mem_tail new)).2 t₁)
      · exact inv.apart t₁ t₂ b old old'
  case behind =>
    intro t' b member live
    have tail : t' = t ∧ b ∈ list.tail.tail ∨ t' ≠ t ∧ b ∈ (binBlocks t').tail := by
      by_cases same : t' = t
      · subst same
        exact Or.inl ⟨rfl, by simpa using member⟩
      · exact Or.inr ⟨same, by simpa [same] using member⟩
    rcases List.mem_append.mp live with new | old
    · have from' := given b new
      rcases tail with ⟨_, later⟩ | ⟨_, earlier⟩
      · exact from'.2 (List.mem_of_mem_tail later)
      · exact (unused b from'.1).2 t' (List.mem_of_mem_tail earlier)
    · rcases tail with ⟨_, later⟩ | ⟨_, earlier⟩
      · exact (unused b (List.mem_of_mem_tail (List.mem_of_mem_tail later))).1 old
      · exact inv.behind t' b earlier old
  case stuck =>
    intro q member
    by_cases same : q = p
    · subst same
      obtain ⟨i, below, out, away, notFirst, notLater⟩ := stuck
      refine ⟨i, below, by simp, ?_, ?_⟩
      · intro live
        rcases List.mem_append.mp live with new | old
        · rw [first] at new
          exact notFirst (by simpa using new)
        · exact out old
      · intro t'
        by_cases here : t' = t
        · subst here
          simpa using notLater
        · simpa [here] using away t'
    · obtain ⟨i, below, free, out, away⟩ := inv.stuck q (member.resolve_left same)
      have foreign : Block.mk q i ∉ list := fun inside => same (own _ inside).1
      refine ⟨i, below, by simpa [same] using free, ?_, ?_⟩
      · intro live
        rcases List.mem_append.mp live with new | old
        · exact foreign (given _ new).1
        · exact out old
      · intro t'
        by_cases here : t' = t
        · subst here
          rw [Function.update_self]
          exact fun inside => foreign (List.mem_of_mem_tail (List.mem_of_mem_tail inside))
        · simpa [here] using away t'

theorem BlockInv.unlisted (inv : BlockInv cfg bin s active pageBlocks binBlocks) {b : Block} (live : b ∈ s.live)
    (leaves : ∀ t, s.heads t ≠ some b) (t : Nat) : b ∉ binBlocks t := by
  intro listed
  have chain := inv.chains t
  cases shape : binBlocks t with
  | nil => simp [shape] at listed
  | cons head tail =>
      rw [shape] at listed chain
      rcases List.mem_cons.mp listed with same | later
      · exact leaves t (same ▸ chain.1)
      · exact inv.behind t _ (by simpa [shape] using later) live

theorem BlockInv.write (inv : BlockInv cfg bin s active pageBlocks binBlocks) {b : Block} (live : b ∈ s.live)
    (leaves : ∀ t, s.heads t ≠ some b) (link : Option Block) :
    BlockInv cfg bin (s.write b link) active pageBlocks binBlocks := by
  refine { inv with lists := ?_, chains := ?_ }
  · intro p member
    refine (inv.lists p member).write ?_ link
    intro listed
    obtain ⟨i, _, rfl⟩ := (inv.lists p member).own b listed
    exact (inv.live _ live).2.2 listed
  · intro t
    refine (inv.chains t).congr ?_
    intro c listed
    exact Function.update_of_ne (fun same : c = b => inv.unlisted live leaves t (same ▸ listed)) ..

theorem BlockInv.give (inv : BlockInv cfg bin s active pageBlocks binBlocks) {i : Nat}
    (live : Block.mk p i ∈ s.live) (leaves : ∀ t, s.heads t ≠ some ⟨p, i⟩)
    (pushed : Active cfg s'.store p (⟨p, i⟩ :: pageBlocks p))
    (pages : ∀ q, q ≠ p → s'.store.pages (.page q) = s.store.pages (.page q))
    (links : ∀ b, b ≠ ⟨p, i⟩ → s'.store.links b = s.store.links b) (heads : s'.heads = s.heads)
    (rest : s'.live = s.live.erase ⟨p, i⟩) :
    BlockInv cfg bin s' active (Function.update pageBlocks p (⟨p, i⟩ :: pageBlocks p)) binBlocks := by
  have away := inv.unlisted live leaves
  have kept (b : Block) (different : b ≠ ⟨p, i⟩) (out : b ∉ pageBlocks b.page) :
      b ∉ Function.update pageBlocks p (⟨p, i⟩ :: pageBlocks p) b.page := by
    by_cases same : b.page = p
    · rw [same, Function.update_self]
      simpa [different, same] using same ▸ out
    · simpa [same] using out
  constructor
  case lists =>
    intro q member
    by_cases same : q = p
    · subst same
      simpa using pushed
    · rw [Function.update_of_ne same]
      refine (inv.lists q member).congr (by rw [pages q same]) (by rw [pages q same]) (by rw [pages q same]) ?_
      intro j
      exact links _ (by simp [same])
  case chains =>
    intro t'
    rw [heads]
    exact (inv.chains t').congr (fun b listed => links b (fun same => away t' (same ▸ listed)))
  case live =>
    intro b member
    rw [rest, inv.once.mem_erase_iff] at member
    have known := inv.live b member.2
    exact ⟨known.1, known.2.1, kept b member.1 known.2.2⟩
  case once =>
    rw [rest]
    exact inv.once.erase _
  case cached =>
    intro t' b member
    have known := inv.cached t' b member
    exact ⟨known.1, known.2.1, kept b (fun same => away t' (same ▸ member)) known.2.2⟩
  case apart => exact inv.apart
  case behind =>
    intro t' b member
    rw [rest]
    exact fun live' => inv.behind t' b member (List.mem_of_mem_erase live')
  case stuck =>
    intro q member
    obtain ⟨j, below, free, out, behind⟩ := inv.stuck q member
    refine ⟨j, below, kept _ (fun same => out (same ▸ live)) free, ?_, behind⟩
    rw [rest]
    exact fun live' => out (List.mem_of_mem_erase live')

end Blocks

end PrototypeBundle.PageCache
