import PrototypeBundle.Tracing.Trace

set_option autoImplicit false

-- Payload destructors leave the records of the tracker alone here.

namespace PrototypeBundle.Tracing

open Memory Intrusive

def Tracker.releaseObject (t : Tracker) (fuel o : Nat) : Option Tracker := do
  let t ← t.listCollectRefs false o fuel
  t.setObj o fun obj => { obj with live := false }

-- The traversal of `list_collect` over the detached objects; the answer has the objects destroyed, the latest first.
def Tracker.sweep (length : Nat) : Nat → Option Nat → Tracker → List Nat → Option (Tracker × List Nat)
  | _, none, t, destroyed => some (t, destroyed)
  | 0, some _, _, _ => none
  | fuel + 1, some o, t, destroyed =>
      if (t.objs o).live then
        let next := (t.objs o).next
        if (t.objs o).state = .unreachable then do
          let t ← t.releaseObject length o
          Tracker.sweep length fuel next t (o :: destroyed)
        else if (t.objs o).state = .active then do
          let head := t.objects
          let t ← t.setObj o fun obj => { obj with next := head }
          Tracker.sweep length fuel next { t with objects := some o } destroyed
        else none
      else none

-- `list_collect` on the objects
def Tracker.collectObjects (t : Tracker) (fuel : Nat) : Option (Tracker × List Nat) :=
  Tracker.sweep fuel fuel t.objects { t with objects := none } []

def Tracker.collect (t : Tracker) (fuel : Nat) : Option (Tracker × List Nat) := do
  let t ← t.trace fuel
  t.collectObjects fuel

namespace Gc2

-- `atomic_collect` on references: the body of `list_collect` with `atomic_detach` and `atomic_push`.
def atomicCollectRefs (t : Tracker) (checkState : Bool) (owner fuel : Nat) : Option Tracker :=
  t.listCollectRefs checkState owner fuel

-- `atomic_collect` on the objects
def atomicCollectObjects (t : Tracker) (fuel : Nat) : Option (Tracker × List Nat) := t.collectObjects fuel

-- The first loop, which cleans up the reference lists as well.
def markUnreachable (length : Nat) : Nat → Option Nat → Tracker → Option Tracker
  | _, none, t => some t
  | 0, some _, _ => none
  | fuel + 1, some o, t => do
      let t ← t.setObj o fun obj => { obj with state := .unreachable }
      let t ← atomicCollectRefs t true o length
      markUnreachable length fuel (t.objs o).next t

def markObject (t : Tracker) (fuel o : Nat) (nextMarkList : Option Nat) : Option (Tracker × Option Nat) := do
  let (t, nextMarkList, _) ← t.markRefs fuel (t.objs o).refHead nextMarkList []
  let t ← t.setObj o fun obj => { obj with state := .active }
  return (t, nextMarkList)

-- Both nested loops; `next_marked` stays as it is.
def mark (length : Nat) : Nat → Tracker → Option Nat → Option Nat → Option Tracker
  | _, t, none, none => some t
  | 0, _, _, _ => none
  | fuel + 1, t, none, some o => mark length fuel t (some o) none
  | fuel + 1, t, some o, nextMarkList => do
      let (t, nextMarkList) ← markObject t length o nextMarkList
      mark length fuel t (t.objs o).nextMarked nextMarkList

def trace (t : Tracker) (fuel : Nat) : Option Tracker := do
  let t ← markUnreachable fuel fuel t.objects t
  let t ← t.setObj objectStackRoot fun obj => { obj with state := .marked }
  mark fuel fuel t (some objectStackRoot) none

def collect (t : Tracker) (fuel : Nat) : Option (Tracker × List Nat) := do
  let t ← trace t fuel
  atomicCollectObjects t fuel

end Gc2

structure Owned (t : Tracker) (L : List Nat) (R : Nat → List Nat) : Prop where
  rootNew : objectStackRoot ∉ L
  objLive : ∀ o, (t.objs o).live = true ↔ o ∈ objectStackRoot :: L
  chain : ∀ o ∈ objectStackRoot :: L, t.RefChain (t.objs o).refHead (R o)
  refLive : ∀ r, (t.refs r).live = true ↔ ∃ o ∈ objectStackRoot :: L, r ∈ R o
  apart : ∀ o ∈ objectStackRoot :: L, ∀ p ∈ objectStackRoot :: L, ∀ r ∈ R o, r ∈ R p → o = p
  states : ∀ o ∈ objectStackRoot :: L, ∀ r ∈ R o, (t.refs r).state ≠ .marked

section Owned

variable {t : Tracker} {L L' : List Nat} {R R' : Nat → List Nat} {o : Nat}

theorem Store.owned (store : Store t L R) : Owned t L R :=
  ⟨store.rootNew, store.objLive, store.chain, store.refLive, store.apart, store.states⟩

theorem Owned.congr (owned : Owned t L R) (same : ∀ x, x ∈ L' ↔ x ∈ L) (lists : ∀ x ∈ objectStackRoot :: L, R' x = R x) :
    Owned t L' R' := by
  have known (x : Nat) : x ∈ objectStackRoot :: L' ↔ x ∈ objectStackRoot :: L := by simp [same]
  refine ⟨fun root => owned.rootNew ((same _).mp root), fun x => (owned.objLive x).trans (known x).symm, ?_, ?_, ?_, ?_⟩
  · intro x inside
    rw [lists x ((known x).mp inside)]
    exact owned.chain x ((known x).mp inside)
  · intro r
    rw [owned.refLive r]
    refine exists_congr fun x => ?_
    constructor
    · rintro ⟨inside, member⟩
      exact ⟨(known x).mpr inside, (lists x inside).symm ▸ member⟩
    · rintro ⟨inside, member⟩
      exact ⟨(known x).mp inside, lists x ((known x).mp inside) ▸ member⟩
  · intro x inside y inside' r member member'
    rw [lists x ((known x).mp inside)] at member
    rw [lists y ((known y).mp inside')] at member'
    exact owned.apart x ((known x).mp inside) y ((known y).mp inside') r member member'
  · intro x inside r member
    rw [lists x ((known x).mp inside)] at member
    exact owned.states x ((known x).mp inside) r member

theorem Owned.setObjs (owned : Owned t L R) {objs' : Nat → Object} (objects : Option Nat)
    (same : ∀ x, (objs' x).live = (t.objs x).live ∧ (objs' x).refHead = (t.objs x).refHead) :
    Owned { t with objs := objs', objects } L R where
  rootNew := owned.rootNew
  objLive x := by
    rw [← owned.objLive x]
    exact (same x).1 ▸ Iff.rfl
  chain x inside := by
    have before := owned.chain x inside
    rw [← (same x).2] at before
    exact before
  refLive := owned.refLive
  apart := owned.apart
  states := owned.states

theorem Owned.collectRefs (owned : Owned t L R) (inside : o ∈ objectStackRoot :: L) (checkState : Bool) {fuel : Nat}
    (enough : (R o).length ≤ fuel) :
    ∃ refs' head', t.listCollectRefs checkState o fuel =
        some { t with refs := refs', objs := modifyAt t.objs o fun obj => { obj with refHead := head' } } ∧
      (∀ r, (refs' r).target = (t.refs r).target ∧ (refs' r).state = (t.refs r).state) ∧
      Owned { t with refs := refs', objs := modifyAt t.objs o fun obj => { obj with refHead := head' } } L
        (Function.update R o ((R o).filter (kept checkState t.refs)).reverse) := by
  have live := (owned.objLive o).mpr inside
  obtain ⟨refs', head', collected, frame, changed, left, same⟩ := listCollectRefs_spec checkState enough live
    (owned.chain o inside) (fun r member => (owned.refLive r).mpr ⟨o, inside, member⟩) (owned.states o inside)
  -- the other lists share no record with this one
  have other (x : Nat) (owner : x ∈ objectStackRoot :: L) (different : x ≠ o) (r : Nat) (member : r ∈ R x) : r ∉ R o :=
    fun shared => different (owned.apart x owner o inside r member shared)
  have sub (x r : Nat) (member : r ∈ Function.update R o ((R o).filter (kept checkState t.refs)).reverse x) : r ∈ R x := by
    by_cases equal : x = o
    · subst equal
      rw [Function.update_self, List.mem_reverse] at member
      exact List.mem_of_mem_filter member
    · rwa [Function.update_of_ne equal] at member
  refine ⟨refs', head', collected, same, owned.rootNew, ?_, ?_, ?_, ?_, ?_⟩
  · intro x
    rw [← owned.objLive x]
    by_cases equal : x = o <;> simp [modifyAt, equal]
  · intro x owner
    by_cases equal : x = o
    · subst equal
      simp only [modifyAt_same, Function.update_self]
      exact left
    · simp only [modifyAt_other _ _ _ equal, Function.update_of_ne equal]
      refine Chain.congr (fun r member => ?_) (owned.chain x owner)
      have outside := other x owner equal r member
      exact congrArg Reference.next (frame r outside)
  · intro r
    change (refs' r).live = true ↔ _
    by_cases member : r ∈ R o
    · rw [show (refs' r).live = kept checkState t.refs r from congrArg Reference.live (changed r member)]
      constructor
      · intro keep
        refine ⟨o, inside, ?_⟩
        rw [Function.update_self, List.mem_reverse]
        exact List.mem_filter.mpr ⟨member, keep⟩
      · rintro ⟨x, owner, shared⟩
        obtain rfl := owned.apart x owner o inside r (sub x r shared) member
        rw [Function.update_self, List.mem_reverse] at shared
        exact (List.mem_filter.mp shared).2
    · rw [frame r member]
      refine (owned.refLive r).trans (exists_congr fun x => and_congr_right fun _ => ?_)
      by_cases equal : x = o
      · subst equal
        exact ⟨fun here => absurd here member, fun here => absurd (sub x r here) member⟩
      · rw [Function.update_of_ne equal]
  · exact fun x owner y owner' r member member' => owned.apart x owner y owner' r (sub x r member) (sub y r member')
  · intro x owner r member
    rw [(same r).2]
    exact owned.states x owner r (sub x r member)

end Owned

namespace Gc2

section Clean

structure Cleaned (t t' : Tracker) (R R' : Nat → List Nat) (xs : List Nat) : Prop where
  fields : t'.objects = t.objects ∧ t'.objectStackHead = t.objectStackHead ∧ t'.fresh = t.fresh
  objs : ∀ o, (t'.objs o).next = (t.objs o).next ∧ (t'.objs o).payload = (t.objs o).payload ∧
    (t'.objs o).nextMarked = (t.objs o).nextMarked ∧
    (t'.objs o).state = if o ∈ xs then .unreachable else (t.objs o).state
  refs : ∀ r, (t'.refs r).target = (t.refs r).target ∧ (t'.refs r).state = (t.refs r).state
  shorter : ∀ o, (R' o).length ≤ (R o).length
  active : ∀ o r, (t.refs r).state = .active → (r ∈ R' o ↔ r ∈ R o)

theorem markUnreachable_spec {L : List Nat} (length : Nat) (xs : List Nat) :
    ∀ (t : Tracker) (R : Nat → List Nat) (cursor : Option Nat) (fuel : Nat), xs.length ≤ fuel → Owned t L R →
      Chain (fun o => (t.objs o).next) cursor xs → (∀ o ∈ xs, o ∈ L ∧ (R o).length ≤ length) →
      ∃ t' R', markUnreachable length fuel cursor t = some t' ∧ Owned t' L R' ∧ Cleaned t t' R R' xs := by
  induction xs with
  | nil =>
      intro t R cursor fuel _ owned chain _
      have last : cursor = none := chain
      subst last
      refine ⟨t, R, by cases fuel <;> rfl, owned, ⟨rfl, rfl, rfl⟩, fun o => ⟨rfl, rfl, rfl, ?_⟩, fun _ => ⟨rfl, rfl⟩,
        fun _ => Nat.le_refl _, fun _ _ _ => Iff.rfl⟩
      simp
  | cons o xs ih =>
      intro t R cursor fuel enough owned chain known
      have nodup := List.nodup_cons.mp (Chain.nodup chain)
      obtain ⟨head, rest⟩ : cursor = some o ∧ Chain (fun o => (t.objs o).next) (t.objs o).next xs := chain
      subst head
      obtain ⟨fuel, rfl⟩ : ∃ n, fuel = n + 1 := Nat.exists_eq_add_one.mpr (by simp at enough; omega)
      obtain ⟨registered, bounded⟩ := known o List.mem_cons_self
      have inside : o ∈ objectStackRoot :: L := List.mem_cons_of_mem _ registered
      let t₁ : Tracker := { t with objs := modifyAt t.objs o fun obj => { obj with state := .unreachable } }
      have owned₁ : Owned t₁ L R := owned.setObjs t.objects fun x => by
        by_cases same : x = o <;> simp [modifyAt, same]
      obtain ⟨refs₂, head₂, collected, sameRefs, owned₂⟩ := owned₁.collectRefs inside true bounded
      let t₂ : Tracker := { t₁ with refs := refs₂, objs := modifyAt t₁.objs o fun obj => { obj with refHead := head₂ } }
      let R₂ := Function.update R o ((R o).filter (kept true t₁.refs)).reverse
      have fixed (x : Nat) : (t₂.objs x).next = (t.objs x).next ∧ (t₂.objs x).payload = (t.objs x).payload ∧
          (t₂.objs x).nextMarked = (t.objs x).nextMarked ∧
          (t₂.objs x).state = if x = o then .unreachable else (t.objs x).state := by
        by_cases same : x = o <;> simp [t₁, t₂, modifyAt, same]
      have shorter (x : Nat) : (R₂ x).length ≤ (R x).length := by
        by_cases same : x = o
        · subst same
          simp only [R₂, Function.update_self, List.length_reverse]
          exact List.length_filter_le _ _
        · simp [R₂, Function.update_of_ne same]
      have rest₂ : Chain (fun x => (t₂.objs x).next) (t₂.objs o).next xs := by
        rw [(fixed o).1]
        exact Chain.congr (fun x _ => (fixed x).1) rest
      have known₂ (x : Nat) (member : x ∈ xs) : x ∈ L ∧ (R₂ x).length ≤ length := by
        obtain ⟨registered, bounded⟩ := known x (List.mem_cons_of_mem _ member)
        exact ⟨registered, Nat.le_trans (shorter x) bounded⟩
      obtain ⟨t', R', run, owned', cleaned⟩ := ih t₂ R₂ _ fuel (by simpa using enough) owned₂ rest₂ known₂
      refine ⟨t', R', ?_, owned', cleaned.fields, fun x => ?_, fun r => ?_, fun x => ?_, fun x r active => ?_⟩
      · rw [markUnreachable, Tracker.setObj_live ((owned.objLive o).mpr inside), Option.bind_eq_bind, Option.bind_some,
          atomicCollectRefs, collected, Option.bind_some]
        exact run
      · obtain ⟨next, payload, nextMarked, state⟩ := cleaned.objs x
        refine ⟨next.trans (fixed x).1, payload.trans (fixed x).2.1, nextMarked.trans (fixed x).2.2.1, ?_⟩
        rw [state, (fixed x).2.2.2]
        by_cases same : x = o
        · simp [same]
        · simp [same]
      · exact ⟨(cleaned.refs r).1.trans (sameRefs r).1, (cleaned.refs r).2.trans (sameRefs r).2⟩
      · exact Nat.le_trans (cleaned.shorter x) (shorter x)
      · rw [cleaned.active x r ((sameRefs r).2.trans active)]
        by_cases same : x = o
        · subst same
          simp [R₂, kept, t₁, active]
        · simp [R₂, Function.update_of_ne same]

end Clean

structure Marking (t₀ t : Tracker) (L : List Nat) (R : Nat → List Nat) (done M N : List Nat) : Prop where
  frame : ∃ objs', t = { t₀ with objs := objs' }
  objs : ∀ o, (t.objs o).next = (t₀.objs o).next ∧ (t.objs o).payload = (t₀.objs o).payload ∧
    (t.objs o).refHead = (t₀.objs o).refHead ∧ (t.objs o).live = (t₀.objs o).live
  nodup : (done ++ M ++ N).Nodup
  known : ∀ o ∈ done ++ M ++ N, o ∈ objectStackRoot :: L
  rootIn : objectStackRoot ∈ done ++ M ++ N
  rootMark : (t.objs objectStackRoot).nextMarked = none
  isDone : ∀ o ∈ done, (t.objs o).state = .active
  isQueued : ∀ o ∈ M ++ N, (t.objs o).state = .marked
  isRest : ∀ o ∈ objectStackRoot :: L, o ∉ done ++ M ++ N → (t.objs o).state = .unreachable
  closed : ∀ o ∈ done, ∀ p, Refers t₀ R o p → p ∈ done ++ M ++ N
  sound : ∀ o ∈ done ++ M ++ N, Relation.ReflTransGen (Refers t₀ R) objectStackRoot o

section Mark

variable {t₀ t : Tracker} {L : List Nat} {R : Nat → List Nat} {done M N : List Nat}

theorem Marking.listed (marking : Marking t₀ t L R done M N) {x : Nat} (member : x ∈ done ++ M ++ N) :
    (t.objs x).state ≠ .unreachable := by
  rcases List.mem_append.mp member with front | queued
  · rcases List.mem_append.mp front with isDone | queued
    · simp [marking.isDone x isDone]
    · simp [marking.isQueued x (List.mem_append_left _ queued)]
  · simp [marking.isQueued x (List.mem_append_right _ queued)]

structure Visited (t₀ t t' : Tracker) (R : Nat → List Nat) (o : Nat) (new : List Nat) : Prop where
  frame : ∃ objs', t' = { t with objs := objs' }
  self : t'.objs o = { t.objs o with state := .active }
  others : ∀ x, x ≠ o → x ∉ new → t'.objs x = t.objs x
  marks : ∀ x ∈ new, t'.objs x = { t.objs x with state := .marked, nextMarked := (t'.objs x).nextMarked }
  nodup : new.Nodup
  new_iff : ∀ p, p ∈ new ↔ (t.objs p).state = .unreachable ∧ Refers t₀ R o p

theorem markObject_visited {o : Nat} (store : Store t₀ L R) (marking : Marking t₀ t L R done (o :: M) N)
    {nextMarkList : Option Nat} (nextMarks : t.MarkChain nextMarkList N) {length : Nat}
    (enough : (R o).length ≤ length) :
    ∃ t' nextMarkList' new, markObject t length o nextMarkList = some (t', nextMarkList') ∧
      Visited t₀ t t' R o new ∧ t'.MarkChain nextMarkList' (new ++ N) := by
  obtain ⟨objs₁, rfl⟩ := marking.frame
  have owner : o ∈ objectStackRoot :: L := marking.known o (by simp)
  obtain ⟨-, -, notN⟩ := middle_fresh marking.nodup
  have live (x : Nat) : (objs₁ x).live = true ↔ x ∈ objectStackRoot :: L := by
    rw [← store.objLive x, show (objs₁ x).live = (t₀.objs x).live from (marking.objs x).2.2.2]
  have refHead : (objs₁ o).refHead = (t₀.objs o).refHead := (marking.objs o).2.2.1
  have active (r : Nat) (member : r ∈ R o) (current : (t₀.refs r).state ≠ .unreachable) : (t₀.refs r).state = .active := by
    have notMarked := store.states o owner r member
    cases state : (t₀.refs r).state with
    | active => rfl
    | marked => exact absurd state notMarked
    | unreachable => exact absurd state current
  obtain ⟨objs', nextMarkList', new, scanned, newChain, newNodup, news, changed, frame⟩ :=
    markRefs_spec (R o) { t₀ with objs := objs₁ } N (objs₁ o).refHead nextMarkList [] length enough
      (refHead ▸ store.chain o owner) (fun r member => (store.refLive r).mpr ⟨o, owner, member⟩)
      (fun r member current p target => (live p).mpr
        (List.mem_cons_of_mem _ (store.targets o owner r member (active r member current) p target)))
      nextMarks (fun x member => marking.listed (List.mem_append_right _ member))
  have newIff (p : Nat) : p ∈ new ↔ (objs₁ p).state = .unreachable ∧ Refers t₀ R o p := by
    rw [news]
    refine and_congr_right fun _ => exists_congr fun r => and_congr_right fun member => and_congr_left fun _ => ?_
    exact ⟨active r member, fun isActive => by simp [isActive]⟩
  have oNotNew : o ∉ new := fun isNew => marking.listed (show o ∈ done ++ o :: M ++ N by simp) ((newIff o).mp isNew).1
  have away (x : Nat) (different : x ≠ o) :
      modifyAt objs' o (fun obj => { obj with state := .active }) x = objs' x := modifyAt_other _ _ _ different
  have isLive : (objs' o).live = true := by
    rw [show objs' o = objs₁ o from frame o oNotNew]
    exact (live o).mpr owner
  refine ⟨{ t₀ with objs := modifyAt objs' o fun obj => { obj with state := .active } }, nextMarkList', new, ?_,
    ⟨⟨_, rfl⟩, ?_, ?_, ?_, newNodup, newIff⟩, ?_⟩
  · rw [markObject, scanned, Option.bind_eq_bind, Option.bind_some]
    simp only [Tracker.setObj_live (show (({ t₀ with objs := objs' } : Tracker).objs o).live = true from isLive)]
    rfl
  · simp only [modifyAt_same]
    rw [frame o oNotNew]
  · exact fun x different outside => (away x different).trans (frame x outside)
  · intro x isNew
    simp only [away x (ne_of_mem_of_not_mem isNew oNotNew)]
    exact changed x isNew
  · refine Chain.congr (fun x member => ?_) newChain
    have different : x ≠ o := by
      rintro rfl
      exact (List.mem_append.mp member).elim oNotNew notN
    simp only [away x different]

theorem Marking.not_new {o : Nat} {t' : Tracker} {new : List Nat} (marking : Marking t₀ t L R done M N)
    (step : Visited t₀ t t' R o new) {x : Nat} (member : x ∈ done ++ M ++ N) : x ∉ new :=
  fun isNew => marking.listed member ((step.new_iff x).mp isNew).1

theorem Marking.queued_other {o : Nat} {t' : Tracker} {new : List Nat} (marking : Marking t₀ t L R done (o :: M) N)
    (step : Visited t₀ t t' R o new) {x : Nat} (member : x ∈ M ++ N) : t'.objs x = t.objs x := by
  obtain ⟨-, notM, notN⟩ := middle_fresh marking.nodup
  refine step.others x ?_ (marking.not_new step (by simp only [List.mem_append, List.mem_cons] at member ⊢; tauto))
  rintro rfl
  exact (List.mem_append.mp member).elim notM notN

theorem Marking.visited {o : Nat} {t' : Tracker} {new : List Nat} (store : Store t₀ L R)
    (marking : Marking t₀ t L R done (o :: M) N) (step : Visited t₀ t t' R o new) :
    Marking t₀ t' L R (o :: done) M (new ++ N) := by
  have owner : o ∈ objectStackRoot :: L := marking.known o (by simp)
  have newInside (x : Nat) (isNew : x ∈ new) : x ∈ L := by
    obtain ⟨-, r, member, isActive, target⟩ := (step.new_iff x).mp isNew
    exact store.targets o owner r member isActive x target
  constructor
  case frame =>
    obtain ⟨objs₁, rfl⟩ := marking.frame
    obtain ⟨objs', rfl⟩ := step.frame
    exact ⟨objs', rfl⟩
  case objs =>
    intro x
    by_cases same : x = o
    · subst same
      rw [step.self]
      exact marking.objs x
    · by_cases isNew : x ∈ new
      · rw [step.marks x isNew]
        exact marking.objs x
      · rw [step.others x same isNew]
        exact marking.objs x
  case nodup => exact marked_nodup marking.nodup step.nodup fun x isNew old => marking.not_new step old isNew
  case known =>
    intro x member
    rcases mem_marked.mp member with isNew | old
    · exact List.mem_cons_of_mem _ (newInside x isNew)
    · exact marking.known x old
  case rootIn => exact mem_marked.mpr (Or.inr marking.rootIn)
  case rootMark =>
    have notNew : objectStackRoot ∉ new := fun isNew => store.rootNew (newInside _ isNew)
    by_cases same : objectStackRoot = o
    · rw [same, step.self, ← same]
      exact marking.rootMark
    · rw [step.others _ same notNew]
      exact marking.rootMark
  case isDone =>
    intro x member
    by_cases same : x = o
    · rw [same, step.self]
    · have old : x ∈ done := (List.mem_cons.mp member).resolve_left same
      rw [step.others x same (marking.not_new step (by simp [old]))]
      exact marking.isDone x old
  case isQueued =>
    intro x member
    have cases : x ∈ new ∨ x ∈ M ++ N := by
      simp only [List.mem_append] at member ⊢
      tauto
    rcases cases with isNew | queued
    · rw [step.marks x isNew]
    · rw [marking.queued_other step queued]
      exact marking.isQueued x (List.mem_cons_of_mem _ queued)
  case isRest =>
    intro x inside outside
    rw [mem_marked, not_or] at outside
    have different : x ≠ o := by
      rintro rfl
      exact outside.2 (by simp)
    rw [step.others x different outside.1]
    exact marking.isRest x inside outside.2
  case closed =>
    intro x member p edge
    rw [mem_marked]
    rcases List.mem_cons.mp member with rfl | isDone
    · by_cases old : p ∈ done ++ x :: M ++ N
      · exact Or.inr old
      · obtain ⟨r, member', isActive, target⟩ := edge
        have registered := store.targets x owner r member' isActive p target
        have unseen := marking.isRest p (List.mem_cons_of_mem _ registered) old
        exact Or.inl ((step.new_iff p).mpr ⟨unseen, r, member', isActive, target⟩)
    · exact Or.inr (marking.closed x isDone p edge)
  case sound =>
    intro x member
    rcases mem_marked.mp member with isNew | old
    · exact (marking.sound o (by simp)).tail ((step.new_iff x).mp isNew).2
    · exact marking.sound x old

theorem markObject_spec {o : Nat} (store : Store t₀ L R) (marking : Marking t₀ t L R done (o :: M) N)
    {nextMarkList : Option Nat} (marks : t.MarkChain (t.objs o).nextMarked M) (nextMarks : t.MarkChain nextMarkList N)
    {length : Nat} (enough : (R o).length ≤ length) :
    ∃ t' nextMarkList' new, markObject t length o nextMarkList = some (t', nextMarkList') ∧
      Marking t₀ t' L R (o :: done) M (new ++ N) ∧ t'.MarkChain (t'.objs o).nextMarked M ∧
      t'.MarkChain nextMarkList' (new ++ N) := by
  obtain ⟨t', nextMarkList', new, run, step, nextMarks'⟩ := markObject_visited store marking nextMarks enough
  refine ⟨t', nextMarkList', new, run, marking.visited store step, ?_, nextMarks'⟩
  rw [step.self]
  refine Chain.congr (fun x member => ?_) marks
  rw [marking.queued_other step (List.mem_append_left _ member)]

theorem mark_spec (store : Store t₀ L R) (length : Nat) (enough : ∀ o ∈ objectStackRoot :: L, (R o).length ≤ length)
    (fuel : Nat) : ∀ (t : Tracker) (done M N : List Nat) (markList nextMarkList : Option Nat), Marking t₀ t L R done M N →
      t.MarkChain markList M → t.MarkChain nextMarkList N →
      2 * (L.length + 1 - done.length) + (if M = [] then 1 else 0) ≤ fuel →
      ∃ t' done', mark length fuel t markList nextMarkList = some t' ∧ Marking t₀ t' L R done' [] [] := by
  induction fuel with
  | zero =>
      intro t done M N markList nextMarkList marking marks _ fits
      have count := (List.subperm_of_subset marking.nodup marking.known).length_le
      cases M with
      | nil => simp at fits
      | cons o M =>
          simp only [List.length_append, List.length_cons] at count
          omega
  | succ fuel ih =>
      intro t done M N markList nextMarkList marking marks nextMarks fits
      have count := (List.subperm_of_subset marking.nodup marking.known).length_le
      simp only [List.length_append, List.length_cons] at count
      cases M with
      | nil =>
          obtain rfl : markList = none := marks
          cases N with
          | nil =>
              obtain rfl : nextMarkList = none := nextMarks
              exact ⟨t, done, rfl, marking⟩
          | cons o N =>
              obtain rfl : nextMarkList = some o := nextMarks.1
              have swapped : Marking t₀ t L R done (o :: N) [] := by
                have same : done ++ [] ++ (o :: N) = done ++ (o :: N) ++ [] := by simp
                exact { marking with
                  nodup := same ▸ marking.nodup
                  known := same ▸ marking.known
                  rootIn := same ▸ marking.rootIn
                  isQueued := by simpa using marking.isQueued
                  isRest := same ▸ marking.isRest
                  closed := same ▸ marking.closed
                  sound := same ▸ marking.sound }
              obtain ⟨t', done', run, final⟩ := ih t done (o :: N) [] (some o) none swapped nextMarks rfl
                (by simp at fits ⊢; omega)
              exact ⟨t', done', run, final⟩
      | cons o M =>
          obtain rfl : markList = some o := marks.1
          obtain ⟨t₁, nextMarkList', new, traced, marking₁, marks₁, nextMarks₁⟩ :=
            markObject_spec store marking marks.2 nextMarks (enough o (marking.known o (by simp)))
          obtain ⟨t', done', run, final⟩ := ih t₁ (o :: done) M (new ++ N) _ nextMarkList' marking₁ marks₁ nextMarks₁ (by
            simp only [List.length_cons, reduceCtorEq, if_false] at fits count ⊢
            split <;> omega)
          refine ⟨t', done', ?_, final⟩
          rw [mark, traced, Option.bind_eq_bind, Option.bind_some]
          exact run

theorem mark_root {t : Tracker} (store : Store t L R) (rootMark : (t.objs objectStackRoot).nextMarked = none)
    (marked : (t.objs objectStackRoot).state = .marked) (unseen : ∀ o ∈ L, (t.objs o).state = .unreachable) {fuel : Nat}
    (enough : ∀ o ∈ objectStackRoot :: L, (R o).length ≤ fuel) (waves : 2 * (L.length + 1) ≤ fuel) :
    ∃ t' done, mark fuel fuel t (some objectStackRoot) none = some t' ∧ Marking t t' L R done [] [] := by
  have initial : Marking t t L R [] [objectStackRoot] [] := by
    refine ⟨⟨_, rfl⟩, fun _ => ⟨rfl, rfl, rfl, rfl⟩, by simp, by simp, by simp, rootMark, by simp, by simp [marked], ?_,
      by simp, ?_⟩
    · intro o inside outside
      have different : o ≠ objectStackRoot := by simpa using outside
      exact unseen o (by simpa [different] using inside)
    · intro o member
      obtain rfl : o = objectStackRoot := by simpa using member
      exact .refl
  have marks : t.MarkChain (some objectStackRoot) [objectStackRoot] := ⟨rfl, rootMark⟩
  exact mark_spec store fuel enough fuel t [] [objectStackRoot] [] _ none initial marks rfl (by simpa using waves)

theorem Marking.reach_iff (final : Marking t₀ t L R done [] []) (o : Nat) :
    o ∈ done ↔ Relation.ReflTransGen (Refers t₀ R) objectStackRoot o := by
  constructor
  · exact fun member => final.sound o (by simpa using member)
  · intro path
    induction path with
    | refl => simpa using final.rootIn
    | tail _ edge found => simpa using final.closed _ found _ edge

theorem Marking.state_eq (final : Marking t₀ t L R done [] []) {o : Nat} (inside : o ∈ objectStackRoot :: L) :
    (t.objs o).state = if o ∈ done then .active else .unreachable := by
  by_cases member : o ∈ done
  · rw [if_pos member]
    exact final.isDone o member
  · rw [if_neg member]
    exact final.isRest o inside (by simpa using member)

end Mark

end Gc2

end PrototypeBundle.Tracing
