import Grommet.Core.Timer.Agenda
import Mathlib.Order.Bounds.Defs

/-!
# The wheel's own diagnosis

`check_invariants` walks the list of every slot and the free list, marks the entries that it
meets, looks for the retired ones, and compares what it has counted and the earliest wakeup
with what the wheel has cached.  It finds nothing in any wheel that a run reaches.
-/

open Checked

namespace Grommet.Timer

variable {T : Type}

/-- What a diagnosis stops with. -/
inductive Finding where
  | report (text : String)
  /-- A list did not end within the iterations it was given. -/
  | hang
  deriving DecidableEq

/-- Stop with a report unless the condition holds. -/
def ensure (p : Bool) (text : String) : Except Finding Unit :=
  if p then .ok () else .error (.report text)

/-- The marks of the slab positions, and how many entries were met. -/
structure Census where
  seen : ℕ → ℕ
  count : ℕ

/-- Mark a slab position and count it. -/
def Census.mark (s : Census) (index value : ℕ) : Census :=
  ⟨Function.update s.seen index value, s.count + 1⟩

namespace Wheel

/-- Positions immediately available for insertion. -/
def available (w : Wheel T) : ℕ := w.entries.length - w.live - w.retired

/-- Next tick at which the wheel needs attention. -/
def nextWakeupTick (w : Wheel T) : Option ℕ :=
  if w.nextEvent ≠ U64_MAX then some w.nextEvent else none

/-- Walk the list of a slot. -/
def checkList (w : Wheel T) (level slot : ℕ) : ℕ → ℕ → ℕ → Census → Except Finding Census
  | 0, _, _, _ => .error .hang
  | fuel + 1, index, prev, s =>
      if index = NIL then
        .ok s
      else
        match w.entries[index]? with
        | none => .error (.report "slot list contains an out-of-range index")
        | some entry => do
            ensure (s.seen index == 0) "an entry appears more than once or a list cycles"
            ensure entry.token.isSome "a filed entry holds no token"
            ensure (entry.generation != 0) "a live entry has never been issued"
            ensure (entry.level == level && entry.slot == slot) "an entry disagrees with its slot"
            ensure (entry.prev == prev) "slot back-link disagrees with forward linkage"
            ensure (slotWakeup w.cursor level slot ≤ max entry.deadline w.cursor)
              "a slot would be visited after its deadline"
            checkList w level slot fuel entry.next index (s.mark index 1)

/-- Check a slot and its list. -/
def checkSlot (w : Wheel T) (s : Census) (p : ℕ × ℕ) : Except Finding Census := do
  let head := w.heads p
  ensure (w.isOccupied p.1 p.2 == (head != NIL)) "occupancy disagrees with slot head"
  w.checkList p.1 p.2 (w.entries.length + 1) head NIL s

/-- Walk the free list. -/
def checkFree (w : Wheel T) : ℕ → ℕ → Census → Except Finding Census
  | 0, _, _ => .error .hang
  | fuel + 1, index, s =>
      if index = NIL then
        .ok s
      else
        match w.entries[index]? with
        | none => .error (.report "free list contains an out-of-range index")
        | some entry => do
            ensure (s.seen index == 0)
              "an entry appears in both a slot and the free list, or the free list cycles"
            ensure (entry.token.isNone && entry.level == FREE_LEVEL) "a free entry has live state"
            checkFree w fuel entry.next (s.mark index 2)

/-- Check an entry that may be retired. -/
def checkRetired (w : Wheel T) (s : Census) (index : ℕ) : Except Finding Census :=
  match w.entries[index]? with
  | none => .ok s
  | some entry =>
      if entry.level = RETIRED_LEVEL then do
        ensure (s.seen index == 0 && entry.token.isNone && entry.generation == U64_MAX)
          "a retired entry has inconsistent state"
        .ok (s.mark index 3)
      else
        .ok s

/-- The slots of all levels. -/
def positions : List (ℕ × ℕ) :=
  (List.range LEVELS).flatMap fun level => (List.range SLOTS).map fun slot => (level, slot)

/-- Verify linkage, occupancy, handle generations, free and retired state, and the exact
next-event cache. -/
def checkInvariants (w : Wheel T) : Except Finding Unit := do
  let filed ← positions.foldlM w.checkSlot ⟨fun _ => 0, 0⟩
  ensure (filed.count == w.live) "live counter disagrees with filed entries"
  let free ← w.checkFree (w.entries.length + 1) w.free ⟨filed.seen, 0⟩
  let retired ← (List.range w.entries.length).foldlM w.checkRetired ⟨free.seen, 0⟩
  ensure (retired.count == w.retired) "retired counter disagrees with retired entries"
  ensure (free.count + filed.count + retired.count == w.entries.length &&
    (List.range w.entries.length).all fun index => retired.seen index != 0)
    "the slab contains an unreachable entry"
  ensure (w.available == free.count) "available count disagrees with the free list"
  ensure (w.computeNextEvent.getD U64_MAX == w.nextEvent) "cached next event is not exact"
  ensure (w.cursor ≤ w.nextEvent) "cached next event is behind the cursor"

end Wheel

/-! ### Walking the lists -/

/-- The census after the members of a list were marked. -/
def Census.marks (s : Census) (l : List ℕ) (value : ℕ) : Census :=
  ⟨fun i => if i ∈ l then value else s.seen i, s.count + l.length⟩

theorem found_bind {α β : Type} (a : α) (f : α → Except Finding β) :
  ((Except.ok a : Except Finding α) >>= f) = f a
  := rfl

theorem ensure_bind {p : Bool} {α : Type} {f : Unit → Except Finding α} {text : String}
    (h : p = true) :
  (ensure p text >>= f) = f ()
  := by
  rw [ensure, if_pos h]
  rfl

variable {w : Wheel T} {lists : ℕ × ℕ → List ℕ} {free : List ℕ} {s : Census} {p : ℕ × ℕ}

theorem Census.mark_seen_of_ne {i j value : ℕ} (h : j ≠ i) :
  (s.mark i value).seen j = s.seen j
  := Function.update_of_ne h _ _

theorem Census.marks_nil (value : ℕ) :
  s.marks [] value = s
  := rfl

theorem Census.marks_cons {i value : ℕ} {l : List ℕ} :
  s.marks (i :: l) value = (s.mark i value).marks l value
  := by
  rw [marks, marks, mark, Census.mk.injEq]
  constructor
  · funext j
    by_cases hj : j ∈ l
    · simp [hj]
    · by_cases hji : j = i
      · subst hji
        simp
      · simp [hj, hji]
  · rw [List.length_cons]
    simp only
    omega

theorem Census.marks_append {value : ℕ} {l l' : List ℕ} :
  s.marks (l ++ l') value = (s.marks l value).marks l' value
  := by
  rw [marks, marks, marks, Census.mk.injEq]
  constructor
  · funext j
    by_cases hj : j ∈ l'
    · simp [hj]
    · simp [hj]
  · rw [List.length_append]
    simp only
    omega

/-- Walking the rest of the list of a slot finds nothing and marks its members. -/
theorem Wheel.Good.checkList {a b : List ℕ} {fuel index prev : ℕ} (h : w.Good)
    (hlinks : Links w lists [] free) (hab : lists p = a ++ b)
    (hindex : ofSentinel NIL index = b.head?) (hprev : ofSentinel NIL prev = a.getLast?)
    (hseen : ∀ i ∈ b, s.seen i = 0) (hfuel : b.length < fuel) :
  w.checkList p.1 p.2 fuel index prev s = .ok (s.marks b 1)
  := by
  induction b generalizing a fuel index prev s with
  | nil =>
    cases fuel with
    | zero => cases hfuel
    | succ fuel =>
      rw [List.head?_nil, ofSentinel_eq_none_iff] at hindex
      rw [Wheel.checkList, if_pos hindex, Census.marks_nil]
  | cons k b ih =>
    cases fuel with
    | zero => cases hfuel
    | succ fuel =>
      rw [List.head?_cons, ofSentinel_eq_some_iff] at hindex
      obtain ⟨rfl, hne⟩ := hindex
      have hmem : index ∈ lists p := by
        rw [hab]
        simp
      obtain ⟨-, c, hc, htoken, hposition⟩ := (hlinks.filed p index).mp hmem
      obtain ⟨e, he, -, hcore, hnext, hback⟩ := exists_entry hc
      have hthreads := hlinks.buckets.threads p
      rw [hab] at hthreads
      have hnodup := hlinks.buckets.nodup p
      rw [hab] at hnodup
      have hvalid := (hlinks.valid index c hc).live htoken
      have hwakeup := (h.filed c (List.mem_of_getElem? hc) htoken).wakeup_bounds.2
      subst hcore
      have hprev' : e.prev = prev := by
        rw [← hthreads.prev_eq, ← hback] at hprev
        exact (ofSentinel_inj hprev).symm
      have hrest : ∀ i ∈ b, (s.mark index 1).seen i = 0 := by
        intro i hi
        have hne : i ≠ index := by
          rintro rfl
          exact (List.nodup_cons.mp (List.nodup_append.mp hnodup).2.1).1 hi
        rw [Census.mark_seen_of_ne hne]
        exact hseen i (List.mem_cons_of_mem _ hi)
      have hwalk : w.checkList p.1 p.2 fuel e.next index (s.mark index 1) =
          .ok ((s.mark index 1).marks b 1) := by
        apply ih (a := a ++ [index]) _ _ _ hrest (Nat.lt_of_succ_lt_succ hfuel)
        · rw [hab, List.append_assoc, List.singleton_append]
        · rw [hnext, hthreads.next_eq]
        · rw [ofSentinel_of_ne hne, List.getLast?_append, List.getLast?_singleton]
          rfl
      rw [Wheel.checkList, if_neg hne, he]
      simp only
      have hlive : e.token.isSome = true := htoken
      have hissued : e.generation ≠ 0 := hvalid.1
      have hplace : e.level = p.1 ∧ e.slot = p.2 := Prod.mk.inj hposition
      rw [ensure_bind (by simp [hseen]), ensure_bind hlive, ensure_bind (by simpa using hissued),
        ensure_bind (by simp [hplace]), ensure_bind (by simp [hprev']),
        ensure_bind (by rw [← hplace.1, ← hplace.2]; exact decide_eq_true hwakeup), hwalk,
        Census.marks_cons]

/-- Checking the slots finds nothing and marks the members of their lists. -/
theorem Wheel.Good.checkSlots {ps : List (ℕ × ℕ)} (h : w.Good) (hlinks : Links w lists [] free)
    (hnodup : ps.Nodup) (hrange : ∀ p ∈ ps, p.2 < SLOTS)
    (hseen : ∀ p ∈ ps, ∀ i ∈ lists p, s.seen i = 0) :
  ps.foldlM w.checkSlot s = .ok (s.marks (ps.flatMap lists) 1)
  := by
  induction ps generalizing s with
  | nil => rfl
  | cons p ps ih =>
    obtain ⟨hp, hnodup⟩ := List.nodup_cons.mp hnodup
    have hocc : w.isOccupied p.1 p.2 = (w.heads p != NIL) := by
      rw [Bool.eq_iff_iff, isOccupied_iff (hrange p (by simp)), hlinks.occupied, bne_iff_ne, ne_eq,
        ne_eq, ← List.head?_eq_none_iff, ← hlinks.buckets.head_eq, ofSentinel_eq_none_iff]
    have hlength : (lists p).length < w.entries.length + 1 := by
      apply Nat.lt_succ_of_le
      apply length_le_of_nodup (hlinks.buckets.nodup p)
      intro i hi
      obtain ⟨-, c, hc, -⟩ := (hlinks.filed p i).mp hi
      have hlt := (List.getElem?_eq_some_iff.mp hc).1
      rwa [Wheel.cores, List.length_map] at hlt
    have hwalk : w.checkSlot s p = .ok (s.marks (lists p) 1) := by
      rw [Wheel.checkSlot, ensure_bind (by rw [hocc]; exact beq_self_eq_true _)]
      apply h.checkList hlinks (a := []) rfl (hlinks.buckets.head_eq p) ofSentinel_self
        (hseen p (by simp)) hlength
    have hrest : ∀ q ∈ ps, ∀ i ∈ lists q, (s.marks (lists p) 1).seen i = 0 := by
      intro q hq i hi
      have hout : i ∉ lists p := by
        intro hip
        apply hp
        rw [hlinks.buckets.apart p q i hip hi]
        exact hq
      rw [Census.marks]
      simp only
      rw [if_neg hout]
      exact hseen q (by simp [hq]) i hi
    rw [List.foldlM_cons, hwalk, List.flatMap_cons, Census.marks_append]
    exact ih hnodup (fun q hq => hrange q (by simp [hq])) hrest

/-- Walking the rest of the free list finds nothing and marks its members. -/
theorem Links.checkFree {b : List ℕ} {fuel index : ℕ} (hlinks : Links w lists [] free)
    (hchain : Follows w.next none b) (hsub : ∀ i ∈ b, i ∈ free) (hnodup : b.Nodup)
    (hindex : ofSentinel NIL index = b.head?) (hseen : ∀ i ∈ b, s.seen i = 0)
    (hfuel : b.length < fuel) :
  w.checkFree fuel index s = .ok (s.marks b 2)
  := by
  induction b generalizing fuel index s with
  | nil =>
    cases fuel with
    | zero => cases hfuel
    | succ fuel =>
      rw [List.head?_nil, ofSentinel_eq_none_iff] at hindex
      rw [Wheel.checkFree, if_pos hindex, Census.marks_nil]
  | cons k b ih =>
    cases fuel with
    | zero => cases hfuel
    | succ fuel =>
      rw [List.head?_cons, ofSentinel_eq_some_iff] at hindex
      obtain ⟨rfl, hne⟩ := hindex
      obtain ⟨hnot, hnodup⟩ := List.nodup_cons.mp hnodup
      obtain ⟨c, hc, htoken, hlevel⟩ := (hlinks.free_iff index).mp (hsub index (by simp))
      obtain ⟨e, he, -, hcore, hnext, -⟩ := exists_entry hc
      subst hcore
      have hnone : e.token = none := htoken
      have hfree : e.level = FREE_LEVEL := hlevel
      have hrest : ∀ i ∈ b, (s.mark index 2).seen i = 0 := by
        intro i hi
        have hne : i ≠ index := by
          rintro rfl
          exact hnot hi
        rw [Census.mark_seen_of_ne hne]
        exact hseen i (List.mem_cons_of_mem _ hi)
      have hwalk : w.checkFree fuel e.next (s.mark index 2) = .ok ((s.mark index 2).marks b 2) := by
        apply ih hchain.2 _ hnodup _ hrest (Nat.lt_of_succ_lt_succ hfuel)
        · intro i hi
          exact hsub i (List.mem_cons_of_mem _ hi)
        · rw [hnext, hchain.1, Option.or_none]
      rw [Wheel.checkFree, if_neg hne, he]
      simp only
      rw [ensure_bind (by simp [hseen]), ensure_bind (by simp [hnone, hfree]), hwalk,
        Census.marks_cons]

/-- Whether a slab position is retired. -/
def Wheel.retiredAt (w : Wheel T) (i : ℕ) : Bool :=
  w.cores[i]?.any fun c => c.level == RETIRED_LEVEL

/-- Checking the retired entries finds nothing and marks them. -/
theorem Links.checkRetired {l : List ℕ} (hlinks : Links w lists [] free) (hnodup : l.Nodup)
    (hrange : ∀ i ∈ l, i < w.entries.length)
    (hseen : ∀ i ∈ l, w.retiredAt i = true → s.seen i = 0) :
  l.foldlM w.checkRetired s = .ok (s.marks (l.filter w.retiredAt) 3)
  := by
  induction l generalizing s with
  | nil => rfl
  | cons i l ih =>
    obtain ⟨hnot, hnodup⟩ := List.nodup_cons.mp hnodup
    have hi : i < w.entries.length := hrange i (by simp)
    have hentry : w.entries[i]? = some (w.entries[i]) := List.getElem?_eq_getElem hi
    have hcore : w.cores[i]? = some (w.entries[i]).core := by
      rw [cores_getElem?, hentry, Option.map_some]
    have hretired : w.retiredAt i = ((w.entries[i]).level == RETIRED_LEVEL) := by
      rw [Wheel.retiredAt, hcore]
      rfl
    have hrest : ∀ s' : Census, (∀ j ≠ i, s'.seen j = s.seen j) →
        l.foldlM w.checkRetired s' = .ok (s'.marks (l.filter w.retiredAt) 3) := by
      intro s' hs'
      apply ih hnodup
      · intro j hj
        exact hrange j (by simp [hj])
      · intro j hj hjr
        have hji : j ≠ i := by
          rintro rfl
          exact hnot hj
        rw [hs' j hji]
        exact hseen j (by simp [hj]) hjr
    rw [List.foldlM_cons, Wheel.checkRetired, hentry]
    simp only
    by_cases hlevel : (w.entries[i]).level = RETIRED_LEVEL
    · have hmarked : w.retiredAt i = true := by
        rw [hretired, hlevel]
        exact beq_self_eq_true _
      have hvalid := hlinks.valid i _ hcore
      have hnone : (w.entries[i]).token = none := by
        rw [← Option.not_isSome_iff_eq_none]
        intro hsome
        exact (hvalid.live hsome).2 hlevel
      have hgeneration : (w.entries[i]).generation = U64_MAX := by
        rcases hvalid.idle hnone with ⟨hfree, -⟩ | ⟨-, hmax⟩
        · have hlevels : FREE_LEVEL ≠ RETIRED_LEVEL := by decide
          exact (hlevels (hfree.symm.trans hlevel)).elim
        · exact hmax
      rw [if_pos hlevel, ensure_bind (by
        rw [hseen i (by simp) hmarked, hnone, hgeneration]
        rfl), List.filter_cons_of_pos hmarked, Census.marks_cons]
      apply hrest
      intro j hj
      exact Census.mark_seen_of_ne hj
    · have hmarked : ¬ w.retiredAt i = true := by
        rw [hretired, beq_iff_eq]
        exact hlevel
      rw [if_neg hlevel, List.filter_cons_of_neg hmarked]
      apply hrest
      intro j _
      rfl

/-! ### Good wheels -/

theorem mem_positions :
  p ∈ Wheel.positions ↔ p.1 < LEVELS ∧ p.2 < SLOTS
  := by
  rw [Wheel.positions, List.mem_flatMap]
  constructor
  · rintro ⟨level, hlevel, hp⟩
    obtain ⟨slot, hslot, rfl⟩ := List.mem_map.mp hp
    exact ⟨List.mem_range.mp hlevel, List.mem_range.mp hslot⟩
  · rintro ⟨hlevel, hslot⟩
    exact ⟨p.1, List.mem_range.mpr hlevel, List.mem_map.mpr ⟨p.2, List.mem_range.mpr hslot, rfl⟩⟩

theorem nodup_positions :
  Wheel.positions.Nodup
  := (List.nodup_range (n := LEVELS)).product (List.nodup_range (n := SLOTS))

/-- The filed entries are those that hold a timer. -/
theorem Links.filed_spec (hlinks : Links w lists [] free) :
  (Wheel.positions.flatMap lists).Nodup ∧
    ∀ i, i ∈ Wheel.positions.flatMap lists ↔
      ∃ c, w.cores[i]? = some c ∧ c.token.isSome = true
  := by
  constructor
  · rw [List.nodup_flatMap]
    refine ⟨fun p _ => hlinks.buckets.nodup p, ?_⟩
    apply nodup_positions.imp
    intro p q hne i hp hq
    exact hne (hlinks.buckets.apart p q i hp hq)
  · intro i
    rw [List.mem_flatMap]
    constructor
    · rintro ⟨p, -, hi⟩
      obtain ⟨-, c, hc, htoken, -⟩ := (hlinks.filed p i).mp hi
      exact ⟨c, hc, htoken⟩
    · rintro ⟨c, hc, htoken⟩
      have hi : i ∈ lists c.position :=
        (hlinks.filed c.position i).mpr ⟨by simp, c, hc, htoken, rfl⟩
      exact ⟨c.position, mem_positions.mpr (hlinks.range _ (List.ne_nil_of_mem hi)), hi⟩

/-- The earliest wakeup is determined by the occupied slots. -/
theorem Soonest.unique {n bound a b : ℕ} (ha : Soonest w n bound a) (hb : Soonest w n bound b) :
  a = b
  := by
  have hle : ∀ {a b : ℕ}, Soonest w n bound a → Soonest w n bound b → a ≤ b := by
    intro a b ha hb
    rcases hb.attained with heq | ⟨p, hp, hocc, heq⟩
    · rw [heq]
      exact ha.le_bound
    · rw [heq]
      exact ha.le_wakeup p hp hocc
  exact Nat.le_antisymm (hle ha hb) (hle hb ha)

/-- A position is armed, free or retired. -/
theorem Core.Valid.kinds {c : Core T} (h : c.Valid) :
  (∃ t, c.token = some t ∧ c.level ≠ RETIRED_LEVEL) ∨
    (c.token = none ∧ c.level = FREE_LEVEL ∧ c.level ≠ RETIRED_LEVEL) ∨
    (c.token = none ∧ c.level ≠ FREE_LEVEL ∧ c.level = RETIRED_LEVEL)
  := by
  have hlevels : FREE_LEVEL ≠ RETIRED_LEVEL := by decide
  cases htoken : c.token with
  | none =>
    rcases h.idle htoken with ⟨hlevel, -⟩ | ⟨hlevel, -⟩
    · simp [hlevel, hlevels]
    · simp [hlevel, hlevels.symm]
  | some t =>
    have hlevel := (h.live (by rw [htoken]; rfl)).2
    simp [hlevel]

/-- The kinds of slab positions and their numbers. -/
theorem Links.census (hlinks : Links w lists [] free) :
  (Wheel.positions.flatMap lists).length = w.live ∧
    ((List.range w.entries.length).filter w.retiredAt).length = w.retired ∧
    free.length + (Wheel.positions.flatMap lists).length +
      ((List.range w.entries.length).filter w.retiredAt).length = w.entries.length
  := by
  obtain ⟨hnodup, hmem⟩ := hlinks.filed_spec
  have hfiled := List.length_eq_countP hnodup hmem
  have hsum : ∀ (f : Core T → Bool) (l : List (Core T)),
      (l.map fun c => if f c = true then 1 else 0).sum = l.countP f := by
    intro f l
    induction l with
    | nil => rfl
    | cons c l ih =>
      rw [List.map_cons, List.sum_cons, ih, List.countP_cons]
      omega
  have hretired : ((List.range w.entries.length).filter w.retiredAt).length =
      w.cores.countP fun c => c.level == RETIRED_LEVEL := by
    apply List.length_eq_countP (List.nodup_range.filter _)
    intro i
    rw [List.mem_filter, List.mem_range, Wheel.retiredAt, Option.any_eq_true]
    constructor
    · rintro ⟨-, c, hc, hlevel⟩
      exact ⟨c, hc, hlevel⟩
    · rintro ⟨c, hc, hlevel⟩
      have hlt := (List.getElem?_eq_some_iff.mp hc).1
      rw [Wheel.cores, List.length_map] at hlt
      exact ⟨hlt, c, hc, hlevel⟩
  have hfree : free.length = w.cores.countP fun c => c.token.isNone && c.level == FREE_LEVEL := by
    apply List.length_eq_countP hlinks.free_nodup
    intro i
    rw [hlinks.free_iff]
    simp
  refine ⟨?_, ?_, ?_⟩
  · rw [hfiled, hlinks.count, ← hsum]
    rfl
  · rw [hretired, hlinks.waste, ← hsum]
    simp only [beq_iff_eq]
    rfl
  · rw [hfiled, hretired, hfree, List.countP_of_kinds, Wheel.cores, List.length_map]
    intro c hc
    obtain ⟨i, hi⟩ := List.mem_iff_getElem?.mp hc
    rcases (hlinks.valid i c hi).kinds with ⟨t, htoken, hlevel⟩ | ⟨htoken, hfree, hretired⟩ |
      ⟨htoken, hfree, hretired⟩
    · simp [htoken, hlevel]
    · simp [htoken, hfree, hfree ▸ hretired]
    · simp [htoken, hretired, hretired ▸ hfree]

/-- What kind of slab position an index is. -/
theorem Links.kind {i : ℕ} (hlinks : Links w lists [] free) (hi : i < w.entries.length) :
  (i ∈ Wheel.positions.flatMap lists ∧ i ∉ free ∧ w.retiredAt i = false) ∨
    (i ∉ Wheel.positions.flatMap lists ∧ i ∈ free ∧ w.retiredAt i = false) ∨
    (i ∉ Wheel.positions.flatMap lists ∧ i ∉ free ∧ w.retiredAt i = true)
  := by
  obtain ⟨-, hmem⟩ := hlinks.filed_spec
  have hc : w.cores[i]? = some (w.entries[i]).core := by
    rw [cores_getElem?, List.getElem?_eq_getElem hi, Option.map_some]
  generalize (w.entries[i]).core = c at hc
  have hretired : w.retiredAt i = (c.level == RETIRED_LEVEL) := by
    rw [Wheel.retiredAt, hc]
    rfl
  have hfree : i ∈ free ↔ c.token = none ∧ c.level = FREE_LEVEL := by
    rw [hlinks.free_iff, hc]
    simp
  have hfiled : i ∈ Wheel.positions.flatMap lists ↔ c.token.isSome = true := by
    rw [hmem, hc]
    simp
  rw [hretired, hfree, hfiled]
  rcases (hlinks.valid i c hc).kinds with ⟨t, htoken, hlevel⟩ | ⟨htoken, hfree, hretired⟩ |
    ⟨htoken, hfree, hretired⟩
  · simp [htoken, hlevel]
  · simp [htoken, hfree, hfree ▸ hretired]
  · simp [htoken, hretired, hretired ▸ hfree]

/-- The diagnosis of a good wheel finds nothing. -/
theorem Wheel.Good.checkInvariants (h : w.Good) :
  w.checkInvariants = .ok ()
  := by
  obtain ⟨lists, free, hlinks⟩ := h.links
  obtain ⟨hlive, hretired, htotal⟩ := hlinks.census
  have hlength : ∀ {i : ℕ}, i ∈ free → i < w.entries.length := by
    intro i hi
    obtain ⟨c, hc, -⟩ := (hlinks.free_iff i).mp hi
    have hlt := (List.getElem?_eq_some_iff.mp hc).1
    rwa [Wheel.cores, List.length_map] at hlt
  have hfiled : Wheel.positions.foldlM w.checkSlot ⟨fun _ => 0, 0⟩ =
      .ok (Census.marks ⟨fun _ => 0, 0⟩ (Wheel.positions.flatMap lists) 1) := by
    apply h.checkSlots hlinks nodup_positions
    · intro p hp
      exact (mem_positions.mp hp).2
    · intro p _ i _
      rfl
  have hkind := fun i hi => hlinks.kind (i := i) hi
  generalize Wheel.positions.flatMap lists = filed at hlive htotal hfiled hkind
  have hfree : w.checkFree (w.entries.length + 1) w.free
      ⟨(Census.marks ⟨fun _ => 0, 0⟩ filed 1).seen, 0⟩ =
      .ok (Census.marks ⟨(Census.marks ⟨fun _ => 0, 0⟩ filed 1).seen, 0⟩ free 2) := by
    apply hlinks.checkFree hlinks.free_chain (fun i hi => hi) hlinks.free_nodup hlinks.free_head
    · intro i hi
      show (if i ∈ filed then 1 else 0) = 0
      rcases hkind i (hlength hi) with ⟨-, hnot, -⟩ | ⟨hnot, -⟩ | ⟨hnot, -⟩
      · exact (hnot hi).elim
      · exact if_neg hnot
      · exact if_neg hnot
    · omega
  have hlast : (List.range w.entries.length).foldlM w.checkRetired
      ⟨(Census.marks ⟨(Census.marks ⟨fun _ => 0, 0⟩ filed 1).seen, 0⟩ free 2).seen, 0⟩ =
      .ok (Census.marks
        ⟨(Census.marks ⟨(Census.marks ⟨fun _ => 0, 0⟩ filed 1).seen, 0⟩ free 2).seen, 0⟩
        ((List.range w.entries.length).filter w.retiredAt) 3) := by
    apply hlinks.checkRetired List.nodup_range
    · intro i hi
      exact List.mem_range.mp hi
    · intro i hi hmarked
      show (if i ∈ free then 2 else if i ∈ filed then 1 else 0) = 0
      rcases hkind i (List.mem_range.mp hi) with ⟨-, -, hnot⟩ | ⟨-, -, hnot⟩ | ⟨hfiled, hfree, -⟩
      · rw [hmarked] at hnot
        cases hnot
      · rw [hmarked] at hnot
        cases hnot
      · rw [if_neg hfree, if_neg hfiled]
  have hseen : ((List.range w.entries.length).all fun index =>
      (Census.marks
        ⟨(Census.marks ⟨(Census.marks ⟨fun _ => 0, 0⟩ filed 1).seen, 0⟩ free 2).seen, 0⟩
        ((List.range w.entries.length).filter w.retiredAt) 3).seen index != 0) = true := by
    rw [List.all_eq_true]
    intro i hi
    rw [bne_iff_ne]
    show (if i ∈ (List.range w.entries.length).filter w.retiredAt then 3 else
      if i ∈ free then 2 else if i ∈ filed then 1 else 0) ≠ 0
    rcases hkind i (List.mem_range.mp hi) with ⟨h₁, h₂, h₃⟩ | ⟨h₁, h₂, h₃⟩ | ⟨h₁, h₂, h₃⟩
    · simp [h₁, h₂, h₃]
    · simp [h₂, h₃]
    · simp [List.mem_range.mp hi, h₃]
  have hevent : w.computeNextEvent.getD U64_MAX = w.nextEvent := by
    have hexact : Soonest w LEVELS U64_MAX (w.computeNextEvent.getD U64_MAX) :=
      ⟨(exact_refresh w).le_bound, (exact_refresh w).le_wakeup, (exact_refresh w).attained⟩
    exact hexact.unique h.event
  have havailable : w.available = free.length := by
    rw [Wheel.available]
    omega
  rw [Wheel.checkInvariants, hfiled, found_bind, ensure_bind (by simp [Census.marks, hlive]), hfree,
    found_bind, hlast, found_bind, ensure_bind (by simp [Census.marks, hretired]), ensure_bind (by
    rw [hseen, Bool.and_true, beq_iff_eq]
    simp only [Census.marks, Nat.zero_add]
    exact htotal), ensure_bind (by simp [Census.marks, havailable]),
    ensure_bind (by rw [hevent]; exact beq_self_eq_true _), ensure, if_pos]
  exact decide_eq_true h.cursor_le_event

/-- What the diagnosis, the cached event and an advance say of each other. -/
structure Wheel.Sound (w : Wheel T) : Prop where
  checked : w.checkInvariants = .ok ()
  /-- The cached event is the earliest wakeup of the occupied slots. -/
  least : IsLeast {tick | tick = U64_MAX ∨ ∃ p, w.Occupied p ∧ tick = slotWakeup w.cursor p.1 p.2}
    w.nextEvent
  /-- Without an event there is no timer. -/
  empty : w.nextEvent = U64_MAX → w.live = 0 ∧ ∀ c ∈ w.cores, c.token = none
  wakeup : ∀ c ∈ w.cores, c.token.isSome → ∃ tick, w.nextWakeupTick = some tick ∧
    w.cursor ≤ tick ∧ tick ≤ max c.deadline w.cursor
  quiet : ∀ now ≤ MAX_TICK, w.isDueAt now = false → ∃ w', w.advanceTo now = .ok (w', [])

/-- In every wheel that a run reaches, the diagnosis finds nothing and the cached event is
exact. -/
theorem wheel_is_sound {next wheelId after capacity start : ℕ} {w₀ : Wheel T}
    {trace : List (Op T × Answer T)} (hnext : NEXT_WHEEL_ID ≤ next)
    (hid : allocateWheelId next = .ok (wheelId, after))
    (hstart : Wheel.withCapacityAtTick capacity start wheelId = .ok w₀)
    (hrun : Trail Wheel.Step w₀ trace w) :
  w.Sound
  := by
  have h := good_of_run hnext hid hstart hrun
  obtain ⟨lists, free, hlinks⟩ := h.links
  have hmax : MAX_TICK < U64_MAX := by decide
  have hwakeup : ∀ c ∈ w.cores, c.token.isSome → w.nextEvent ≤ max c.deadline w.cursor ∧
      w.nextEvent ≠ U64_MAX := by
    intro c hc htoken
    have hfiled := h.filed c hc htoken
    have hle := (h.event_le hc htoken).trans hfiled.wakeup_bounds.2
    have hdeadline := hfiled.deadline
    have hcursor := h.cursor
    omega
  refine ⟨h.checkInvariants, ⟨?_, ?_⟩, ?_, ?_, ?_⟩
  · apply h.event.attained.imp_right
    rintro ⟨p, -, hocc, heq⟩
    exact ⟨p, hocc, heq⟩
  · rintro tick (rfl | ⟨p, hocc, rfl⟩)
    · exact h.event.le_bound
    · exact h.event.le_wakeup p (hlinks.range p ((hlinks.occupied p).mp hocc)).1 hocc
  · intro hevent
    have hnone : ∀ c ∈ w.cores, c.token = none := by
      intro c hc
      rw [← Option.not_isSome_iff_eq_none]
      intro htoken
      exact (hwakeup c hc htoken).2 hevent
    refine ⟨?_, hnone⟩
    rw [hlinks.count]
    apply List.sum_eq_zero
    intro n hn
    obtain ⟨c, hc, rfl⟩ := List.mem_map.mp hn
    rw [Core.load, hnone c hc]
    rfl
  · intro c hc htoken
    obtain ⟨hle, hevent⟩ := hwakeup c hc htoken
    exact ⟨w.nextEvent, if_pos hevent, h.cursor_le_event, hle⟩
  · intro now hnow hdue
    have hlt : now < w.nextEvent := by
      rw [Wheel.isDueAt, decide_eq_false_iff_not] at hdue
      omega
    rw [Wheel.advanceTo, assert_of (by simpa using hnow), ok_bind, if_pos hlt]
    by_cases hback : MAX_TICK < now ∨ now < w.cursor
    · rw [if_pos hback]
      exact ⟨_, rfl⟩
    · rw [if_neg hback]
      exact ⟨_, rfl⟩

/-- A wheel with one timer, for tick one hundred, is sound and wakes at tick sixty-four. -/
theorem wheel_is_sound_filed :
  ∃ w₀ w : Wheel ℕ, ∃ id, Wheel.withCapacityAtTick 1 0 1 = .ok w₀ ∧
    w₀.perform (.tryInsertAt 100 7) = .ok (w, .inserted (.ok id)) ∧
    w.nextWakeupTick = some 64 ∧ w.Sound
  := by
  have hrun : ∃ w₀ w : Wheel ℕ, ∃ id, Wheel.withCapacityAtTick 1 0 1 = .ok w₀ ∧
      w₀.perform (.tryInsertAt 100 7) = .ok (w, .inserted (.ok id)) ∧
      w.nextWakeupTick = some 64 :=
    ⟨_, _, _, rfl, rfl, rfl⟩
  obtain ⟨w₀, w, id, hstart, hinsert, hwakeup⟩ := hrun
  have htrail : Trail Wheel.Step w₀ ([] ++ [(.tryInsertAt 100 7, .inserted (.ok id))]) w :=
    Trail.nil.snoc hinsert
  have hid : allocateWheelId 1 = .ok (1, 2) := rfl
  exact ⟨w₀, w, id, hstart, hinsert, hwakeup, wheel_is_sound le_rfl hid hstart htrail⟩

end Grommet.Timer
