import Grommet.Core.Scheduler.Arena
import Grommet.Core.Scheduler.Conserving
import Grommet.Runtime.Shard.Stranding

/-!
# The bounds of a shard

Three components count: the scheduler what is in flight, the loop its flushes, and the set of
outstanding futures its slots.  The desk of a shard relates the three.  What is left to the loop
is that it begins no flush without a slot for it and takes nothing from the mailbox while the
scheduler is saturated.
-/

open Checked

namespace Grommet

/-- What is in flight is within the budgets of the classes. -/
theorem Scheduler.Represents.inflight_le {K P S : Type} [DecidableEq K] {CLASSES : ℕ}
    {cfg : Config CLASSES} {s : Scheduler K P S CLASSES} {a : Account K P S CLASSES}
    {own : K → List (ℕ × Item P)} {free : List ℕ} (h : s.Represents cfg a.book own free)
    (hfrugal : a.Frugal cfg) (i : Fin CLASSES) :
  s.inflight i ≤ cfg.maxInflight i
  := by
  rw [h.inflight, Book.inflightAt]
  split
  · rename_i hi
    have hto : (UInt8.ofNat i.val).toNat = i.val := UInt8.toNat_ofNat_of_lt' hi
    have hle := hfrugal (UInt8.ofNat i.val) (by rw [hto]; apply i.isLt)
    have hindex : (⟨(UInt8.ofNat i.val).toNat, by rw [hto]; apply i.isLt⟩ : Fin CLASSES) = i :=
      Fin.ext hto
    rw [hindex] at hle
    apply hle
  · apply Nat.zero_le

namespace Shard

variable {K I W S : Type} [DecidableEq K] {CLASSES : ℕ} {s s' : Shard K I W S CLASSES}
  {x : Desk K I W S CLASSES} {deeds : List (Deed K I W S)}

/-! ### The loop -/

omit [DecidableEq K] in
/-- The limits that the loop keeps. -/
structure Within (s : Shard K I W S CLASSES) : Prop where
  flushes : s.flushes ≤ s.cfg.flushSlots
  pending : s.book.pending ≤ s.cfg.scheduler.maxPending
  nodes : s.book.slab.capacity ≤ s.cfg.scheduler.maxPending

omit [DecidableEq K] in
/-- A stage that takes nothing in stays within the limits. -/
theorem Within.of_drains (h : s.Within) (hcfg : s'.cfg = s.cfg) (hflushes : s'.flushes ≤ s.flushes)
    (hdrains : s.book.Drains s'.book) :
  s'.Within
  := by
  constructor
  · rw [hcfg]
    apply hflushes.trans h.flushes
  · rw [hcfg]
    apply hdrains.2.trans h.pending
  · rw [hcfg, hdrains.1]
    apply h.nodes

omit [DecidableEq K] in
/-- A stage that leaves the queues alone stays within the limits. -/
theorem Within.same (h : s.Within) (hcfg : s'.cfg = s.cfg) (hflushes : s'.flushes = s.flushes)
    (hbook : s'.book = s.book) :
  s'.Within
  := by
  apply h.of_drains hcfg hflushes.le (.of_stock _)
  rw [hbook]

omit [DecidableEq K] in
/-- Flushes begin in free slots. -/
theorem Within.beginFlushes (h : s.Within) (hbegin : s.beginFlushes = .ok s') :
  s'.Within
  := by
  rw [beginFlushes_eq_ok hbegin]
  refine ⟨?_, h.pending, h.nodes⟩
  have hflushes := h.flushes
  simp only [List.length_take, room]
  omega

/-- The service of a timer leaves the queues alone. -/
theorem Within.serviceTimer (h : s.Within) {timer : Timer}
    (hservice : s.serviceTimer timer = .ok s') :
  s'.Within
  := by
  obtain ⟨book, staged, timers, hsweep, rfl⟩ := serviceTimer_eq_ok hservice
  have hstock : book.stock = s.book.stock := by
    rw [sweep] at hsweep
    split at hsweep
    · exact Scheduler.evictLoop_stock hsweep
    · cases hsweep
      rfl
  exact h.of_drains rfl le_rfl (.of_stock hstock)

theorem Within.serviceTimers (h : s.Within) {fired : Bool}
    (hservice : s.serviceTimers = .ok (s', fired)) :
  s'.Within
  := by
  apply serviceTimers_induction ?_ ?_ hservice h
  · intro s₁ timers h₁
    exact h₁.same rfl rfl rfl
  · intro s₁ timer s₂ h₁ hfirst
    exact h₁.serviceTimer hfirst

variable [DecidableEq I]

/-- An envelope is taken only while the scheduler is not saturated. -/
theorem Within.receive (h : s.Within) (hsits : s.Sits x) {count : ℕ} {envelope : Envelope K I W}
    {rest : List (Envelope K I W)} (hdrains : s.drains count = true)
    (hadmitted : admitOne { s with inbox := rest } envelope = .ok (s', deeds)) :
  s'.Within
  := by
  rcases admitOne_eq_ok hadmitted with ⟨rfl, -⟩ | ⟨tracked, live, book, -, hbook, rfl⟩
  · exact h.same rfl rfl rfl
  · obtain ⟨⟨own, free, hr⟩, -⟩ := hsits.holds
    obtain ⟨hpending, hnodes⟩ := Scheduler.admitItem_stock hbook
    have hroom : s.book.pending < s.cfg.scheduler.maxPending := by
      rw [drains, Bool.and_eq_true, Bool.not_eq_true', Scheduler.isSaturated, hr.config,
        decide_eq_false_iff_not, Nat.not_le] at hdrains
      apply hdrains.2
    refine ⟨h.flushes, ?_, ?_⟩
    · change book.pending ≤ _
      rw [hpending]
      apply hroom
    · change book.slab.capacity ≤ _
      rcases hnodes with hsame | ⟨hfree, hgrown⟩
      · rw [hsame]
        apply h.nodes
      · have hle : s.book.slab.capacity ≤ s.book.pending := hr.capacity_le hfree
        rw [hgrown]
        apply lt_of_le_of_lt hle hroom

/-- Every step stays within the limits. -/
theorem Within.step (h : s.Within) (hsits : s.Sits x) (hstep : Step s deeds s') :
  s'.Within
  := by
  cases hstep with
  | send envelope _ => exact h.same rfl rfl rfl
  | disconnect => exact h.same rfl rfl rfl
  | wake now _ => exact h.same rfl rfl rfl
  | dispatch _ _ hnext hpush =>
    rw [push_eq_ok hpush]
    exact h.of_drains rfl le_rfl (Scheduler.next_drains hnext)
  | nextClass _ _ hnext => exact h.of_drains rfl le_rfl (Scheduler.next_drains hnext)
  | dispatched _ _ => exact h.same rfl rfl rfl
  | shed _ _ => exact h.of_drains rfl le_rfl (.of_stock rfl)
  | shedAll _ _ => exact h.of_drains rfl le_rfl (.of_stock rfl)
  | flush _ hbegin _ =>
    have hwithin := h.beginFlushes hbegin
    exact hwithin.same rfl rfl rfl
  | evictAll _ _ _ hevict =>
    exact h.of_drains rfl le_rfl (.of_stock (Scheduler.evictAllLoop_stock hevict))
  | exit _ _ _ => exact h.same rfl rfl rfl
  | drain _ _ _ => exact h.same rfl rfl rfl
  | skipDrain time _ _ _ => exact h.same rfl rfl rfl
  | receive _ hdrains _ hadmitted =>
    have hwithin := h.receive hsits hdrains hadmitted
    exact hwithin.same rfl rfl rfl
  | closed now time _ _ _ _ => exact h.same rfl rfl rfl
  | pending now time _ _ => exact h.same rfl rfl rfl
  | full now time _ _ => exact h.same rfl rfl rfl
  | poll before _ _ _ => exact h.same rfl rfl rfl
  | ran before outcome _ _ _ hfinish =>
    obtain ⟨book, hcomplete, rfl⟩ := finishRun_eq_ok hfinish
    exact h.of_drains rfl le_rfl (Scheduler.complete_drains hcomplete)
  | flushed before _ _ _ hfinish =>
    obtain ⟨book, hevict, rfl⟩ := finishFlush_eq_ok hfinish
    exact h.of_drains rfl (Nat.sub_le _ _) (.of_stock (Scheduler.finishEvict_stock hevict))
  | harvested moreReady now _ => exact h.same rfl rfl rfl
  | abort _ => exact h.same rfl rfl rfl
  | service _ hservice =>
    have hwithin := h.serviceTimers hservice
    exact hwithin.same rfl rfl rfl
  | suspend _ => exact h.same rfl rfl rfl
  | resume now _ => exact h.same rfl rfl rfl

omit [DecidableEq K] [DecidableEq I] in
theorem Within.start {cfg : ShardConfig CLASSES} {now : Duration} {wheelId : ℕ}
    (h : Shard.start cfg now wheelId = .ok s) :
  s.Within
  := by
  obtain ⟨-, -, -, hbook, -, -, -, -, hflushes, -⟩ := start_eq_ok h
  constructor
  · rw [hflushes]
    apply Nat.zero_le
  · rw [hbook]
    apply Nat.zero_le
  · rw [hbook]
    apply Nat.zero_le

/-! ### The desk -/

omit [DecidableEq I] in
/-- A desk keeps every class within its budget. -/
theorem Desk.frugal_of_trail {cfg : Config CLASSES} {trace : List (List (Deed K I W S))}
    (h : Trail (Desk.Step cfg) empty trace x) :
  x.account.Frugal cfg
  := by
  apply account_of_trail (fun a e a' ha hstep => ha.step hstep) h
  intro c _
  apply Nat.zero_le

omit [DecidableEq I] in
/-- What is outstanding is in flight or being flushed. -/
theorem Sits.outstanding_length (h : s.Sits x) :
  s.outstanding.length = ∑ c, s.book.inflight c + s.flushes
  := by
  have hlength := (Job.map_key_perm x.jobs).length_eq
  obtain ⟨⟨own, free, hr⟩, -⟩ := h.holds
  rw [List.length_map, List.length_append, List.length_map, ← x.running.length_eq] at hlength
  rw [h.jobs, hlength, hr.sum_inflight x.account.good, h.flushes]

omit [DecidableEq I] in
/-- What is staged or being flushed is what the scheduler has handed out. -/
theorem Sits.evicting_iff (h : s.Sits x) (k : K) :
  k ∈ s.staged.map Prod.fst ++ s.outstanding.filterMap Job.flushing ↔
    s.book.presence k = some .evicting
  := by
  rw [h.staged, h.jobs, ← x.flushing.mem_iff, h.presence]
  have hmem := x.account.good.mem .evicting k
  simpa [Book.standing] using hmem

/-- What holds of the counters of a shard. -/
structure Bounds (s : Shard K I W S CLASSES) : Prop where
  outstanding : s.outstanding.length = ∑ c, s.book.inflight c + s.flushes
  inflight : ∀ c, s.book.inflight c ≤ s.cfg.scheduler.maxInflight c
  flushes : s.flushes = (s.outstanding.filterMap Job.flushing).length
  flushSlots : s.flushes ≤ s.cfg.flushSlots
  /-- The keys that are staged or being flushed are those that are evicting, once each. -/
  evicting : ∀ k, k ∈ s.staged.map Prod.fst ++ s.outstanding.filterMap Job.flushing ↔
    s.book.presence k = some .evicting
  once : (s.staged.map Prod.fst ++ s.outstanding.filterMap Job.flushing).Nodup
  pending : s.book.pending ≤ s.cfg.scheduler.maxPending
  nodes : s.book.slab.capacity ≤ s.cfg.scheduler.maxPending

/-- No counter of a shard runs over or under. -/
structure Sound (s : Shard K I W S CLASSES) : Prop where
  dispatch : ∀ (c : ClassId) (now : Duration) (book : Scheduler K (Stamped I W) S CLASSES)
    (d : Dispatch K (Stamped I W) S), s.book.next c now = .ok (book, some d) →
    ∃ s', push { s with book := book } (.runOne false d) = .ok s'
  beginFlushes : ∃ s', s.beginFlushes = .ok s'
  finishFlush : ∀ (before after : List (Job K I W S)) (started : Bool) (key : K) (state : S)
    (time : Duration), s.outstanding = before ++ .runFlush started key state :: after →
    ∃ s', finishFlush { s with outstanding := before ++ after } key time = .ok s'

omit [DecidableEq I] in
theorem Sits.bounds (h : s.Sits x) (hfrugal : x.account.Frugal s.cfg.scheduler)
    (hwithin : s.Within) :
  s.Bounds
  := by
  constructor
  · apply h.outstanding_length
  · obtain ⟨⟨own, free, hr⟩, -⟩ := h.holds
    apply hr.inflight_le hfrugal
  · rw [h.flushes, h.jobs]
  · apply hwithin.flushes
  · apply h.evicting_iff
  · rw [h.staged, h.jobs, ← x.flushing.nodup_iff]
    apply x.account.good.nodup .evicting
  · apply hwithin.pending
  · apply hwithin.nodes

omit [DecidableEq K] [DecidableEq I] in
theorem foldlM_beginFlush_ok {candidates : List (K × S)}
    (hroom : s.outstanding.length + candidates.length ≤ s.cfg.capacity) :
  ∃ s', candidates.foldlM beginFlush s = .ok s'
  := by
  induction candidates generalizing s with
  | nil => exact ⟨s, rfl⟩
  | cons candidate candidates ih =>
    rw [List.length_cons] at hroom
    have hslot : decide (s.outstanding.length < s.cfg.capacity) = true := by
      rw [decide_eq_true_eq]
      omega
    rw [List.foldlM_cons, beginFlush, push]
    simp only [assert_of hslot, ok_bind]
    apply ih
    rw [List.length_append, List.length_singleton]
    simp only
    omega

omit [DecidableEq I] in
/-- A dispatch finds a slot. -/
theorem Sits.push_ok (h : s.Sits x) (hfrugal : x.account.Frugal s.cfg.scheduler)
    (hwithin : s.Within) {c : ClassId} {now : Duration}
    {book : Scheduler K (Stamped I W) S CLASSES} {d : Dispatch K (Stamped I W) S}
    (hnext : s.book.next c now = .ok (book, some d)) :
  ∃ s', push { s with book := book } (.runOne false d) = .ok s'
  := by
  obtain ⟨a, hstep, hholds⟩ := h.call (.next c now) trivial
    (by rw [Scheduler.perform, hnext, ok_bind])
  have hslots := h.outstanding_length
  have hflushes := hwithin.flushes
  -- The budgets bound what is in flight with the dispatch.
  obtain ⟨⟨own, free, hr⟩, -⟩ := h.holds
  obtain ⟨⟨own', free', hr'⟩, -⟩ := hholds
  have hsum : ∑ i, book.inflight i = ∑ i, s.book.inflight i + 1 := by
    rw [hr'.sum_inflight a.good, hr.sum_inflight x.account.good, hstep.2]
    simp [Ledger.record]
  have hle : ∑ i, book.inflight i ≤ ∑ i, s.cfg.scheduler.maxInflight i :=
    Finset.sum_le_sum fun i _ => hr'.inflight_le (hfrugal.step hstep) i
  have hslot : decide (s.outstanding.length < s.cfg.capacity) = true := by
    rw [decide_eq_true_eq, ShardConfig.capacity]
    omega
  refine ⟨{ s with book := book, outstanding := s.outstanding ++ [.runOne false d] }, ?_⟩
  rw [push, assert_of hslot, ok_bind]

omit [DecidableEq I] in
/-- Flushes find slots. -/
theorem Sits.beginFlushes_ok (h : s.Sits x) (hfrugal : x.account.Frugal s.cfg.scheduler)
    (hwithin : s.Within) :
  ∃ s', s.beginFlushes = .ok s'
  := by
  rw [Shard.beginFlushes]
  apply foldlM_beginFlush_ok
  have hslots := h.outstanding_length
  have hflushes := hwithin.flushes
  obtain ⟨⟨own, free, hr⟩, -⟩ := h.holds
  have hle : ∑ i, s.book.inflight i ≤ ∑ i, s.cfg.scheduler.maxInflight i :=
    Finset.sum_le_sum fun i _ => hr.inflight_le hfrugal i
  simp only [List.length_take, ShardConfig.capacity]
  omega

omit [DecidableEq I] in
/-- A flush that finishes was counted. -/
theorem Sits.finishFlush_ok (h : s.Sits x) {before after : List (Job K I W S)} {started : Bool}
    {key : K} {state : S} (hjobs : s.outstanding = before ++ .runFlush started key state :: after)
    (time : Duration) :
  ∃ s', finishFlush { s with outstanding := before ++ after } key time = .ok s'
  := by
  obtain ⟨⟨own, free, hr⟩, -⟩ := h.holds
  obtain ⟨book, hbook, -⟩ := hr.finishEvict x.account.good (h.allows_finishEvict hjobs) time
  have hcounted : 1 ≤ s.flushes := by
    rw [h.flushes, ← h.jobs, hjobs]
    simp only [List.filterMap_append, List.filterMap_cons, Job.flushing, List.length_append,
      List.length_cons]
    omega
  refine ⟨{ s with outstanding := before ++ after, book := book, flushes := s.flushes - 1 }, ?_⟩
  rw [finishFlush, sub_of_le hcounted, ok_bind, hbook, ok_bind]

/-- In every state that a shard reaches its bounds hold, a dispatch and a flush find a slot in
the set of outstanding futures, and a flush that finishes was counted. -/
theorem shard_stays_within_bounds {cfg : ShardConfig CLASSES}
    {trace : List (List (Deed K I W S))} (hrun : Run cfg trace s) :
  s.Bounds ∧ s.Sound
  := by
  obtain ⟨now, wheelId, s₀, hstart, htrail⟩ := hrun
  obtain ⟨trace', x, htrail', -, hsits, hcfg⟩ := sits_of_trail htrail (Sits.start hstart)
  have hfrugal : x.account.Frugal s.cfg.scheduler := by
    rw [hcfg]
    apply Desk.frugal_of_trail htrail'
  have hwithin : s.Within := by
    have hboth : (∃ x, s.Sits x) ∧ s.Within := by
      apply htrail.invariant fun _ (s : Shard K I W S CLASSES) => (∃ x, s.Sits x) ∧ s.Within
      · exact ⟨⟨_, Sits.start hstart⟩, Within.start hstart⟩
      · rintro _ s₁ deeds s₂ - ⟨⟨y, hsits₁⟩, hwithin₁⟩ hstep
        obtain ⟨trace₂, z, -, -, hsits₂⟩ := hsits₁.step hstep
        exact ⟨⟨z, hsits₂⟩, hwithin₁.step hsits₁ hstep⟩
    apply hboth.2
  refine ⟨hsits.bounds hfrugal hwithin, ?_⟩
  constructor
  · intro c now book d hnext
    apply hsits.push_ok hfrugal hwithin hnext
  · apply hsits.beginFlushes_ok hfrugal hwithin
  · intro before after started key state time hjobs
    apply hsits.finishFlush_ok hjobs

/-- A shard with two items in flight in its two classes. -/
theorem shard_stays_within_bounds_busy :
  ∃ (s : Shard ℕ Unit ℕ ℕ 2) (trace : List (List (Deed ℕ Unit ℕ ℕ))),
    Run (.new fun _ => 1) trace s ∧ s.outstanding.length = 2 ∧ s.Bounds ∧ s.Sound
  := by
  have h₀ : Trail Step
      ((start (.new fun _ => 1) 0 1 : Checked (Shard ℕ Unit ℕ ℕ 2)).toOption.get rfl) [] _ := .nil
  have h₁ := h₀.snoc (.send ⟨7, 0, none, none, 0, 40⟩ rfl)
  have h₂ := h₁.snoc (.send ⟨8, 1, none, none, 0, 41⟩ rfl)
  have h₃ := h₂.snoc (.wake 1 rfl)
  have h₄ := h₃.snoc (.nextClass rfl (by decide) rfl)
  have h₅ := h₄.snoc (.nextClass rfl (by decide) rfl)
  have h₆ := h₅.snoc (.dispatched rfl (by decide))
  have h₇ := h₆.snoc (.shedAll rfl rfl)
  have h₈ := h₇.snoc (.flush rfl rfl rfl)
  have h₉ := h₈.snoc (.drain rfl rfl rfl)
  have h₁₀ := h₉.snoc (.receive rfl rfl rfl rfl)
  have h₁₁ := h₁₀.snoc (.receive rfl rfl rfl rfl)
  have h₁₂ := h₁₁.snoc (.pending 2 2 rfl rfl)
  have h₁₃ := h₁₂.snoc (.harvested false 2 rfl)
  have h₁₄ := h₁₃.snoc (.service rfl rfl)
  have h₁₅ := h₁₄.snoc (.dispatch rfl (by decide) rfl rfl)
  have h₁₆ := h₁₅.snoc (.nextClass rfl (by decide) rfl)
  have h₁₇ := h₁₆.snoc (.dispatch rfl (by decide) rfl rfl)
  have hstart : start (.new fun _ => 1) 0 1 = .ok ((start (.new fun _ => 1) 0 1 :
      Checked (Shard ℕ Unit ℕ ℕ 2)).toOption.get rfl) := rfl
  exact ⟨_, _, ⟨0, 1, _, hstart, h₁₇⟩, rfl, shard_stays_within_bounds ⟨0, 1, _, hstart, h₁₇⟩⟩

end Shard

end Grommet
