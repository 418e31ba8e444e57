import Grommet.Core.Scheduler.Tally
import Grommet.Runtime.Shard.Coalescing
import Mathlib.Data.UInt

/-!
# The counters of a shard

A shard counts by class the items that it admits, that it completes and that expire, each at its
own stage and by the class that is at hand there: that of the envelope, of the discarded item and
of the completion.  It also counts the repeated requests that it suppresses.

A counter wraps around.  The difference between what started and what completed or expired is,
up to that, what the scheduler holds.
-/

open Checked

namespace Grommet

/-- The counters that tell where the items of a shard are. -/
structure ShardHot (CLASSES : ℕ) where
  /-- Items suppressed because the same request id was already live for their key. -/
  coalesced : UInt64
  /-- Items admitted from the mailbox, split by class. -/
  startedByClass : Fin CLASSES → UInt64
  /-- Items whose processing finished, panics included, split by class. -/
  completedByClass : Fin CLASSES → UInt64
  /-- Items discarded at dispatch because their deadline had passed, split by class. -/
  expiredByClass : Fin CLASSES → UInt64

namespace ShardHot

variable {CLASSES : ℕ}

/-- The counters of a fresh shard. -/
def default : ShardHot CLASSES where
  coalesced := 0
  startedByClass := fun _ => 0
  completedByClass := fun _ => 0
  expiredByClass := fun _ => 0

/-- Count one more.  The addition wraps around. -/
def bump (counter : UInt64) : UInt64 := counter + 1

/-- Count one more of a class. -/
def bumpClass (counters : Fin CLASSES → UInt64) (c : ClassId) :
    Checked (Fin CLASSES → UInt64) := do
  let ⟨h⟩ ← inBounds c.toNat CLASSES
  .ok (Function.update counters ⟨c.toNat, h⟩ (bump (counters ⟨c.toNat, h⟩)))

/-- An item of a class is admitted. -/
def bumpStarted (hot : ShardHot CLASSES) (c : ClassId) : Checked (ShardHot CLASSES) := do
  let started ← bumpClass hot.startedByClass c
  .ok { hot with startedByClass := started }

/-- The processing of an item of a class finished. -/
def bumpCompleted (hot : ShardHot CLASSES) (c : ClassId) : Checked (ShardHot CLASSES) := do
  let completed ← bumpClass hot.completedByClass c
  .ok { hot with completedByClass := completed }

/-- An item of a class is handed back. -/
def bumpExpired (hot : ShardHot CLASSES) (c : ClassId) : Checked (ShardHot CLASSES) := do
  let expired ← bumpClass hot.expiredByClass c
  .ok { hot with expiredByClass := expired }

/-- The sum of the counters of all classes, which wraps around. -/
def total (counters : Fin CLASSES → UInt64) : UInt64 :=
  (List.finRange CLASSES).foldl (fun sum i => sum + counters i) 0

/-- Items admitted from the mailbox, all classes. -/
def started (hot : ShardHot CLASSES) : UInt64 := total hot.startedByClass

/-- What `admit_one` counts: an item that starts, or a repeated request. -/
def admitOne {K I W S : Type} [DecidableEq K] [DecidableEq I] (hot : ShardHot CLASSES)
    (s : Shard K I W S CLASSES) (envelope : Envelope K I W) : Checked (ShardHot CLASSES) :=
  match envelope.requestId, s.cfg.coalesceDuplicates with
  | some id, true =>
      if (envelope.key, id) ∈ s.live then
        .ok { hot with coalesced := bump hot.coalesced }
      else
        hot.bumpStarted envelope.classId
  | _, _ => hot.bumpStarted envelope.classId

theorem bumpClass_of_lt (counters : Fin CLASSES → UInt64) {c : ClassId} (h : c.toNat < CLASSES) :
  bumpClass counters c =
    .ok (Function.update counters ⟨c.toNat, h⟩ (counters ⟨c.toNat, h⟩ + 1))
  := by
  rw [bumpClass, inBounds_of_lt h]
  rfl

/-- A counter of a class that is there moves by one, and no other does. -/
theorem bumpClass_eq_ok {counters counters' : Fin CLASSES → UInt64} {c : ClassId}
    (h : bumpClass counters c = .ok counters') (i : Fin CLASSES) :
  counters' i = counters i + UInt64.ofNat (if c.toNat = i then 1 else 0)
  := by
  by_cases hc : c.toNat < CLASSES
  · rw [bumpClass_of_lt counters hc] at h
    cases h
    by_cases hi : c.toNat = i
    · have hindex : (⟨c.toNat, hc⟩ : Fin CLASSES) = i := Fin.ext hi
      rw [hindex, Function.update_self, if_pos hi]
      rfl
    · have hindex : i ≠ ⟨c.toNat, hc⟩ := fun heq => hi (congrArg Fin.val heq).symm
      rw [Function.update_of_ne hindex, if_neg hi]
      exact (UInt64.add_zero _).symm
  · rw [bumpClass, inBounds, dif_neg hc] at h
    cases h

theorem exists_bumpClass (counters : Fin CLASSES → UInt64) {c : ClassId} (h : c.toNat < CLASSES) :
  ∃ counters', bumpClass counters c = .ok counters'
  := ⟨_, bumpClass_of_lt counters h⟩

theorem total_eq_sum (counters : Fin CLASSES → UInt64) :
  total counters = ∑ i, counters i
  := by
  rw [total, Fin.sum_univ_def, List.sum_eq_foldl, List.foldl_map]

/-- The sum of the counters moves by one with one of them. -/
theorem total_bumpClass {counters counters' : Fin CLASSES → UInt64} {c : ClassId}
    (h : bumpClass counters c = .ok counters') :
  total counters' = total counters + 1
  := by
  by_cases hc : c.toNat < CLASSES
  · rw [bumpClass_of_lt counters hc] at h
    cases h
    rw [total_eq_sum, total_eq_sum, Finset.sum_update_of_mem (Finset.mem_univ _),
      ← Finset.add_sum_erase _ _ (Finset.mem_univ (⟨c.toNat, hc⟩ : Fin CLASSES)),
      Finset.sdiff_singleton_eq_erase]
    ac_rfl
  · rw [bumpClass, inBounds, dif_neg hc] at h
    cases h

variable {K I W S : Type} [DecidableEq K] [DecidableEq I]

/-- What is counted of an envelope that is taken. -/
theorem admitOne_cases (hot : ShardHot CLASSES) {s s' : Shard K I W S CLASSES}
    {envelope : Envelope K I W} {deeds : List (Shard.Deed K I W S)}
    (h : s.admitOne envelope = .ok (s', deeds)) :
  (s' = s ∧ deeds = [.onCoalesced envelope.key envelope.work] ∧
      hot.admitOne s envelope = .ok { hot with coalesced := hot.coalesced + 1 }) ∨
    ∃ tracked live book, deeds = [] ∧
      s.book.admitItem ⟨envelope.key, envelope.classId, envelope.expiresAt,
        ⟨envelope.enqueued, tracked, envelope.work⟩⟩ = .ok book ∧
      s' = { s with book := book, live := live } ∧
      hot.admitOne s envelope = hot.bumpStarted envelope.classId
  := by
  rcases Shard.admitOne_cases h with ⟨id, hid, hcoalesce, hmem, rfl, rfl⟩ |
    ⟨tracked, live, book, rfl, hbook, rfl, hcase⟩
  · left
    refine ⟨rfl, rfl, ?_⟩
    rw [admitOne, hid, hcoalesce]
    exact if_pos hmem
  · right
    refine ⟨tracked, live, book, rfl, hbook, rfl, ?_⟩
    rcases hcase with ⟨-, -, hnone⟩ | ⟨id, -, hid, hcoalesce, hfresh, -⟩
    · cases hcoalesce : s.cfg.coalesceDuplicates with
      | false =>
        rw [admitOne, hcoalesce]
        cases envelope.requestId <;> rfl
      | true => rw [admitOne, hnone hcoalesce]
    · rw [admitOne, hid, hcoalesce]
      exact if_neg hfresh

end ShardHot

namespace Shard

variable {K I W S : Type} {CLASSES : ℕ}

namespace Deed

/-- The shard takes an envelope. -/
def isReceived : Deed K I W S → Bool
  | .received _ => true
  | _ => false

/-- A counter of the items moves. -/
def isCounted : Deed K I W S → Bool
  | .received _ => true
  | .onExpired _ _ => true
  | .processed _ _ => true
  | _ => false

end Deed

/-- What a future calls is not counted. -/
theorem Job.isCounted_calls (job : Job K I W S) :
  ∀ deed ∈ job.calls, deed.isCounted = false
  := by
  rcases job with ⟨_ | _, d⟩ | ⟨_ | _, key, state⟩ <;> simp [calls, Deed.isCounted]

variable [DecidableEq K] [DecidableEq I]

/-- A step of a shard, and what it counts. -/
inductive Counted (x : Shard K I W S CLASSES × ShardHot CLASSES) :
    List (Deed K I W S) → Shard K I W S CLASSES × ShardHot CLASSES → Prop
  | receive {count : ℕ} {envelope : Envelope K I W} {rest : List (Envelope K I W)}
      {s' : Shard K I W S CLASSES} {deeds : List (Deed K I W S)} {hot : ShardHot CLASSES} :
      x.1.phase = .draining count → x.1.drains count = true → x.1.inbox = envelope :: rest →
      admitOne { x.1 with inbox := rest } envelope = .ok (s', deeds) →
      x.2.admitOne { x.1 with inbox := rest } envelope = .ok hot →
      Counted x (.received envelope :: deeds) ({ s' with phase := .draining (count + 1) }, hot)
  | shed {key : K} {c : ClassId} {stamped : Stamped I W} {hot : ShardHot CLASSES} :
      x.1.phase = .shedding → x.1.book.popExpired.2 = some (key, c, stamped) →
      x.2.bumpExpired c = .ok hot →
      Counted x [.onExpired key stamped.work] ({ x.1 with
        book := x.1.book.popExpired.1
        live := forget x.1.live key stamped.requestId }, hot)
  | ran {time : Duration} {admitted : ℕ} {report : Outstanding.Harvest} {abort started : Bool}
      (before : List (Job K I W S)) {after : List (Job K I W S)} {d : Dispatch K (Stamped I W) S}
      (outcome : Outcome S) {s' : Shard K I W S CLASSES} {hot : ShardHot CLASSES} :
      x.1.phase = .harvesting time admitted report abort →
      report.polled < max x.1.cfg.completeBatch 1 →
      x.1.outstanding = before ++ .runOne started d :: after →
      x.2.bumpCompleted d.classId = .ok hot →
      finishRun { x.1 with outstanding := before ++ after } d outcome time = .ok s' →
      Counted x ((Job.runOne started d).calls ++ [.processed d.key outcome]) ({ s' with
        phase := .harvesting time admitted
          { report with polled := report.polled + 1, finished := report.finished + 1 }
          (abort || (outcome.isPanic && x.1.cfg.panicPolicy == .abort)) }, hot)
  /-- Nothing else moves these counters. -/
  | quiet {deeds : List (Deed K I W S)} {s' : Shard K I W S CLASSES} : Step x.1 deeds s' →
      (∀ deed ∈ deeds, deed.isCounted = false) → Counted x deeds (s', x.2)

/-- The steps of a shard from its start, with its counters. -/
def CountedRun (cfg : ShardConfig CLASSES) (trace : List (List (Deed K I W S)))
    (s : Shard K I W S CLASSES) (hot : ShardHot CLASSES) : Prop :=
  ∃ now wheelId s₀, start cfg now wheelId = .ok s₀ ∧
    Trail Counted (s₀, ShardHot.default) trace (s, hot)

/-- What the counters tell: what started and neither completed nor expired is held. -/
def Tallies (s : Shard K I W S CLASSES) (hot : ShardHot CLASSES) : Prop :=
  ∀ i, hot.startedByClass i =
    hot.completedByClass i + hot.expiredByClass i + UInt64.ofNat (s.book.heldOf i)

variable {s s' : Shard K I W S CLASSES} {x : Desk K I W S CLASSES} {deeds : List (Deed K I W S)}
  {hot hot' : ShardHot CLASSES}

/-- A step that is counted is a step. -/
theorem Counted.step {x y : Shard K I W S CLASSES × ShardHot CLASSES} (h : Counted x deeds y) :
  Step x.1 deeds y.1
  := by
  cases h with
  | receive hphase hdrains hinbox hadmitted _ => exact .receive hphase hdrains hinbox hadmitted
  | shed hphase hpop _ => exact .shed hphase hpop
  | ran before outcome hphase hpolled hjobs _ hfinish =>
    exact .ran before outcome hphase hpolled hjobs hfinish
  | quiet hstep _ => exact hstep

/-! ### What the scheduler holds -/

omit [DecidableEq I]

/-- A call moves what the scheduler holds of a class by what it lets in and out. -/
theorem Sits.heldOf_call (h : s.Sits x) (call : Call K (Stamped I W) S)
    {e : Event K (Stamped I W) S} {book : Scheduler K (Stamped I W) S CLASSES}
    (hallow : x.account.ledger.Allows CLASSES call) (hperform : s.book.perform call = .ok (book, e))
    (i : Fin CLASSES) :
  s.book.heldOf i + e.entering i = e.leaving i + book.heldOf i
  := by
  obtain ⟨a, hstep, hholds⟩ := h.call call hallow hperform
  exact h.holds.tally hholds hstep i

/-- A call that lets nothing in or out leaves what the scheduler holds of a class. -/
theorem Sits.heldOf_still (h : s.Sits x) (call : Call K (Stamped I W) S)
    {e : Event K (Stamped I W) S} {book : Scheduler K (Stamped I W) S CLASSES}
    (hallow : x.account.ledger.Allows CLASSES call) (hperform : s.book.perform call = .ok (book, e))
    (hentering : ∀ i, e.entering i = 0) (hleaving : ∀ i, e.leaving i = 0) (i : Fin CLASSES) :
  book.heldOf i = s.book.heldOf i
  := by
  have hcall := h.heldOf_call call hallow hperform i
  rw [hentering, hleaving] at hcall
  omega

/-- A sweep leaves what the scheduler holds of a class. -/
theorem Sits.heldOf_serviceTimer (h : s.Sits x) {timer : Timer}
    (hservice : s.serviceTimer timer = .ok s') (i : Fin CLASSES) :
  s'.book.heldOf i = s.book.heldOf i
  := by
  obtain ⟨book, staged, timers, hsweep, rfl⟩ := serviceTimer_eq_ok hservice
  rw [sweep] at hsweep
  split at hsweep
  · exact h.heldOf_still (.evict s.now s.staged) True.intro
      (by rw [Scheduler.perform, hsweep, ok_bind]) (fun _ => rfl) (fun _ => rfl) i
  · cases hsweep
    rfl

theorem Sits.heldOf_serviceTimers (h : s.Sits x) (hsheds : s.phase.sheds = false) {fired : Bool}
    (hservice : s.serviceTimers = .ok (s', fired)) (i : Fin CLASSES) :
  s'.book.heldOf i = s.book.heldOf i
  := by
  have hkept : (∃ x, s'.Sits x) ∧ s'.phase.sheds = false ∧
      s'.book.heldOf i = s.book.heldOf i := by
    apply serviceTimers_induction (motive := fun s₁ : Shard K I W S CLASSES =>
      (∃ x, s₁.Sits x) ∧ s₁.phase.sheds = false ∧ s₁.book.heldOf i = s.book.heldOf i)
      ?_ ?_ hservice ⟨⟨x, h⟩, hsheds, rfl⟩
    · rintro s₁ timers ⟨⟨y, h₁⟩, hsheds₁, hheld⟩
      exact ⟨⟨y, h₁.same rfl rfl rfl rfl rfl id⟩, hsheds₁, hheld⟩
    · rintro s₁ timer s₂ ⟨⟨y, h₁⟩, hsheds₁, hheld⟩ hfirst
      obtain ⟨z, hsheds₂, h₂⟩ := h₁.serviceTimer_sits hsheds₁ hfirst
      exact ⟨⟨z, h₂⟩, hsheds₂, (h₁.heldOf_serviceTimer hfirst i).trans hheld⟩
  exact hkept.2.2

variable [DecidableEq I]

/-- A step that is not counted leaves what the scheduler holds of a class. -/
theorem Sits.heldOf_quiet (h : s.Sits x) (hstep : Step s deeds s')
    (hquiet : ∀ deed ∈ deeds, deed.isCounted = false) (i : Fin CLASSES) :
  s'.book.heldOf i = s.book.heldOf i
  := by
  cases hstep with
  | @dispatch c book d _ _ _ hnext hpush =>
    rw [push_eq_ok hpush]
    exact h.heldOf_still (.next (UInt8.ofNat c) s.now) True.intro
      (by rw [Scheduler.perform, hnext, ok_bind]) (fun _ => rfl) (fun _ => rfl) i
  | @nextClass c book _ _ hnext =>
    exact h.heldOf_still (.next (UInt8.ofNat c) s.now) True.intro
      (by rw [Scheduler.perform, hnext, ok_bind]) (fun _ => rfl) (fun _ => rfl) i
  | shed _ _ => simp [Deed.isCounted] at hquiet
  | shedAll _ hpop =>
    apply h.heldOf_still .popExpired True.intro rfl (fun _ => rfl) ?_ i
    intro i
    rw [show s.book.expired.head? = none from hpop]
    rfl
  | flush _ hbegin _ => rw [beginFlushes_eq_ok hbegin]
  | evictAll _ _ _ hevict =>
    exact h.heldOf_still (.evictAll s.staged) True.intro
      (by rw [Scheduler.perform, hevict, ok_bind]) (fun _ => rfl) (fun _ => rfl) i
  | receive _ _ _ _ => simp [Deed.isCounted] at hquiet
  | @ran time admitted report abort started before after d outcome s' _ _ _ _ =>
    have hcounted := hquiet (.processed d.key outcome) (by simp)
    cases hcounted
  | flushed before _ _ hjobs hfinish =>
    obtain ⟨book, hevict, rfl⟩ := finishFlush_eq_ok hfinish
    exact h.heldOf_still (.finishEvict _ _) (h.allows_finishEvict hjobs)
      (by rw [Scheduler.perform, hevict, ok_bind]) (fun _ => rfl) (fun _ => rfl) i
  | service hphase hservice => exact h.heldOf_serviceTimers (by rw [hphase]; rfl) hservice i
  | _ => rfl

/-! ### What is counted -/

/-- Every step keeps the counters in line with what the scheduler holds. -/
theorem Sits.tallies_step {t : Shard K I W S CLASSES × ShardHot CLASSES} (h : s.Sits x)
    (htallies : s.Tallies hot) (hstep : Counted (s, hot) deeds t) :
  t.1.Tallies t.2
  := by
  intro i
  have hbefore := htallies i
  cases hstep with
  | @receive count envelope rest s' deeds hot' _ _ _ hadmitted hcounted =>
    rcases hot.admitOne_cases hadmitted with ⟨rfl, -, hcoalesced⟩ |
      ⟨tracked, live, book, -, hbook, rfl, hstarted⟩
    · rw [hcoalesced] at hcounted
      cases hcounted
      exact hbefore
    · rw [hstarted, ShardHot.bumpStarted, bind_eq_ok] at hcounted
      obtain ⟨started, hbump, hcounted⟩ := hcounted
      cases hcounted
      have hcall := h.heldOf_call (.admitItem ⟨envelope.key, envelope.classId, envelope.expiresAt,
        ⟨envelope.enqueued, tracked, envelope.work⟩⟩) (Scheduler.admitItem_class hbook)
        (by rw [Scheduler.perform, hbook, ok_bind]) i
      have hheld : book.heldOf i =
          s.book.heldOf i + if envelope.classId.toNat = i then 1 else 0 :=
        (Nat.zero_add _).symm.trans hcall.symm
      have hi := ShardHot.bumpClass_eq_ok hbump i
      change started i = hot.completedByClass i + hot.expiredByClass i +
        UInt64.ofNat (book.heldOf i)
      rw [hi, hbefore, hheld, UInt64.ofNat_add, UInt64.add_assoc]
  | @shed key c stamped hot' hphase hpop hcounted =>
    rw [ShardHot.bumpExpired, bind_eq_ok] at hcounted
    obtain ⟨expired, hbump, hcounted⟩ := hcounted
    cases hcounted
    have hcall := h.heldOf_call .popExpired True.intro rfl i
    have hheld : s.book.heldOf i =
        (if c.toNat = i then 1 else 0) + s.book.popExpired.1.heldOf i := by
      rw [show s.book.expired.head? = some (key, c, stamped) from hpop] at hcall
      simpa [Event.entering, Event.leaving, Event.popped, Event.completed, List.countP_cons,
        Scheduler.popExpired] using hcall
    change hot.startedByClass i = hot.completedByClass i + expired i +
      UInt64.ofNat (s.book.popExpired.1.heldOf i)
    rw [ShardHot.bumpClass_eq_ok hbump i, hbefore, hheld, UInt64.ofNat_add]
    ac_rfl
  | @ran time admitted report abort started before after d outcome s' hot' _ _ hjobs hcounted hfinish =>
    rw [ShardHot.bumpCompleted, bind_eq_ok] at hcounted
    obtain ⟨completed, hbump, hcounted⟩ := hcounted
    cases hcounted
    obtain ⟨book, hcomplete, rfl⟩ := finishRun_eq_ok hfinish
    have hcall := h.heldOf_call (.complete ⟨d.key, d.classId, outcome.disposition⟩ time)
      (h.allows_complete hjobs) (by rw [Scheduler.perform, hcomplete, ok_bind]) i
    have hheld : s.book.heldOf i = (if d.classId.toNat = i then 1 else 0) + book.heldOf i := by
      simpa [Event.entering, Event.leaving, Event.popped, Event.completed, List.countP_cons]
        using hcall
    change hot.startedByClass i = completed i + hot.expiredByClass i +
      UInt64.ofNat (book.heldOf i)
    rw [ShardHot.bumpClass_eq_ok hbump i, hbefore, hheld, UInt64.ofNat_add]
    ac_rfl
  | quiet hstep hquiet =>
    rw [h.heldOf_quiet hstep hquiet i]
    exact hbefore

omit [DecidableEq K] [DecidableEq I] in
/-- What is not counted is not an envelope. -/
theorem countP_isReceived_of_quiet (h : ∀ deed ∈ deeds, deed.isCounted = false) :
  deeds.countP Deed.isReceived = 0
  := by
  rw [List.countP_eq_zero]
  intro deed hdeed hreceived
  have hquiet := h deed hdeed
  cases deed with
  | received envelope => cases hquiet
  | _ => cases hreceived

/-- An envelope that is taken starts or repeats a request. -/
theorem Counted.drained {t : Shard K I W S CLASSES × ShardHot CLASSES}
    (hstep : Counted (s, hot) deeds t) :
  t.2.started + t.2.coalesced =
    hot.started + hot.coalesced + UInt64.ofNat (deeds.countP Deed.isReceived)
  := by
  cases hstep with
  | @receive count envelope rest s' deeds hot' _ _ _ hadmitted hcounted =>
    rcases hot.admitOne_cases hadmitted with ⟨rfl, rfl, hcoalesced⟩ |
      ⟨tracked, live, book, rfl, hbook, rfl, hstarted⟩
    · rw [hcoalesced] at hcounted
      cases hcounted
      exact (UInt64.add_assoc _ _ _).symm
    · rw [hstarted, ShardHot.bumpStarted, bind_eq_ok] at hcounted
      obtain ⟨started, hbump, hcounted⟩ := hcounted
      cases hcounted
      change ShardHot.total started + hot.coalesced = ShardHot.total hot.startedByClass +
        hot.coalesced + 1
      rw [ShardHot.total_bumpClass hbump]
      ac_rfl
  | shed _ _ hcounted =>
    rw [ShardHot.bumpExpired, bind_eq_ok] at hcounted
    obtain ⟨expired, -, hcounted⟩ := hcounted
    cases hcounted
    exact (UInt64.add_zero _).symm
  | @ran time admitted report abort started before after d outcome s' hot' _ _ _ hcounted _ =>
    rw [ShardHot.bumpCompleted, bind_eq_ok] at hcounted
    obtain ⟨completed, -, hcounted⟩ := hcounted
    cases hcounted
    rw [List.countP_append, countP_isReceived_of_quiet (Job.isCounted_calls _)]
    exact (UInt64.add_zero _).symm
  | quiet _ hquiet =>
    rw [countP_isReceived_of_quiet hquiet]
    exact (UInt64.add_zero _).symm

/-- Every step of a shard whose discarded items have classes can be counted. -/
theorem Sits.counted (h : s.Sits x) (hclass : ∀ d ∈ s.book.expired, d.2.1.toNat < CLASSES)
    (hstep : Step s deeds s') (hot : ShardHot CLASSES) :
  ∃ hot', Counted (s, hot) deeds (s', hot')
  := by
  have hstep' := hstep
  cases hstep with
  | receive hphase hdrains hinbox hadmitted =>
    rcases hot.admitOne_cases hadmitted with ⟨-, -, hcoalesced⟩ |
      ⟨tracked, live, book, -, hbook, -, hstarted⟩
    · exact ⟨_, .receive hphase hdrains hinbox hadmitted hcoalesced⟩
    · obtain ⟨started, hbump⟩ :=
        ShardHot.exists_bumpClass hot.startedByClass (Scheduler.admitItem_class hbook)
      exact ⟨{ hot with startedByClass := started }, .receive hphase hdrains hinbox hadmitted
        (by rw [hstarted, ShardHot.bumpStarted, hbump, ok_bind])⟩
  | @shed key c stamped hphase hpop =>
    obtain ⟨expired, hbump⟩ := ShardHot.exists_bumpClass hot.expiredByClass
      (hclass (key, c, stamped) (List.mem_of_head? hpop))
    exact ⟨{ hot with expiredByClass := expired }, .shed hphase hpop
      (by rw [ShardHot.bumpExpired, hbump, ok_bind])⟩
  | ran before outcome hphase hpolled hjobs hfinish =>
    obtain ⟨completed, hbump⟩ := ShardHot.exists_bumpClass hot.completedByClass
      (x.account.good.running _ (h.allows_complete hjobs))
    exact ⟨{ hot with completedByClass := completed }, .ran before outcome hphase hpolled hjobs
      (by rw [ShardHot.bumpCompleted, hbump, ok_bind]) hfinish⟩
  | poll before _ _ _ => exact ⟨hot, .quiet hstep' (Job.isCounted_calls _)⟩
  | @flushed time admitted report abort started before after key state s' _ _ _ _ =>
    refine ⟨hot, .quiet hstep' ?_⟩
    intro deed hdeed
    rcases List.mem_append.mp hdeed with hcall | hdone
    · exact Job.isCounted_calls _ deed hcall
    · rw [List.mem_singleton] at hdone
      rw [hdone]
      rfl
  | _ => exact ⟨hot, .quiet hstep' (by simp [Deed.isCounted])⟩

/-- A run that is counted is a run. -/
theorem CountedRun.run {cfg : ShardConfig CLASSES} {trace : List (List (Deed K I W S))}
    (h : CountedRun cfg trace s hot) :
  Run cfg trace s
  := by
  obtain ⟨now, wheelId, s₀, hstart, htrail⟩ := h
  obtain ⟨s₁, htrail₁, rfl⟩ : ∃ s₁, Trail Step s₀ trace s₁ ∧ s₁ = s := by
    apply htrail.simulate (fun (t : Shard K I W S CLASSES × ShardHot CLASSES) s₁ => s₁ = t.1) rfl
    rintro t s deeds t' rfl hstep
    exact ⟨t'.1, hstep.step, rfl⟩
  exact ⟨now, wheelId, s₀, hstart, htrail₁⟩

/-- Every run of a shard is counted. -/
theorem Run.counted {cfg : ShardConfig CLASSES} {trace : List (List (Deed K I W S))}
    (h : Run cfg trace s) :
  ∃ hot, CountedRun cfg trace s hot
  := by
  obtain ⟨now, wheelId, s₀, hstart, htrail⟩ := h
  obtain ⟨⟨s₁, hot⟩, hcounted, rfl, -⟩ : ∃ t, Trail Counted (s₀, ShardHot.default) trace t ∧
      t.1 = s ∧ ∃ x, s.Sits x ∧ ∀ d ∈ x.account.book.expired, d.2.1.toNat < CLASSES := by
    apply htrail.simulate fun s (t : Shard K I W S CLASSES × ShardHot CLASSES) =>
      t.1 = s ∧ ∃ x, s.Sits x ∧ ∀ d ∈ x.account.book.expired, d.2.1.toNat < CLASSES
    · refine ⟨rfl, _, Sits.start hstart, ?_⟩
      intro d hd
      cases hd
    · rintro s ⟨s₁, hot⟩ deeds s' ⟨rfl, x, hsits, hclass⟩ hstep
      have hbook : ∀ d ∈ s₁.book.expired, d.2.1.toNat < CLASSES := by
        obtain ⟨own, free, hr⟩ := hsits.represents
        rw [hr.expired]
        exact hclass
      obtain ⟨hot', hcounted⟩ := hsits.counted hbook hstep hot
      obtain ⟨trace, y, hdesk, -, hsits'⟩ := hsits.step hstep
      refine ⟨(s', hot'), hcounted, rfl, y, hsits', ?_⟩
      apply Desk.account_of_trail (motive := fun a => ∀ d ∈ a.book.expired, d.2.1.toNat < CLASSES)
        (fun a e a' ha hevent => hevent.expired_class ha) hdesk hclass
  exact ⟨hot, now, wheelId, s₀, hstart, hcounted⟩

omit [DecidableEq I] in
/-- A fresh shard has counted nothing and holds nothing. -/
theorem Tallies.start {cfg : ShardConfig CLASSES} {now : Duration} {wheelId : ℕ}
    (h : Shard.start cfg now wheelId = .ok s) :
  s.Tallies .default
  := by
  obtain ⟨-, -, -, hbook, -⟩ := start_eq_ok h
  intro i
  rw [hbook]
  rfl

/-- What the counters of a shard tell. -/
structure Balances (log : List (Deed K I W S)) (s : Shard K I W S CLASSES)
    (hot : ShardHot CLASSES) : Prop where
  /-- Once everything that expired was shed, what started was completed, expired, is queued or is
  in flight. -/
  started : s.phase.sheds = false → ∀ i, hot.startedByClass i = hot.completedByClass i +
    hot.expiredByClass i + UInt64.ofNat (s.book.queuedOf i + s.book.inflight i)
  /-- The gap between what started and what was completed or expired is what is held. -/
  gap : s.phase.sheds = false → ∀ i,
    (hot.startedByClass i - (hot.completedByClass i + hot.expiredByClass i)).toNat =
      (s.book.queuedOf i + s.book.inflight i) % UInt64.size
  /-- What was taken from the mailbox started or repeated a request. -/
  drained : UInt64.ofNat (log.countP Deed.isReceived) = hot.started + hot.coalesced

/-- The counters of every run of a shard balance when the shedding is over, and from then on until
the next dispatch, which is when they are published. -/
theorem counters_balance {cfg : ShardConfig CLASSES} {trace : List (List (Deed K I W S))}
    (hrun : Run cfg trace s) :
  (∃ hot, CountedRun cfg trace s hot) ∧
    ∀ hot, CountedRun cfg trace s hot → Balances trace.flatten s hot
  := by
  refine ⟨hrun.counted, ?_⟩
  rintro hot ⟨now, wheelId, s₀, hstart, htrail⟩
  obtain ⟨⟨x, hsits⟩, htallies, hdrained⟩ : (∃ x, s.Sits x) ∧ s.Tallies hot ∧
      hot.started + hot.coalesced = UInt64.ofNat (trace.flatten.countP Deed.isReceived) := by
    apply htrail.invariant fun trace (t : Shard K I W S CLASSES × ShardHot CLASSES) =>
      (∃ x, t.1.Sits x) ∧ t.1.Tallies t.2 ∧
        t.2.started + t.2.coalesced = UInt64.ofNat (trace.flatten.countP Deed.isReceived)
    · refine ⟨⟨_, Sits.start hstart⟩, Tallies.start hstart, ?_⟩
      rw [ShardHot.started, ShardHot.total_eq_sum]
      exact (UInt64.add_zero _).trans (Finset.sum_const_zero)
    · rintro trace ⟨s₁, hot₁⟩ deeds t - ⟨⟨y, hsits⟩, htallies, hdrained⟩ hstep
      obtain ⟨-, z, -, -, hsits'⟩ := hsits.step hstep.step
      refine ⟨⟨z, hsits'⟩, hsits.tallies_step htallies hstep, ?_⟩
      rw [hstep.drained, hdrained, List.flatten_append, List.flatten_singleton, List.countP_append,
        UInt64.ofNat_add]
  have hheld : s.phase.sheds = false → ∀ i, hot.startedByClass i = hot.completedByClass i +
      hot.expiredByClass i + UInt64.ofNat (s.book.queuedOf i + s.book.inflight i) := by
    intro hsheds i
    obtain ⟨own, free, hr⟩ := hsits.represents
    have hexpired : s.book.expired = [] := by
      rw [hr.expired]
      exact hsits.shed hsheds
    have hheld := htallies i
    rw [Scheduler.heldOf, hexpired] at hheld
    exact hheld
  refine ⟨hheld, ?_, hdrained.symm⟩
  intro hsheds i
  rw [hheld hsheds i, UInt64.add_comm, UInt64.add_sub_cancel]
  exact UInt64.toNat_ofNat'

/-- A key with items of two classes, one in flight in front of the other, a repeated request and an
item that expired. -/
theorem counters_balance_mixed :
  ∃ (s : Shard ℕ ℕ ℕ ℕ 2) (hot : ShardHot 2) (trace : List (List (Deed ℕ ℕ ℕ ℕ))),
    CountedRun { ShardConfig.new fun _ => 1 with coalesceDuplicates := true } trace s hot ∧
    s.phase = .flushing ∧ s.book.inflight 0 = 1 ∧ s.book.queuedOf 1 = 1 ∧
    hot.startedByClass 1 = 2 ∧ hot.expiredByClass 1 = 1 ∧ hot.coalesced = 1 ∧
    Balances trace.flatten s hot
  := by
  have h₀ : Trail Counted ((start { ShardConfig.new fun _ => 1 with coalesceDuplicates := true } 0 1 :
      Checked (Shard ℕ ℕ ℕ ℕ 2)).toOption.get rfl, ShardHot.default) [] _ := .nil
  have h₁ := h₀.snoc (.quiet (.send ⟨7, 0, some 3, none, 0, 40⟩ rfl) (by decide))
  have h₂ := h₁.snoc (.quiet (.send ⟨7, 1, none, none, 0, 41⟩ rfl) (by decide))
  have h₃ := h₂.snoc (.quiet (.send ⟨7, 0, some 3, none, 0, 42⟩ rfl) (by decide))
  have h₄ := h₃.snoc (.quiet (.send ⟨8, 1, none, some 1, 0, 43⟩ rfl) (by decide))
  have h₅ := h₄.snoc (.quiet (.wake 1 rfl) (by decide))
  have h₆ := h₅.snoc (.quiet (.nextClass rfl (by decide) rfl) (by decide))
  have h₇ := h₆.snoc (.quiet (.nextClass rfl (by decide) rfl) (by decide))
  have h₈ := h₇.snoc (.quiet (.dispatched rfl (by decide)) (by decide))
  have h₉ := h₈.snoc (.quiet (.shedAll rfl rfl) (by decide))
  have h₁₀ := h₉.snoc (.quiet (.flush rfl rfl rfl) (by decide))
  have h₁₁ := h₁₀.snoc (.quiet (.drain rfl rfl rfl) (by decide))
  have h₁₂ := h₁₁.snoc (.receive rfl rfl rfl rfl rfl)
  have h₁₃ := h₁₂.snoc (.receive rfl rfl rfl rfl rfl)
  have h₁₄ := h₁₃.snoc (.receive rfl rfl rfl rfl rfl)
  have h₁₅ := h₁₄.snoc (.receive rfl rfl rfl rfl rfl)
  have h₁₆ := h₁₅.snoc (.quiet (.pending 2 2 rfl rfl) (by decide))
  have h₁₇ := h₁₆.snoc (.quiet (.harvested false 2 rfl) (by decide))
  have h₁₈ := h₁₇.snoc (.quiet (.service rfl rfl) (by decide))
  have h₁₉ := h₁₈.snoc (.quiet (.dispatch rfl (by decide) rfl rfl) (by decide))
  have h₂₀ := h₁₉.snoc (.quiet (.nextClass rfl (by decide) rfl) (by decide))
  have h₂₁ := h₂₀.snoc (.quiet (.nextClass rfl (by decide) rfl) (by decide))
  have h₂₂ := h₂₁.snoc (.quiet (.dispatched rfl (by decide)) (by decide))
  have h₂₃ := h₂₂.snoc (.shed rfl rfl rfl)
  have h₂₄ := h₂₃.snoc (.quiet (.shedAll rfl rfl) (by decide))
  have hstart : start { ShardConfig.new fun _ => 1 with coalesceDuplicates := true } 0 1 =
      .ok ((start { ShardConfig.new fun _ => 1 with coalesceDuplicates := true } 0 1 :
        Checked (Shard ℕ ℕ ℕ ℕ 2)).toOption.get rfl) := rfl
  have hcounted : CountedRun { ShardConfig.new fun _ => 1 with coalesceDuplicates := true } _ _ _ :=
    ⟨0, 1, _, hstart, h₂₄⟩
  exact ⟨_, _, _, hcounted, rfl, rfl, rfl, rfl, rfl, rfl, (counters_balance hcounted.run).2 _ hcounted⟩

end Shard

end Grommet
