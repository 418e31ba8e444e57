import Grommet.Core.Scheduler.Invariants
import Grommet.Runtime.Shard.Desk

/-!
# The reactor works off its desk

Every step of the loop is a sequence of steps of the desk with the same deeds.  The loop adds
that a future is polled only after everything expired was shed.
-/

open Checked

namespace Grommet

namespace Shard

variable {K I W S : Type} {CLASSES : ℕ}

/-- Discarded items may wait to be shed. -/
def Phase.sheds : Phase → Bool
  | .dispatching _ => true
  | .shedding => true
  | _ => false

/-! ### What the stages change -/

section

variable {s s' : Shard K I W S CLASSES}

theorem push_eq_ok {job : Job K I W S} (h : s.push job = .ok s') :
  s' = { s with outstanding := s.outstanding ++ [job] }
  := by
  rw [push, bind_eq_ok] at h
  obtain ⟨-, -, h⟩ := h
  cases h
  rfl

/-- The candidates that go into flight. -/
def flushJobs (candidates : List (K × S)) : List (Job K I W S) :=
  candidates.map fun p => .runFlush false p.1 p.2

theorem running_flushJobs (candidates : List (K × S)) :
  (flushJobs candidates : List (Job K I W S)).filterMap Job.running = []
  := by
  induction candidates with
  | nil => rfl
  | cons candidate candidates ih => exact ih

theorem flushing_flushJobs (candidates : List (K × S)) :
  (flushJobs candidates : List (Job K I W S)).filterMap Job.flushing = candidates.map Prod.fst
  := by
  induction candidates with
  | nil => rfl
  | cons candidate candidates ih => exact congrArg (candidate.1 :: ·) ih

theorem foldlM_beginFlush {candidates : List (K × S)}
    (h : candidates.foldlM beginFlush s = .ok s') :
  s' = { s with
    flushes := s.flushes + candidates.length
    outstanding := s.outstanding ++ flushJobs candidates }
  := by
  induction candidates generalizing s with
  | nil =>
    cases h
    simp [flushJobs]
  | cons candidate candidates ih =>
    rw [List.foldlM_cons, bind_eq_ok] at h
    obtain ⟨s₁, hpush, h⟩ := h
    rw [ih h, push_eq_ok hpush]
    simp only [flushJobs, List.map_cons, List.length_cons, List.append_assoc, List.singleton_append]
    rw [Nat.add_assoc, Nat.add_comm 1]

/-- The flush budget that is left, as far as there are candidates. -/
def room (s : Shard K I W S CLASSES) : ℕ :=
  min (s.cfg.flushSlots - s.flushes) s.staged.length

theorem beginFlushes_eq_ok (h : s.beginFlushes = .ok s') :
  s' = { s with
    staged := s.staged.drop s.room
    flushes := s.flushes + (s.staged.take s.room).length
    outstanding := s.outstanding ++ flushJobs (s.staged.take s.room) }
  := foldlM_beginFlush h

variable [DecidableEq K]

/-- A timer changes the book, the staged candidates and the wheel only. -/
theorem serviceTimer_eq_ok {timer : Timer} (h : s.serviceTimer timer = .ok s') :
  ∃ book staged timers, s.sweep = .ok (book, staged) ∧
    s' = { s with book := book, staged := staged, timers := timers }
  := by
  rw [serviceTimer.eq_def] at h
  simp only at h
  rw [bind_eq_ok] at h
  obtain ⟨⟨book, staged⟩, hevict, h⟩ := h
  simp only at h
  rw [bind_eq_ok] at h
  obtain ⟨timers, -, h⟩ := h
  cases h
  exact ⟨book, staged, timers, hevict, rfl⟩

theorem foldlM_serviceTimer_frame {due : List Timer} (h : due.foldlM serviceTimer s = .ok s') :
  ∃ book staged timers, s' = { s with book := book, staged := staged, timers := timers }
  := by
  induction due generalizing s with
  | nil =>
    cases h
    exact ⟨_, _, _, rfl⟩
  | cons timer due ih =>
    rw [List.foldlM_cons, bind_eq_ok] at h
    obtain ⟨s₁, hservice, h⟩ := h
    obtain ⟨book₁, staged₁, timers₁, -, rfl⟩ := serviceTimer_eq_ok hservice
    obtain ⟨book, staged, timers, rfl⟩ := ih h
    exact ⟨book, staged, timers, rfl⟩

/-- The timers are not due, or some were run. -/
theorem serviceTimers_eq_ok {fired : Bool} (h : s.serviceTimers = .ok (s', fired)) :
  (s' = s ∧ fired = false) ∨
    ∃ timers, ∃ due : List Timer,
      due.foldlM serviceTimer { s with timers := timers } = .ok s' ∧ fired = true
  := by
  rw [serviceTimers] at h
  split at h
  · rw [bind_eq_ok] at h
    obtain ⟨advance, -, h⟩ := h
    rw [bind_eq_ok] at h
    obtain ⟨⟨timers, due⟩, -, h⟩ := h
    simp only at h
    rw [bind_eq_ok] at h
    obtain ⟨s₁, hfold, h⟩ := h
    cases h
    right
    exact ⟨timers, due, hfold, rfl⟩
  · cases h
    left
    exact ⟨rfl, rfl⟩

/-- A property that does not depend on the wheel and is kept by every timer is kept by all. -/
theorem serviceTimers_induction {motive : Shard K I W S CLASSES → Prop}
    (hwheel : ∀ s timers, motive s → motive { s with timers := timers })
    (hservice : ∀ s timer s', motive s → s.serviceTimer timer = .ok s' → motive s')
    {fired : Bool} (h : s.serviceTimers = .ok (s', fired)) (hs : motive s) :
  motive s'
  := by
  rcases serviceTimers_eq_ok h with ⟨rfl, -⟩ | ⟨timers, due, hfold, -⟩
  · exact hs
  · replace hs := hwheel s timers hs
    generalize ({ s with timers := timers } : Shard K I W S CLASSES) = s₀ at hs hfold
    induction due generalizing s₀ with
    | nil =>
      cases hfold
      exact hs
    | cons timer due ih =>
      rw [List.foldlM_cons, bind_eq_ok] at hfold
      obtain ⟨s₁, hfirst, hrest⟩ := hfold
      apply ih s₁ (hservice s₀ timer s₁ hs hfirst) hrest

theorem serviceTimers_frame {fired : Bool} (h : s.serviceTimers = .ok (s', fired)) :
  ∃ book staged timers, s' = { s with book := book, staged := staged, timers := timers }
  := by
  rcases serviceTimers_eq_ok h with ⟨rfl, -⟩ | ⟨timers, due, hfold, -⟩
  · exact ⟨_, _, _, rfl⟩
  · obtain ⟨book, staged, timers, rfl⟩ := foldlM_serviceTimer_frame hfold
    exact ⟨book, staged, timers, rfl⟩

variable [DecidableEq I]

theorem finishRun_eq_ok {d : Dispatch K (Stamped I W) S} {outcome : Outcome S} {time : Duration}
    (h : s.finishRun d outcome time = .ok s') :
  ∃ book, s.book.complete ⟨d.key, d.classId, outcome.disposition⟩ time = .ok book ∧
    s' = { s with book := book, live := forget s.live d.key d.payload.requestId }
  := by
  rw [finishRun, bind_eq_ok] at h
  obtain ⟨book, hcomplete, h⟩ := h
  cases h
  exact ⟨book, hcomplete, rfl⟩

omit [DecidableEq I] in
theorem finishFlush_eq_ok {key : K} {time : Duration} (h : s.finishFlush key time = .ok s') :
  ∃ book, s.book.finishEvict key time = .ok book ∧
    s' = { s with book := book, flushes := s.flushes - 1 }
  := by
  rw [finishFlush, bind_eq_ok] at h
  obtain ⟨flushes, hsub, h⟩ := h
  rw [bind_eq_ok] at h
  obtain ⟨book, hfinish, h⟩ := h
  cases h
  rw [sub_eq_ok] at hsub
  obtain ⟨-, rfl⟩ := hsub
  exact ⟨book, hfinish, rfl⟩

/-- An envelope that is taken is coalesced, or it is admitted. -/
theorem admitOne_eq_ok {envelope : Envelope K I W} {deeds : List (Deed K I W S)}
    (h : s.admitOne envelope = .ok (s', deeds)) :
  (s' = s ∧ deeds = [.onCoalesced envelope.key envelope.work]) ∨
    ∃ tracked live book, deeds = [] ∧
      s.book.admitItem ⟨envelope.key, envelope.classId, envelope.expiresAt,
        ⟨envelope.enqueued, tracked, envelope.work⟩⟩ = .ok book ∧
      s' = { s with book := book, live := live }
  := by
  have hadmitted : ∀ {s₁ s₂ : Shard K I W S CLASSES} {tracked : Option I},
      s₁.admitEnvelope envelope tracked = .ok s₂ → ∃ book,
        s₁.book.admitItem ⟨envelope.key, envelope.classId, envelope.expiresAt,
          ⟨envelope.enqueued, tracked, envelope.work⟩⟩ = .ok book ∧
        s₂ = { s₁ with book := book } := by
    intro s₁ s₂ tracked hok
    rw [admitEnvelope, bind_eq_ok] at hok
    obtain ⟨book, hbook, hok⟩ := hok
    cases hok
    exact ⟨book, hbook, rfl⟩
  rw [admitOne.eq_def] at h
  split at h
  · split at h
    · cases h
      left
      exact ⟨rfl, rfl⟩
    · rw [bind_eq_ok] at h
      obtain ⟨s₁, hok, h⟩ := h
      cases h
      obtain ⟨book, hbook, rfl⟩ := hadmitted hok
      right
      exact ⟨_, _, book, rfl, hbook, rfl⟩
  · rw [bind_eq_ok] at h
    obtain ⟨s₁, hok, h⟩ := h
    cases h
    obtain ⟨book, hbook, rfl⟩ := hadmitted hok
    right
    exact ⟨_, s.live, book, rfl, hbook, rfl⟩

end

/-! ### Desks after a call of the scheduler -/

namespace Desk

variable [DecidableEq K] {cfg : Config CLASSES} {x : Desk K I W S CLASSES}
  {a : Account K (Stamped I W) S CLASSES} {e : Event K (Stamped I W) S}

/-- The desk after a call that hands nothing out and takes nothing back. -/
def after (x : Desk K I W S CLASSES) (h : x.account.Step cfg e a)
    (hrecord : x.account.ledger.record e = x.account.ledger) : Desk K I W S CLASSES where
  account := a
  jobs := x.jobs
  staged := x.staged
  running := by
    rw [h.2, hrecord]
    apply x.running
  flushing := by
    rw [h.2, hrecord]
    apply x.flushing

/-- The desk after a dispatch. -/
def afterDispatch (x : Desk K I W S CLASSES) {c : ClassId} {now : Duration}
    {discarded : List (K × ClassId × Stamped I W)} {d : Dispatch K (Stamped I W) S}
    (h : x.account.Step cfg (.next c now discarded (some d)) a) : Desk K I W S CLASSES where
  account := a
  jobs := x.jobs ++ [.runOne false d]
  staged := x.staged
  running := by
    rw [h.2, List.filterMap_append]
    apply x.running.append_right
  flushing := by
    rw [h.2, List.filterMap_append]
    change x.account.ledger.flushing.Perm (_ ++ (_ ++ []))
    rw [List.append_nil]
    apply x.flushing

/-- The desk after an eviction. -/
def afterEvict (x : Desk K I W S CLASSES)
    (hkind : ∃ now pushed, e = .evict now pushed ∨ e = .evictAll pushed)
    (h : x.account.Step cfg e a) : Desk K I W S CLASSES where
  account := a
  jobs := x.jobs
  staged := x.staged ++ e.pushed
  running := by
    have hrecord : (x.account.ledger.record e).running = x.account.ledger.running := by
      obtain ⟨now, pushed, rfl | rfl⟩ := hkind <;> rfl
    rw [h.2, hrecord]
    apply x.running
  flushing := by
    have hrecord : (x.account.ledger.record e).flushing =
        x.account.ledger.flushing ++ e.pushed.map Prod.fst := by
      obtain ⟨now, pushed, rfl | rfl⟩ := hkind <;> rfl
    rw [h.2, hrecord, List.map_append]
    apply (x.flushing.append_right _).trans
    rw [List.append_assoc, List.append_assoc]
    apply List.perm_append_comm.append_left

/-- The desk after staged candidates went into flight. -/
def afterFlush (x : Desk K I W S CLASSES) (n : ℕ) : Desk K I W S CLASSES where
  account := x.account
  jobs := x.jobs ++ flushJobs (x.staged.take n)
  staged := x.staged.drop n
  running := by
    rw [List.filterMap_append, running_flushJobs, List.append_nil]
    apply x.running
  flushing := by
    rw [List.filterMap_append, flushing_flushJobs, ← List.append_assoc]
    apply x.flushing.trans
    conv_lhs => rw [← List.take_append_drop n x.staged]
    rw [List.map_append, List.append_assoc]
    apply List.perm_append_comm

/-- The desk after a future was polled. -/
def afterPoll (x : Desk K I W S CLASSES) {before after : List (Job K I W S)} {job : Job K I W S}
    (hjobs : x.jobs = before ++ job :: after) : Desk K I W S CLASSES where
  account := x.account
  jobs := before ++ job.polled :: after
  staged := x.staged
  running := by
    have hsame : (before ++ job.polled :: after).filterMap Job.running =
        x.jobs.filterMap Job.running := by
      simp [hjobs, List.filterMap_cons]
    rw [hsame]
    apply x.running
  flushing := by
    have hsame : (before ++ job.polled :: after).filterMap Job.flushing =
        x.jobs.filterMap Job.flushing := by
      simp [hjobs, List.filterMap_cons]
    rw [hsame]
    apply x.flushing

/-- The desk after a future finished its work. -/
def afterRan (x : Desk K I W S CLASSES) {before after : List (Job K I W S)} {started : Bool}
    {d : Dispatch K (Stamped I W) S} {disposition : Disposition S} {time : Duration}
    (hjobs : x.jobs = before ++ .runOne started d :: after)
    (h : x.account.Step cfg (.complete ⟨d.key, d.classId, disposition⟩ time) a) :
    Desk K I W S CLASSES where
  account := a
  jobs := before ++ after
  staged := x.staged
  running := by
    have hperm : x.account.ledger.running.Perm
        ((d.key, d.classId) :: (before ++ after).filterMap Job.running) := by
      apply x.running.trans
      rw [hjobs, List.filterMap_append, List.filterMap_append]
      apply List.perm_middle
    rw [h.2]
    simpa [Ledger.record] using hperm.erase (d.key, d.classId)
  flushing := by
    rw [h.2]
    simpa [Ledger.record, hjobs, List.filterMap_cons, Job.flushing] using x.flushing

/-- The desk after a future finished its flush. -/
def afterFlushed (x : Desk K I W S CLASSES) {before after : List (Job K I W S)} {started : Bool}
    {key : K} {state : S} {time : Duration}
    (hjobs : x.jobs = before ++ .runFlush started key state :: after)
    (h : x.account.Step cfg (.finishEvict key time) a) : Desk K I W S CLASSES where
  account := a
  jobs := before ++ after
  staged := x.staged
  running := by
    rw [h.2]
    simpa [Ledger.record, hjobs, List.filterMap_cons, Job.running] using x.running
  flushing := by
    have hperm : x.account.ledger.flushing.Perm
        (key :: (x.staged.map Prod.fst ++ (before ++ after).filterMap Job.flushing)) := by
      apply x.flushing.trans
      rw [hjobs, List.filterMap_append, List.filterMap_append, ← List.append_assoc,
        ← List.append_assoc]
      apply List.perm_middle
    rw [h.2]
    simpa [Ledger.record] using hperm.erase key

end Desk

/-! ### The loop and the desk -/

section

variable [DecidableEq K] {s s' : Shard K I W S CLASSES} {x : Desk K I W S CLASSES}

/-- The shard works at the desk. -/
structure Sits (s : Shard K I W S CLASSES) (x : Desk K I W S CLASSES) : Prop where
  jobs : s.outstanding = x.jobs
  staged : s.staged = x.staged
  holds : Scheduler.Holds s.cfg.scheduler (s.book, x.account.ledger) x.account
  flushes : s.flushes = (x.jobs.filterMap Job.flushing).length
  shed : s.phase.sheds = false → x.account.book.expired = []

/-- The shard comes to a desk by steps with the given deeds. -/
def Comes (cfg : Config CLASSES) (x : Desk K I W S CLASSES) (deeds : List (Deed K I W S))
    (s' : Shard K I W S CLASSES) : Prop :=
  ∃ trace y, Trail (Desk.Step cfg) x trace y ∧ trace.flatten = deeds ∧ s'.Sits y

theorem Comes.stay {cfg : Config CLASSES} (h : s'.Sits x) :
  Comes cfg x [] s'
  := ⟨[], x, .nil, rfl, h⟩

theorem Comes.step {cfg : Config CLASSES} {y : Desk K I W S CLASSES} {deeds : List (Deed K I W S)}
    (hstep : x.Step cfg deeds y) (h : s'.Sits y) :
  Comes cfg x deeds s'
  := ⟨[deeds], y, Trail.nil.snoc hstep, by simp, h⟩

/-- A call of the scheduler that the caller may make is an event of the account. -/
theorem Sits.call (h : s.Sits x) (call : Call K (Stamped I W) S)
    {book : Scheduler K (Stamped I W) S CLASSES} {e : Event K (Stamped I W) S}
    (hallow : x.account.ledger.Allows CLASSES call) (hperform : s.book.perform call = .ok (book, e)) :
  ∃ a, x.account.Step s.cfg.scheduler e a ∧ Scheduler.Holds s.cfg.scheduler (book, a.ledger) a
  := by
  obtain ⟨a, hstep, hholds⟩ := h.holds.step (y := (book, x.account.ledger.record e))
    ⟨call, hallow, hperform, rfl⟩
  refine ⟨a, hstep, ?_⟩
  rw [hstep.2]
  apply hholds

/-- An event that discards nothing and hands nothing back leaves nothing to shed. -/
theorem expired_of_step {cfg : Config CLASSES} {a a' : Account K (Stamped I W) S CLASSES}
    {e : Event K (Stamped I W) S} (h : a.Step cfg e a') (hdiscarded : e.discarded = [])
    (hpopped : e.popped = []) (hexpired : a.book.expired = []) :
  a'.book.expired = []
  := by
  have hmoves := h.expired
  rw [hdiscarded, hpopped, hexpired] at hmoves
  apply hmoves.symm

theorem Sits.next (h : s.Sits x) {c : ClassId} {book : Scheduler K (Stamped I W) S CLASSES}
    {dispatch : Option (Dispatch K (Stamped I W) S)}
    (hnext : s.book.next c s.now = .ok (book, dispatch)) :
  ∃ discarded a, x.account.Step s.cfg.scheduler (.next c s.now discarded dispatch) a ∧
    Scheduler.Holds s.cfg.scheduler (book, a.ledger) a
  := by
  obtain ⟨a, hstep, hholds⟩ := h.call (.next c s.now) trivial
    (by rw [Scheduler.perform, hnext, ok_bind])
  exact ⟨_, a, hstep, hholds⟩

/-- The shard dispatches an item. -/
theorem Sits.dispatch (h : s.Sits x) {c : ℕ} {book : Scheduler K (Stamped I W) S CLASSES}
    {d : Dispatch K (Stamped I W) S} (hphase : s.phase = .dispatching c)
    (hnext : s.book.next (UInt8.ofNat c) s.now = .ok (book, some d))
    (hpush : push { s with book := book } (.runOne false d) = .ok s') :
  Comes s.cfg.scheduler x [] s'
  := by
  obtain ⟨discarded, a, hstep, hholds⟩ := h.next hnext
  apply Comes.step (y := x.afterDispatch hstep) (.dispatch hstep rfl rfl)
  rw [push_eq_ok hpush]
  constructor
  · exact congrArg (· ++ [Job.runOne false d]) h.jobs
  · apply h.staged
  · apply hholds
  · simpa [Desk.afterDispatch, Job.flushing, List.filterMap_cons] using h.flushes
  · simp [hphase, Phase.sheds]

/-- The shard comes to the next class. -/
theorem Sits.nextClass (h : s.Sits x) {c : ℕ} {book : Scheduler K (Stamped I W) S CLASSES}
    (hnext : s.book.next (UInt8.ofNat c) s.now = .ok (book, none)) :
  Comes s.cfg.scheduler x [] { s with book := book, phase := .dispatching (c + 1) }
  := by
  obtain ⟨discarded, a, hstep, hholds⟩ := h.next hnext
  have hrecord : x.account.ledger.record (.next (UInt8.ofNat c) s.now discarded none :
      Event K (Stamped I W) S) = x.account.ledger := by
    simp [Ledger.record]
  apply Comes.step (y := x.after hstep hrecord) (.pass hstep rfl rfl)
  constructor
  · apply h.jobs
  · apply h.staged
  · apply hholds
  · apply h.flushes
  · simp [Phase.sheds]

/-- The shard sheds an expired item. -/
theorem Sits.shed' (h : s.Sits x) {key : K} {c : ClassId} {stamped : Stamped I W}
    {live : Finset (K × I)} (hphase : s.phase = .shedding)
    (hpop : s.book.popExpired.2 = some (key, c, stamped)) :
  Comes s.cfg.scheduler x [.onExpired key stamped.work]
    { s with book := s.book.popExpired.1, live := live }
  := by
  obtain ⟨a, hstep, hholds⟩ := h.call .popExpired trivial rfl
  rw [show s.book.expired.head? = some (key, c, stamped) from hpop] at hstep
  apply Comes.step (y := x.after hstep rfl) (.shed hstep rfl rfl)
  constructor
  · apply h.jobs
  · apply h.staged
  · apply hholds
  · apply h.flushes
  · simp [hphase, Phase.sheds]

/-- Everything expired was shed. -/
theorem Sits.shedAll (h : s.Sits x) (hpop : s.book.popExpired.2 = none) :
  ({ s with book := s.book.popExpired.1, phase := .flushing } : Shard K I W S CLASSES).Sits x
  := by
  have hexpired : s.book.expired = [] := by
    simpa [Scheduler.popExpired] using hpop
  have hsame : s.book.popExpired.1 = s.book := by
    rw [Scheduler.popExpired, hexpired, List.tail_nil, ← hexpired]
  obtain ⟨⟨own, free, hr⟩, -⟩ := h.holds
  constructor
  · apply h.jobs
  · apply h.staged
  · rw [hsame]
    apply h.holds
  · apply h.flushes
  · intro _
    rw [← hr.expired, hexpired]

/-- The shard begins flushes. -/
theorem Sits.flush (h : s.Sits x) (hphase : s.phase = .flushing)
    (hbegin : s.beginFlushes = .ok s') :
  Comes s.cfg.scheduler x [] { s' with phase := .exiting }
  := by
  have hstep : x.Step s.cfg.scheduler [] (x.afterFlush s.room) := .flush rfl rfl rfl
  apply Comes.step hstep
  rw [beginFlushes_eq_ok hbegin]
  constructor
  · simp only [Desk.afterFlush]
    rw [h.jobs, h.staged]
  · simp only [Desk.afterFlush]
    rw [h.staged]
  · apply h.holds
  · simp only [Desk.afterFlush]
    rw [List.filterMap_append, flushing_flushJobs, List.length_append, List.length_map, h.flushes,
      h.staged]
  · intro _
    apply h.shed
    rw [hphase]
    rfl

/-- The shard hands out states for flushing. -/
theorem Sits.evict (h : s.Sits x) (call : Call K (Stamped I W) S)
    (e : Event K (Stamped I W) S) {book : Scheduler K (Stamped I W) S CLASSES}
    (hcall : ∃ now out, call = .evict now out ∨ call = .evictAll out)
    (hperform : s.book.perform call = .ok (book, e))
    (hkind : ∃ now pushed, e = .evict now pushed ∨ e = .evictAll pushed)
    (hsheds : s.phase.sheds = false)
    (hbook : s'.book = book) (hstaged : s'.staged = s.staged ++ e.pushed)
    (hjobs : s'.outstanding = s.outstanding) (hflushes : s'.flushes = s.flushes)
    (hcfg : s'.cfg = s.cfg) :
  Comes s.cfg.scheduler x [] s'
  := by
  have hallow : x.account.ledger.Allows CLASSES call := by
    obtain ⟨now, out, rfl | rfl⟩ := hcall <;> trivial
  obtain ⟨a, hstep, hholds⟩ := h.call call hallow hperform
  apply Comes.step (y := x.afterEvict hkind hstep) (.evict hkind hstep rfl rfl)
  constructor
  · rw [hjobs]
    apply h.jobs
  · rw [hstaged, h.staged]
    rfl
  · rw [hbook, hcfg]
    apply hholds
  · rw [hflushes]
    apply h.flushes
  · intro _
    apply expired_of_step hstep
    · obtain ⟨now, pushed, rfl | rfl⟩ := hkind <;> rfl
    · obtain ⟨now, pushed, rfl | rfl⟩ := hkind <;> rfl
    · apply h.shed hsheds

/-- A future is polled. -/
theorem Sits.poll (h : s.Sits x) (phase : Phase) {before after : List (Job K I W S)}
    {job : Job K I W S} (hsheds : s.phase.sheds = false)
    (hjobs : s.outstanding = before ++ job :: after) :
  ∃ y, x.Step s.cfg.scheduler job.calls y ∧
    ({ s with outstanding := before ++ job.polled :: after, phase := phase } :
      Shard K I W S CLASSES).Sits y ∧ y.account = x.account ∧ y.jobs = before ++ job.polled :: after
  := by
  have hjobs' : x.jobs = before ++ job :: after := by
    rw [← h.jobs, hjobs]
  have hexpired := h.shed hsheds
  refine ⟨x.afterPoll hjobs', .poll hexpired hjobs' rfl rfl rfl, ?_, rfl, rfl⟩
  constructor
  · rfl
  · apply h.staged
  · apply h.holds
  · simpa [Desk.afterPoll, hjobs', List.filterMap_cons] using h.flushes
  · intro _
    apply hexpired

/-- The call of a future that finished its work is due. -/
theorem Sits.allows_complete (h : s.Sits x) {before after : List (Job K I W S)} {started : Bool}
    {d : Dispatch K (Stamped I W) S} (hjobs : s.outstanding = before ++ .runOne started d :: after) :
  (d.key, d.classId) ∈ x.account.ledger.running
  := by
  apply x.running.mem_iff.mpr
  rw [← h.jobs, hjobs]
  simp [Job.running]

/-- The call of a future that finished its flush is due. -/
theorem Sits.allows_finishEvict (h : s.Sits x) {before after : List (Job K I W S)} {started : Bool}
    {key : K} {state : S} (hjobs : s.outstanding = before ++ .runFlush started key state :: after) :
  key ∈ x.account.ledger.flushing
  := by
  apply x.flushing.mem_iff.mpr
  rw [← h.jobs, hjobs]
  simp [Job.flushing]

/-- Timers sweep eviction, or do nothing. -/
theorem Sits.serviceTimer (h : s.Sits x) (hsheds : s.phase.sheds = false) {timer : Timer}
    (hservice : s.serviceTimer timer = .ok s') :
  Comes s.cfg.scheduler x [] s'
  := by
  obtain ⟨book, staged, timers, hsweep, rfl⟩ := serviceTimer_eq_ok hservice
  rw [sweep] at hsweep
  split at hsweep
  case isTrue hempty =>
    have hnil : s.staged = [] := List.isEmpty_iff.mp hempty
    rw [hnil] at hsweep
    refine h.evict (.evict s.now []) (.evict s.now staged) ⟨s.now, [], Or.inl rfl⟩ ?_
      ⟨s.now, staged, Or.inl rfl⟩ hsheds rfl ?_ rfl rfl rfl
    · rw [Scheduler.perform, hsweep, ok_bind]
      rfl
    · rw [hnil, List.nil_append]
      rfl
  case isFalse =>
    cases hsweep
    apply Comes.stay
    constructor
    · apply h.jobs
    · apply h.staged
    · apply h.holds
    · apply h.flushes
    · apply h.shed

/-- A timer leaves the shard at a desk. -/
theorem Sits.serviceTimer_sits (h : s.Sits x) (hsheds : s.phase.sheds = false) {timer : Timer}
    (hservice : s.serviceTimer timer = .ok s') :
  ∃ y, s'.phase.sheds = false ∧ s'.Sits y
  := by
  obtain ⟨-, y, -, -, hsits⟩ := h.serviceTimer hsheds hservice
  obtain ⟨book, staged, timers, -, hs'⟩ := serviceTimer_eq_ok hservice
  refine ⟨y, ?_, hsits⟩
  rw [hs']
  exact hsheds

theorem Sits.foldlM_serviceTimer (h : s.Sits x) (hsheds : s.phase.sheds = false)
    {due : List Timer} (hservice : due.foldlM Shard.serviceTimer s = .ok s') :
  Comes s.cfg.scheduler x [] s'
  := by
  induction due generalizing s x with
  | nil =>
    cases hservice
    apply Comes.stay h
  | cons timer due ih =>
    rw [List.foldlM_cons, bind_eq_ok] at hservice
    obtain ⟨s₁, hfirst, hrest⟩ := hservice
    obtain ⟨trace₁, y, htrail₁, hdeeds₁, hsits₁⟩ := h.serviceTimer hsheds hfirst
    obtain ⟨book, staged, timers, -, hs₁⟩ := serviceTimer_eq_ok hfirst
    have hcfg : s₁.cfg = s.cfg := by
      rw [hs₁]
    have hsheds₁ : s₁.phase.sheds = false := by
      rw [hs₁]
      exact hsheds
    obtain ⟨trace₂, z, htrail₂, hdeeds₂, hsits₂⟩ := ih hsits₁ hsheds₁ hrest
    rw [hcfg] at htrail₂
    refine ⟨trace₁ ++ trace₂, z, htrail₁.trans htrail₂, ?_, hsits₂⟩
    rw [List.flatten_append, hdeeds₁, hdeeds₂]
    rfl

theorem Sits.serviceTimers (h : s.Sits x) (hsheds : s.phase.sheds = false) {fired : Bool}
    (hservice : s.serviceTimers = .ok (s', fired)) :
  Comes s.cfg.scheduler x [] s'
  := by
  rcases serviceTimers_eq_ok hservice with ⟨rfl, -⟩ | ⟨timers, due, hfold, -⟩
  · apply Comes.stay h
  · refine foldlM_serviceTimer (s := { s with timers := timers }) ?_ hsheds hfold
    constructor
    · apply h.jobs
    · apply h.staged
    · apply h.holds
    · apply h.flushes
    · apply h.shed

/-- A change of the phase and of what the desk does not know. -/
theorem Comes.phase {cfg : Config CLASSES} {deeds : List (Deed K I W S)} {phase : Phase}
    (h : Comes cfg x deeds s') (hsheds : phase.sheds = false → s'.phase.sheds = false) :
  Comes cfg x deeds { s' with phase := phase }
  := by
  obtain ⟨trace, y, htrail, hdeeds, hsits⟩ := h
  refine ⟨trace, y, htrail, hdeeds, ?_⟩
  constructor
  · apply hsits.jobs
  · apply hsits.staged
  · apply hsits.holds
  · apply hsits.flushes
  · intro hphase
    apply hsits.shed (hsheds hphase)

/-- The shard at the same desk, with the same book. -/
theorem Sits.same (h : s.Sits x) (hcfg : s'.cfg = s.cfg) (hbook : s'.book = s.book)
    (hjobs : s'.outstanding = s.outstanding) (hstaged : s'.staged = s.staged)
    (hflushes : s'.flushes = s.flushes) (hsheds : s'.phase.sheds = false → s.phase.sheds = false) :
  s'.Sits x
  := by
  constructor
  · rw [hjobs]
    apply h.jobs
  · rw [hstaged]
    apply h.staged
  · rw [hcfg, hbook]
    apply h.holds
  · rw [hflushes]
    apply h.flushes
  · intro hphase
    apply h.shed (hsheds hphase)

variable [DecidableEq I]

/-- The shard takes an envelope. -/
theorem Sits.receive (h : s.Sits x) {envelope : Envelope K I W} {rest : List (Envelope K I W)}
    {deeds : List (Deed K I W S)} (hsheds : s.phase.sheds = false)
    (hadmitted : admitOne { s with inbox := rest } envelope = .ok (s', deeds)) :
  Comes s.cfg.scheduler x (.received envelope :: deeds) s'
  := by
  rcases admitOne_eq_ok hadmitted with ⟨rfl, rfl⟩ | ⟨tracked, live, book, rfl, hbook, rfl⟩
  · apply Comes.step .coalesce
    exact h.same rfl rfl rfl rfl rfl id
  · have hclass : envelope.classId.toNat < CLASSES := Scheduler.admitItem_class hbook
    obtain ⟨a, hstep, hholds⟩ := h.call
      (.admitItem ⟨envelope.key, envelope.classId, envelope.expiresAt,
        ⟨envelope.enqueued, tracked, envelope.work⟩⟩) hclass
      (by rw [Scheduler.perform, hbook, ok_bind])
    apply Comes.step (y := x.after hstep rfl) (.admitItem hstep rfl rfl)
    constructor
    · apply h.jobs
    · apply h.staged
    · apply hholds
    · apply h.flushes
    · intro _
      apply expired_of_step hstep rfl rfl (h.shed hsheds)

/-- A future finishes its work. -/
theorem Sits.ran (h : s.Sits x) {before after : List (Job K I W S)} {started : Bool}
    {d : Dispatch K (Stamped I W) S} {outcome : Outcome S} {time : Duration}
    (hsheds : s.phase.sheds = false)
    (hjobs : s.outstanding = before ++ .runOne started d :: after)
    (hfinish : finishRun { s with outstanding := before ++ after } d outcome time = .ok s') :
  Comes s.cfg.scheduler x ((Job.runOne started d).calls ++ [.processed d.key outcome]) s'
  := by
  obtain ⟨book, hcomplete, rfl⟩ := finishRun_eq_ok hfinish
  obtain ⟨y, hpoll, hsits, -, hjobsy⟩ := h.poll s.phase hsheds hjobs
  obtain ⟨a, hstep, hholds⟩ := hsits.call
    (.complete ⟨d.key, d.classId, outcome.disposition⟩ time) (hsits.allows_complete rfl)
    (by rw [Scheduler.perform, hcomplete, ok_bind])
  have hran : y.Step s.cfg.scheduler [.processed d.key outcome] (y.afterRan hjobsy hstep) :=
    .ran hjobsy hstep rfl rfl
  refine ⟨[_, _], _, (Trail.nil.snoc hpoll).snoc hran, by simp, ?_⟩
  constructor
  · rfl
  · apply hsits.staged
  · apply hholds
  · have hflushes := hsits.flushes
    rw [hjobsy] at hflushes
    simpa [Desk.afterRan, Job.polled, Job.flushing, List.filterMap_cons] using hflushes
  · intro _
    apply expired_of_step hstep rfl rfl (hsits.shed hsheds)

omit [DecidableEq I] in
/-- A future finishes its flush. -/
theorem Sits.flushed (h : s.Sits x) {before after : List (Job K I W S)} {started : Bool} {key : K}
    {state : S} {time : Duration} (hsheds : s.phase.sheds = false)
    (hjobs : s.outstanding = before ++ .runFlush started key state :: after)
    (hfinish : finishFlush { s with outstanding := before ++ after } key time = .ok s') :
  Comes s.cfg.scheduler x ((Job.runFlush started key state).calls ++ [.evicted key]) s'
  := by
  obtain ⟨book, hevict, rfl⟩ := finishFlush_eq_ok hfinish
  obtain ⟨y, hpoll, hsits, -, hjobsy⟩ := h.poll s.phase hsheds hjobs
  obtain ⟨a, hstep, hholds⟩ := hsits.call (.finishEvict key time)
    (hsits.allows_finishEvict rfl) (by rw [Scheduler.perform, hevict, ok_bind])
  have hflushed : y.Step s.cfg.scheduler [.evicted key] (y.afterFlushed hjobsy hstep) :=
    .flushed hjobsy hstep rfl rfl
  refine ⟨[_, _], _, (Trail.nil.snoc hpoll).snoc hflushed, by simp, ?_⟩
  constructor
  · rfl
  · apply hsits.staged
  · apply hholds
  · have hflushes := hsits.flushes
    rw [hjobsy] at hflushes
    simp only [Desk.afterFlushed, Job.polled, Job.flushing, List.filterMap_append,
      List.filterMap_cons, List.length_append, List.length_cons] at hflushes ⊢
    omega
  · intro _
    apply expired_of_step hstep rfl rfl (hsits.shed hsheds)

/-- Every step of the shard is a sequence of steps of its desk. -/
theorem Sits.step {deeds : List (Deed K I W S)} (h : s.Sits x) (hstep : Step s deeds s') :
  Comes s.cfg.scheduler x deeds s'
  := by
  cases hstep with
  | send envelope _ => exact .step .accept (h.same rfl rfl rfl rfl rfl id)
  | disconnect => exact .stay (h.same rfl rfl rfl rfl rfl id)
  | wake now hphase => exact .stay (h.same rfl rfl rfl rfl rfl (by simp [Phase.sheds]))
  | dispatch hphase _ hnext hpush => exact h.dispatch hphase hnext hpush
  | nextClass hphase _ hnext => exact h.nextClass hnext
  | dispatched hphase _ => exact .stay (h.same rfl rfl rfl rfl rfl (by simp [Phase.sheds]))
  | shed hphase hpop => exact h.shed' hphase hpop
  | shedAll hphase hpop => exact .stay (h.shedAll hpop)
  | flush hphase hbegin _ => exact h.flush hphase hbegin
  | @evictAll book staged hphase hdone hfinal hevict =>
    have hnil : s.staged = [] := by
      simp only [isDone, Bool.and_eq_true, List.isEmpty_iff] at hdone
      apply hdone.2
    rw [hnil] at hevict
    refine h.evict (.evictAll []) (.evictAll staged) ⟨0, [], Or.inr rfl⟩ ?_
      ⟨0, staged, Or.inr rfl⟩ (by rw [hphase]; rfl) rfl ?_ rfl rfl rfl
    · rw [Scheduler.perform, hevict, ok_bind]
      rfl
    · rw [hnil, List.nil_append]
      rfl
  | exit hphase _ _ => exact .stay (h.same rfl rfl rfl rfl rfl (by simp [hphase, Phase.sheds]))
  | drain hphase _ _ => exact .stay (h.same rfl rfl rfl rfl rfl (by simp [hphase, Phase.sheds]))
  | skipDrain time hphase _ _ =>
    exact .stay (h.same rfl rfl rfl rfl rfl (by simp [hphase, Phase.sheds]))
  | receive hphase _ _ hadmitted =>
    have hsheds : s.phase.sheds = false := by
      rw [hphase]
      rfl
    apply (h.receive hsheds hadmitted).phase
    intro _
    rcases admitOne_eq_ok hadmitted with ⟨rfl, -⟩ | ⟨tracked, live, book, -, -, rfl⟩
    · exact hsheds
    · exact hsheds
  | closed now time hphase _ _ _ =>
    exact .stay (h.same rfl rfl rfl rfl rfl (by simp [hphase, Phase.sheds]))
  | pending now time hphase _ =>
    exact .stay (h.same rfl rfl rfl rfl rfl (by simp [hphase, Phase.sheds]))
  | full now time hphase _ =>
    exact .stay (h.same rfl rfl rfl rfl rfl (by simp [hphase, Phase.sheds]))
  | poll before hphase _ hjobs =>
    obtain ⟨y, hpoll, hsits, -, -⟩ := h.poll _ (by rw [hphase]; rfl) hjobs
    exact .step hpoll hsits
  | ran before outcome hphase _ hjobs hfinish =>
    have hsheds : s.phase.sheds = false := by
      rw [hphase]
      rfl
    apply (h.ran hsheds hjobs hfinish).phase
    intro _
    obtain ⟨book, -, rfl⟩ := finishRun_eq_ok hfinish
    exact hsheds
  | flushed before hphase _ hjobs hfinish =>
    have hsheds : s.phase.sheds = false := by
      rw [hphase]
      rfl
    apply (h.flushed hsheds hjobs hfinish).phase
    intro _
    obtain ⟨book, -, rfl⟩ := finishFlush_eq_ok hfinish
    exact hsheds
  | harvested moreReady now hphase =>
    exact .stay (h.same rfl rfl rfl rfl rfl (by simp [hphase, Phase.sheds]))
  | abort hphase => exact .stay (h.same rfl rfl rfl rfl rfl (by simp [hphase, Phase.sheds]))
  | service hphase hservice =>
    have hsheds : s.phase.sheds = false := by
      rw [hphase]
      rfl
    apply (h.serviceTimers hsheds hservice).phase
    intro _
    obtain ⟨book, staged, timers, rfl⟩ := serviceTimers_frame hservice
    exact hsheds
  | suspend hphase => exact .stay (h.same rfl rfl rfl rfl rfl (by simp [hphase, Phase.sheds]))
  | resume now hphase => exact .stay (h.same rfl rfl rfl rfl rfl (by simp [Phase.sheds]))

/-- A step leaves the limits of the shard alone, and its wheel unless it services the timers. -/
theorem Step.frame {deeds : List (Deed K I W S)} (hstep : Step s deeds s') :
  s'.cfg = s.cfg ∧
    (s'.timers = s.timers ∨ ∃ admitted report, s.phase = .servicing admitted report)
  := by
  cases hstep with
  | dispatch _ _ _ hpush =>
    rw [push_eq_ok hpush]
    exact ⟨rfl, Or.inl rfl⟩
  | flush _ hbegin _ =>
    rw [beginFlushes_eq_ok hbegin]
    exact ⟨rfl, Or.inl rfl⟩
  | receive _ _ _ hadmitted =>
    rcases admitOne_eq_ok hadmitted with ⟨rfl, -⟩ | ⟨tracked, live, book, -, -, rfl⟩
    · exact ⟨rfl, Or.inl rfl⟩
    · exact ⟨rfl, Or.inl rfl⟩
  | ran _ _ _ _ _ hfinish =>
    obtain ⟨book, -, rfl⟩ := finishRun_eq_ok hfinish
    exact ⟨rfl, Or.inl rfl⟩
  | flushed _ _ _ _ hfinish =>
    obtain ⟨book, -, rfl⟩ := finishFlush_eq_ok hfinish
    exact ⟨rfl, Or.inl rfl⟩
  | service hphase hservice =>
    obtain ⟨book, staged, timers, rfl⟩ := serviceTimers_frame hservice
    exact ⟨rfl, Or.inr ⟨_, _, hphase⟩⟩
  | _ => exact ⟨rfl, Or.inl rfl⟩

/-- The limits of a shard do not change. -/
theorem Step.cfg_eq {deeds : List (Deed K I W S)} (hstep : Step s deeds s') :
  s'.cfg = s.cfg
  := hstep.frame.1

omit [DecidableEq K] [DecidableEq I] in
/-- A shard before its first turn. -/
theorem start_eq_ok {cfg : ShardConfig CLASSES} {now : Duration} {wheelId : ℕ}
    (h : start cfg now wheelId = .ok s) :
  s.cfg = cfg ∧ s.inbox = [] ∧ s.connected = true ∧ s.book = Scheduler.new cfg.scheduler ∧
    s.outstanding = [] ∧ s.staged = [] ∧ s.isOpen = true ∧ s.finalFlush = true ∧ s.flushes = 0 ∧
    s.phase = .suspended
  := by
  rw [start, bind_eq_ok] at h
  obtain ⟨-, -, h⟩ := h
  rw [bind_eq_ok] at h
  obtain ⟨fresh, -, h⟩ := h
  rw [bind_eq_ok] at h
  obtain ⟨timers, -, h⟩ := h
  cases h
  exact ⟨rfl, rfl, rfl, rfl, rfl, rfl, rfl, rfl, rfl, rfl⟩

omit [DecidableEq I] in
/-- A shard starts at an empty desk. -/
theorem Sits.start {cfg : ShardConfig CLASSES} {now : Duration} {wheelId : ℕ}
    (h : Shard.start cfg now wheelId = .ok s) :
  s.Sits .empty
  := by
  obtain ⟨hcfg, -, -, hbook, hjobs, hstaged, -, -, hflushes, -⟩ := start_eq_ok h
  constructor
  · apply hjobs
  · apply hstaged
  · rw [hbook, hcfg]
    apply Scheduler.Holds.new
  · apply hflushes
  · intro _
    rfl

/-- Every run of a shard is one of its desk with the same deeds. -/
theorem sits_of_trail {s₀ : Shard K I W S CLASSES} {x₀ : Desk K I W S CLASSES}
    {trace : List (List (Deed K I W S))} (h : Trail Step s₀ trace s) (hsits : s₀.Sits x₀) :
  ∃ trace' x, Trail (Desk.Step s₀.cfg.scheduler) x₀ trace' x ∧
    trace'.flatten = trace.flatten ∧ s.Sits x ∧ s.cfg = s₀.cfg
  := by
  apply h.invariant fun trace (s : Shard K I W S CLASSES) => ∃ trace' x,
    Trail (Desk.Step s₀.cfg.scheduler) x₀ trace' x ∧ trace'.flatten = trace.flatten ∧
      s.Sits x ∧ s.cfg = s₀.cfg
  · exact ⟨[], x₀, .nil, rfl, hsits, rfl⟩
  · rintro trace s₁ deeds s₂ - ⟨trace₁, x₁, htrail₁, hdeeds₁, hsits₁, hcfg⟩ hstep
    obtain ⟨trace₂, x₂, htrail₂, hdeeds₂, hsits₂⟩ := hsits₁.step hstep
    rw [hcfg] at htrail₂
    refine ⟨trace₁ ++ trace₂, x₂, htrail₁.trans htrail₂, ?_, hsits₂, ?_⟩
    · rw [List.flatten_append, List.flatten_append, hdeeds₁, hdeeds₂, List.flatten_singleton]
    · rw [hstep.cfg_eq, hcfg]

end

end Shard

end Grommet
