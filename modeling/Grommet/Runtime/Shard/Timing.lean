import Grommet.Runtime.Shard.Reactor

/-!
# The times that a reactor works with

The loop carries one reading of the clock across its turns.  It takes another for each harvest, and
one for the first item of a drain; it reads anew when it is woken, when it took something from the
mailbox and when something finished.  Each call of the scheduler that takes a time is given one of
these readings.

Here a step of the shard is labelled with the readings that it takes and the timed calls that it
makes, in the order of the code.  The readings of a monotone clock do not decrease, and then neither
do the times of the calls.
-/

open Checked

namespace Grommet

namespace Shard

/-- A reading of the clock, or a call of the scheduler at a time. -/
inductive Moment where
  | reading (time : Duration)
  | next (time : Duration)
  | complete (time : Duration)
  | finishEvict (time : Duration)
  | evict (time : Duration)
  deriving DecidableEq

namespace Moment

/-- The reading that is taken. -/
def read : Moment → Option Duration
  | .reading time => some time
  | _ => none

/-- The time that the scheduler is given. -/
def called : Moment → Option Duration
  | .reading _ => none
  | .next time => some time
  | .complete time => some time
  | .finishEvict time => some time
  | .evict time => some time

/-- The readings of a log. -/
def readings (log : List Moment) : List Duration := log.filterMap read

/-- The times of the calls of a log. -/
def callTimes (log : List Moment) : List Duration := log.filterMap called

end Moment

variable {K I W S : Type} [DecidableEq K] {CLASSES : ℕ}

/-- A sweep is a call, unless candidates wait to be handed over. -/
def sweepMoments (s : Shard K I W S CLASSES) : List Moment :=
  if s.staged.isEmpty then [.evict s.now] else []

/-- Run a timer, and record its sweep. -/
def serviceTimerTimed (x : Shard K I W S CLASSES × List Moment) (timer : Timer) :
    Checked (Shard K I W S CLASSES × List Moment) := do
  let s ← x.1.serviceTimer timer
  .ok (s, x.2 ++ x.1.sweepMoments)

/-- `serviceTimers`, with the sweeps that it makes. -/
def serviceTimersTimed (s : Shard K I W S CLASSES) :
    Checked ((Shard K I W S CLASSES × Bool) × List Moment) :=
  if s.timers.isDueDuration Grommet.Timer.SHIFT s.now then do
    let advance ← expect (s.timers.advanceDuration Grommet.Timer.SHIFT s.now)
      "monotonic time fits a u64 of nanoseconds"
    let (timers, due) ← advance
    let (s, moments) ← due.foldlM serviceTimerTimed ({ s with timers := timers }, [])
    .ok ((s, true), moments)
  else
    .ok ((s, false), [])

variable [DecidableEq I]

/-- A step of a shard with its readings of the clock and its timed calls. -/
inductive Timed (s : Shard K I W S CLASSES) :
    List (Deed K I W S) × List Moment → Shard K I W S CLASSES → Prop
  | send (envelope : Envelope K I W) : s.connected = true →
      Timed s ([.accepted envelope], []) { s with inbox := s.inbox ++ [envelope] }
  | disconnect : Timed s ([], []) { s with connected := false }
  | wake (now : Duration) : s.phase = .suspended →
      Timed s ([], [.reading now]) { s with now := now, phase := .dispatching 0 }
  | dispatch {c : ℕ} {book : Scheduler K (Stamped I W) S CLASSES}
      {d : Dispatch K (Stamped I W) S} {s' : Shard K I W S CLASSES} :
      s.phase = .dispatching c → c < CLASSES →
      s.book.next (UInt8.ofNat c) s.now = .ok (book, some d) →
      push { s with book := book } (.runOne false d) = .ok s' → Timed s ([], [.next s.now]) s'
  | nextClass {c : ℕ} {book : Scheduler K (Stamped I W) S CLASSES} :
      s.phase = .dispatching c → c < CLASSES →
      s.book.next (UInt8.ofNat c) s.now = .ok (book, none) →
      Timed s ([], [.next s.now]) { s with book := book, phase := .dispatching (c + 1) }
  | dispatched {c : ℕ} : s.phase = .dispatching c → CLASSES ≤ c →
      Timed s ([], []) { s with phase := .shedding }
  | shed {key : K} {c : ClassId} {stamped : Stamped I W} :
      s.phase = .shedding → s.book.popExpired.2 = some (key, c, stamped) →
      Timed s ([.onExpired key stamped.work], []) { s with
        book := s.book.popExpired.1
        live := forget s.live key stamped.requestId }
  | shedAll : s.phase = .shedding → s.book.popExpired.2 = none →
      Timed s ([], []) { s with book := s.book.popExpired.1, phase := .flushing }
  | flush {s' : Shard K I W S CLASSES} : s.phase = .flushing → s.beginFlushes = .ok s' →
      s'.book.checkInvariants = .ok () → Timed s ([], []) { s' with phase := .exiting }
  /-- The last pass over the idle keys takes no time. -/
  | evictAll {book : Scheduler K (Stamped I W) S CLASSES} {staged : List (K × S)} :
      s.phase = .exiting → s.isDone = true → s.finalFlush = true →
      s.book.evictAll s.staged = .ok (book, staged) →
      Timed s ([], []) { s with
        book := book
        staged := staged
        finalFlush := false
        phase := if staged.isEmpty then .returned else .dispatching 0 }
  | exit : s.phase = .exiting → s.isDone = true → s.finalFlush = false →
      Timed s ([], []) { s with phase := .returned }
  | drain : s.phase = .exiting → s.isDone = false → s.isOpen = true →
      Timed s ([], []) { s with phase := .draining 0 }
  | skipDrain (time : Duration) : s.phase = .exiting → s.isDone = false → s.isOpen = false →
      Timed s ([], [.reading time]) { s with phase := .harvesting time 0 ⟨0, 0, false⟩ false }
  /-- The time of the first item of a pass is for the busy accounting. -/
  | receive {count : ℕ} {envelope : Envelope K I W} {rest : List (Envelope K I W)}
      {s' : Shard K I W S CLASSES} {deeds : List (Deed K I W S)} (taken : Duration) :
      s.phase = .draining count → s.drains count = true → s.inbox = envelope :: rest →
      admitOne { s with inbox := rest } envelope = .ok (s', deeds) →
      Timed s (.received envelope :: deeds, if count = 0 then [.reading taken] else [])
        { s' with phase := .draining (count + 1) }
  | closed {count : ℕ} (now time : Duration) :
      s.phase = .draining count → s.drains count = true → s.inbox = [] → s.connected = false →
      Timed s ([], (if 0 < count then [.reading now] else []) ++ [.reading time])
        (s.endDrain count true now time)
  | pending {count : ℕ} (now time : Duration) : s.phase = .draining count →
      s.drains count = true →
      Timed s ([], (if 0 < count then [.reading now] else []) ++ [.reading time])
        (s.endDrain count false now time)
  | full {count : ℕ} (now time : Duration) : s.phase = .draining count →
      s.drains count = false →
      Timed s ([], (if 0 < count then [.reading now] else []) ++ [.reading time])
        (s.endDrain count false now time)
  | poll {time : Duration} {admitted : ℕ} {report : Outstanding.Harvest} {abort : Bool}
      (before : List (Job K I W S)) {after : List (Job K I W S)} {job : Job K I W S} :
      s.phase = .harvesting time admitted report abort →
      report.polled < max s.cfg.completeBatch 1 → s.outstanding = before ++ job :: after →
      Timed s (job.calls, []) { s with
        outstanding := before ++ job.polled :: after
        phase := .harvesting time admitted { report with polled := report.polled + 1 } abort }
  | ran {time : Duration} {admitted : ℕ} {report : Outstanding.Harvest} {abort started : Bool}
      (before : List (Job K I W S)) {after : List (Job K I W S)} {d : Dispatch K (Stamped I W) S}
      (outcome : Outcome S) {s' : Shard K I W S CLASSES} :
      s.phase = .harvesting time admitted report abort →
      report.polled < max s.cfg.completeBatch 1 →
      s.outstanding = before ++ .runOne started d :: after →
      finishRun { s with outstanding := before ++ after } d outcome time = .ok s' →
      Timed s ((Job.runOne started d).calls ++ [.processed d.key outcome], [.complete time])
        { s' with
          phase := .harvesting time admitted
            { report with polled := report.polled + 1, finished := report.finished + 1 }
            (abort || (outcome.isPanic && s.cfg.panicPolicy == .abort)) }
  | flushed {time : Duration} {admitted : ℕ} {report : Outstanding.Harvest} {abort started : Bool}
      (before : List (Job K I W S)) {after : List (Job K I W S)} {key : K} {state : S}
      {s' : Shard K I W S CLASSES} :
      s.phase = .harvesting time admitted report abort →
      report.polled < max s.cfg.completeBatch 1 →
      s.outstanding = before ++ .runFlush started key state :: after →
      finishFlush { s with outstanding := before ++ after } key time = .ok s' →
      Timed s ((Job.runFlush started key state).calls ++ [.evicted key], [.finishEvict time])
        { s' with
          phase := .harvesting time admitted
            { report with polled := report.polled + 1, finished := report.finished + 1 } abort }
  | harvested {time : Duration} {admitted : ℕ} {report : Outstanding.Harvest} (moreReady : Bool)
      (now : Duration) : s.phase = .harvesting time admitted report false →
      Timed s ([], if 0 < report.finished then [.reading now] else [])
        (s.endHarvest admitted report moreReady now)
  | abort {time : Duration} {admitted : ℕ} {report : Outstanding.Harvest} :
      s.phase = .harvesting time admitted report true →
      Timed s ([], []) { s with phase := .aborted }
  | service {admitted : ℕ} {report : Outstanding.Harvest} {fired : Bool}
      {s' : Shard K I W S CLASSES} {moments : List Moment} :
      s.phase = .servicing admitted report → s.serviceTimersTimed = .ok ((s', fired), moments) →
      Timed s ([], moments) { s' with
        phase := if continues admitted report fired then .dispatching 0 else .waiting }
  | suspend : s.phase = .waiting → Timed s ([], []) { s with phase := .suspended }
  | resume (now : Duration) : s.phase = .waiting →
      Timed s ([], [.reading now]) { s with now := now, phase := .dispatching 0 }

/-- The steps of a shard from its start, with the readings and the timed calls so far.  The first
reading is taken before the first turn. -/
def TimedRun (cfg : ShardConfig CLASSES) (trace : List (List (Deed K I W S)))
    (log : List Moment) (s : Shard K I W S CLASSES) : Prop :=
  ∃ now wheelId s₀ steps, start cfg now wheelId = .ok s₀ ∧ Trail Timed s₀ steps s ∧
    trace = steps.map Prod.fst ∧ log = .reading now :: steps.flatMap Prod.snd

variable {s s' : Shard K I W S CLASSES} {log moments : List Moment}

/-! ### Timed steps are the steps -/

section

omit [DecidableEq I]

/-- A timer sweeps at the time that the shard carries, which it keeps. -/
theorem foldlM_serviceTimerTimed {due : List Timer} {before : List Moment}
    (h : due.foldlM serviceTimerTimed (s, before) = .ok (s', moments)) :
  due.foldlM serviceTimer s = .ok s' ∧
    ∃ sweeps, moments = before ++ sweeps ∧ ∀ moment ∈ sweeps, moment = .evict s.now
  := by
  induction due generalizing s before with
  | nil =>
    cases h
    exact ⟨rfl, [], (List.append_nil _).symm, by simp⟩
  | cons timer due ih =>
    rw [List.foldlM_cons, bind_eq_ok] at h
    obtain ⟨x, hfirst, hrest⟩ := h
    rw [serviceTimerTimed, bind_eq_ok] at hfirst
    obtain ⟨s₁, hservice, hfirst⟩ := hfirst
    cases hfirst
    obtain ⟨hfold, sweeps, rfl, hsweeps⟩ := ih hrest
    have hnow : s₁.now = s.now := by
      obtain ⟨book, staged, timers, -, hs₁⟩ := serviceTimer_eq_ok hservice
      rw [hs₁]
    refine ⟨?_, s.sweepMoments ++ sweeps, List.append_assoc _ _ _, ?_⟩
    · rw [List.foldlM_cons, hservice, ok_bind]
      exact hfold
    · intro moment hmoment
      rcases List.mem_append.mp hmoment with hsweep | hlater
      · rw [sweepMoments] at hsweep
        split at hsweep
        · exact List.mem_singleton.mp hsweep
        · cases hsweep
      · rw [hsweeps moment hlater, hnow]

theorem exists_foldlM_serviceTimerTimed {due : List Timer} (before : List Moment)
    (h : due.foldlM serviceTimer s = .ok s') :
  ∃ moments, due.foldlM serviceTimerTimed (s, before) = .ok (s', moments)
  := by
  induction due generalizing s before with
  | nil =>
    cases h
    exact ⟨before, rfl⟩
  | cons timer due ih =>
    rw [List.foldlM_cons, bind_eq_ok] at h
    obtain ⟨s₁, hservice, hrest⟩ := h
    obtain ⟨moments, hmoments⟩ := ih (before ++ s.sweepMoments) hrest
    refine ⟨moments, ?_⟩
    rw [List.foldlM_cons, serviceTimerTimed, hservice, ok_bind, ok_bind]
    exact hmoments

/-- The sweeps of a service are at the time that the shard carries, which it keeps. -/
theorem serviceTimersTimed_eq_ok {fired : Bool}
    (h : s.serviceTimersTimed = .ok ((s', fired), moments)) :
  s.serviceTimers = .ok (s', fired) ∧ ∀ moment ∈ moments, moment = .evict s.now
  := by
  rw [serviceTimersTimed] at h
  rw [serviceTimers]
  split at h
  · rename_i hdue
    rw [if_pos hdue]
    rw [bind_eq_ok] at h
    obtain ⟨advance, hadvance, h⟩ := h
    rw [bind_eq_ok] at h
    obtain ⟨⟨timers, due⟩, hdrained, h⟩ := h
    simp only at h
    rw [bind_eq_ok] at h
    obtain ⟨⟨s₁, moments₁⟩, hfold, h⟩ := h
    cases h
    obtain ⟨hservice, sweeps, rfl, hsweeps⟩ := foldlM_serviceTimerTimed hfold
    refine ⟨?_, hsweeps⟩
    rw [hadvance, ok_bind, hdrained, ok_bind]
    simp only
    rw [hservice, ok_bind]
  · rename_i hdue
    rw [if_neg hdue]
    cases h
    exact ⟨rfl, by simp⟩

theorem exists_serviceTimersTimed {fired : Bool} (h : s.serviceTimers = .ok (s', fired)) :
  ∃ moments, s.serviceTimersTimed = .ok ((s', fired), moments)
  := by
  rw [serviceTimers] at h
  rw [serviceTimersTimed]
  split at h
  · rename_i hdue
    rw [if_pos hdue]
    rw [bind_eq_ok] at h
    obtain ⟨advance, hadvance, h⟩ := h
    rw [bind_eq_ok] at h
    obtain ⟨⟨timers, due⟩, hdrained, h⟩ := h
    simp only at h
    rw [bind_eq_ok] at h
    obtain ⟨s₁, hfold, h⟩ := h
    cases h
    obtain ⟨moments, hmoments⟩ := exists_foldlM_serviceTimerTimed [] hfold
    refine ⟨moments, ?_⟩
    rw [hadvance, ok_bind, hdrained, ok_bind]
    simp only
    rw [hmoments, ok_bind]
  · rename_i hdue
    rw [if_neg hdue]
    cases h
    exact ⟨[], rfl⟩

end

/-- A timed step is a step. -/
theorem Timed.step {label : List (Deed K I W S) × List Moment} (h : Timed s label s') :
  Step s label.1 s'
  := by
  cases h with
  | send envelope hconnected => exact .send envelope hconnected
  | disconnect => exact .disconnect
  | wake now hphase => exact .wake now hphase
  | dispatch hphase hc hnext hpush => exact .dispatch hphase hc hnext hpush
  | nextClass hphase hc hnext => exact .nextClass hphase hc hnext
  | dispatched hphase hc => exact .dispatched hphase hc
  | shed hphase hpop => exact .shed hphase hpop
  | shedAll hphase hpop => exact .shedAll hphase hpop
  | flush hphase hbegin hcheck => exact .flush hphase hbegin hcheck
  | evictAll hphase hdone hfinal hevict => exact .evictAll hphase hdone hfinal hevict
  | exit hphase hdone hfinal => exact .exit hphase hdone hfinal
  | drain hphase hdone hopen => exact .drain hphase hdone hopen
  | skipDrain time hphase hdone hopen => exact .skipDrain time hphase hdone hopen
  | receive _ hphase hdrains hinbox hadmitted => exact .receive hphase hdrains hinbox hadmitted
  | closed now time hphase hdrains hinbox hconnected =>
    exact .closed now time hphase hdrains hinbox hconnected
  | pending now time hphase hdrains => exact .pending now time hphase hdrains
  | full now time hphase hdrains => exact .full now time hphase hdrains
  | poll before hphase hpolled hjobs => exact .poll before hphase hpolled hjobs
  | ran before outcome hphase hpolled hjobs hfinish =>
    exact .ran before outcome hphase hpolled hjobs hfinish
  | flushed before hphase hpolled hjobs hfinish =>
    exact .flushed before hphase hpolled hjobs hfinish
  | harvested moreReady now hphase => exact .harvested moreReady now hphase
  | abort hphase => exact .abort hphase
  | service hphase hservice => exact .service hphase (serviceTimersTimed_eq_ok hservice).1
  | suspend hphase => exact .suspend hphase
  | resume now hphase => exact .resume now hphase

/-- A step takes readings of the clock and makes timed calls. -/
theorem Step.timed {deeds : List (Deed K I W S)} (h : Step s deeds s') :
  ∃ moments, Timed s (deeds, moments) s'
  := by
  cases h with
  | send envelope hconnected => exact ⟨_, .send envelope hconnected⟩
  | disconnect => exact ⟨_, .disconnect⟩
  | wake now hphase => exact ⟨_, .wake now hphase⟩
  | dispatch hphase hc hnext hpush => exact ⟨_, .dispatch hphase hc hnext hpush⟩
  | nextClass hphase hc hnext => exact ⟨_, .nextClass hphase hc hnext⟩
  | dispatched hphase hc => exact ⟨_, .dispatched hphase hc⟩
  | shed hphase hpop => exact ⟨_, .shed hphase hpop⟩
  | shedAll hphase hpop => exact ⟨_, .shedAll hphase hpop⟩
  | flush hphase hbegin hcheck => exact ⟨_, .flush hphase hbegin hcheck⟩
  | evictAll hphase hdone hfinal hevict => exact ⟨_, .evictAll hphase hdone hfinal hevict⟩
  | exit hphase hdone hfinal => exact ⟨_, .exit hphase hdone hfinal⟩
  | drain hphase hdone hopen => exact ⟨_, .drain hphase hdone hopen⟩
  | skipDrain time hphase hdone hopen => exact ⟨_, .skipDrain time hphase hdone hopen⟩
  | receive hphase hdrains hinbox hadmitted =>
    exact ⟨_, .receive s.now hphase hdrains hinbox hadmitted⟩
  | closed now time hphase hdrains hinbox hconnected =>
    exact ⟨_, .closed now time hphase hdrains hinbox hconnected⟩
  | pending now time hphase hdrains => exact ⟨_, .pending now time hphase hdrains⟩
  | full now time hphase hdrains => exact ⟨_, .full now time hphase hdrains⟩
  | poll before hphase hpolled hjobs => exact ⟨_, .poll before hphase hpolled hjobs⟩
  | ran before outcome hphase hpolled hjobs hfinish =>
    exact ⟨_, .ran before outcome hphase hpolled hjobs hfinish⟩
  | flushed before hphase hpolled hjobs hfinish =>
    exact ⟨_, .flushed before hphase hpolled hjobs hfinish⟩
  | harvested moreReady now hphase => exact ⟨_, .harvested moreReady now hphase⟩
  | abort hphase => exact ⟨_, .abort hphase⟩
  | service hphase hservice =>
    obtain ⟨moments, htimed⟩ := exists_serviceTimersTimed hservice
    exact ⟨moments, .service hphase htimed⟩
  | suspend hphase => exact ⟨_, .suspend hphase⟩
  | resume now hphase => exact ⟨_, .resume now hphase⟩

/-! ### The order of the times -/

/-- The shard runs, and no harvest is under way. -/
def Phase.isPlain : Phase → Bool
  | .harvesting _ _ _ _ => false
  | .aborted => false
  | _ => true

section

variable {K I W S : Type} {CLASSES : ℕ} {s s' : Shard K I W S CLASSES} {time : Duration}
  {admitted : ℕ} {report : Outstanding.Harvest} {abort : Bool}

/-- A time that no call so far is after: the reading that the shard carries, or that of a harvest
in which something finished. -/
def horizon (s : Shard K I W S CLASSES) : Duration :=
  match s.phase with
  | .harvesting time _ report _ => if 0 < report.finished then time else s.now
  | _ => s.now

theorem horizon_of_plain (h : s.phase.isPlain = true) :
  s.horizon = s.now
  := by
  rw [horizon]
  split
  · rename_i hphase
    rw [hphase] at h
    cases h
  · rfl

theorem horizon_of_harvesting (h : s.phase = .harvesting time admitted report abort) :
  s.horizon = if 0 < report.finished then time else s.now
  := by
  rw [horizon, h]

/-- The times of the calls so far are in order, and none of them is after the horizon. -/
structure Timely (log : List Moment) (s : Shard K I W S CLASSES) : Prop where
  rising : (Moment.callTimes log).Pairwise (· ≤ ·)
  past : s.phase ≠ .aborted → ∀ t ∈ Moment.callTimes log, t ≤ s.horizon
  now : s.now ∈ Moment.readings log
  harvest : ∀ time admitted report abort, s.phase = .harvesting time admitted report abort →
    time ∈ Moment.readings log ∧ s.now ≤ time

/-! ### Readings of a monotone clock -/

/-- What was read before stays read. -/
theorem mem_readings_left {t : Duration} (h : t ∈ Moment.readings log) :
  t ∈ Moment.readings (log ++ moments)
  := by
  rw [Moment.readings, List.filterMap_append]
  exact List.mem_append_left _ h

theorem mem_readings_right {t : Duration} (h : t ∈ Moment.readings moments) :
  t ∈ Moment.readings (log ++ moments)
  := by
  rw [Moment.readings, List.filterMap_append]
  exact List.mem_append_right _ h

@[simp]
theorem mem_readings_singleton (t : Duration) :
  t ∈ Moment.readings [.reading t]
  := by
  simp [Moment.readings, Moment.read]

/-- A monotone clock reads no less than before. -/
theorem le_of_readings (hclock : (Moment.readings (log ++ moments)).Pairwise (· ≤ ·))
    {t t' : Duration} (ht : t ∈ Moment.readings log) (ht' : t' ∈ Moment.readings moments) :
  t ≤ t'
  := by
  rw [Moment.readings, List.filterMap_append, List.pairwise_append] at hclock
  exact hclock.2.2 t ht t' ht'

/-! ### The stages of a turn -/

/-- A step whose calls share a time that is not before the last one, nor after the next horizon. -/
theorem Timely.extend (h : Timely log s) (hrunning : s.phase ≠ .aborted) (call : Duration)
    (hcalls : ∀ t ∈ Moment.callTimes moments, t = call) (hbefore : s.horizon ≤ call)
    (hafter : s'.phase ≠ .aborted → call ≤ s'.horizon)
    (hnow : s'.now ∈ Moment.readings (log ++ moments))
    (hharvest : ∀ time admitted report abort, s'.phase = .harvesting time admitted report abort →
      time ∈ Moment.readings (log ++ moments) ∧ s'.now ≤ time) :
  Timely (log ++ moments) s'
  := by
  have hearlier : ∀ t ∈ Moment.callTimes log, t ≤ call := by
    intro t ht
    exact (h.past hrunning t ht).trans hbefore
  constructor
  · rw [Moment.callTimes, List.filterMap_append, List.pairwise_append]
    refine ⟨h.rising, ?_, ?_⟩
    · apply List.pairwise_of_forall_mem_list
      intro t ht t' ht'
      rw [hcalls t ht, hcalls t' ht']
    · intro t ht t' ht'
      rw [hcalls t' ht']
      exact hearlier t ht
  · intro hrunning' t ht
    rw [Moment.callTimes, List.filterMap_append, List.mem_append] at ht
    apply le_trans ?_ (hafter hrunning')
    rcases ht with hbefore | hnew
    · exact hearlier t hbefore
    · exact (hcalls t hnew).le
  · exact hnow
  · exact hharvest

/-- The shard is where it was. -/
theorem Timely.same (h : Timely log s) (hnow : s'.now = s.now) (hphase : s'.phase = s.phase) :
  Timely (log ++ []) s'
  := by
  have hhorizon : s'.horizon = s.horizon := by
    rw [horizon, horizon, hphase, hnow]
  rw [List.append_nil]
  constructor
  · exact h.rising
  · rw [hphase, hhorizon]
    exact h.past
  · rw [hnow]
    exact h.now
  · rw [hphase, hnow]
    exact h.harvest

/-- A stage outside of a harvest, which may make calls at the time that the shard carries. -/
theorem Timely.stage (h : Timely log s) (hplain : s.phase.isPlain = true)
    (hcalls : ∀ t ∈ Moment.callTimes moments, t = s.now) (hnow : s'.now = s.now)
    (hplain' : s'.phase.isPlain = true) :
  Timely (log ++ moments) s'
  := by
  apply h.extend ?_ s.now hcalls (horizon_of_plain hplain).le
  · intro _
    rw [horizon_of_plain hplain', hnow]
  · rw [hnow]
    exact mem_readings_left h.now
  · intro time admitted report abort hphase
    rw [hphase] at hplain'
    cases hplain'
  · intro hphase
    rw [hphase] at hplain
    cases hplain

/-- The shard reads the clock before a turn. -/
theorem Timely.reread (h : Timely log s) (now : Duration) (hplain : s.phase.isPlain = true)
    (hclock : (Moment.readings (log ++ [.reading now])).Pairwise (· ≤ ·)) :
  Timely (log ++ [.reading now]) { s with now := now, phase := .dispatching 0 }
  := by
  apply h.extend ?_ s.now (by simp [Moment.callTimes, Moment.called]) (horizon_of_plain hplain).le
  · intro _
    rw [horizon_of_plain rfl]
    exact le_of_readings hclock h.now (mem_readings_singleton now)
  · exact mem_readings_right (mem_readings_singleton now)
  · intro time admitted report abort hphase
    cases hphase
  · intro hphase
    rw [hphase] at hplain
    cases hplain

/-- A harvest begins with a reading that is not before the one that the shard carries. -/
theorem Timely.endDrain (h : Timely log s) {count : ℕ} (closed : Bool) {now time : Duration}
    (hphase : s.phase = .draining count)
    (hclock : (Moment.readings (log ++ ((if 0 < count then [.reading now] else []) ++
      [.reading time]))).Pairwise (· ≤ ·)) :
  Timely (log ++ ((if 0 < count then [.reading now] else []) ++ [.reading time]))
    (s.endDrain count closed now time)
  := by
  have hplain : s.phase.isPlain = true := by
    rw [hphase]
    rfl
  have hhorizon : (s.endDrain count closed now time).horizon =
      (s.endDrain count closed now time).now := rfl
  have hnow : (s.endDrain count closed now time).now = if 0 < count then now else s.now := rfl
  have htime : time ∈ Moment.readings
      ((if 0 < count then [.reading now] else []) ++ [.reading time]) :=
    mem_readings_right (mem_readings_singleton time)
  apply h.extend (by simp [hphase]) s.now ?_ (horizon_of_plain hplain).le
  · intro _
    rw [hhorizon, hnow]
    split
    · rename_i hcount
      rw [if_pos hcount] at hclock
      exact le_of_readings hclock h.now (mem_readings_left (mem_readings_singleton now))
    · exact le_rfl
  · rw [hnow]
    split
    · exact mem_readings_right (mem_readings_left (mem_readings_singleton now))
    · exact mem_readings_left h.now
  · intro time' admitted report abort hharvest
    cases hharvest
    refine ⟨mem_readings_right htime, ?_⟩
    rw [hnow]
    split
    · rename_i hcount
      rw [if_pos hcount, ← List.append_assoc] at hclock
      exact le_of_readings hclock (mem_readings_right (mem_readings_singleton now))
        (mem_readings_singleton time)
    · exact le_of_readings hclock h.now htime
  · split <;> simp [Moment.callTimes, Moment.called]

/-- A call for something that finished is made at the time of the harvest. -/
theorem Timely.finish (h : Timely log s) {abort' : Bool} {moment : Moment}
    (hphase : s.phase = .harvesting time admitted report abort) (hcalled : moment.called = some time)
    (hnow : s'.now = s.now)
    (hphase' : s'.phase = .harvesting time admitted
      { report with polled := report.polled + 1, finished := report.finished + 1 } abort') :
  Timely (log ++ [moment]) s'
  := by
  obtain ⟨hread, hle⟩ := h.harvest time admitted report abort hphase
  apply h.extend (by simp [hphase]) time (by simp [Moment.callTimes, hcalled])
  · rw [horizon_of_harvesting hphase]
    split
    · exact le_rfl
    · exact hle
  · intro _
    rw [horizon_of_harvesting hphase', if_pos (Nat.succ_pos _)]
  · rw [hnow]
    exact mem_readings_left h.now
  · intro time' admitted' report' abort'' hharvest
    rw [hphase'] at hharvest
    cases hharvest
    rw [hnow]
    exact ⟨mem_readings_left hread, hle⟩

/-- A harvest in which something finished ends with a reading. -/
theorem Timely.endHarvest (h : Timely log s) (moreReady : Bool) {now : Duration}
    (hphase : s.phase = .harvesting time admitted report abort)
    (hclock : (Moment.readings (log ++ if 0 < report.finished then [.reading now] else [])).Pairwise
      (· ≤ ·)) :
  Timely (log ++ if 0 < report.finished then [.reading now] else [])
    (s.endHarvest admitted report moreReady now)
  := by
  obtain ⟨hread, -⟩ := h.harvest time admitted report abort hphase
  have hhorizon : (s.endHarvest admitted report moreReady now).horizon =
      (s.endHarvest admitted report moreReady now).now := rfl
  have hnow : (s.endHarvest admitted report moreReady now).now =
      if 0 < report.finished then now else s.now := rfl
  apply h.extend (by simp [hphase]) s.horizon ?_ le_rfl
  · intro _
    rw [horizon_of_harvesting hphase, hhorizon, hnow]
    split
    · rename_i hfinished
      rw [if_pos hfinished] at hclock
      exact le_of_readings hclock hread (mem_readings_singleton now)
    · exact le_rfl
  · rw [hnow]
    split
    · exact mem_readings_right (mem_readings_singleton now)
    · exact mem_readings_left h.now
  · intro time' admitted' report' abort' hharvest
    cases hharvest
  · split <;> simp [Moment.callTimes, Moment.called]

end

/-- Every step keeps the times in order. -/
theorem Timely.step {label : List (Deed K I W S) × List Moment} (h : Timely log s)
    (hstep : Timed s label s') (hclock : (Moment.readings (log ++ label.2)).Pairwise (· ≤ ·)) :
  Timely (log ++ label.2) s'
  := by
  have hnone : ∀ t ∈ Moment.callTimes [], t = s.now := by simp [Moment.callTimes]
  cases hstep with
  | send envelope _ => exact h.same rfl rfl
  | disconnect => exact h.same rfl rfl
  | wake now hphase => exact h.reread now (by rw [hphase]; rfl) hclock
  | dispatch hphase _ _ hpush =>
    rw [push_eq_ok hpush]
    refine h.stage (by rw [hphase]; rfl) (by simp [Moment.callTimes, Moment.called]) rfl ?_
    change s.phase.isPlain = true
    rw [hphase]
    rfl
  | nextClass hphase _ _ =>
    exact h.stage (by rw [hphase]; rfl) (by simp [Moment.callTimes, Moment.called]) rfl rfl
  | dispatched hphase _ => exact h.stage (by rw [hphase]; rfl) hnone rfl rfl
  | shed _ _ => exact h.same rfl rfl
  | shedAll hphase _ => exact h.stage (by rw [hphase]; rfl) hnone rfl rfl
  | flush hphase hbegin _ =>
    rw [beginFlushes_eq_ok hbegin]
    exact h.stage (by rw [hphase]; rfl) hnone rfl rfl
  | evictAll hphase _ _ _ =>
    refine h.stage (by rw [hphase]; rfl) hnone rfl ?_
    simp only
    split <;> rfl
  | exit hphase _ _ => exact h.stage (by rw [hphase]; rfl) hnone rfl rfl
  | drain hphase _ _ => exact h.stage (by rw [hphase]; rfl) hnone rfl rfl
  | skipDrain time hphase _ _ =>
    have hplain : s.phase.isPlain = true := by
      rw [hphase]
      rfl
    apply h.extend (by simp [hphase]) s.now (by simp [Moment.callTimes, Moment.called])
      (horizon_of_plain hplain).le
    · intro _
      exact le_rfl
    · exact mem_readings_left h.now
    · intro time' admitted report abort hharvest
      cases hharvest
      exact ⟨mem_readings_right (mem_readings_singleton time),
        le_of_readings hclock h.now (mem_readings_singleton time)⟩
  | @receive count envelope rest s' deeds taken hphase _ _ hadmitted =>
    refine h.stage (by rw [hphase]; rfl) ?_ ?_ rfl
    · simp only
      split <;> simp [Moment.callTimes, Moment.called]
    · rcases admitOne_eq_ok hadmitted with ⟨rfl, -⟩ | ⟨tracked, live, book, -, -, rfl⟩
      · rfl
      · rfl
  | closed now time hphase _ _ _ => exact h.endDrain true hphase hclock
  | pending now time hphase _ => exact h.endDrain false hphase hclock
  | full now time hphase _ => exact h.endDrain false hphase hclock
  | @poll time admitted report abort before after job hphase _ _ =>
    obtain ⟨hread, hle⟩ := h.harvest time admitted report abort hphase
    apply h.extend (by simp [hphase]) s.horizon (by simp [Moment.callTimes]) le_rfl
    · intro _
      rw [horizon_of_harvesting hphase]
      exact le_rfl
    · exact mem_readings_left h.now
    · intro time' admitted' report' abort' hharvest
      cases hharvest
      exact ⟨mem_readings_left hread, hle⟩
  | ran before outcome hphase _ _ hfinish =>
    obtain ⟨book, -, rfl⟩ := finishRun_eq_ok hfinish
    exact h.finish hphase rfl rfl rfl
  | flushed before hphase _ _ hfinish =>
    obtain ⟨book, -, rfl⟩ := finishFlush_eq_ok hfinish
    exact h.finish hphase rfl rfl rfl
  | harvested moreReady now hphase => exact h.endHarvest moreReady hphase hclock
  | abort hphase =>
    apply h.extend (by simp [hphase]) s.horizon (by simp [Moment.callTimes]) le_rfl
    · intro hrunning
      exact (hrunning rfl).elim
    · exact mem_readings_left h.now
    · intro time' admitted' report' abort' hharvest
      cases hharvest
  | service hphase hservice =>
    obtain ⟨hserviced, hsweeps⟩ := serviceTimersTimed_eq_ok hservice
    refine h.stage (by rw [hphase]; rfl) ?_ ?_ ?_
    · intro t ht
      obtain ⟨moment, hmoment, hcalled⟩ := List.mem_filterMap.mp ht
      rw [hsweeps moment hmoment] at hcalled
      cases hcalled
      rfl
    · obtain ⟨book, staged, timers, rfl⟩ := serviceTimers_frame hserviced
      rfl
    · simp only
      split <;> rfl
  | suspend hphase => exact h.stage (by rw [hphase]; rfl) hnone rfl rfl
  | resume now hphase => exact h.reread now (by rw [hphase]; rfl) hclock

/-- A timed run is a run. -/
theorem TimedRun.run {cfg : ShardConfig CLASSES} {trace : List (List (Deed K I W S))}
    (h : TimedRun cfg trace log s) :
  Run cfg trace s
  := by
  obtain ⟨now, wheelId, s₀, steps, hstart, htrail, rfl, -⟩ := h
  refine ⟨now, wheelId, s₀, hstart, ?_⟩
  apply htrail.invariant fun steps (s : Shard K I W S CLASSES) =>
    Trail Step s₀ (steps.map Prod.fst) s
  · exact .nil
  · intro steps s₁ label s₂ _ ih hstep
    rw [List.map_append]
    exact ih.snoc hstep.step

/-- Every run takes readings of the clock and makes timed calls. -/
theorem Run.timed {cfg : ShardConfig CLASSES} {trace : List (List (Deed K I W S))}
    (h : Run cfg trace s) :
  ∃ log, TimedRun cfg trace log s
  := by
  obtain ⟨now, wheelId, s₀, hstart, htrail⟩ := h
  obtain ⟨steps, htimed, rfl⟩ : ∃ steps, Trail Timed s₀ steps s ∧ trace = steps.map Prod.fst := by
    apply htrail.invariant fun trace (s : Shard K I W S CLASSES) =>
      ∃ steps, Trail Timed s₀ steps s ∧ trace = steps.map Prod.fst
    · exact ⟨[], .nil, rfl⟩
    · rintro trace s₁ deeds s₂ - ⟨steps, htimed, rfl⟩ hstep
      obtain ⟨moments, hmoments⟩ := hstep.timed
      exact ⟨steps ++ [(deeds, moments)], htimed.snoc hmoments, by simp⟩
  exact ⟨_, now, wheelId, s₀, steps, hstart, htimed, rfl, rfl⟩

/-- The time of the call that a shard is about to make, whether or not it returns. -/
def callTime (s : Shard K I W S CLASSES) : Option Duration :=
  match s.phase with
  | .dispatching _ => some s.now
  | .harvesting time _ _ _ => some time
  | .servicing _ _ => some s.now
  | _ => none

/-- The times that the scheduler is given, up to the next one. -/
structure Rising (log : List Moment) (s : Shard K I W S CLASSES) : Prop where
  calls : (Moment.callTimes log).Pairwise (· ≤ ·)
  upcoming : ∀ t ∈ s.callTime, ∀ t' ∈ Moment.callTimes log, t' ≤ t

omit [DecidableEq K] [DecidableEq I] in
/-- The next call is not before the horizon. -/
theorem Timely.upcoming (h : Timely log s) :
  ∀ t ∈ s.callTime, ∀ t' ∈ Moment.callTimes log, t' ≤ t
  := by
  intro t ht t' ht'
  rw [callTime] at ht
  split at ht
  · rename_i c hphase
    cases ht
    rw [← horizon_of_plain (s := s) (by rw [hphase]; rfl)]
    exact h.past (by simp [hphase]) t' ht'
  · rename_i time admitted report abort hphase
    cases ht
    have hle := h.past (by simp [hphase]) t' ht'
    rw [horizon_of_harvesting hphase] at hle
    split at hle
    · exact hle
    · exact hle.trans (h.harvest _ _ _ _ hphase).2
  · rename_i admitted report hphase
    cases ht
    rw [← horizon_of_plain (s := s) (by rw [hphase]; rfl)]
    exact h.past (by simp [hphase]) t' ht'
  · cases ht

omit [DecidableEq K] [DecidableEq I] in
/-- A shard starts with the reading that it carries. -/
theorem Timely.start {cfg : ShardConfig CLASSES} {now : Duration} {wheelId : ℕ}
    (h : Shard.start cfg now wheelId = .ok s) :
  Timely [.reading now] s
  := by
  have hnow : s.now = now := by
    simp only [Shard.start, bind_eq_ok] at h
    obtain ⟨-, -, w, -, timers, -, h⟩ := h
    cases h
    rfl
  obtain ⟨-, -, -, -, -, -, -, -, -, hphase⟩ := start_eq_ok h
  constructor
  · exact .nil
  · intro _ t ht
    cases ht
  · rw [hnow]
    exact mem_readings_singleton now
  · intro time admitted report abort hharvest
    rw [hphase] at hharvest
    cases hharvest

/-- The reactor feeds its scheduler with times that do not decrease, if its clock does not go
back. -/
theorem reactor_time_is_monotone {cfg : ShardConfig CLASSES} {trace : List (List (Deed K I W S))}
    (hrun : Run cfg trace s) :
  (∃ log, TimedRun cfg trace log s) ∧ ∀ log, TimedRun cfg trace log s →
    (Moment.readings log).Pairwise (· ≤ ·) → Rising log s
  := by
  refine ⟨hrun.timed, ?_⟩
  rintro log ⟨now, wheelId, s₀, steps, hstart, htrail, -, rfl⟩ hclock
  have htimely : Timely (.reading now :: steps.flatMap Prod.snd) s := by
    revert hclock
    apply htrail.invariant fun steps (s : Shard K I W S CLASSES) =>
      (Moment.readings (.reading now :: steps.flatMap Prod.snd)).Pairwise (· ≤ ·) →
        Timely (.reading now :: steps.flatMap Prod.snd) s
    · intro _
      exact Timely.start hstart
    · intro steps s₁ label s₂ _ ih hstep hclock
      rw [List.flatMap_append, List.flatMap_singleton, ← List.cons_append] at hclock ⊢
      have hbefore := hclock
      rw [Moment.readings, List.filterMap_append] at hbefore
      exact (ih (List.pairwise_append.mp hbefore).1).step hstep hclock
  exact ⟨htimely.rising, htimely.upcoming⟩

/-- A run that dispatches, completes and sweeps. -/
theorem reactor_time_is_monotone_swept :
  ∃ (s : Shard ℕ Unit ℕ ℕ 1) (trace : List (List (Deed ℕ Unit ℕ ℕ))) (log : List Moment),
    TimedRun { ShardConfig.new fun _ => 1 with tick := 1000 } trace log s ∧
    Moment.callTimes log = [1, 3, 3, 5, 2097152] ∧ Rising log s
  := by
  have h₀ : Trail Timed
      ((start { ShardConfig.new fun _ => 1 with tick := 1000 } 0 1 :
        Checked (Shard ℕ Unit ℕ ℕ 1)).toOption.get rfl) [] _ := .nil
  have h₁ := h₀.snoc (.send ⟨7, 0, none, none, 0, 40⟩ rfl)
  have h₂ := h₁.snoc (.wake 1 rfl)
  have h₃ := h₂.snoc (.nextClass rfl (by decide) rfl)
  have h₄ := h₃.snoc (.dispatched rfl (by decide))
  have h₅ := h₄.snoc (.shedAll rfl rfl)
  have h₆ := h₅.snoc (.flush rfl rfl rfl)
  have h₇ := h₆.snoc (.drain rfl rfl rfl)
  have h₈ := h₇.snoc (.receive 2 rfl rfl rfl rfl)
  have h₉ := h₈.snoc (.pending 3 4 rfl rfl)
  have h₁₀ := h₉.snoc (.harvested false 4 rfl)
  have h₁₁ := h₁₀.snoc (.service rfl rfl)
  have h₁₂ := h₁₁.snoc (.dispatch rfl (by decide) rfl rfl)
  have h₁₃ := h₁₂.snoc (.nextClass rfl (by decide) rfl)
  have h₁₄ := h₁₃.snoc (.dispatched rfl (by decide))
  have h₁₅ := h₁₄.snoc (.shedAll rfl rfl)
  have h₁₆ := h₁₅.snoc (.flush rfl rfl rfl)
  have h₁₇ := h₁₆.snoc (.drain rfl rfl rfl)
  have h₁₈ := h₁₇.snoc (.pending 5 5 rfl rfl)
  have h₁₉ := h₁₈.snoc (.ran [] (.ok (.keep 9)) rfl (by decide) rfl rfl)
  have h₂₀ := h₁₉.snoc (.harvested false 2097152 rfl)
  have h₂₁ := h₂₀.snoc (.service rfl rfl)
  have hstart : start { ShardConfig.new fun _ => 1 with tick := 1000 } 0 1 =
      .ok ((start { ShardConfig.new fun _ => 1 with tick := 1000 } 0 1 :
        Checked (Shard ℕ Unit ℕ ℕ 1)).toOption.get rfl) := rfl
  have htimed : TimedRun { ShardConfig.new fun _ => 1 with tick := 1000 } _ _ _ :=
    ⟨0, 1, _, _, hstart, h₂₁, rfl, rfl⟩
  exact ⟨_, _, _, htimed, rfl, (reactor_time_is_monotone htimed.run).2 _ htimed (by decide)⟩

end Shard

end Grommet
