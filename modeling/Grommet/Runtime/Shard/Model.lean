import Grommet.Core.Scheduler.Model
import Grommet.Core.Timer.Model
import Grommet.Library.Trail
import Grommet.Runtime.Outstanding.Model

/-!
# The reactor of a shard

One shard owns one scheduler and every key that routes to it.  It takes turns: it dispatches
what is ready, sheds what expired, begins flushes, takes a burst from its mailbox, harvests
the futures that finished and runs what its wheel says is due.  A turn in which none of this
moved ends in a wait; a shard whose mailbox closed returns when nothing is left in flight.

The mailbox and the set of outstanding futures are taken at what they promise.  An envelope
that was sent is received once and in order, and the mailbox reports that it is closed when no
handle is left and everything was received; a poll may also find nothing.  A harvest polls
futures of the set in any order, each of which is pending or finishes in any way, and reports
whatever it finds about further ones.  Readings of the clock are arbitrary.
-/

open Checked

namespace Grommet

/-- What a shard does when a `process` future panics. -/
inductive PanicPolicy where
  /-- Drop the state of the key, and keep serving. -/
  | continueServing
  /-- Abort the process. -/
  | abort
  deriving DecidableEq

/-- The longest `Duration`. -/
def DURATION_MAX : Duration := 2 ^ 64 * 10 ^ 9 - 1

/-- Addition of durations, which stops at the longest one. -/
def saturatingAdd (a b : Duration) : Duration := min (a + b) DURATION_MAX

/-- The limits of a shard. -/
structure ShardConfig (CLASSES : ℕ) where
  scheduler : Config CLASSES
  /-- Maximum mailbox items admitted in one turn. -/
  admitBatch : ℕ
  /-- Maximum futures polled in one turn. -/
  completeBatch : ℕ
  /-- Maximum eviction flushes in flight at once. -/
  flushSlots : ℕ
  /-- How often eviction is swept. -/
  tick : Duration
  panicPolicy : PanicPolicy
  /-- Suppress an item whose request id is already queued or in flight for the same key. -/
  coalesceDuplicates : Bool

/-- A configuration with per-class in-flight budgets and defaults elsewhere. -/
def ShardConfig.new {CLASSES : ℕ} (maxInflight : Fin CLASSES → ℕ) : ShardConfig CLASSES where
  scheduler := Config.new maxInflight
  admitBatch := 64
  completeBatch := 64
  flushSlots := 256
  tick := 10 ^ 9
  panicPolicy := .continueServing
  coalesceDuplicates := false

/-- What may be dispatched plus what may be flushing. -/
def ShardConfig.capacity {CLASSES : ℕ} (cfg : ShardConfig CLASSES) : ℕ :=
  ∑ c, cfg.scheduler.maxInflight c + cfg.flushSlots

/-- A work item plus the scheduling metadata stamped at submission. -/
structure Envelope (K I W : Type) where
  key : K
  classId : ClassId
  requestId : Option I
  expiresAt : Option Duration
  enqueued : Duration
  work : W
  deriving DecidableEq

/-- What the scheduler of a shard stores. -/
structure Stamped (I W : Type) where
  enqueued : Duration
  requestId : Option I
  work : W
  deriving DecidableEq

namespace Shard

/-- How a `process` future finished.  On an error `on_error` is called as well. -/
inductive Outcome (S : Type) where
  | ok (state : Disposition S)
  | error
  | panicked
  deriving DecidableEq

/-- What becomes of the state of a key: only a `process` that succeeds may keep it. -/
def Outcome.disposition {S : Type} : Outcome S → Disposition S
  | .ok state => state
  | .error => .drop
  | .panicked => .drop

def Outcome.isPanic {S : Type} : Outcome S → Bool
  | .panicked => true
  | _ => false

/-- What is seen of a shard from outside. -/
inductive Deed (K I W S : Type) where
  /-- An envelope enters the mailbox. -/
  | accepted (envelope : Envelope K I W)
  /-- The shard takes an envelope from its mailbox. -/
  | received (envelope : Envelope K I W)
  | onCoalesced (key : K) (work : W)
  | onExpired (key : K) (work : W)
  /-- `process` is called. -/
  | process (key : K) (state : Option S) (work : W)
  /-- A `process` future finished. -/
  | processed (key : K) (outcome : Outcome S)
  /-- `on_evict` is called. -/
  | onEvict (key : K) (state : S)
  /-- An `on_evict` future finished, or panicked. -/
  | evicted (key : K)
  deriving DecidableEq

/-- An outstanding future.  It calls the processor when it is polled for the first time. -/
inductive Job (K I W S : Type) where
  | runOne (started : Bool) (dispatch : Dispatch K (Stamped I W) S)
  | runFlush (started : Bool) (key : K) (state : S)
  deriving DecidableEq

namespace Job

variable {K I W S : Type}

/-- What a poll calls. -/
def calls : Job K I W S → List (Deed K I W S)
  | .runOne false d => [.process d.key d.state d.payload.work]
  | .runFlush false key state => [.onEvict key state]
  | _ => []

/-- The future after it was polled. -/
def polled : Job K I W S → Job K I W S
  | .runOne _ d => .runOne true d
  | .runFlush _ key state => .runFlush true key state

end Job

/-- What a shard schedules on its own wheel. -/
inductive Timer where
  /-- Sweep eviction. -/
  | tick
  deriving DecidableEq

/-- Timers one shard can hold at once. -/
def TIMERS : ℕ := 64

/-- Where the loop of a shard stands. -/
inductive Phase where
  /-- The shard waits to be polled. -/
  | suspended
  /-- `dispatch_ready` has come to a class. -/
  | dispatching (classId : ℕ)
  | shedding
  | flushing
  | exiting
  /-- `drain_inbox` has taken a number of items. -/
  | draining (count : ℕ)
  /-- A harvest with the time that its completions share, after a turn that admitted a number
  of items, or one more if the mailbox closed. -/
  | harvesting (time : Duration) (admitted : ℕ) (report : Outstanding.Harvest) (abort : Bool)
  | servicing (admitted : ℕ) (report : Outstanding.Harvest)
  /-- There is nothing to do this turn. -/
  | waiting
  | returned
  | aborted
  deriving DecidableEq

end Shard

open Shard

/-- A shard with its mailbox. -/
structure Shard (K I W S : Type) (CLASSES : ℕ) where
  cfg : ShardConfig CLASSES
  /-- What was sent and not received. -/
  inbox : List (Envelope K I W)
  /-- A handle of the mailbox is left. -/
  connected : Bool
  book : Scheduler K (Stamped I W) S CLASSES
  /-- Request ids currently queued or in flight, scoped by key. -/
  live : Finset (K × I)
  outstanding : List (Job K I W S)
  /-- Eviction candidates that wait for a flush slot. -/
  staged : List (K × S)
  timers : Timer.Wheel Shard.Timer
  isOpen : Bool
  finalFlush : Bool
  flushes : ℕ
  now : Duration
  phase : Phase

namespace Shard

variable {K I W S : Type} {CLASSES : ℕ}

/-- Schedule the next tick. -/
def insertTick (timers : Grommet.Timer.Wheel Timer) (deadline : Duration) (message : String) :
    Checked (Grommet.Timer.Wheel Timer) := do
  let (timers, inserted) ← timers.tryInsertDuration Grommet.Timer.SHIFT deadline .tick
  let _ ← expect inserted.toOption message
  .ok timers

/-- A shard before its first turn. -/
def start (cfg : ShardConfig CLASSES) (now : Duration) (wheelId : ℕ) :
    Checked (Shard K I W S CLASSES) := do
  assert (cfg.capacity ≤ Outstanding.MAX_CAPACITY) "Outstanding capacity exceeds the maximum"
  let timers ← Grommet.Timer.Wheel.withCapacityAtTick TIMERS 0 wheelId
  let timers ← insertTick timers (saturatingAdd now cfg.tick) "a fresh wheel has room for the tick"
  .ok {
    cfg := cfg
    inbox := []
    connected := true
    book := Scheduler.new cfg.scheduler
    live := ∅
    outstanding := []
    staged := []
    timers := timers
    isOpen := true
    finalFlush := true
    flushes := 0
    now := now
    phase := .suspended }

/-- Add a future to the outstanding set. -/
def push (s : Shard K I W S CLASSES) (job : Job K I W S) : Checked (Shard K I W S CLASSES) := do
  assert (s.outstanding.length < s.cfg.capacity)
    "outstanding set overflow: capacity must cover all in-flight budgets"
  .ok { s with outstanding := s.outstanding ++ [job] }

/-- Move one staged candidate into flight. -/
def beginFlush (s : Shard K I W S CLASSES) (candidate : K × S) :
    Checked (Shard K I W S CLASSES) :=
  push { s with flushes := s.flushes + 1 } (.runFlush false candidate.1 candidate.2)

/-- Move as many staged eviction candidates into flight as the flush budget allows. -/
def beginFlushes (s : Shard K I W S CLASSES) : Checked (Shard K I W S CLASSES) :=
  let room := min (s.cfg.flushSlots - s.flushes) s.staged.length
  (s.staged.take room).foldlM beginFlush { s with staged := s.staged.drop room }

/-- Closed mailbox and nothing left in flight. -/
def isDone (s : Shard K I W S CLASSES) : Bool :=
  !s.isOpen && s.outstanding.isEmpty && s.staged.isEmpty

/-- The loop of `drain_inbox` takes another item if there is one. -/
def drains (s : Shard K I W S CLASSES) (count : ℕ) : Bool :=
  count < max s.cfg.admitBatch 1 && !s.book.isSaturated

/-- The drain is over: the clock is read if it took anything, and again for the harvest. -/
def endDrain (s : Shard K I W S CLASSES) (count : ℕ) (closed : Bool) (now time : Duration) :
    Shard K I W S CLASSES :=
  { s with
    isOpen := s.isOpen && !closed
    now := if 0 < count then now else s.now
    phase := .harvesting time (count + closed.toNat) ⟨0, 0, false⟩ false }

/-- The harvest is over: the clock is read if anything finished. -/
def endHarvest (s : Shard K I W S CLASSES) (admitted : ℕ) (report : Outstanding.Harvest)
    (moreReady : Bool) (now : Duration) : Shard K I W S CLASSES :=
  { s with
    now := if 0 < report.finished then now else s.now
    phase := .servicing admitted { report with moreReady := moreReady } }

/-- The turn moved something, so that another one follows. -/
def continues (admitted : ℕ) (report : Outstanding.Harvest) (fired : Bool) : Bool :=
  0 < admitted || 0 < report.finished || fired || report.moreReady

variable [DecidableEq K] [DecidableEq I]

/-- The request ids after an item left. -/
def forget (live : Finset (K × I)) (key : K) (requestId : Option I) : Finset (K × I) :=
  match requestId with
  | some id => live.erase (key, id)
  | none => live

/-- Queue an envelope behind its key, with the request id to release when it leaves. -/
def admitEnvelope (s : Shard K I W S CLASSES) (envelope : Envelope K I W) (tracked : Option I) :
    Checked (Shard K I W S CLASSES) := do
  let book ← s.book.admitItem ⟨envelope.key, envelope.classId, envelope.expiresAt,
    ⟨envelope.enqueued, tracked, envelope.work⟩⟩
  .ok { s with book := book }

/-- Admit an envelope, or suppress it when it repeats an outstanding request. -/
def admitOne (s : Shard K I W S CLASSES) (envelope : Envelope K I W) :
    Checked (Shard K I W S CLASSES × List (Deed K I W S)) :=
  match envelope.requestId, s.cfg.coalesceDuplicates with
  | some id, true =>
      if (envelope.key, id) ∈ s.live then
        .ok (s, [.onCoalesced envelope.key envelope.work])
      else do
        let s ← admitEnvelope { s with live := insert (envelope.key, id) s.live } envelope (some id)
        .ok (s, [])
  | _, _ => do
      let s ← s.admitEnvelope envelope none
      .ok (s, [])

/-- Give the scheduler back a key whose work finished. -/
def finishRun (s : Shard K I W S CLASSES) (d : Dispatch K (Stamped I W) S) (outcome : Outcome S)
    (time : Duration) : Checked (Shard K I W S CLASSES) := do
  let book ← s.book.complete ⟨d.key, d.classId, outcome.disposition⟩ time
  .ok { s with book := book, live := forget s.live d.key d.payload.requestId }

/-- Release a key whose flush finished. -/
def finishFlush (s : Shard K I W S CLASSES) (key : K) (time : Duration) :
    Checked (Shard K I W S CLASSES) := do
  let flushes ← sub s.flushes 1
  let book ← s.book.finishEvict key time
  .ok { s with book := book, flushes := flushes }

/-- Sweep eviction once the last batch has been handed over. -/
def sweep (s : Shard K I W S CLASSES) :
    Checked (Scheduler K (Stamped I W) S CLASSES × List (K × S)) :=
  if s.staged.isEmpty then s.book.evict s.now s.staged else .ok (s.book, s.staged)

/-- Run a timer. -/
def serviceTimer (s : Shard K I W S CLASSES) : Timer → Checked (Shard K I W S CLASSES)
  | .tick => do
      let (book, staged) ← s.sweep
      let timers ← insertTick s.timers (saturatingAdd s.now s.cfg.tick)
        "the tick is the only timer, so its slot is free"
      .ok { s with book := book, staged := staged, timers := timers }

/-- Run anything the wheel says is due, and tell whether it did. -/
def serviceTimers (s : Shard K I W S CLASSES) : Checked (Shard K I W S CLASSES × Bool) :=
  if s.timers.isDueDuration Grommet.Timer.SHIFT s.now then do
    let advance ← expect (s.timers.advanceDuration Grommet.Timer.SHIFT s.now)
      "monotonic time fits a u64 of nanoseconds"
    let (timers, due) ← advance
    let s ← due.foldlM serviceTimer { s with timers := timers }
    .ok (s, true)
  else
    .ok (s, false)

/-- One step of the shard, or of the senders. -/
inductive Step (s : Shard K I W S CLASSES) : List (Deed K I W S) → Shard K I W S CLASSES → Prop
  | send (envelope : Envelope K I W) : s.connected = true →
      Step s [.accepted envelope] { s with inbox := s.inbox ++ [envelope] }
  /-- The last handle of the mailbox is dropped. -/
  | disconnect : Step s [] { s with connected := false }
  /-- The shard is polled. -/
  | wake (now : Duration) : s.phase = .suspended →
      Step s [] { s with now := now, phase := .dispatching 0 }
  | dispatch {c : ℕ} {book : Scheduler K (Stamped I W) S CLASSES}
      {d : Dispatch K (Stamped I W) S} {s' : Shard K I W S CLASSES} :
      s.phase = .dispatching c → c < CLASSES →
      s.book.next (UInt8.ofNat c) s.now = .ok (book, some d) →
      push { s with book := book } (.runOne false d) = .ok s' → Step s [] s'
  | nextClass {c : ℕ} {book : Scheduler K (Stamped I W) S CLASSES} :
      s.phase = .dispatching c → c < CLASSES →
      s.book.next (UInt8.ofNat c) s.now = .ok (book, none) →
      Step s [] { s with book := book, phase := .dispatching (c + 1) }
  | dispatched {c : ℕ} : s.phase = .dispatching c → CLASSES ≤ c →
      Step s [] { s with phase := .shedding }
  | shed {key : K} {c : ClassId} {stamped : Stamped I W} :
      s.phase = .shedding → s.book.popExpired.2 = some (key, c, stamped) →
      Step s [.onExpired key stamped.work] { s with
        book := s.book.popExpired.1
        live := forget s.live key stamped.requestId }
  | shedAll : s.phase = .shedding → s.book.popExpired.2 = none →
      Step s [] { s with book := s.book.popExpired.1, phase := .flushing }
  | flush {s' : Shard K I W S CLASSES} : s.phase = .flushing → s.beginFlushes = .ok s' →
      s'.book.checkInvariants = .ok () → Step s [] { s' with phase := .exiting }
  /-- Every resident state is handed out once before the shard returns. -/
  | evictAll {book : Scheduler K (Stamped I W) S CLASSES} {staged : List (K × S)} :
      s.phase = .exiting → s.isDone = true → s.finalFlush = true →
      s.book.evictAll s.staged = .ok (book, staged) →
      Step s [] { s with
        book := book
        staged := staged
        finalFlush := false
        phase := if staged.isEmpty then .returned else .dispatching 0 }
  | exit : s.phase = .exiting → s.isDone = true → s.finalFlush = false →
      Step s [] { s with phase := .returned }
  | drain : s.phase = .exiting → s.isDone = false → s.isOpen = true →
      Step s [] { s with phase := .draining 0 }
  | skipDrain (time : Duration) : s.phase = .exiting → s.isDone = false → s.isOpen = false →
      Step s [] { s with phase := .harvesting time 0 ⟨0, 0, false⟩ false }
  | receive {count : ℕ} {envelope : Envelope K I W} {rest : List (Envelope K I W)}
      {s' : Shard K I W S CLASSES} {deeds : List (Deed K I W S)} :
      s.phase = .draining count → s.drains count = true → s.inbox = envelope :: rest →
      admitOne { s with inbox := rest } envelope = .ok (s', deeds) →
      Step s (.received envelope :: deeds) { s' with phase := .draining (count + 1) }
  | closed {count : ℕ} (now time : Duration) :
      s.phase = .draining count → s.drains count = true → s.inbox = [] → s.connected = false →
      Step s [] (s.endDrain count true now time)
  /-- A poll of the mailbox finds nothing. -/
  | pending {count : ℕ} (now time : Duration) : s.phase = .draining count →
      s.drains count = true → Step s [] (s.endDrain count false now time)
  | full {count : ℕ} (now time : Duration) : s.phase = .draining count →
      s.drains count = false → Step s [] (s.endDrain count false now time)
  /-- A future is polled and is not ready. -/
  | poll {time : Duration} {admitted : ℕ} {report : Outstanding.Harvest} {abort : Bool}
      (before : List (Job K I W S)) {after : List (Job K I W S)} {job : Job K I W S} :
      s.phase = .harvesting time admitted report abort →
      report.polled < max s.cfg.completeBatch 1 → s.outstanding = before ++ job :: after →
      Step s job.calls { s with
        outstanding := before ++ job.polled :: after
        phase := .harvesting time admitted { report with polled := report.polled + 1 } abort }
  | ran {time : Duration} {admitted : ℕ} {report : Outstanding.Harvest} {abort started : Bool}
      (before : List (Job K I W S)) {after : List (Job K I W S)} {d : Dispatch K (Stamped I W) S}
      (outcome : Outcome S) {s' : Shard K I W S CLASSES} :
      s.phase = .harvesting time admitted report abort →
      report.polled < max s.cfg.completeBatch 1 →
      s.outstanding = before ++ .runOne started d :: after →
      finishRun { s with outstanding := before ++ after } d outcome time = .ok s' →
      Step s ((Job.runOne started d).calls ++ [.processed d.key outcome]) { s' with
        phase := .harvesting time admitted
          { report with polled := report.polled + 1, finished := report.finished + 1 }
          (abort || (outcome.isPanic && s.cfg.panicPolicy == .abort)) }
  | flushed {time : Duration} {admitted : ℕ} {report : Outstanding.Harvest} {abort started : Bool}
      (before : List (Job K I W S)) {after : List (Job K I W S)} {key : K} {state : S}
      {s' : Shard K I W S CLASSES} :
      s.phase = .harvesting time admitted report abort →
      report.polled < max s.cfg.completeBatch 1 →
      s.outstanding = before ++ .runFlush started key state :: after →
      finishFlush { s with outstanding := before ++ after } key time = .ok s' →
      Step s ((Job.runFlush started key state).calls ++ [.evicted key]) { s' with
        phase := .harvesting time admitted
          { report with polled := report.polled + 1, finished := report.finished + 1 } abort }
  | harvested {time : Duration} {admitted : ℕ} {report : Outstanding.Harvest} (moreReady : Bool)
      (now : Duration) : s.phase = .harvesting time admitted report false →
      Step s [] (s.endHarvest admitted report moreReady now)
  | abort {time : Duration} {admitted : ℕ} {report : Outstanding.Harvest} :
      s.phase = .harvesting time admitted report true → Step s [] { s with phase := .aborted }
  | service {admitted : ℕ} {report : Outstanding.Harvest} {fired : Bool}
      {s' : Shard K I W S CLASSES} :
      s.phase = .servicing admitted report → s.serviceTimers = .ok (s', fired) →
      Step s [] { s' with
        phase := if continues admitted report fired then .dispatching 0 else .waiting }
  | suspend : s.phase = .waiting → Step s [] { s with phase := .suspended }
  /-- The deadline passed while the shard was working. -/
  | resume (now : Duration) : s.phase = .waiting →
      Step s [] { s with now := now, phase := .dispatching 0 }

/-- The steps of a shard from its start. -/
def Run (cfg : ShardConfig CLASSES) (trace : List (List (Deed K I W S)))
    (s : Shard K I W S CLASSES) : Prop :=
  ∃ now wheelId s₀, start cfg now wheelId = .ok s₀ ∧ Trail Step s₀ trace s

end Shard

end Grommet
