import Grommet.Core.Scheduler.Undated

/-!
# The scheduler sweep

A sweep drives a scheduler through a reproducible workload: each step rolls a word that chooses
a key, a class and a call.  After every step it flushes what is due, runs the structural check
and compares the idle list with the number of resident keys.  Beside the scheduler it keeps a
model of what each key is owed, from which it measures how long a key waits for its dispatch.
When the steps are over it drains the scheduler the way a shard does on shutdown.

The words of the generator are the keys, the payloads and the states.
-/

open Checked

namespace Grommet.Testkit

/-- A randomized but reproducible workload. -/
structure SweepSpec where
  /-- Distinct affine keys in the workload. -/
  keys : UInt64
  /-- Operations to perform. -/
  steps : ℕ
  seed : UInt64

instance : Inhabited SweepSpec := ⟨⟨64, 20000, 0x5eed⟩⟩

structure SweepReport where
  admitted : ℕ
  dispatched : ℕ
  evicted : ℕ
  /-- The most dispatches of its own class that a key waited between becoming ready and
  running. -/
  worstDispatchGap : ℕ
  queueCapacity : ℕ
  /-- The largest idle list seen. -/
  peakEvictionBacklog : ℕ
  deriving DecidableEq

/-- What the scheduler owes a key. -/
structure KeyModel where
  queued : List ClassId
  inFlight : Bool
  /-- The ring this key is waiting in, and that ring's dispatch count at the moment it joined. -/
  readyAt : Option (ClassId × ℕ)

/-- A generator of words. -/
structure Rng where
  word : UInt64

/-- The next word. -/
def Rng.next (rng : Rng) : UInt64 :=
  let word := rng.word ^^^ (rng.word <<< 13)
  let word := word ^^^ (word >>> 7)
  word ^^^ (word <<< 17)

/-- The scheduler of a sweep, whose keys, payloads and states are words. -/
abbrev SweepBook (CLASSES : ℕ) := Scheduler UInt64 UInt64 UInt64 CLASSES

/-- A sweep over a number of keys between two of its steps. -/
structure Sweep (keys CLASSES : ℕ) where
  book : SweepBook CLASSES
  rng : Rng
  report : SweepReport
  inflight : List (UInt64 × ClassId)
  model : Fin keys → KeyModel
  dispatchedPerClass : Fin CLASSES → ℕ
  now : Duration

variable {keys CLASSES : ℕ}

/-- Finish the flush of every key that was handed out. -/
def finishEvicted (now : Duration) (book : SweepBook CLASSES) (evicted : List (UInt64 × UInt64)) :
    Checked (SweepBook CLASSES) :=
  evicted.foldlM (fun book pushed => book.finishEvict pushed.1 now) book

namespace Sweep

def start (cfg : Config CLASSES) (spec : SweepSpec) : Sweep keys CLASSES where
  book := Scheduler.new cfg
  rng := ⟨spec.seed ||| 1⟩
  report := ⟨0, 0, 0, 0, 0, 0⟩
  inflight := []
  model := fun _ => ⟨[], false, none⟩
  dispatchedPerClass := fun _ => 0
  now := 0

/-- Note that a key has joined the ring of a class. -/
def join (σ : Sweep keys CLASSES) (entry : KeyModel) (head : ClassId) : Checked KeyModel := do
  let ⟨h⟩ ← inBounds head.toNat CLASSES
  .ok { entry with readyAt := some (head, σ.dispatchedPerClass ⟨_, h⟩) }

/-- Queue an item behind its key.  A key that is waiting already keeps its place. -/
def enqueue (σ : Sweep keys CLASSES) (entry : KeyModel) (classId : ClassId) :
    Checked KeyModel :=
  let entry := { entry with queued := entry.queued ++ [classId] }
  if !entry.inFlight && entry.readyAt.isNone then do
    let head ← expect entry.queued.head? "just pushed"
    σ.join entry head
  else
    .ok entry

/-- Admit an item. -/
def admitItem (σ : Sweep keys CLASSES) (roll key : UInt64) (classId : ClassId) :
    Checked (Sweep keys CLASSES) := do
  let ⟨h⟩ ← inBounds key.toNat keys
  let entry ← σ.enqueue (σ.model ⟨_, h⟩) classId
  let book ← σ.book.admitItem ⟨key, classId, none, roll⟩
  .ok { σ with
    book := book
    model := Function.update σ.model ⟨_, h⟩ entry
    report := { σ.report with admitted := σ.report.admitted + 1 } }

/-- Note a dispatch, and how long its key has waited. -/
def take (σ : Sweep keys CLASSES) (classId : ClassId) (dispatch : Dispatch UInt64 UInt64 UInt64) :
    Checked (Sweep keys CLASSES) := do
  let ⟨h⟩ ← inBounds dispatch.key.toNat keys
  let entry := σ.model ⟨_, h⟩
  let (ring, since) ← expect entry.readyAt "a dispatched key was waiting to run"
  assert (ring == classId) "a key was dispatched from the wrong ring"
  let ⟨hc⟩ ← inBounds classId.toNat CLASSES
  let gap ← sub (σ.dispatchedPerClass ⟨_, hc⟩) since
  .ok { σ with
    model := Function.update σ.model ⟨_, h⟩
      { queued := entry.queued.tail, inFlight := true, readyAt := none }
    dispatchedPerClass :=
      Function.update σ.dispatchedPerClass ⟨_, hc⟩ (σ.dispatchedPerClass ⟨_, hc⟩ + 1)
    report := { σ.report with
      worstDispatchGap := max σ.report.worstDispatchGap gap
      dispatched := σ.report.dispatched + 1 }
    inflight := σ.inflight ++ [(dispatch.key, dispatch.classId)] }

/-- Dispatch the next item of a class. -/
def dispatch (σ : Sweep keys CLASSES) (classId : ClassId) : Checked (Sweep keys CLASSES) := do
  let (book, dispatch) ← σ.book.next classId σ.now
  let σ := { σ with book := book }
  dispatch.elim (.ok σ) (σ.take classId)

/-- Complete one of the dispatches. -/
def complete (σ : Sweep keys CLASSES) (roll : UInt64) : Checked (Sweep keys CLASSES) := do
  let ((key, classId), inflight) ←
    swapRemove σ.inflight ((roll >>> 32).toNat % σ.inflight.length)
  let book ← σ.book.complete ⟨key, classId, .keep roll⟩ σ.now
  let ⟨h⟩ ← inBounds key.toNat keys
  let entry := { σ.model ⟨_, h⟩ with inFlight := false }
  let entry ← entry.queued.head?.elim (.ok entry) (σ.join entry)
  .ok { σ with
    book := book
    inflight := inflight
    model := Function.update σ.model ⟨_, h⟩ entry }

/-- The call that a word chooses. -/
def call (σ : Sweep keys CLASSES) (roll key : UInt64) (classId : ClassId) :
    Checked (Sweep keys CLASSES) :=
  let choice := (roll >>> 8) &&& 0b11
  if (choice = 0 ∨ choice = 1) ∧ σ.book.isSaturated = false then
    σ.admitItem roll key classId
  else if choice = 2 then
    σ.dispatch classId
  else if σ.inflight ≠ [] then
    σ.complete roll
  else
    .ok σ

/-- Flush what is due and check the scheduler. -/
def settle (σ : Sweep keys CLASSES) (step : ℕ) : Checked (Sweep keys CLASSES) := do
  let (book, expired) := σ.book.popExpired
  assert expired.isNone "the sweep issues no deadlines"
  let (book, evicted) ← book.evict σ.now []
  let book ← finishEvicted σ.now book evicted
  assert (decide (book.checkInvariants = .ok ())) s!"invariant broke at step {step}"
  let live := book.snapshot
  assert (decide (live.evictionBacklog ≤ live.resident))
    s!"step {step}: {live.evictionBacklog} keys awaiting eviction against {live.resident} resident: idle tracking is not bounded by the key count"
  .ok { σ with
    book := book
    report := { σ.report with
      evicted := σ.report.evicted + evicted.length
      peakEvictionBacklog := max σ.report.peakEvictionBacklog live.evictionBacklog } }

/-- One step of the sweep. -/
def step (σ : Sweep keys CLASSES) (step : ℕ) : Checked (Sweep keys CLASSES) := do
  let roll := σ.rng.next
  let key ← rem roll.toNat keys
  let classId ← rem (roll >>> 16).toNat CLASSES
  let σ := { σ with rng := ⟨roll⟩, now := σ.now + 1000 }
  let σ ← σ.call roll (UInt64.ofNat key) (UInt8.ofNat classId)
  σ.settle step

/-- A number of steps of the sweep, from a step on. -/
def steps : ℕ → ℕ → Sweep keys CLASSES → Checked (Sweep keys CLASSES)
  | 0, _, σ => .ok σ
  | left + 1, step, σ => do
      let σ ← σ.step step
      steps left (step + 1) σ

end Sweep

/-! ### Shutting down -/

/-- Dispatch the items of a class while there are any. -/
def drainClass (now : Duration) (classId : ClassId) :
    ℕ → SweepBook CLASSES → List (UInt64 × ClassId) →
      Checked (SweepBook CLASSES × List (UInt64 × ClassId))
  | 0, _, _ => .error .hang
  | fuel + 1, book, inflight => do
      let (book, dispatch) ← book.next classId now
      dispatch.elim (.ok (book, inflight)) fun dispatch =>
        drainClass now classId fuel book (inflight ++ [(dispatch.key, dispatch.classId)])

/-- Dispatch the items of every class. -/
def drainClasses (now : Duration) (classes : List ClassId) (book : SweepBook CLASSES)
    (inflight : List (UInt64 × ClassId)) :
    Checked (SweepBook CLASSES × List (UInt64 × ClassId)) :=
  classes.foldlM (fun state classId =>
    drainClass now classId (∑ i, state.1.snapshot.ready i + 1) state.1 state.2) (book, inflight)

/-- Complete every dispatch. -/
def completeAll (now : Duration) (book : SweepBook CLASSES) (inflight : List (UInt64 × ClassId)) :
    Checked (SweepBook CLASSES) :=
  inflight.foldlM (fun book e => book.complete ⟨e.1, e.2, .keep 0⟩ now) book

/-- Drain every queued item and take back every dispatch. -/
def drain (now : Duration) :
    ℕ → SweepBook CLASSES → List (UInt64 × ClassId) → Checked (SweepBook CLASSES)
  | 0, _, _ => .error .hang
  | fuel + 1, book, inflight => do
      let (book, inflight) ←
        drainClasses now ((List.range CLASSES).map UInt8.ofNat) book inflight
      if inflight = [] then
        .ok book
      else do
        let book ← completeAll now book inflight
        drain now fuel book []

/-- Shut the scheduler down: drain it, flush what is still resident and check that nothing is
left.  Returns the number of flushed keys. -/
def shutdown (now : Duration) (book : SweepBook CLASSES) (inflight : List (UInt64 × ClassId)) :
    Checked ℕ := do
  let book ← drain now (book.pending + 1) book inflight
  let (book, evicted) ← book.evictAll []
  let book ← finishEvicted now book evicted
  assert (decide (book.checkInvariants = .ok ())) "an invariant broke during shutdown"
  let left := book.snapshot
  assert (left.resident == 0) s!"shutdown left {left.resident} keys holding unflushed state"
  assert (left.pending == 0) s!"shutdown left {left.pending} items undrained"
  .ok evicted.length

/-- Drive a scheduler through a workload. -/
def schedulerSweep (cfg : Config CLASSES) (spec : SweepSpec) : Checked SweepReport := do
  assert (decide (0 < spec.keys)) "a sweep needs at least one key"
  let σ ← (Sweep.start cfg spec : Sweep spec.keys.toNat CLASSES).steps spec.steps 0
  let bound := spec.keys.toNat
  assert (decide (σ.report.worstDispatchGap ≤ bound))
    s!"a key waited {σ.report.worstDispatchGap} dispatches of its own class, beyond the rotation bound of {bound}"
  let evicted ← shutdown σ.now σ.book σ.inflight
  .ok { σ.report with
    queueCapacity := σ.book.snapshot.queueCapacity
    evicted := σ.report.evicted + evicted }

end Grommet.Testkit
