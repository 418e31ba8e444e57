import Grommet.Core.Queue
import Grommet.Library.FiniteMap
import Mathlib.Algebra.BigOperators.Fin

/-!
# The scheduler

A key-affine, class-fair scheduler over opaque payloads and per-key state.  Each key has
a slot with its queue, its resident state and its presence; ready keys wait in one ring
per class, and idle keys are threaded on a doubly linked list, oldest first.  The
definitions are those of a debug build: assertions, array bounds, unsigned subtractions
and expected values are checked.  Time is a number of nanoseconds.
-/

open Checked

namespace Grommet

open Queue

/-- Index of a work class, a `u8`. -/
abbrev ClassId := UInt8

/-- A monotonic time or a span of it, in nanoseconds. -/
abbrev Duration := ℕ

/-- Per-shard scheduling limits. -/
structure Config (CLASSES : ℕ) where
  /-- Maximum simultaneously dispatched items per class. -/
  maxInflight : Fin CLASSES → ℕ
  /-- Maximum queued plus in-flight items. -/
  maxPending : ℕ
  /-- Soft cap on resident keys. -/
  maxResident : Option ℕ
  /-- How long a key must sit idle before it becomes an eviction candidate. -/
  evictAfter : Duration
  /-- Maximum eviction candidates examined per sweep. -/
  evictIters : ℕ
  /-- Queue slab entries reserved up front. -/
  queueReserve : ℕ

/-- A configuration with per-class in-flight budgets and defaults elsewhere. -/
def Config.new {CLASSES : ℕ} (maxInflight : Fin CLASSES → ℕ) : Config CLASSES where
  maxInflight := maxInflight
  maxPending := 8192
  maxResident := none
  evictAfter := 60 * 10 ^ 9
  evictIters := 256
  queueReserve := 1024

/-- A work item being admitted. -/
structure Admit (K P : Type) where
  key : K
  classId : ClassId
  /-- Monotonic time after which this item is dropped instead of dispatched. -/
  expiresAt : Option Duration
  payload : P
  deriving DecidableEq

/-- A work item that owns its key. -/
structure Dispatch (K P S : Type) where
  key : K
  classId : ClassId
  /-- Resident state, moved out of the scheduler for the duration of the work. -/
  state : Option S
  payload : P
  deriving DecidableEq

/-- What became of a key's state once its work finished. -/
inductive Disposition (S : Type) where
  /-- Keep this state resident for the next dispatch of the key. -/
  | keep (state : S)
  /-- Discard any resident state. -/
  | drop
  deriving DecidableEq

/-- The state a disposition keeps. -/
def Disposition.intoOption {S : Type} : Disposition S → Option S
  | .keep state => some state
  | .drop => none

/-- The result of a dispatched item. -/
structure Completion (K S : Type) where
  key : K
  classId : ClassId
  state : Disposition S
  deriving DecidableEq

/-- Where a key stands. -/
inductive Presence where
  | idle
  | ready (classId : ClassId)
  | inFlight
  /-- The state has been handed to the caller for flushing. -/
  | evicting
  deriving DecidableEq

/-- Whether a presence is that of a ring. -/
def Presence.isReady : Presence → Bool
  | .ready _ => true
  | _ => false

/-- A queued item. -/
structure Item (P : Type) where
  classId : ClassId
  expiresAt : Option Duration
  payload : P
  deriving DecidableEq

/-- The deadline of an item has passed. -/
def Item.isExpired {P : Type} (item : Item P) (now : Duration) : Bool :=
  item.expiresAt.any fun deadline => deadline ≤ now

/-- Per-key bookkeeping. -/
structure Slot (K S : Type) where
  resident : Option S
  queue : Fifo
  presence : Presence
  /-- When this key last went idle. -/
  idleSince : Duration
  /-- Neighbours in the idle list, oldest first. -/
  idlePrev : Option K
  idleNext : Option K
  deriving DecidableEq

/-- A slot for a key seen for the first time. -/
def Slot.cold {K S : Type} : Slot K S where
  resident := none
  queue := {}
  presence := .idle
  idleSince := 0
  idlePrev := none
  idleNext := none

/-- A slot without its links. -/
def Slot.detach {K S : Type} (slot : Slot K S) : Slot K S :=
  { slot with idlePrev := none, idleNext := none }

/-- A key-affine, class-fair scheduler over payloads `P` and per-key state `S`. -/
structure Scheduler (K P S : Type) (CLASSES : ℕ) where
  cfg : Config CLASSES
  keys : AList fun _ : K => Slot K S
  slab : Slab (Item P)
  ready : Fin CLASSES → List K
  /-- Oldest and newest key on the idle list. -/
  idleHead : Option K
  idleTail : Option K
  idle : ℕ
  expired : List (K × ClassId × P)
  inflight : Fin CLASSES → ℕ
  pending : ℕ
  evicting : ℕ

namespace Scheduler

variable {K P S : Type} {CLASSES : ℕ}

/-- A scheduler that holds nothing. -/
def new (cfg : Config CLASSES) : Scheduler K P S CLASSES where
  cfg := cfg
  keys := ∅
  slab := Slab.withCapacity cfg.queueReserve
  ready := fun _ => []
  idleHead := none
  idleTail := none
  idle := 0
  expired := []
  inflight := fun _ => 0
  pending := 0
  evicting := 0

/-- Whether admission should be refused. -/
def isSaturated (s : Scheduler K P S CLASSES) : Bool :=
  s.cfg.maxPending ≤ s.pending

variable [DecidableEq K]

/-! ### The idle list and the rings -/

/-- Change the slot of a key that is expected to have one. -/
def modifySlot (s : Scheduler K P S CLASSES) (key : K) (message : String)
    (f : Slot K S → Slot K S) : Checked (Scheduler K P S CLASSES) := do
  let slot ← expect (s.keys.lookup key) message
  .ok { s with keys := s.keys.insert key (f slot) }

/-- Make `next` the neighbour after `prev`, or the head when there is no `prev`. -/
def linkNext (s : Scheduler K P S CLASSES) (prev next : Option K) :
    Checked (Scheduler K P S CLASSES) :=
  match prev with
  | some key => s.modifySlot key "a listed key has a slot" ({ · with idleNext := next })
  | none => .ok { s with idleHead := next }

/-- Make `prev` the neighbour before `next`, or the tail when there is no `next`. -/
def linkPrev (s : Scheduler K P S CLASSES) (prev next : Option K) :
    Checked (Scheduler K P S CLASSES) :=
  match next with
  | some key => s.modifySlot key "a listed key has a slot" ({ · with idlePrev := prev })
  | none => .ok { s with idleTail := prev }

/-- Close the idle list over a slot that was just detached from it. -/
def idlePatch (s : Scheduler K P S CLASSES) (prev next : Option K) :
    Checked (Scheduler K P S CLASSES) := do
  let s ← s.linkNext prev next
  s.linkPrev prev next

/-- Count a detached slot out and close the idle list over it. -/
def idleUnlink (s : Scheduler K P S CLASSES) (slot : Slot K S) :
    Checked (Scheduler K P S CLASSES) := do
  let idle ← sub s.idle 1
  idlePatch { s with idle := idle } slot.idlePrev slot.idleNext

/-- Detach the oldest idle key. -/
def idleUnlinkHead (s : Scheduler K P S CLASSES) : Checked (Scheduler K P S CLASSES) := do
  let key ← expect s.idleHead "the caller observed a listed key"
  let slot ← expect (s.keys.lookup key) "a listed key has a slot"
  assert slot.idlePrev.isNone "the head of the idle list has no predecessor"
  idleUnlink { s with keys := s.keys.insert key slot.detach } slot

/-- Append a key that has just gone idle to the newest end of the idle list. -/
def idleLink (s : Scheduler K P S CLASSES) (key : K) (now : Duration) :
    Checked (Scheduler K P S CLASSES) := do
  let tail := s.idleTail
  let slot ← expect (s.keys.lookup key) "a settled key has a slot"
  assert (slot.presence == .idle) "a linked key is idle"
  assert (slot.idlePrev.isNone && slot.idleNext.isNone) "a linked key is detached"
  let slot := { slot with idleSince := now, idlePrev := tail }
  let s ← linkNext { s with keys := s.keys.insert key slot } tail (some key)
  .ok { s with idleTail := some key, idle := s.idle + 1 }

/-- Append a key to the ring of a class. -/
def pushReady (s : Scheduler K P S CLASSES) (classId : ClassId) (key : K) :
    Checked (Scheduler K P S CLASSES) := do
  let ⟨h⟩ ← inBounds classId.toNat CLASSES
  .ok { s with
    ready := Function.update s.ready ⟨_, h⟩ (s.ready ⟨_, h⟩ ++ [key]) }

/-- Set a slot's presence from its queue head, with the ring it should join. -/
def settle (slab : Slab (Item P)) (slot : Slot K S) :
    Checked (Slot K S × Option ClassId) := do
  match ← slab.front slot.queue with
  | some head => .ok ({ slot with presence := .ready head.classId }, some head.classId)
  | none => .ok ({ slot with presence := .idle }, none)

/-- Put a key in the ring `target`, or on the idle list. -/
def place (s : Scheduler K P S CLASSES) (key : K) (target : Option ClassId) (now : Duration) :
    Checked (Scheduler K P S CLASSES) :=
  match target with
  | some classId => s.pushReady classId key
  | none => s.idleLink key now

/-- Settle a key with the given slot and place it. -/
def settleAndPlace (s : Scheduler K P S CLASSES) (key : K) (slot : Slot K S) (now : Duration) :
    Checked (Scheduler K P S CLASSES) := do
  let (slot, target) ← settle s.slab slot
  place { s with keys := s.keys.insert key slot } key target now

/-! ### Admission and dispatch -/

/-- Queue an item behind its key. -/
def admitItem (s : Scheduler K P S CLASSES) (item : Admit K P) :
    Checked (Scheduler K P S CLASSES) := do
  assert (item.classId.toNat < CLASSES) "the class is outside 0..CLASSES"
  let s := { s with pending := s.pending + 1 }
  let (slot, resurrected) := match s.keys.lookup item.key with
    | some slot => (slot, true)
    | none => (Slot.cold, false)
  let (slab, queue) ← s.slab.pushBack slot.queue ⟨item.classId, item.expiresAt, item.payload⟩
  let s := { s with slab := slab }
  let slot := { slot with queue := queue }
  if slot.presence = .idle then
    let joined := { slot with presence := .ready item.classId }
    if resurrected then do
      let s ← idleUnlink { s with keys := s.keys.insert item.key joined.detach } slot
      s.pushReady item.classId item.key
    else
      pushReady { s with keys := s.keys.insert item.key joined } item.classId item.key
  else
    .ok { s with keys := s.keys.insert item.key slot }

/-- Drop the expired heads of a queue that are of class `classId`, and take the first head
of that class that has not expired. -/
def dropExpired (classId : ClassId) (now : Duration) (key : K) :
    ℕ → Scheduler K P S CLASSES → Fifo →
      Checked (Scheduler K P S CLASSES × Fifo × Option (Item P))
  | 0, _, _ => .error .hang
  | fuel + 1, s, queue => do
      match ← s.slab.front queue with
      | none => .ok (s, queue, none)
      | some head =>
          if head.classId ≠ classId then
            .ok (s, queue, none)
          else if head.isExpired now then do
            let (slab, queue, item) ← s.slab.popFront queue
            let item ← expect item "front was just observed"
            let pending ← sub s.pending 1
            dropExpired classId now key fuel
              { s with
                slab := slab, pending := pending,
                expired := s.expired ++ [(key, item.classId, item.payload)] }
              queue
          else do
            let (slab, queue, item) ← s.slab.popFront queue
            .ok ({ s with slab := slab }, queue, item)

/-- The dispatch loop over the ring of a class with room in its budget. -/
def nextLoop (classId : ClassId) (index : Fin CLASSES) (now : Duration) :
    ℕ → Scheduler K P S CLASSES → Checked (Scheduler K P S CLASSES × Option (Dispatch K P S))
  | 0, _ => .error .hang
  | fuel + 1, s =>
      match s.ready index with
      | [] => .ok (s, none)
      | key :: ring => do
          let s := { s with ready := Function.update s.ready index ring }
          let slot ← expect (s.keys.lookup key) "ready key has a slot"
          let (s, queue, taken) ← dropExpired classId now key (slot.queue.len + 1) s slot.queue
          match taken with
          | some item =>
              let taken := { slot with queue := queue, presence := .inFlight, resident := none }
              .ok ({ s with
                keys := s.keys.insert key taken,
                inflight := Function.update s.inflight index (s.inflight index + 1) },
                some ⟨key, classId, slot.resident, item.payload⟩)
          | none => do
              let (slot, target) ← settle s.slab { slot with queue := queue }
              assert (target != some classId) "a skipped key leaves the ring"
              let s ← place { s with keys := s.keys.insert key slot } key target now
              nextLoop classId index now fuel s

/-- Dispatch the next ready item of a class, discarding expired items on the way. -/
def next (s : Scheduler K P S CLASSES) (classId : ClassId) (now : Duration) :
    Checked (Scheduler K P S CLASSES × Option (Dispatch K P S)) := do
  let ⟨h⟩ ← inBounds classId.toNat CLASSES
  if s.cfg.maxInflight ⟨_, h⟩ ≤ s.inflight ⟨_, h⟩ then
    .ok (s, none)
  else
    nextLoop classId ⟨_, h⟩ now ((s.ready ⟨_, h⟩).length + 1) s

/-- Take an item that was discarded at dispatch. -/
def popExpired (s : Scheduler K P S CLASSES) :
    Scheduler K P S CLASSES × Option (K × ClassId × P) :=
  ({ s with expired := s.expired.tail }, s.expired.head?)

/-- Return a key's state and place it again. -/
def complete (s : Scheduler K P S CLASSES) (completion : Completion K S) (now : Duration) :
    Checked (Scheduler K P S CLASSES) := do
  let ⟨h⟩ ← inBounds completion.classId.toNat CLASSES
  let inflight ← sub (s.inflight ⟨_, h⟩) 1
  let pending ← sub s.pending 1
  let s := { s with
    inflight := Function.update s.inflight ⟨_, h⟩ inflight, pending := pending }
  let slot ← expect (s.keys.lookup completion.key) "completed key has a slot"
  assert (slot.presence == .inFlight) "a completed key is in flight"
  s.settleAndPlace completion.key { slot with resident := completion.state.intoOption } now

/-! ### Eviction -/

/-- Quiesce one eviction candidate and hand back its state, or drop the key. -/
def release (s : Scheduler K P S CLASSES) (key : K) (out : List (K × S)) :
    Checked (Scheduler K P S CLASSES × List (K × S)) := do
  let slot ← expect (s.keys.lookup key) "a listed key has a slot"
  assert (slot.presence == .idle) "a released key is idle"
  match slot.resident with
  | some state =>
      let released := { slot with resident := none, presence := .evicting }
      .ok ({ s with keys := s.keys.insert key released, evicting := s.evicting + 1 },
        out ++ [(key, state)])
  | none => .ok ({ s with keys := s.keys.erase key }, out)

/-- The sweep over at most the given number of candidates. -/
def evictLoop (now : Duration) :
    ℕ → Scheduler K P S CLASSES → List (K × S) →
      Checked (Scheduler K P S CLASSES × List (K × S))
  | 0, s, out => .ok (s, out)
  | iters + 1, s, out =>
      match s.idleHead with
      | none => .ok (s, out)
      | some key => do
          let slot ← expect (s.keys.lookup key) "a listed key has a slot"
          let idleLongEnough := decide (s.cfg.evictAfter ≤ now - slot.idleSince)
          let resident ← sub s.keys.keys.length s.evicting
          let overCapacity := s.cfg.maxResident.any fun max => max < resident
          if !idleLongEnough && !overCapacity then
            .ok (s, out)
          else do
            let s ← s.idleUnlinkHead
            let (s, out) ← s.release key out
            evictLoop now iters s out

/-- Collect keys whose resident state should be flushed and released. -/
def evict (s : Scheduler K P S CLASSES) (now : Duration) (out : List (K × S)) :
    Checked (Scheduler K P S CLASSES × List (K × S)) :=
  evictLoop now s.cfg.evictIters s out

/-- The sweep over the whole idle list. -/
def evictAllLoop :
    ℕ → Scheduler K P S CLASSES → List (K × S) →
      Checked (Scheduler K P S CLASSES × List (K × S))
  | 0, _, _ => .error .hang
  | fuel + 1, s, out =>
      match s.idleHead with
      | none => .ok (s, out)
      | some key => do
          let s ← s.idleUnlinkHead
          let (s, out) ← s.release key out
          evictAllLoop fuel s out

/-- Flush and release every resident key at once. -/
def evictAll (s : Scheduler K P S CLASSES) (out : List (K × S)) :
    Checked (Scheduler K P S CLASSES × List (K × S)) :=
  evictAllLoop (s.idle + 1) s out

/-- Release a key quiesced by an eviction once its flush finished. -/
def finishEvict (s : Scheduler K P S CLASSES) (key : K) (now : Duration) :
    Checked (Scheduler K P S CLASSES) := do
  let evicting ← sub s.evicting 1
  let s := { s with evicting := evicting }
  match s.keys.lookup key with
  | none => .error (.assertion "finished eviction for an unknown key")
  | some slot => do
      assert (slot.presence == .evicting) "a finished eviction was quiesced"
      if slot.queue.isEmpty then
        .ok { s with keys := s.keys.erase key }
      else
        s.settleAndPlace key slot now

/-! ### The structural check -/

/-- The weight of a slot that has the given presence. -/
def presenceWeight (p : Presence → Bool) (slot : Slot K S) : ℕ :=
  if p slot.presence then 1 else 0

/-- The check of the keys of one ring. -/
def checkRing (s : Scheduler K P S CLASSES) (classId : ClassId) : List K → Except String Unit
  | [] => .ok ()
  | key :: ring => do
      let slot ← match s.keys.lookup key with
        | some slot => .ok slot
        | none => .error "a ready key has no slot"
      if slot.presence ≠ .ready classId then
        .error "ready key is inconsistent with the ring holding it"
      let head := match s.slab.front slot.queue with
        | .ok item => item.map Item.classId
        | .error _ => none
      if head ≠ some classId then
        .error "ready key is inconsistent with its queue head"
      checkRing s classId ring

/-- The check of the rings from index `class` on. -/
def checkRings (s : Scheduler K P S CLASSES) : List (Fin CLASSES) → Except String Unit
  | [] => .ok ()
  | index :: rest => do
      checkRing s (UInt8.ofNat index.val) (s.ready index)
      checkRings s rest

/-- The check of the slots one by one. -/
def checkSlots : List (Slot K S) → Except String Unit
  | [] => .ok ()
  | slot :: rest =>
      match slot.presence with
      | .idle => if slot.queue.isEmpty then checkSlots rest else .error "idle key is queued"
      | .ready _ => checkSlots rest
      | _ =>
          if slot.resident.isSome then
            .error "a key that gave up its state still holds it"
          else
            checkSlots rest

/-- The walk of the idle list, with the number of keys walked and the last one. -/
def checkIdle (s : Scheduler K P S CLASSES) :
    ℕ → ℕ → Option K → Option K → Except String (ℕ × Option K)
  | 0, _, _, _ => .error "the idle list cycles"
  | fuel + 1, walked, previous, cursor =>
      match cursor with
      | none => .ok (walked, previous)
      | some key => do
          if s.keys.keys.length < walked then
            .error "the idle list cycles"
          let slot ← match s.keys.lookup key with
            | some slot => .ok slot
            | none => .error "a key on the idle list has no slot"
          if slot.presence ≠ .idle then
            .error "a key that is not idle is on the idle list"
          if slot.idlePrev ≠ previous then
            .error "the idle list's back links disagree with its forward links"
          checkIdle s fuel (walked + 1) cursor slot.idleNext

/-- The structural invariants of a scheduler, checked one after the other. -/
def checkInvariants (s : Scheduler K P S CLASSES) : Except String Unit := do
  let queued := s.keys.total fun slot => slot.queue.len
  let inflight := ∑ c, s.inflight c
  if s.pending ≠ queued + inflight then
    .error "pending != queued + in-flight"
  if s.keys.total (presenceWeight (· == .inFlight)) ≠ inflight then
    .error "in-flight counters disagree with key ownership"
  if s.keys.total (presenceWeight (· == .evicting)) ≠ s.evicting then
    .error "evicting counter disagrees with key ownership"
  checkRings s (List.finRange CLASSES)
  if ∑ c, (s.ready c).length ≠ s.keys.total (presenceWeight Presence.isReady) then
    .error "ready rings disagree with key presence"
  checkSlots s.keys.values
  let (walked, previous) ← checkIdle s (s.keys.keys.length + 2) 0 none s.idleHead
  if s.idleTail ≠ previous then
    .error "the idle list's tail is not the last key on it"
  if walked ≠ s.idle then
    .error "the idle counter disagrees with the idle list"
  if walked ≠ s.keys.total (presenceWeight (· == .idle)) then
    .error "an idle key is missing from the idle list"

end Scheduler

/-! ### Reporting -/

/-- What a scheduler reports of itself. -/
structure Snapshot (CLASSES : ℕ) where
  inflight : Fin CLASSES → ℕ
  ready : Fin CLASSES → ℕ
  pending : ℕ
  resident : ℕ
  evicting : ℕ
  /-- Keys on the idle list. -/
  evictionBacklog : ℕ
  queueCapacity : ℕ

/-- The counters of a scheduler. -/
def Scheduler.snapshot {K P S : Type} {CLASSES : ℕ} (s : Scheduler K P S CLASSES) :
    Snapshot CLASSES where
  inflight := s.inflight
  ready := fun i => (s.ready i).length
  pending := s.pending
  resident := s.keys.keys.length
  evicting := s.evicting
  evictionBacklog := s.idle
  queueCapacity := s.slab.capacity

end Grommet
