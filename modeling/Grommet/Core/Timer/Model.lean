import Grommet.Library.Checked
import Grommet.Library.Chain
import Mathlib.Algebra.Ring.Nat

/-!
# The timer wheel

A hierarchical wheel of eight levels with sixty-four slots each.  A timer is filed by the
highest digit in which its deadline differs from the cursor, and moves to lower levels as
the cursor comes closer.  The entries of a slot are threaded on a doubly linked list
through a slab of fixed capacity; free entries are threaded on a list of their own.

Ticks are numbers below `2 ^ 64`, occupancy masks are words of 64 bits.  The definitions
are those of a debug build: assertions, array bounds, unsigned subtractions and expected
values are checked.
-/

open Checked

namespace Grommet.Timer

/-- Hierarchy depth. -/
def LEVELS : ℕ := 8
def SLOT_BITS : ℕ := 6
def SLOTS : ℕ := 64
def SLOT_MASK : ℕ := 63

/-- Maximum forward distance accepted by the wheel. -/
def MAX_DELAY_TICKS : ℕ := 2 ^ 48 - 1

def U64_MAX : ℕ := 2 ^ 64 - 1

/-- The largest tick, as `u64::MAX` stands for no event. -/
def MAX_TICK : ℕ := U64_MAX - 1

/-- End of a slot list and of the free list. -/
def NIL : ℕ := 2 ^ 32 - 1
def FREE_LEVEL : ℕ := 254
def RETIRED_LEVEL : ℕ := 255

/-- A cancellation and rescheduling handle: a non-zero word of 128 bits. -/
structure TimerId where
  raw : ℕ
  nonzero : raw ≠ 0
  bound : raw < 2 ^ 128
  deriving DecidableEq

namespace TimerId

/-- The handle with an integer representation, if it is one. -/
def ofNat (raw : ℕ) : Option TimerId :=
  if h : raw ≠ 0 ∧ raw < 2 ^ 128 then some ⟨raw, h.1, h.2⟩ else none

/-- The handle of a wheel, a generation and an index. -/
def new (wheel generation index : ℕ) : Checked TimerId := do
  assert (wheel != 0) "the wheel id is not zero"
  assert (generation != 0) "the generation is not zero"
  assert (index != NIL) "the index is not the sentinel"
  expect (ofNat (wheel <<< 96 ||| generation <<< 32 ||| (index + 1)))
    "wheel id, generation, and index are non-zero encoded"

/-- The wheel, the generation and the index of a handle. -/
def parts (id : TimerId) : Option (ℕ × ℕ × ℕ) :=
  let wheel := (id.raw >>> 96) % 2 ^ 32
  let generation := (id.raw >>> 32) % 2 ^ 64
  let encodedIndex := id.raw % 2 ^ 32
  if wheel = 0 ∨ generation = 0 ∨ encodedIndex = 0 then
    none
  else
    some (wheel, generation, encodedIndex - 1)

end TimerId

/-- Why an insertion was rejected. -/
inductive InsertErrorKind where
  /-- Every configured slab position is live or permanently retired. -/
  | full
  /-- The deadline is more than `MAX_DELAY_TICKS` ahead of the cursor. -/
  | deadlineTooFar
  /-- The supplied deadline cannot be represented by the tick clock. -/
  | timeOutOfRange
  deriving DecidableEq

/-- A failed insertion, retaining ownership of the token. -/
structure InsertError (T : Type) where
  kind : InsertErrorKind
  token : T
  deriving DecidableEq

/-- Why a reschedule was rejected. -/
inductive RescheduleError where
  /-- The handle is stale, malformed, or belongs to another wheel. -/
  | staleId
  | deadlineTooFar
  | timeOutOfRange
  deriving DecidableEq

/-- A slab position. -/
structure Entry (T : Type) where
  deadline : ℕ
  generation : ℕ
  token : Option T
  next : ℕ
  prev : ℕ
  level : ℕ
  slot : ℕ
  deriving DecidableEq

/-- A fixed-capacity hierarchical timer wheel. -/
structure Wheel (T : Type) where
  entries : List (Entry T)
  free : ℕ
  live : ℕ
  /-- The first entry of the slot of a level. -/
  heads : ℕ × ℕ → ℕ
  occupied : ℕ → BitVec 64
  retired : ℕ
  cursor : ℕ
  nextEvent : ℕ
  wheelId : ℕ

/-! ### Placement -/

/-- The number of leading zeros of a word of 64 bits. -/
def leadingZeros (x : ℕ) : ℕ :=
  if x = 0 then 64 else 63 - x.log2

/-- The deadline is at most `MAX_DELAY_TICKS` ahead of the cursor. -/
def deadlineFits (cursor deadline : ℕ) : Bool :=
  deadline ≤ cursor || deadline - cursor ≤ MAX_DELAY_TICKS

/-- Absolute start of the next occurrence of a slot. -/
def slotWakeup (cursor level slot : ℕ) : ℕ :=
  let shift := level * SLOT_BITS
  let width := 1 <<< shift
  let rotation := width <<< SLOT_BITS
  let withinRotation := cursor &&& (rotation - 1)
  let slotStart := slot * width
  let distance :=
    if withinRotation ≤ slotStart then
      slotStart - withinRotation
    else
      rotation - withinRotation + slotStart
  min (cursor + distance) U64_MAX

/-- The level and the slot of a deadline. -/
def placement (cursor deadline : ℕ) : Checked (ℕ × ℕ) :=
  if deadline ≤ cursor then
    .ok (0, cursor &&& SLOT_MASK)
  else do
    assert (deadlineFits cursor deadline) "a placed deadline fits"
    let differing := 63 - leadingZeros (cursor ^^^ deadline)
    let level := min (differing / SLOT_BITS) (LEVELS - 1)
    let slot := (deadline >>> (level * SLOT_BITS)) &&& SLOT_MASK
    assert (slotWakeup cursor level slot ≤ deadline) "a slot is visited before its deadlines"
    .ok (level, slot)

/-- The next wheel id of a process that has made no wheel. -/
def NEXT_WHEEL_ID : ℕ := 1

/-- Take the next wheel id. -/
def allocateWheelId (next : ℕ) : Checked (ℕ × ℕ) := do
  let after ← expect (if next + 1 < 2 ^ 32 then some (next + 1) else none)
    "the process constructed more than u32::MAX - 1 timer wheels"
  .ok (next, after)

namespace Wheel

variable {T : Type}

/-- A wheel of the given capacity whose cursor starts at `now`. -/
def withCapacityAtTick (capacity now wheelId : ℕ) : Checked (Wheel T) := do
  assert (capacity ≤ NIL) "timer-wheel capacity exceeds u32 indexing"
  assert (now ≤ MAX_TICK) "u64::MAX is reserved as the empty-event sentinel"
  .ok {
    entries := (List.range capacity).map fun index => {
      deadline := 0
      generation := 0
      token := none
      next := if index + 1 < capacity then index + 1 else NIL
      prev := NIL
      level := FREE_LEVEL
      slot := 0 }
    free := if capacity = 0 then NIL else 0
    live := 0
    retired := 0
    heads := fun _ => NIL
    occupied := fun _ => 0#64
    cursor := now
    nextEvent := U64_MAX
    wheelId := wheelId }

/-- The entry at an index, which must be in range. -/
def entry (w : Wheel T) (index : ℕ) : Checked (Entry T) :=
  match w.entries[index]? with
  | some entry => .ok entry
  | none => .error .bounds

/-- Write the entry at an index. -/
def setEntry (w : Wheel T) (index : ℕ) (entry : Entry T) : Wheel T :=
  { w with entries := w.entries.set index entry }

/-- The first entry of a slot, whose level and number must be in range. -/
def head (w : Wheel T) (level slot : ℕ) : Checked ℕ := do
  let _ ← inBounds level LEVELS
  let _ ← inBounds slot SLOTS
  .ok (w.heads (level, slot))

/-- Whether a slot of a level is occupied. -/
def isOccupied (w : Wheel T) (level slot : ℕ) : Bool :=
  w.occupied level &&& (1#64 <<< slot) != 0#64

/-- Write the first entry of a slot. -/
def setHead (w : Wheel T) (level slot index : ℕ) : Wheel T :=
  { w with heads := Function.update w.heads (level, slot) index }

/-- Mark a slot as occupied. -/
def occupy (w : Wheel T) (level slot : ℕ) : Wheel T :=
  { w with occupied := Function.update w.occupied level (w.occupied level ||| (1#64 <<< slot)) }

/-- Mark a slot as empty. -/
def vacate (w : Wheel T) (level slot : ℕ) : Wheel T :=
  { w with
    occupied := Function.update w.occupied level (w.occupied level &&& ~~~(1#64 <<< slot)) }

/-- Set the back link of an entry, if there is one. -/
def linkPrev (w : Wheel T) (index prev : ℕ) : Checked (Wheel T) :=
  if index = NIL then
    .ok w
  else do
    let entry ← w.entry index
    .ok (w.setEntry index { entry with prev := prev })

/-- File an entry under its deadline. -/
def file (w : Wheel T) (index deadline : ℕ) : Checked (Wheel T) := do
  let (level, slot) ← placement w.cursor deadline
  let head ← w.head level slot
  let entry ← w.entry index
  let entry := { entry with
    deadline := deadline, next := head, prev := NIL, level := level, slot := slot }
  let w ← (w.setEntry index entry).linkPrev head index
  let w := (w.setHead level slot index).occupy level slot
  .ok { w with nextEvent := min w.nextEvent (slotWakeup w.cursor level slot) }

/-- The earliest wakeup of a level, or `soonest`. -/
def soonestOfLevel (w : Wheel T) (soonest level : ℕ) : ℕ :=
  let occupied := w.occupied level
  if occupied = 0#64 then
    soonest
  else
    let here := (w.cursor >>> (level * SLOT_BITS)) &&& SLOT_MASK
    let other := occupied &&& ~~~(1#64 <<< here)
    let soonest :=
      if other ≠ 0#64 then
        let ahead := (other.rotateRight here).ctz.toNat
        min soonest (slotWakeup w.cursor level ((here + ahead) &&& (SLOTS - 1)))
      else
        soonest
    if w.isOccupied level here then
      min soonest (slotWakeup w.cursor level here)
    else
      soonest

/-- The earliest wakeup of all levels. -/
def computeNextEvent (w : Wheel T) : Option ℕ :=
  let soonest := (List.range LEVELS).foldl w.soonestOfLevel U64_MAX
  if soonest ≠ U64_MAX then some soonest else none

/-- Cache the earliest wakeup. -/
def refresh (w : Wheel T) : Wheel T :=
  { w with nextEvent := w.computeNextEvent.getD U64_MAX }

/-- Detach the entries of a slot. -/
def take (w : Wheel T) (level slot : ℕ) : Checked (Wheel T × ℕ) := do
  let head ← w.head level slot
  .ok ((w.setHead level slot NIL).vacate level slot, head)

/-- Detach one entry from its slot. -/
def unlink (w : Wheel T) (index : ℕ) : Checked (Wheel T) := do
  let entry ← w.entry index
  if entry.prev = NIL then do
    let _ ← w.head entry.level entry.slot
    let w := w.setHead entry.level entry.slot entry.next
    let w := if entry.next = NIL then w.vacate entry.level entry.slot else w
    w.linkPrev entry.next entry.prev
  else do
    let before ← w.entry entry.prev
    let w := w.setEntry entry.prev { before with next := entry.next }
    w.linkPrev entry.next entry.prev

/-! ### Fixed slab -/

/-- Store a token in the first free entry. -/
def allocate (w : Wheel T) (deadline : ℕ) (token : T) : Checked (Wheel T × ℕ) := do
  let index := w.free
  assert (index != NIL) "the caller observed a free entry"
  let entry ← w.entry index
  assert entry.token.isNone "a free entry holds no token"
  assert (entry.level == FREE_LEVEL) "a free entry has the free level"
  assert (entry.generation != U64_MAX) "a free entry has a generation left"
  let w := w.setEntry index { entry with
    deadline := deadline, generation := entry.generation + 1, token := some token,
    next := NIL, prev := NIL }
  .ok ({ w with free := entry.next, live := w.live + 1 }, index)

/-- Free an entry without a token, or retire it after its last generation. -/
def release (w : Wheel T) (index : ℕ) : Checked (Wheel T) := do
  let entry ← w.entry index
  assert entry.token.isNone "a released entry holds no token"
  let live ← sub w.live 1
  if entry.generation = U64_MAX then
    let w := w.setEntry index { entry with
      prev := NIL, slot := 0, next := NIL, level := RETIRED_LEVEL }
    .ok { w with live := live, retired := w.retired + 1 }
  else
    let w := w.setEntry index { entry with
      prev := NIL, slot := 0, next := w.free, level := FREE_LEVEL }
    .ok { w with live := live, free := index }

/-- Take the token of an entry and release the entry. -/
def discharge (w : Wheel T) (index : ℕ) (message : String) : Checked (Wheel T × T) := do
  let entry ← w.entry index
  let token ← expect entry.token message
  let w ← (w.setEntry index { entry with token := none }).release index
  .ok (w, token)

/-! ### Timers -/

/-- The index of a handle that names a live timer of this wheel. -/
def liveIndex (w : Wheel T) (id : TimerId) : Option ℕ := do
  let (wheel, generation, index) ← id.parts
  if wheel ≠ w.wheelId then
    none
  else do
    let entry ← w.entries[index]?
    if entry.generation = generation ∧ entry.token.isSome then some index else none

/-- Schedule a token at an absolute tick. -/
def tryInsertAt (w : Wheel T) (deadline : ℕ) (token : T) :
    Checked (Wheel T × Except (InsertError T) TimerId) :=
  if MAX_TICK < deadline then
    .ok (w, .error ⟨.timeOutOfRange, token⟩)
  else if !deadlineFits w.cursor deadline then
    .ok (w, .error ⟨.deadlineTooFar, token⟩)
  else if w.free = NIL then
    .ok (w, .error ⟨.full, token⟩)
  else do
    let (w, index) ← w.allocate deadline token
    let w ← w.file index deadline
    let entry ← w.entry index
    let id ← TimerId.new w.wheelId entry.generation index
    .ok (w, .ok id)

/-- Whether an entry is alone in its slot and its slot is the next event. -/
def isEarliest (w : Wheel T) (entry : Entry T) : Bool :=
  (entry.prev = NIL && entry.next = NIL) &&
    slotWakeup w.cursor entry.level entry.slot = w.nextEvent

/-- Cancel a timer and return its token. -/
def cancel (w : Wheel T) (id : TimerId) : Checked (Wheel T × Option T) :=
  match w.liveIndex id with
  | none => .ok (w, none)
  | some index => do
      let entry ← w.entry index
      let removedEarliest := w.isEarliest entry
      let w ← w.unlink index
      let (w, token) ← w.discharge index "a generation-checked live entry holds a token"
      .ok (if removedEarliest then w.refresh else w, some token)

/-- Move a timer to a new tick. -/
def rescheduleAt (w : Wheel T) (id : TimerId) (deadline : ℕ) :
    Checked (Wheel T × Except RescheduleError Unit) :=
  if MAX_TICK < deadline then
    .ok (w, .error .timeOutOfRange)
  else if !deadlineFits w.cursor deadline then
    .ok (w, .error .deadlineTooFar)
  else
    match w.liveIndex id with
    | none => .ok (w, .error .staleId)
    | some index => do
        let entry ← w.entry index
        let removedEarliest := w.isEarliest entry
        let w ← w.unlink index
        let entry ← w.entry index
        let w := w.setEntry index { entry with deadline := deadline }
        let w ← w.file index deadline
        .ok (if removedEarliest then w.refresh else w, .ok ())

/-! ### Sweeping -/

/-- File the entries of a detached list again. -/
def refile : ℕ → Wheel T → ℕ → Checked (Wheel T)
  | 0, _, _ => .error .hang
  | fuel + 1, w, index =>
      if index = NIL then
        .ok w
      else do
        let entry ← w.entry index
        let w ← w.file index entry.deadline
        refile fuel w entry.next

/-- File the entries of the slot under the cursor of one level again. -/
def cascadeLevel (w : Wheel T) (level : ℕ) : Checked (Wheel T) :=
  let slot := (w.cursor >>> (level * SLOT_BITS)) &&& SLOT_MASK
  if w.isOccupied level slot then do
    let (w, index) ← w.take level slot
    refile (w.entries.length + 1) w index
  else
    .ok w

/-- File the entries of the slots under the cursor again, highest level first. -/
def cascade (w : Wheel T) : Checked (Wheel T) :=
  [7, 6, 5, 4, 3, 2, 1].foldlM cascadeLevel w

/-- Take the tokens of a detached list. -/
def fireLoop : ℕ → Wheel T → ℕ → Checked (Wheel T × List T)
  | 0, _, _ => .error .hang
  | fuel + 1, w, index =>
      if index = NIL then
        .ok (w, [])
      else do
        let entry ← w.entry index
        assert (entry.deadline ≤ w.cursor) "a fired entry is due"
        let (w, token) ← w.discharge index "a filed entry always holds a token"
        let (w, tokens) ← fireLoop fuel w entry.next
        .ok (w, token :: tokens)

/-- Take the tokens of the slot under the cursor of the lowest level. -/
def fire (w : Wheel T) : Checked (Wheel T × List T) :=
  let slot := w.cursor &&& SLOT_MASK
  if w.isOccupied 0 slot then do
    let (w, index) ← w.take 0 slot
    fireLoop (w.entries.length + 1) w index
  else
    .ok (w, [])

/-- One event of the wheel: move the cursor to it, cascade, fire and look for the next. -/
def turn (w : Wheel T) : Checked (Wheel T × List T) := do
  assert (w.cursor ≤ w.nextEvent) "cached event moved behind the cursor"
  let w ← cascade { w with cursor := w.nextEvent }
  let (w, fired) ← w.fire
  .ok (w.refresh, fired)

/-- The events up to the target, in order. -/
def advanceLoop (target : ℕ) : ℕ → Wheel T → Checked (Wheel T × List T)
  | 0, _ => .error .hang
  | fuel + 1, w =>
      if w.nextEvent = U64_MAX ∨ target < w.nextEvent then
        .ok ({ w with cursor := target }, [])
      else do
        let (w, fired) ← w.turn
        let (w, rest) ← advanceLoop target fuel w
        .ok (w, fired ++ rest)

/-- Advance to a target and hand out the due tokens. -/
def advanceTo (w : Wheel T) (target : ℕ) : Checked (Wheel T × List T) := do
  assert (target ≤ MAX_TICK) "the target is a tick"
  if MAX_TICK < target ∨ target < w.cursor then
    .ok (w, [])
  else if target < w.nextEvent then
    .ok ({ w with cursor := target }, [])
  else
    advanceLoop target (LEVELS * w.live + 1) w

end Wheel

/-! ### Durations -/

/-- The base-2 logarithm of a tick in nanoseconds, unless a wheel names another. -/
def SHIFT : ℕ := 10

/-- Convert current time to ticks by rounding down. -/
def durationToTickFloor (shift time : ℕ) : Option ℕ :=
  let ticks := time >>> shift
  if ticks ≤ MAX_TICK then some ticks else none

/-- Convert a deadline to ticks by rounding up. -/
def durationToTickCeil (shift time : ℕ) : Option ℕ :=
  let mask := (1 <<< shift) - 1
  let ticks := (time >>> shift) + if time &&& mask = 0 then 0 else 1
  if ticks ≤ MAX_TICK then some ticks else none

namespace Wheel

variable {T : Type}

/-- Whether advancing to `now` would perform wheel maintenance or fire. -/
def isDueAt (w : Wheel T) (now : ℕ) : Bool := w.nextEvent ≤ now

/-- Whether advancing to a time would perform wheel maintenance or fire. -/
def isDueDuration (w : Wheel T) (shift now : ℕ) : Bool :=
  match durationToTickFloor shift now with
  | some tick => w.isDueAt tick
  | none => w.live != 0

/-- Schedule a token at an absolute time. -/
def tryInsertDuration (w : Wheel T) (shift deadline : ℕ) (token : T) :
    Checked (Wheel T × Except (InsertError T) TimerId) :=
  match durationToTickCeil shift deadline with
  | some tick => w.tryInsertAt tick token
  | none => .ok (w, .error ⟨.timeOutOfRange, token⟩)

/-- Advance to a time and hand out the due tokens, unless the time is out of range. -/
def advanceDuration (w : Wheel T) (shift now : ℕ) : Option (Checked (Wheel T × List T)) :=
  (durationToTickFloor shift now).map w.advanceTo

end Wheel

end Grommet.Timer
