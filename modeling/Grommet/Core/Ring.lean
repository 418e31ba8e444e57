import Grommet.Library.Checked
import Mathlib.Algebra.Ring.Nat

/-!
# A bounded ring with many producers and one consumer

A position names a slot and a lap in one word.  A producer claims the position at the tail by
an exchange, writes its value and publishes it by the stamp of the slot; the consumer takes
published values in order and frees their slots by stamping them for the next lap.

Each load, store and exchange is one step, and so is each access of a value cell.  The weak
exchange may fail for no reason.
-/

open Checked

namespace Grommet.Ring

variable {T : Type}

/-- The number of words. -/
def wordSize : ℕ := 2 ^ 64

/-- The largest ring that the encoding of laps can address. -/
def MAX_CAPACITY : ℕ := (wordSize - 1) / 2

/-- The storage of one position and its stamp. -/
structure Slot (T : Type) where
  stamp : ℕ
  value : Option T
  deriving DecidableEq

/-- What the producers and the consumer share. -/
structure Inner (T : Type) where
  /-- The next position to be claimed. -/
  tail : ℕ
  slots : List (Slot T)
  capacity : ℕ
  /-- The distance between two laps. -/
  oneLap : ℕ
  deriving DecidableEq

/-- The smallest power of two that is not less. -/
def nextPowerOfTwo (n : ℕ) : ℕ := if n ≤ 1 then 1 else 2 ^ (Nat.log2 (n - 1) + 1)

/-- Create a ring of exactly `capacity` slots. -/
def bounded (capacity : ℕ) : Checked (Inner T) := do
  assert (0 < capacity) "a ring needs capacity"
  assert (capacity ≤ MAX_CAPACITY) "a ring holds at most 9223372036854775807 items"
  .ok {
    tail := 0
    slots := (List.range capacity).map fun index => ⟨index, none⟩
    capacity := capacity
    oneLap := nextPowerOfTwo (capacity + 1) }

namespace Inner

/-- The slot of a position. -/
def index (ring : Inner T) (position : ℕ) : ℕ := position &&& (ring.oneLap - 1)

/-- The position after another one, carrying the lap. -/
def advance (ring : Inner T) (position : ℕ) : ℕ :=
  if ring.index position + 1 < ring.capacity then
    position + 1
  else
    (position - ring.index position + ring.oneLap) % wordSize

/-- The slot of a position, which must be in range. -/
def slot (ring : Inner T) (position : ℕ) : Checked (Slot T) :=
  match ring.slots[ring.index position]? with
  | some slot => .ok slot
  | none => .error .bounds

def setSlot (ring : Inner T) (position : ℕ) (f : Slot T → Slot T) : Inner T :=
  { ring with slots := ring.slots.modify (ring.index position) f }

end Inner

/-- Where a call of `try_push` stands. -/
inductive Push (T : Type) where
  /-- Before the first load of the tail. -/
  | reading (value : T)
  /-- Before the load of the stamp. -/
  | inspecting (value : T) (tail : ℕ)
  /-- Before the exchange of the tail. -/
  | claiming (value : T) (tail : ℕ)
  | writing (value : T) (tail : ℕ)
  /-- Before the store of the stamp. -/
  | publishing (tail : ℕ)
  /-- The slot is neither free nor visibly full: before the load of the tail. -/
  | rereading (value : T) (tail : ℕ)
  | pushed
  /-- There was no room, and the value is handed back. -/
  | refused (value : T)
  deriving DecidableEq

/-- One step of `try_push`; `spurious` tells that a weak exchange fails for no reason. -/
def Push.step (ring : Inner T) (spurious : Bool) : Push T → Checked (Inner T × Push T)
  | reading value => .ok (ring, inspecting value ring.tail)
  | inspecting value tail => do
      let slot ← ring.slot tail
      if slot.stamp = tail then
        .ok (ring, claiming value tail)
      else if (slot.stamp + ring.oneLap) % wordSize = (tail + 1) % wordSize then
        .ok (ring, refused value)
      else
        .ok (ring, rereading value tail)
  | claiming value tail =>
      if ring.tail = tail ∧ !spurious then
        .ok ({ ring with tail := ring.advance tail }, writing value tail)
      else
        .ok (ring, inspecting value ring.tail)
  | writing value tail =>
      .ok (ring.setSlot tail fun slot => { slot with value := some value }, publishing tail)
  | publishing tail =>
      .ok (ring.setSlot tail fun slot => { slot with stamp := (tail + 1) % wordSize }, pushed)
  | rereading value tail =>
      if ring.tail = tail then
        .ok (ring, refused value)
      else
        .ok (ring, inspecting value ring.tail)
  | pushed => .ok (ring, pushed)
  | refused value => .ok (ring, refused value)

/-- Where a call of `pop` stands. -/
inductive Pop (T : Type) where
  /-- Before the load of the stamp. -/
  | looking
  /-- The slot is published: before its value is taken. -/
  | emptying
  /-- Before the store of the stamp. -/
  | freeing (value : Option T)
  | popped (value : Option T)
  deriving DecidableEq

/-- One step of `pop` at the position `head`, and the next position. -/
def Pop.step (ring : Inner T) (head : ℕ) : Pop T → Checked (Inner T × ℕ × Pop T)
  | looking => do
      let slot ← ring.slot head
      if slot.stamp = (head + 1) % wordSize then
        .ok (ring, head, emptying)
      else
        .ok (ring, head, popped none)
  | emptying => do
      let slot ← ring.slot head
      .ok (ring.setSlot head fun slot => { slot with value := none }, head, freeing slot.value)
  | freeing value =>
      .ok (ring.setSlot head fun slot => { slot with stamp := (head + ring.oneLap) % wordSize },
        ring.advance head, popped value)
  | popped value => .ok (ring, head, popped value)

end Grommet.Ring
