import Grommet.Library.Checked
import Mathlib.Algebra.Ring.Nat

/-!
# The queue of parked callers

A caller that found no room parks its waker in a slot and holds a ticket for it.  Slots are
recycled, so a ticket carries the generation of its registration, and so does the entry of
the registration in the order of arrival.  An entry whose registration is over stays in the
order until it is skipped or compacted away.

Each operation takes the lock once and is one step; waking the wakers it collected is part
of the step.  A waker is known by its identity: two wakers wake the same task exactly when
they are equal.
-/

open Checked

namespace Grommet.Waiters

abbrev Waker := ℕ

/-- A parked caller's claim on its registration. -/
structure Ticket where
  slot : ℕ
  generation : ℕ
  deriving DecidableEq

/-- The mailbox is gone, so a caller cannot park. -/
inductive Closed where
  | closed
  deriving DecidableEq

structure Slot where
  /-- Absent once the registration is over. -/
  waker : Option Waker
  generation : ℕ
  deriving DecidableEq

structure Inner where
  slots : List Slot
  /-- The free slots, last freed first. -/
  free : List ℕ
  /-- The registrations in the order of their arrival. -/
  order : List Ticket
  nextGeneration : ℕ
  closed : Bool
  deriving DecidableEq

/-- Addition of one to a word of 64 bits. -/
def wrappingSucc (generation : ℕ) : ℕ := (generation + 1) % 2 ^ 64

namespace Inner

/-- The slot with a number, which must be in range. -/
def slot (inner : Inner) (slot : ℕ) : Checked Slot :=
  match inner.slots[slot]? with
  | some entry => .ok entry
  | none => .error .bounds

/-- The waker of a ticket, if its registration is live. -/
def waker (inner : Inner) (ticket : Ticket) : Option Waker :=
  match inner.slots[ticket.slot]? with
  | some entry => if entry.generation = ticket.generation then entry.waker else none
  | none => none

/-- Whether a ticket still names a live registration. -/
def live (inner : Inner) (ticket : Ticket) : Bool :=
  match inner.slots[ticket.slot]? with
  | some entry => entry.generation = ticket.generation && entry.waker.isSome
  | none => false

/-- End the registration in a slot, and return its waker if it was live. -/
def retire (inner : Inner) (slot : ℕ) : Checked (Inner × Option Waker) := do
  let entry ← inner.slot slot
  match entry.waker with
  | some waker =>
      .ok ({ inner with
        slots := inner.slots.set slot ⟨none, wrappingSucc entry.generation⟩
        free := slot :: inner.free }, some waker)
  | none => .ok (inner, none)

/-- Drop the entries whose registrations are over, once they outnumber the others. -/
def compact (inner : Inner) : Checked Inner :=
  if inner.order.length ≤ 8 ∨ inner.order.length < inner.free.length * 2 then
    .ok inner
  else if inner.order.all fun ticket => ticket.slot < inner.slots.length then
    .ok { inner with order := inner.order.filter inner.live }
  else
    .error .bounds

/-- Take entries off the order until one is live, and end its registration. -/
def wakeLoop (inner : Inner) : List Ticket → Checked (Inner × Option Waker)
  | [] => .ok ({ inner with order := [] }, none)
  | ticket :: order => do
      let entry ← inner.slot ticket.slot
      if entry.generation ≠ ticket.generation then
        wakeLoop inner order
      else do
        let (inner, waker) ← inner.retire ticket.slot
        match waker with
        | some waker => .ok ({ inner with order := order }, some waker)
        | none => wakeLoop inner order

/-- Take all entries off the order and end their registrations. -/
def closeLoop (inner : Inner) : List Ticket → Checked (Inner × List Waker)
  | [] => .ok ({ inner with order := [] }, [])
  | ticket :: order => do
      let entry ← inner.slot ticket.slot
      if entry.generation ≠ ticket.generation then
        closeLoop inner order
      else do
        let (inner, waker) ← inner.retire ticket.slot
        let (inner, woken) ← closeLoop inner order
        .ok (inner, waker.toList ++ woken)

/-- Give out a slot for a waker. -/
def register (inner : Inner) (waker : Waker) (generation : ℕ) : Checked (Inner × ℕ) :=
  match inner.free with
  | slot :: free => do
      let _ ← inner.slot slot
      .ok ({ inner with
        slots := inner.slots.set slot ⟨some waker, generation⟩
        free := free }, slot)
  | [] => do
      let slot ← expect (if inner.slots.length < 2 ^ 32 then some inner.slots.length else none)
        "a mailbox parks fewer than 2^32 senders at once"
      .ok ({ inner with slots := inner.slots ++ [⟨some waker, generation⟩] }, slot)

end Inner

end Grommet.Waiters

/-- The callers parked on something, in the order they arrived. -/
structure Grommet.Waiters where
  inner : Grommet.Waiters.Inner
  /-- The number of live registrations, as published. -/
  waiting : ℕ
  deriving DecidableEq

namespace Grommet.Waiters

def new : Waiters where
  inner := { slots := [], free := [], order := [], nextGeneration := 0, closed := false }
  waiting := 0

/-- Whether anyone is parked. -/
def any (w : Waiters) : Bool := w.waiting != 0

/-- Publish the number of live registrations. -/
def publish (inner : Inner) : Checked Waiters := do
  let live ← sub inner.slots.length inner.free.length
  .ok ⟨inner, live⟩

/-- Park a waker, or report that the mailbox is gone. -/
def park (w : Waiters) (waker : Waker) : Checked (Waiters × Except Closed Ticket) :=
  if w.inner.closed then
    .ok (w, .error .closed)
  else do
    let generation := w.inner.nextGeneration
    let inner := { w.inner with nextGeneration := wrappingSucc generation }
    let (inner, slot) ← inner.register waker generation
    let inner ← Inner.compact { inner with order := inner.order ++ [⟨slot, generation⟩] }
    let w ← publish inner
    .ok (w, .ok ⟨slot, generation⟩)

/-- Point a live registration at a new waker. -/
def refresh (w : Waiters) (ticket : Ticket) (waker : Waker) : Waiters :=
  if w.inner.live ticket then
    { w with inner := { w.inner with
        slots := w.inner.slots.modify ticket.slot fun entry =>
          if entry.waker = some waker then entry else { entry with waker := some waker } } }
  else
    w

/-- End a registration because its caller went away, and report whether it was live. -/
def cancel (w : Waiters) (ticket : Ticket) : Checked (Waiters × Bool) :=
  if w.inner.live ticket then do
    let (inner, _) ← w.inner.retire ticket.slot
    let inner ← inner.compact
    let w ← publish inner
    .ok (w, true)
  else
    .ok (w, false)

/-- Wake whoever has waited longest. -/
def wakeOne (w : Waiters) : Checked (Waiters × Option Waker) := do
  let (inner, woken) ← w.inner.wakeLoop w.inner.order
  let w ← publish inner
  .ok (w, woken)

/-- Let nobody park again, and wake everyone. -/
def close (w : Waiters) : Checked (Waiters × List Waker) := do
  let (inner, woken) ← Inner.closeLoop { w.inner with closed := true } w.inner.order
  let w ← publish inner
  .ok (w, woken)

end Grommet.Waiters
