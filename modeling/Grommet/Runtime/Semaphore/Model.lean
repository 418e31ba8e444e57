import Grommet.Runtime.Waiters.Calls
import Grommet.Runtime.Waiters.Protocol

/-!
# Permits

A semaphore counts permits, queues the callers that wait for one and has a flag that tells
that it was closed.  The counter, the flag and the queue are three cells: a caller looks at
them one after the other, and the others move in between.  A caller makes one call, of
`try_acquire`, `acquire` or `close`; a permit it obtains is given back when it is dropped.
-/

open Checked

namespace Grommet.Semaphore

open Waiters (Ticket Waker CallStep)

/-- Where a caller stands. -/
inductive Place where
  | idle
  /-- In the first poll of `acquire`, before it takes a permit. -/
  | trying
  /-- No permit was free; the flag is next. -/
  | checking
  | parking
  | refreshing (ticket : Ticket)
  /-- Registered, before it takes a permit. -/
  | announced (ticket : Ticket)
  | rechecking (ticket : Ticket)
  /-- The last poll returned `Pending`. -/
  | pending (ticket : Ticket)
  /-- The wait is over; the registration is still to be given up. -/
  | finishing (ticket : Ticket) (granted : Bool)
  /-- Dropped after its wake, which is still to be passed on. -/
  | passing
  /-- Returned with a permit. -/
  | holding
  /-- The permit is counted again; whether anyone waits for it is next. -/
  | returning
  | handing
  /-- In `close`, with the flag set. -/
  | flagged
  /-- In `close`, with the queue closed. -/
  | waking
  /-- Returned without a permit. -/
  | refused
  | gone
  deriving DecidableEq

inductive Deed where
  | tryAcquire
  | poll (waker : Waker)
  | take
  | check
  | park
  | refresh
  | finish
  | drop
  | pass
  | release
  | look
  | hand
  | flag
  | shut
  | wake
  deriving DecidableEq

/-- The semaphore and its callers. -/
structure System (ι : Type) where
  semaphore : Semaphore
  waiters : Waiters
  place : ι → Place
  /-- The waker of the last poll. -/
  waker : ι → Waker
  /-- Whether a call of `close` has returned. -/
  returned : Bool
  /-- Whether the last poll began after that. -/
  late : ι → Bool

variable {ι : Type} [DecidableEq ι]

namespace System

def start (permits : ℕ) : System ι where
  semaphore := ⟨permits, false⟩
  waiters := Waiters.new
  place := fun _ => .idle
  waker := fun _ => 0
  returned := false
  late := fun _ => false

def move (s : System ι) (i : ι) (place : Place) : System ι :=
  { s with place := Function.update s.place i place }

def polled (s : System ι) (i : ι) (waker : Waker) : System ι :=
  { s with
    waker := Function.update s.waker i waker
    late := Function.update s.late i s.returned }

omit [DecidableEq ι] in
/-- Decrement the permits if there is anything to decrement. -/
def take (s : System ι) : System ι := { s with semaphore := s.semaphore.take.2 }

omit [DecidableEq ι] in
/-- The permits after one was given back. -/
def give (s : System ι) : System ι :=
  { s with semaphore := { s.semaphore with permits := s.semaphore.permits + 1 } }

end System

/-- One step of a caller. -/
inductive Step (s : System ι) : ι × Deed → System ι → Prop
  | tryAcquire {i : ι} : s.place i = .idle →
      Step s (i, .tryAcquire)
        (s.take.move i (if s.semaphore.take.1 then .holding else .refused))
  | begin {i : ι} {v : Waker} : s.place i = .idle →
      Step s (i, .poll v) ((s.polled i v).move i .trying)
  | resume {i : ι} {v : Waker} {t : Ticket} : s.place i = .pending t →
      Step s (i, .poll v) ((s.polled i v).move i (.refreshing t))
  | take {i : ι} : s.place i = .trying →
      Step s (i, .take) (s.take.move i (if s.semaphore.take.1 then .holding else .checking))
  | takeAgain {i : ι} {t : Ticket} : s.place i = .announced t →
      Step s (i, .take)
        (s.take.move i (if s.semaphore.take.1 then .finishing t true else .rechecking t))
  | check {i : ι} : s.place i = .checking →
      Step s (i, .check) (s.move i (if s.semaphore.closed then .refused else .parking))
  | checkAgain {i : ι} {t : Ticket} : s.place i = .rechecking t →
      Step s (i, .check)
        (s.move i (if s.semaphore.closed then .finishing t false else .pending t))
  | park {i : ι} {w : Waiters} {t : Ticket} : s.place i = .parking →
      CallStep s.waiters (.park (s.waker i), .parked t) w →
      Step s (i, .park) ({ s with waiters := w }.move i (.announced t))
  | parkClosed {i : ι} {w : Waiters} : s.place i = .parking →
      CallStep s.waiters (.park (s.waker i), .refused) w →
      Step s (i, .park) ({ s with waiters := w }.move i .refused)
  | parkPanics {i : ι} {w : Waiters} : s.place i = .parking →
      CallStep s.waiters (.park (s.waker i), .panicked) w →
      Step s (i, .park) ({ s with waiters := w }.move i .gone)
  | refresh {i : ι} {w : Waiters} {t : Ticket} : s.place i = .refreshing t →
      CallStep s.waiters (.refresh t (s.waker i), .refreshed) w →
      Step s (i, .refresh) ({ s with waiters := w }.move i (.announced t))
  | finish {i : ι} {w : Waiters} {t : Ticket} {granted live : Bool} :
      s.place i = .finishing t granted →
      CallStep s.waiters (.cancel t, .cancelled live) w →
      Step s (i, .finish)
        ({ s with waiters := w }.move i (if granted then .holding else .refused))
  | dropIdle {i : ι} : s.place i = .idle → Step s (i, .drop) (s.move i .gone)
  | drop {i : ι} {w : Waiters} {t : Ticket} {live : Bool} : s.place i = .pending t →
      CallStep s.waiters (.cancel t, .cancelled live) w →
      Step s (i, .drop) ({ s with waiters := w }.move i (if live then .gone else .passing))
  | pass {i : ι} {w : Waiters} {woken : Option Waker} : s.place i = .passing →
      CallStep s.waiters (.wakeOne, .woken woken) w →
      Step s (i, .pass) ({ s with waiters := w }.move i .gone)
  | release {i : ι} : s.place i = .holding → Step s (i, .release) (s.give.move i .returning)
  | look {i : ι} : s.place i = .returning →
      Step s (i, .look) (s.move i (if s.waiters.any then .handing else .gone))
  | hand {i : ι} {w : Waiters} {woken : Option Waker} : s.place i = .handing →
      CallStep s.waiters (.wakeOne, .woken woken) w →
      Step s (i, .hand) ({ s with waiters := w }.move i .gone)
  | flag {i : ι} : s.place i = .idle →
      Step s (i, .flag)
        ({ s with semaphore := { s.semaphore with closed := true } }.move i .flagged)
  | shut {i : ι} {w : Waiters} {woken : List Waker} : s.place i = .flagged →
      CallStep s.waiters (.close, .closed woken) w →
      Step s (i, .shut) ({ s with waiters := w }.move i .waking)
  | wake {i : ι} : s.place i = .waking →
      Step s (i, .wake) ({ s with returned := true }.move i .gone)

variable {s s' : System ι} {i j : ι} {d : Deed} {e : ι × Deed} {place : Place}

@[simp]
theorem move_self :
  (s.move i place).place i = place
  := Function.update_self ..

theorem move_of_ne (h : j ≠ i) :
  (s.move i place).place j = s.place j
  := Function.update_of_ne h ..

/-- A caller is moved by its own steps only. -/
theorem Step.place_of_ne (h : Step s (i, d) s') (hj : j ≠ i) :
  s'.place j = s.place j
  := by
  cases h <;> exact move_of_ne hj

theorem take_of_zero {sem : Semaphore} (h : sem.permits = 0) :
  sem.take = (false, sem)
  := if_pos h

theorem take_eq_false {sem : Semaphore} :
  sem.take.1 = false ↔ sem.permits = 0
  := by
  rw [Semaphore.take]
  split <;> simp_all

/-! ### What holds of the queue -/

/-- What a step does to the queue is a call of it, or nothing. -/
theorem Step.waiters (h : Step s (i, d) s') :
  s'.waiters = s.waiters ∨ ∃ call, CallStep s.waiters call s'.waiters
  := by
  cases h with
  | park hplace hcall => exact Or.inr ⟨_, hcall⟩
  | parkClosed hplace hcall => exact Or.inr ⟨_, hcall⟩
  | parkPanics hplace hcall => exact Or.inr ⟨_, hcall⟩
  | refresh hplace hcall => exact Or.inr ⟨_, hcall⟩
  | finish hplace hcall => exact Or.inr ⟨_, hcall⟩
  | drop hplace hcall => exact Or.inr ⟨_, hcall⟩
  | pass hplace hcall => exact Or.inr ⟨_, hcall⟩
  | hand hplace hcall => exact Or.inr ⟨_, hcall⟩
  | shut hplace hcall => exact Or.inr ⟨_, hcall⟩
  | _ => exact Or.inl rfl

theorem Step.kept (h : Step s (i, d) s') (hkept : s.waiters.Kept) :
  s'.waiters.Kept
  := by
  rcases h.waiters with heq | ⟨call, hcall⟩
  · rw [heq]
    exact hkept
  · exact hkept.step hcall

end Grommet.Semaphore
