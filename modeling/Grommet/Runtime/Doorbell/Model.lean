import Grommet.Runtime.Mailbox.Model
import Grommet.Runtime.Doorbell.Bell

/-!
# The doorbell

A doorbell is a waker slot and a flag.  Its receiver registers wakers, and closes the bell by
setting the flag and taking the registered waker out to drop it.  Any number of notifiers ring:
they read the flag, and when it is clear they take the waker out to wake it.  Every access of the
flag, of the state word of the slot and of its cell is one step, in any interleaving.
-/

namespace Grommet.Doorbell

open WakerSlot (Registrar Notifier)

/-- Where the receiver stands. -/
inductive Receiver (ω : Type) where
  | idle
  | registering (call : Registrar ω)
  /-- `close` is about to set the flag. -/
  | closing
  /-- `close` takes the registered waker out. -/
  | dropping (call : Notifier ω)

/-- Where a notifier stands. -/
inductive Ringer (ω : Type) where
  | idle
  /-- `ring` is about to read the flag. -/
  | looking
  | waking (call : Notifier ω)
  /-- The bell was closed. -/
  | hushed

/-- Whether a call of `take` has returned.  It returns a waker rather than waking it. -/
def returned {ω : Type} : Notifier ω → Bool
  | .out | .delivering _ => true
  | _ => false

/-- A doorbell with its receiver and the notifiers that ring it. -/
structure System (ι ω : Type) where
  bell : Doorbell ω
  receiver : Receiver ω
  ringer : ι → Ringer ω

variable {ι ω : Type}

/-- What is seen of a step that woke a waker, or none. -/
def told (woke : Option ω) : Bell.Event ι ω := woke.elim .other .woke

namespace System

def start : System ι ω where
  bell := Doorbell.new
  receiver := .idle
  ringer := fun _ => .idle

/-- A step of a call changes the slot. -/
def setOwner (s : System ι ω) (owner : WakerSlot ω) : System ι ω :=
  { s with bell := { s.bell with owner := owner } }

end System

variable [DecidableEq ι]

/-- One step of the receiver or of a notifier. -/
inductive Step (s : System ι ω) : Bell.Event ι ω → System ι ω → Prop
  | register {w : ω} : s.receiver = .idle →
      Step s (.register w) { s with receiver := .registering (.entering w) }
  | registrar {call : Registrar ω} : s.receiver = .registering call → call ≠ .out →
      Step s (told (call.step s.bell.owner).2.2) { s.setOwner (call.step s.bell.owner).1 with
        receiver := .registering (call.step s.bell.owner).2.1 }
  | registered : s.receiver = .registering .out → Step s .registered { s with receiver := .idle }
  | close : s.receiver = .idle → Step s .close { s with receiver := .closing }
  | shut : s.receiver = .closing →
      Step s .other { s with
        bell := { s.bell with closed := true }
        receiver := .dropping .wanting }
  | drop {call : Notifier ω} : s.receiver = .dropping call → returned call = false →
      Step s .other { s.setOwner (call.step s.bell.owner).1 with
        receiver := .dropping (call.step s.bell.owner).2.1 }
  | closed {call : Notifier ω} : s.receiver = .dropping call → returned call = true →
      Step s .closed { s with receiver := .idle }
  | ring {i : ι} : s.ringer i = .idle →
      Step s (.ring i) { s with ringer := Function.update s.ringer i .looking }
  | look {i : ι} : s.ringer i = .looking →
      Step s .other { s with
        ringer := Function.update s.ringer i (if s.bell.closed then .hushed else .waking .wanting) }
  | notifier {i : ι} {call : Notifier ω} : s.ringer i = .waking call → call ≠ .out →
      Step s (told (call.step s.bell.owner).2.2) { s.setOwner (call.step s.bell.owner).1 with
        ringer := Function.update s.ringer i (.waking (call.step s.bell.owner).2.1) }
  | rang {i : ι} : s.ringer i = .waking .out →
      Step s (.rang i) { s with ringer := Function.update s.ringer i .idle }
  | hush {i : ι} : s.ringer i = .hushed →
      Step s (.rang i) { s with ringer := Function.update s.ringer i .idle }

end Grommet.Doorbell
