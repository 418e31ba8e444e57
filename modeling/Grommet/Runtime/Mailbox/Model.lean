import Grommet.Core.Ring
import Grommet.Core.WakerSlot

/-!
# The mailbox of a shard

Any number of threads push items through the handles of a mailbox, clone the handles and drop
them, and one inbox takes the items out.  The inbox registers its waker on a doorbell before it
waits; a thread that pushed rings the doorbell if it sees the inbox parked, and the thread that
drops the last handle rings it in any case.

Each atomic operation is one step of the inbox or of one thread.  The queue of senders that
wait for room is a development of its own, so that handing back the freed slots is one step
here, and a waiting `send` is a sequence of calls of `try_send`.
-/

open Checked

namespace Grommet

/-- The owner's wake-up. -/
structure Doorbell (ω : Type) where
  owner : WakerSlot ω
  /-- Whether the receiver is gone. -/
  closed : Bool
  deriving DecidableEq

def Doorbell.new {ω : Type} : Doorbell ω := ⟨WakerSlot.new, false⟩

namespace Mailbox

open WakerSlot (Registrar Notifier)
open Grommet.Ring (Push Pop)

/-- Why an immediate receive produced nothing. -/
inductive TryRecvError where
  | empty
  | closed
  deriving DecidableEq

/-- What a call of the inbox returns. -/
inductive Answer (W : Type) where
  | pending
  /-- `poll_recv` is ready, with no item when the mailbox is closed and drained. -/
  | ready (item : Option W)
  /-- The answer of `try_recv`. -/
  | tried (item : Except TryRecvError W)

/-- Which of the looks at the ring the inbox takes. -/
inductive Look where
  /-- The first one of `poll_recv`. -/
  | first
  /-- The one of `poll_recv` after it has registered. -/
  | again (closed : Bool)
  /-- The one of `try_recv`. -/
  | trying (closed : Bool)
  deriving DecidableEq

/-- Where the inbox stands. -/
inductive Stage (W ω : Type) where
  /-- Between two calls. -/
  | resting
  /-- Inside `take`. -/
  | taking (look : Look) (pop : Pop W)
  /-- Inside `unpark`, before the load of the flag, and what comes after. -/
  | unparking (next : Stage W ω)
  /-- Inside `unpark`, before the store of the flag. -/
  | clearing (next : Stage W ω)
  /-- Before the freed slots are handed back. -/
  | releasing (next : Stage W ω)
  /-- `poll_recv` is about to read the number of producers. -/
  | counting
  | registering (closed : Bool) (call : Registrar ω)
  /-- Before the store of the flag. -/
  | parking (closed : Bool)
  /-- `try_recv` is about to read the number of producers. -/
  | trying
  | returning (answer : Answer W)
  /-- The inbox is being dropped: before the store of `departed`. -/
  | departing
  /-- Before the doorbell is closed. -/
  | closing
  /-- Before the registered waker is taken out of the doorbell and dropped. -/
  | dropping (call : Notifier ω)
  | gone

/-- Where a thread with handles stands. -/
inductive Sender (κ W ω : Type) where
  | idle
  /-- `try_send_deferred` is about to read whether the inbox is gone; `announced` tells that it
  is called by `try_send`. -/
  | checking (handle : κ) (item : W) (announced : Bool)
  | pushing (handle : κ) (push : Push W) (announced : Bool)
  /-- The push was refused: before the second read. -/
  | rechecking (handle : κ)
  /-- Before the load of the flag in `wake_shard`. -/
  | announcing (handle : κ)
  /-- Before the load of `closed` in `ring`; the last handle is dropped and not held. -/
  | ringing (handle : Option κ)
  | waking (handle : Option κ) (call : Notifier ω)

/-- The mailbox, its inbox and the threads with handles. -/
structure System (ι κ W ω : Type) where
  ring : Ring.Inner W
  bell : Doorbell ω
  parked : Bool
  producers : ℕ
  departed : Bool
  /-- The next position that the inbox reads. -/
  head : ℕ
  /-- The slots that this drain has freed. -/
  freed : ℕ
  stage : Stage W ω
  sender : ι → Sender κ W ω
  /-- The live handles. -/
  handles : List κ
  /-- Whether the last call of `poll_recv` has returned `Pending`. -/
  pending : Bool
  /-- The waker of the last call of `poll_recv`. -/
  waker : ω
  /-- Whether that waker was woken since the call began. -/
  woken : Bool

variable {ι κ W ω : Type}

/-- What follows a look at the ring. -/
def Stage.afterTake : Look → Option W → Stage W ω
  | .first, some item => .returning (.ready (some item))
  | .first, none => .releasing .counting
  | .again _, some item => .unparking (.releasing (.returning (.ready (some item))))
  | .again true, none => .unparking (.returning (.ready none))
  | .again false, none => .returning .pending
  | .trying _, some item => .releasing (.returning (.tried (.ok item)))
  | .trying true, none => .releasing (.returning (.tried (.error .closed)))
  | .trying false, none => .releasing (.returning (.tried (.error .empty)))

/-- What follows a step of `pop`: `take` notes that the shard is running when there is an
item. -/
def Stage.afterPop (look : Look) : Pop W → Stage W ω
  | .popped (some item) => .unparking (.afterTake look (some item))
  | .popped none => .afterTake look none
  | pop => .taking look pop

/-- What follows a step of `register`. -/
def Stage.afterRegister (closed : Bool) : Registrar ω → Stage W ω
  | .out => .parking closed
  | call => .registering closed call

/-- What follows a step of taking the waker out of the closed doorbell. -/
def Stage.afterDrop : Notifier ω → Stage W ω
  | .out | .delivering _ => .gone
  | call => .dropping call

/-- What follows a step of `try_push`. -/
def Sender.afterPush (handle : κ) (announced : Bool) : Push W → Sender κ W ω
  | .pushed => if announced then .announcing handle else .idle
  | .refused _ => .rechecking handle
  | push => .pushing handle push announced

/-- What follows a step of waking the owner of the doorbell. -/
def Sender.afterWake (handle : Option κ) : Notifier ω → Sender κ W ω
  | .out => .idle
  | call => .waking handle call

/-- The handle that a thread uses. -/
def Sender.uses : Sender κ W ω → Option κ
  | idle => none
  | checking handle _ _ => some handle
  | pushing handle _ _ => some handle
  | rechecking handle => some handle
  | announcing handle => some handle
  | ringing handle => handle
  | waking handle _ => handle

/-- The slots a step of `pop` freed. -/
def freedBy : Pop W → ℕ
  | .popped (some _) => 1
  | _ => 0

namespace System

/-- A mailbox with an empty ring and one handle. -/
def opened (ring : Ring.Inner W) (handle : κ) (waker : ω) : System ι κ W ω where
  ring := ring
  bell := Doorbell.new
  parked := false
  producers := 1
  departed := false
  head := 0
  freed := 0
  stage := .resting
  sender := fun _ => .idle
  handles := [handle]
  pending := false
  waker := waker
  woken := false

/-- Create the mailbox of a shard, with one handle. -/
def channel (capacity : ℕ) (handle : κ) (waker : ω) : Checked (System ι κ W ω) := do
  assert (0 < capacity) "a mailbox needs capacity"
  let ring ← Ring.bounded capacity
  .ok (opened ring handle waker)

/-- A step of `register` or of `wake` changes the slot of the doorbell and may wake a waker. -/
def setOwner [DecidableEq ω] (s : System ι κ W ω) (owner : WakerSlot ω) (woke : Option ω) :
    System ι κ W ω :=
  { s with
    bell := { s.bell with owner := owner }
    woken := WakerSlot.hears s.waker s.woken woke }

def setSender [DecidableEq ι] (s : System ι κ W ω) (i : ι) (sender : Sender κ W ω) :
    System ι κ W ω :=
  { s with sender := Function.update s.sender i sender }

theorem sender_setSender_self [DecidableEq ι] {s : System ι κ W ω} {i : ι} {x : Sender κ W ω} :
  (s.setSender i x).sender i = x
  := Function.update_self _ _ _

theorem sender_setSender_of_ne [DecidableEq ι] {s : System ι κ W ω} {i j : ι} {x : Sender κ W ω}
    (h : j ≠ i) :
  (s.setSender i x).sender j = s.sender j
  := Function.update_of_ne h _ _

/-- A call of the inbox returns. -/
def answer (s : System ι κ W ω) : Answer W → System ι κ W ω
  | .pending => { s with stage := .resting, pending := true }
  | _ => { s with stage := .resting }

end System

/-- Who takes a step. -/
inductive Party (ι : Type) where
  | inbox
  | sender (i : ι)
  deriving DecidableEq

open Mailbox.System

variable [DecidableEq ι] [DecidableEq κ] [DecidableEq ω]

/-- One step of the inbox. -/
inductive InboxStep (s : System ι κ W ω) : System ι κ W ω → Prop
  /-- `poll_recv` is called. -/
  | poll {v : ω} : s.stage = .resting →
      InboxStep s { s with
        stage := .taking .first .looking
        pending := false
        waker := v
        woken := false }
  /-- `try_recv` is called. -/
  | tryRecv : s.stage = .resting → InboxStep s { s with stage := .trying }
  | take {look : Look} {pop pop' : Pop W} {ring : Ring.Inner W} {head : ℕ} :
      s.stage = .taking look pop →
      pop.step s.ring s.head = .ok (ring, head, pop') →
      InboxStep s { s with
        ring := ring
        head := head
        freed := s.freed + freedBy pop'
        stage := .afterPop look pop' }
  | unpark {next : Stage W ω} : s.stage = .unparking next →
      InboxStep s { s with stage := if s.parked then .clearing next else next }
  | clear {next : Stage W ω} : s.stage = .clearing next →
      InboxStep s { s with parked := false, stage := next }
  | release {next : Stage W ω} : s.stage = .releasing next →
      InboxStep s { s with freed := 0, stage := next }
  | count : s.stage = .counting →
      InboxStep s { s with stage := .registering (s.producers == 0) (.entering s.waker) }
  | register {closed : Bool} {call : Registrar ω} : s.stage = .registering closed call →
      InboxStep s { s.setOwner (call.step s.bell.owner).1 (call.step s.bell.owner).2.2 with
        stage := .afterRegister closed (call.step s.bell.owner).2.1 }
  | park {closed : Bool} : s.stage = .parking closed →
      InboxStep s { s with parked := true, stage := .taking (.again closed) .looking }
  | countTrying : s.stage = .trying →
      InboxStep s { s with stage := .taking (.trying (s.producers == 0)) .looking }
  | answer {answer : Answer W} : s.stage = .returning answer → InboxStep s (s.answer answer)
  /-- The inbox is dropped. -/
  | leave : s.stage = .resting → InboxStep s { s with stage := .departing }
  | depart : s.stage = .departing →
      InboxStep s { s with departed := true, stage := .closing }
  | close : s.stage = .closing →
      InboxStep s { s with
        bell := { s.bell with closed := true }
        stage := .dropping .wanting }
  | drop {call : Notifier ω} : s.stage = .dropping call →
      InboxStep s { s.setOwner (call.step s.bell.owner).1 none with
        stage := .afterDrop (call.step s.bell.owner).2.1 }

/-- One step of a thread with handles. -/
inductive SenderStep (s : System ι κ W ω) (i : ι) : System ι κ W ω → Prop
  /-- `try_send` or `try_send_deferred` is called. -/
  | send {h : κ} {item : W} {announced : Bool} : s.sender i = .idle → h ∈ s.handles →
      SenderStep s i (s.setSender i (.checking h item announced))
  /-- `announce` is called. -/
  | announce {h : κ} : s.sender i = .idle → h ∈ s.handles →
      SenderStep s i (s.setSender i (.announcing h))
  | clone {h h' : κ} : s.sender i = .idle → h ∈ s.handles → h' ∉ s.handles →
      SenderStep s i { s with producers := s.producers + 1, handles := h' :: s.handles }
  /-- A handle that nobody uses is dropped. -/
  | drop {h : κ} : s.sender i = .idle → h ∈ s.handles → (∀ j, (s.sender j).uses ≠ some h) →
      SenderStep s i ({ s with
        producers := s.producers - 1
        handles := s.handles.erase h }.setSender i
          (if s.producers = 1 then .ringing none else .idle))
  | check {h : κ} {item : W} {announced : Bool} : s.sender i = .checking h item announced →
      SenderStep s i (s.setSender i
        (if s.departed then .idle else .pushing h (.reading item) announced))
  | push {h : κ} {push push' : Push W} {announced spurious : Bool} {ring : Ring.Inner W} :
      s.sender i = .pushing h push announced →
      push.step s.ring spurious = .ok (ring, push') →
      SenderStep s i ({ s with ring := ring }.setSender i (.afterPush h announced push'))
  | recheck {h : κ} : s.sender i = .rechecking h → SenderStep s i (s.setSender i .idle)
  | look {h : κ} : s.sender i = .announcing h →
      SenderStep s i (s.setSender i (if s.parked then .ringing (some h) else .idle))
  | ring {h : Option κ} : s.sender i = .ringing h →
      SenderStep s i (s.setSender i (if s.bell.closed then .idle else .waking h .wanting))
  | wake {h : Option κ} {call : Notifier ω} : s.sender i = .waking h call →
      SenderStep s i ((s.setOwner (call.step s.bell.owner).1 (call.step s.bell.owner).2.2).setSender
        i (.afterWake h (call.step s.bell.owner).2.1))

/-- One step of the inbox or of a thread. -/
inductive Step (s : System ι κ W ω) : Party ι → System ι κ W ω → Prop
  | inbox {s' : System ι κ W ω} : InboxStep s s' → Step s .inbox s'
  | sender {i : ι} {s' : System ι κ W ω} : SenderStep s i s' → Step s (.sender i) s'

end Mailbox

end Grommet
