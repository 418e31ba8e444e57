import Grommet.Library.Mask
import Grommet.Library.Program
import Grommet.Runtime.Router.Placement
import Grommet.Runtime.Shard.Model
import Grommet.Runtime.Waiters.Protocol

/-!
# Submission of work

The router stamps a work item with what the item answers about itself, and pushes the envelope
into the mailbox of the shard that owns its key.  A batch reads the clock once, pushes without
telling the shards, and announces to each of them at its end or before it waits for room.

Submissions are programs that ask the work, the clock and the mailboxes.  All answers are
arbitrary: a work item may answer otherwise at each call, and a mailbox may be full, have room
or be gone at each push, as whatever else uses it makes it.  A caller that waits is polled any
number of times and may drop its future at every suspension.
-/

open Checked

namespace Grommet

/-- The router for a number of shards, with its table of slots. -/
structure Router where
  shards : ℕ
  placement : Router.Placement
  stampArrival : Bool
  classes : ℕ
  placed : Router.place shards = .ok placement

namespace Router

open Waiters (Ticket Closed)

/-- A router for the given number of mailboxes. -/
def withOptions (classes shards : ℕ) (stampArrival : Bool) : Checked Router :=
  match placed : place shards with
  | .ok placement => .ok { shards, placement, stampArrival, classes, placed }
  | .error panic => .error panic

def new (classes shards : ℕ) : Checked Router := withOptions classes shards true

/-- Why a mailbox refused an envelope, which it hands back. -/
inductive TrySendError where
  | full
  | closed
  deriving DecidableEq

/-- Why a submission did not reach a shard, with the work. -/
inductive SubmitError (W : Type) where
  | full (work : W)
  | shardDown (work : W)
  | invalidClass (work : W)
  deriving DecidableEq

/-- What a batch submission left undone. -/
structure BatchError (W : Type) where
  submitted : ℕ
  rejected : List (SubmitError W)
  deriving DecidableEq

namespace BatchError

variable {W : Type}

instance : Inhabited (BatchError W) := ⟨⟨0, []⟩⟩

def record (batch : BatchError W) : Except (SubmitError W) Unit → BatchError W
  | .ok () => { batch with submitted := batch.submitted + 1 }
  | .error error => { batch with rejected := batch.rejected ++ [error] }

/-- Nothing refused is not an error. -/
def intoResult (batch : BatchError W) : Except (BatchError W) Unit :=
  if batch.rejected.isEmpty then .ok () else .error batch

end BatchError

/-! ### What a submission asks -/

/-- The methods of the work, the clock, and the mailboxes of the shards. -/
inductive Op (K I W : Type) where
  | classOf (work : W)
  | keyOf (work : W)
  | timeToLive (work : W)
  | requestId (work : W)
  | now
  /-- Push into a mailbox without telling its shard. -/
  | trySendDeferred (shard : ℕ) (envelope : Envelope K I W)
  | announce (shard : ℕ)
  /-- Register as waiting for room. -/
  | park (shard : ℕ)
  | refresh (shard : ℕ) (ticket : Ticket)
  /-- Give the registration up because the wait is over. -/
  | finish (shard : ℕ) (ticket : Ticket)
  /-- How often the caller polls again before it drops its future. -/
  | polls
  | suspend
  | dropped
  | panicked (panic : Panic)

@[reducible]
def Answer {K I W : Type} : Op K I W → Type
  | .classOf _ => ClassId
  | .keyOf _ => K
  | .timeToLive _ => Option Duration
  | .requestId _ => Option I
  | .now => Duration
  | .trySendDeferred _ _ => Except TrySendError Unit
  | .announce _ => Unit
  | .park _ => Except Closed Ticket
  | .refresh _ _ => Unit
  | .finish _ _ => Unit
  | .polls => ℕ
  | .suspend => Unit
  | .dropped => Empty
  | .panicked _ => Empty

/-- A computation that submits work. -/
abbrev Submission (K I W α : Type) := Program (Answer (K := K) (I := I) (W := W)) α

abbrev Event (K I W : Type) := Program.Event (Answer (K := K) (I := I) (W := W))

variable {K I W α : Type}

/-- Ask for one operation. -/
def ask (op : Op K I W) : Submission K I W (Answer op) := Program.ask op

/-- A step that may panic. -/
def lift (x : Checked α) : Submission K I W α :=
  match x with
  | .ok a => pure a
  | .error panic => do
    let never ← ask (.panicked panic)
    Empty.elim never

/-- The mailbox of a shard. -/
def mailbox (r : Router) (index : ℕ) : Submission K I W ℕ :=
  lift (if index < r.shards then .ok index else .error .bounds)

/-! ### Mailboxes -/

/-- Submit without ever waiting. -/
def Mailbox.trySend (shard : ℕ) (envelope : Envelope K I W) :
    Submission K I W (Except TrySendError Unit) := do
  let sent : Except TrySendError Unit ← ask (.trySendDeferred shard envelope)
  match sent with
  | .ok () =>
    ask (.announce shard)
    return .ok ()
  | .error error => return .error error

/-- The attempt of a caller that waits for room. -/
def Mailbox.attempt (shard : ℕ) (envelope : Envelope K I W) : Submission K I W Attempt := do
  match ← trySend shard envelope with
  | .ok () => return .ready
  | .error .full => return .retry
  | .error .closed => return .closed

/-- A poll of a caller that is registered, and what follows when it is pending. -/
def Mailbox.poll (shard : ℕ) (envelope : Envelope K I W) (ticket : Ticket)
    (pending : Submission K I W (Except Closed Unit)) : Submission K I W (Except Closed Unit) := do
  match ← attempt shard envelope with
  | .ready =>
    ask (.finish shard ticket)
    return .ok ()
  | .closed =>
    ask (.finish shard ticket)
    return .error .closed
  | .retry =>
    ask .suspend
    pending

/-- The polls of a caller that is registered, until it drops its future. -/
def Mailbox.wait (shard : ℕ) (envelope : Envelope K I W) (ticket : Ticket) :
    ℕ → Submission K I W (Except Closed Unit)
  | 0 => poll shard envelope ticket do
    let never ← ask .dropped
    Empty.elim never
  | polls + 1 => poll shard envelope ticket do
    ask (.refresh shard ticket)
    wait shard envelope ticket polls

/-- Submit, waiting while the mailbox is full. -/
def Mailbox.send (shard : ℕ) (envelope : Envelope K I W) :
    Submission K I W (Except Closed Unit) := do
  match ← attempt shard envelope with
  | .ready => return .ok ()
  | .closed => return .error .closed
  | .retry =>
    let parked : Except Closed Ticket ← ask (.park shard)
    match parked with
    | .error gone => return .error gone
    | .ok ticket =>
      let polls : ℕ ← ask .polls
      wait shard envelope ticket polls

/-! ### Deferred announcements -/

def DEFERRED_WORDS : ℕ := 8

def DEFERRED_SHARDS : ℕ := DEFERRED_WORDS * 64

/-- Shards holding items that have been pushed but not yet announced. -/
structure Deferred where
  words : Fin DEFERRED_WORDS → BitVec 64
  any : Bool

namespace Deferred

instance : Inhabited Deferred := ⟨⟨fun _ => 0, false⟩⟩

/-- The word that a shard is a bit of. -/
def word (shard : ℕ) (h : shard < DEFERRED_SHARDS) : Fin DEFERRED_WORDS :=
  ⟨shard / 64, Nat.div_lt_of_lt_mul (Nat.mul_comm DEFERRED_WORDS 64 ▸ h)⟩

/-- Note that a shard is holding an unannounced push, if it is among those that are tracked. -/
def defer (d : Deferred) (shard : ℕ) : Bool × Deferred :=
  if h : shard < DEFERRED_SHARDS then
    (true, {
      words := Function.update d.words (word shard h)
        (d.words (word shard h) ||| 1#64 <<< (shard % 64))
      any := true })
  else
    (false, d)

/-- Announce to the shards of the bits of a word. -/
def announceBits (r : Router) (word : ℕ) (set : BitVec 64) : Submission K I W Unit :=
  if hset : set = 0 then
    pure ()
  else do
    let shard ← r.mailbox (word * 64 + set.ctz.toNat)
    ask (.announce shard)
    announceBits r word (set &&& (set - 1))
  termination_by set.toNat
  decreasing_by
    obtain ⟨i, -, hbit⟩ := BitVec.exists_getLsbD hset
    have hle : (set &&& (set - 1#64)).toNat ≤ (set - 1#64).toNat := by
      rw [BitVec.toNat_and]
      exact Nat.and_le_right
    have hone := BitVec.toNat_sub_one hbit
    have hpos : set.toNat ≠ 0 := fun hzero => hset (BitVec.eq_of_toNat_eq hzero)
    show (set &&& (set - 1#64)).toNat < set.toNat
    omega

/-- Announce to the shards of one word, and forget them. -/
def announceWord (r : Router) (d : Deferred) (word : Fin DEFERRED_WORDS) :
    Submission K I W Deferred := do
  announceBits r word (d.words word)
  return { d with words := Function.update d.words word 0 }

/-- Announce to every shard holding a deferred push, and forget them. -/
def announce (d : Deferred) (r : Router) : Submission K I W Deferred :=
  if d.any then do
    let d ← (List.finRange DEFERRED_WORDS).foldlM (announceWord r) d
    return { d with any := false }
  else
    return d

end Deferred

/-! ### The router -/

variable [ShardKey K]

/-- Which shard owns a key. -/
def shardIndex (r : Router) (key : K) : Submission K I W ℕ :=
  lift (r.placement.shardIndex key)

/-- The arrival stamp for a submission, or `none` when stamping is off. -/
def arrival (r : Router) : Submission K I W (Option Duration) := do
  if r.stampArrival then
    let now : Duration ← ask .now
    return some now
  else
    return none

omit [ShardKey K] in
/-- Stamp the scheduling metadata of a work item around it. -/
def stamp (r : Router) (work : W) (arrival : Option Duration) :
    Submission K I W (Except (SubmitError W) (Envelope K I W)) := do
  let classId : ClassId ← ask (.classOf work)
  if r.classes ≤ classId.toNat then
    return .error (.invalidClass work)
  else
    let key ← ask (.keyOf work)
    let times ← (match arrival with
      | some now => do
        let timeToLive : Option Duration ← ask (.timeToLive work)
        return (now, timeToLive.map (saturatingAdd now))
      -- without an arrival stamp a deadline is ignored
      | none => return (0, none) : Submission K I W (Duration × Option Duration))
    let requestId ← ask (.requestId work)
    return .ok { key, classId, requestId, expiresAt := times.2, enqueued := times.1, work }

def send (r : Router) (envelope : Envelope K I W) :
    Submission K I W (Except (SubmitError W) Unit) := do
  let index ← r.shardIndex envelope.key
  let shard ← r.mailbox index
  match ← Mailbox.send shard envelope with
  | .ok () => return .ok ()
  | .error .closed => return .error (.shardDown envelope.work)

def trySend (r : Router) (envelope : Envelope K I W) :
    Submission K I W (Except (SubmitError W) Unit) := do
  let index ← r.shardIndex envelope.key
  let shard ← r.mailbox index
  match ← Mailbox.trySend shard envelope with
  | .ok () => return .ok ()
  | .error .full => return .error (.full envelope.work)
  | .error .closed => return .error (.shardDown envelope.work)

/-- Push without announcing, recording the shard so that the batch can announce it. -/
def trySendDeferred (r : Router) (envelope : Envelope K I W) (deferred : Deferred) :
    Submission K I W (Except (SubmitError W) Unit × Deferred) := do
  let index ← r.shardIndex envelope.key
  let shard ← r.mailbox index
  let sent : Except TrySendError Unit ← ask (.trySendDeferred shard envelope)
  match sent with
  | .ok () =>
    match deferred.defer index with
    | (true, deferred) => return (.ok (), deferred)
    | (false, deferred) =>
      ask (.announce shard)
      return (.ok (), deferred)
  | .error .full => return (.error (.full envelope.work), deferred)
  | .error .closed => return (.error (.shardDown envelope.work), deferred)

/-- Stamp work handed back by a full mailbox again, and wait for room. -/
def sendWork (r : Router) (work : W) (arrival : Option Duration) :
    Submission K I W (Except (SubmitError W) Unit) := do
  match ← r.stamp work arrival with
  | .ok envelope => r.send envelope
  | .error error => return .error error

/-- Submit, waiting if the mailbox of the target shard is full. -/
def submit (r : Router) (work : W) : Submission K I W (Except (SubmitError W) Unit) := do
  let arrival ← r.arrival
  match ← r.stamp work arrival with
  | .ok envelope => r.send envelope
  | .error error => return .error error

/-- The single-item path with an arrival stamp that was read before. -/
def trySubmitAt (r : Router) (arrival : Option Duration) (work : W) :
    Submission K I W (Except (SubmitError W) Unit) := do
  match ← r.stamp work arrival with
  | .ok envelope => r.trySend envelope
  | .error error => return .error error

/-- Submit without ever waiting, reporting a full mailbox instead. -/
def trySubmit (r : Router) (work : W) : Submission K I W (Except (SubmitError W) Unit) := do
  let arrival ← r.arrival
  r.trySubmitAt arrival work

/-- One item of `submitBatch`. -/
def submitItem (r : Router) (arrival : Option Duration) (batch : BatchError W × Deferred)
    (item : W) : Submission K I W (BatchError W × Deferred) := do
  match ← r.stamp item arrival with
  | .error error => return (batch.1.record (.error error), batch.2)
  | .ok envelope =>
    match ← r.trySendDeferred envelope batch.2 with
    | (.error (.full work), deferred) =>
      -- everything pushed so far is announced before this waits
      let deferred ← deferred.announce r
      let sent ← r.sendWork work arrival
      return (batch.1.record sent, deferred)
    | (sent, deferred) => return (batch.1.record sent, deferred)

/-- Submit many items, waiting for room, and report everything that did not land. -/
def submitBatch (r : Router) (items : List W) :
    Submission K I W (Except (BatchError W) Unit) := do
  let arrival ← r.arrival
  let batch ← items.foldlM (r.submitItem arrival) (default, default)
  let _ ← batch.2.announce r
  return batch.1.intoResult

/-- One item of `trySubmitBatch`. -/
def trySubmitItem (r : Router) (arrival : Option Duration) (batch : BatchError W × Deferred)
    (item : W) : Submission K I W (BatchError W × Deferred) := do
  match ← r.stamp item arrival with
  | .error error => return (batch.1.record (.error error), batch.2)
  | .ok envelope =>
    let (sent, deferred) ← r.trySendDeferred envelope batch.2
    return (batch.1.record sent, deferred)

/-- Submit many items without ever waiting, reporting everything that did not land. -/
def trySubmitBatch (r : Router) (items : List W) :
    Submission K I W (Except (BatchError W) Unit) := do
  let arrival ← r.arrival
  let batch ← items.foldlM (r.trySubmitItem arrival) (default, default)
  let _ ← batch.2.announce r
  return batch.1.intoResult

end Router

end Grommet
