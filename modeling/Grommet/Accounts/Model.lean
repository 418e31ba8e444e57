import Grommet.Core.Scheduler.Model
import Grommet.Library.Handler

/-!
# The account service

One request for an account is processed against three ports: an authoritative store, which
records every mutation under the id of its request, a cache that may fail at any time, and a
pool that computes.  The processor is a program over the operations of these ports, so that
whatever runs beside it acts between two of its operations.
-/

open Program

namespace Grommet.Accounts

abbrev AccountId := UInt64

/-- A ULID. -/
abbrev RequestId := BitVec 128

structure RevalueParams where
  scenarios : UInt32
  deriving DecidableEq

inductive Op where
  | debit (amount : Int64)
  | credit (amount : Int64)
  | balance
  | revalue (params : RevalueParams)
  deriving DecidableEq

def ioClass : ClassId := 0

def computeClass : ClassId := 1

/-- The budget that an operation counts against. -/
def Op.classId : Op → ClassId
  | .debit _ => ioClass
  | .credit _ => ioClass
  | .balance => ioClass
  | .revalue _ => computeClass

inductive Reply where
  | ok (balance : Int64)
  /-- The request was applied already; the balance is the one recorded for it. -/
  | duplicate (balance : Int64)
  | err (message : String)
  deriving DecidableEq

structure Account where
  balance : Int64
  version : UInt64
  deriving DecidableEq

/-- An account that nobody has touched. -/
def Account.empty : Account := ⟨0, 0⟩

inductive Mutation where
  | delta (delta : Int64)
  | setBalance (balance : Int64)
  deriving DecidableEq

inductive ApplyError where
  | balanceOverflow
  | versionOverflow
  deriving DecidableEq

/-- Addition of signed words, unless it overflows. -/
def checkedAdd (a b : Int64) : Option Int64 :=
  if -2 ^ 63 ≤ a.toInt + b.toInt ∧ a.toInt + b.toInt < 2 ^ 63 then some (a + b) else none

/-- The next word, unless there is none. -/
def checkedSucc (version : UInt64) : Option UInt64 :=
  if version.toNat + 1 < 2 ^ 64 then some (version + 1) else none

def applyMutation (current : Account) (mutation : Mutation) : Except ApplyError Account := do
  let balance ← match mutation with
    | .delta delta => (checkedAdd current.balance delta).elim (.error .balanceOverflow) .ok
    | .setBalance balance => .ok balance
  let version ← (checkedSucc current.version).elim (.error .versionOverflow) .ok
  .ok ⟨balance, version⟩

/-- A round of the calculation, in wrapping arithmetic. -/
def revalueRound (value i : Int64) : Int64 :=
  ((value + i) * (2654435761 : Int64)) ^^^ (value >>> (13 : Int64))

/-- A deliberately expensive calculation. -/
def heavyRevalue (account : Account) (params : RevalueParams) : Int64 :=
  Nat.fold (params.scenarios.toNat * 200000)
    (fun i _ value => revalueRound value (Int64.ofNat i)) account.balance

/-! ### Ports -/

inductive CommitOutcome where
  | committed (account : Account) (duplicate : Bool)
  /-- The acknowledgement was lost, so that the commit may or may not have taken effect. -/
  | inDoubt
  deriving DecidableEq

inductive StoreError where
  | poolExhausted
  | timeout
  | connectionReset
  | serializationFailure
  | deadlock
  | versionConflict
  | requestConflict
  | constraint (message : String)
  | server (message : String)
  deriving DecidableEq

def StoreError.message : StoreError → String
  | .poolExhausted => "connection pool exhausted"
  | .timeout => "database operation timed out"
  | .connectionReset => "database connection reset"
  | .serializationFailure => "serialization failure"
  | .deadlock => "deadlock detected"
  | .versionConflict => "account version conflict"
  | .requestConflict => "request id was reused for different work"
  | .constraint message => "database constraint violation: " ++ message
  | .server message => "database server error: " ++ message

inductive CacheError where
  | poolExhausted
  | timeout
  | connectionReset
  | moved (slot : UInt16)
  | server (message : String)
  deriving DecidableEq

inductive OffloadError where
  | closed
  | workerLost
  | injected
  deriving DecidableEq

def OffloadError.message : OffloadError → String
  | .closed => "compute pool is closed"
  | .workerLost => "compute worker produced no result"
  | .injected => "injected compute failure"

/-- One submitted operation. -/
structure Request where
  /-- The idempotency key; a retry must reuse it. -/
  reqId : RequestId
  account : AccountId
  op : Op
  deriving DecidableEq

/-- An operation of the processor on its store, its cache, its pool or its caller. -/
inductive Port (Session : Type) where
  | acquire
  | load (session : Session) (id : AccountId)
  | commit (session : Session) (reqId : RequestId) (id : AccountId) (current : Account)
      (mutation : Mutation)
  | get (id : AccountId)
  | put (id : AccountId) (account : Account) (ttl : ℕ)
  | invalidate (id : AccountId)
  /-- Revalue an account on the pool. -/
  | run (account : Account) (params : RevalueParams)
  /-- Answer the caller. -/
  | send (reply : Reply)
  deriving DecidableEq

/-- The answers to an operation. -/
abbrev Port.Answer {Session : Type} : Port Session → Type
  | .acquire => Except StoreError Session
  | .load _ _ => Except StoreError Account
  | .commit _ _ _ _ _ => Except StoreError CommitOutcome
  | .get _ => Except CacheError (Option Account)
  | .put _ _ _ => Except CacheError Unit
  | .invalidate _ => Except CacheError Unit
  | .run _ _ => Except OffloadError Int64
  | .send _ => Unit

/-- What the processor does with its ports until it returns. -/
abbrev Action (Session α : Type) := Program (@Port.Answer Session) α

variable {Session : Type}

def acquire : Action Session (Except StoreError Session) := ask Port.acquire

def load (session : Session) (id : AccountId) : Action Session (Except StoreError Account) :=
  ask (Port.load session id)

def commit (session : Session) (reqId : RequestId) (id : AccountId) (current : Account)
    (mutation : Mutation) : Action Session (Except StoreError CommitOutcome) :=
  ask (Port.commit session reqId id current mutation)

def get (id : AccountId) : Action Session (Except CacheError (Option Account)) := ask (Port.get id)

def put (id : AccountId) (account : Account) (ttl : ℕ) : Action Session (Except CacheError Unit) :=
  ask (Port.put id account ttl)

def invalidate (id : AccountId) : Action Session (Except CacheError Unit) := ask (Port.invalidate id)

def run (account : Account) (params : RevalueParams) : Action Session (Except OffloadError Int64) :=
  ask (Port.run account params)

def send (reply : Reply) : Action Session Unit := ask (Port.send reply)

/-! ### The processor -/

/-- How long a cached account lives, in seconds. -/
def CACHE_TTL : ℕ := 30

/-- A failure that leaves the processor unable to trust its resident state. -/
inductive Failure where
  | inDoubt
  | stale
  deriving DecidableEq

def Failure.message : Failure → String
  | .inDoubt => "commit outcome unknown; retry with the same request id"
  | .stale => "account version conflict"

/-- What a failure implies about durable state. -/
inductive Fallout where
  | untouched
  | inDoubt
  deriving DecidableEq

def Failure.fallout : Failure → Fallout
  | .inDoubt => .inDoubt
  | .stale => .untouched

/-- Read an account from the store, and keep the session. -/
def readThrough (id : AccountId) : Action Session (Except StoreError (Account × Option Session)) := do
  match ← acquire with
  | .error error => pure (.error error)
  | .ok acquired =>
    match ← load acquired id with
    | .error error => pure (.error error)
    | .ok loaded => do
      let _ ← put id loaded CACHE_TTL
      pure (.ok (loaded, some acquired))

/-- What the cache answered, else the authoritative store. -/
def cachedOr (id : AccountId) : Except CacheError (Option Account) →
    Action Session (Except StoreError (Account × Option Session))
  | .ok (some account) => pure (.ok (account, none))
  | .ok none => readThrough id
  | .error _ => readThrough id

/-- Resident state, else the cache, else the authoritative store. -/
def resolve (id : AccountId) (state : Option Account) :
    Action Session (Except StoreError (Account × Option Session)) := do
  match state with
  | some account => pure (.ok (account, none))
  | none => cachedOr id (← get id)

/-- Decide what an operation needs to write, or the reply that finishes it. -/
def plan (account : Account) : Op → Action Session (Except Reply Mutation)
  | .balance => pure (.error (.ok account.balance))
  | .debit amount =>
      if amount < 0 then pure (.error (.err "debit amount must be non-negative"))
      else pure (.ok (.delta (-amount)))
  | .credit amount =>
      if amount < 0 then pure (.error (.err "credit amount must be non-negative"))
      else pure (.ok (.delta amount))
  | .revalue params => do
      match ← run account params with
      | .ok balance => pure (.ok (.setBalance balance))
      | .error error => pure (.error (.err error.message))

/-- The session that read the account, or a new one. -/
def lease (session : Option Session) : Action Session (Except StoreError Session) :=
  match session with
  | some session => pure (.ok session)
  | none => acquire

/-- What a commit leaves resident: a duplicate carries what was recorded for its request, which
may be older than what is held. -/
def resident (account committed : Account) (duplicate : Bool) : Account :=
  if duplicate ∧ committed.version < account.version then account else committed

/-- Refresh the cache and answer the caller after a commit. -/
def conclude (id : AccountId) (account : Account) :
    Except StoreError CommitOutcome → Action Session (Except Failure (Disposition Account))
  | .ok (.committed committed duplicate) => do
      let recorded := committed.balance
      let resident := resident account committed duplicate
      match ← put id resident CACHE_TTL with
      | .ok _ => pure ()
      | .error _ => do
        let _ ← invalidate id
        pure ()
      send (if duplicate then .duplicate recorded else .ok recorded)
      pure (.ok (.keep resident))
  | .ok .inDoubt => do
      let _ ← invalidate id
      send (.err Failure.inDoubt.message)
      pure (.error .inDoubt)
  | .error .versionConflict => do
      let _ ← invalidate id
      send (.err StoreError.versionConflict.message)
      pure (.error .stale)
  | .error error => do
      let _ ← invalidate id
      send (.err error.message)
      pure (.ok (.keep account))

/-- Process one request. -/
def process (id : AccountId) (state : Option Account) (request : Request) :
    Action Session (Except Failure (Disposition Account)) := do
  match ← resolve id state with
  | .error error => do
    send (.err error.message)
    pure (.ok .drop)
  | .ok (account, session) =>
    match ← plan account request.op with
    | .error reply => do
      send reply
      pure (.ok (.keep account))
    | .ok mutation => do
      let _ ← invalidate id
      match ← lease session with
      | .error error => do
        send (.err error.message)
        pure (.ok (.keep account))
      | .ok session => do
        let outcome ← commit session request.reqId id account mutation
        conclude id account outcome

/-- The reply to a request whose deadline passed. -/
def onExpired : Reply := .err "request deadline passed before it was dispatched"

/-- The reply to a retry of an outstanding request. -/
def onCoalesced : Reply := .err "an attempt with this request id is already in flight"

end Grommet.Accounts
