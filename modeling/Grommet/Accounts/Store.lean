import Grommet.Accounts.Model
import Grommet.Library.FiniteMap
import Grommet.Testkit.Fault

/-!
# The store and the cache of the simulation

The store keeps a balance and a version for each account and remembers every request that it
applied with the account that resulted.  The cache keeps what was put into it.  Both consult a
fault plan before they act, and the store once more after it applied a mutation, where the
acknowledgement may be lost.
-/

open Program Grommet.Testkit

namespace Grommet.Accounts

/-- Every place where the service can fail against an external dependency. -/
inductive FaultPoint where
  | storeAcquire
  | storeLoad
  /-- Fails before anything durable changes. -/
  | commitBeforeApply
  /-- Applies durably, then loses the acknowledgement. -/
  | commitAfterApply
  | cacheGet
  | cachePut
  | cacheInvalidate
  | compute
  deriving DecidableEq

/-- What an adapter does, which may consult its fault plan. -/
abbrev Faulty (α : Type) := Workload FaultPoint α

def fires (point : FaultPoint) : Faulty Bool := ask point

structure AppliedRequest where
  accountId : AccountId
  mutation : Mutation
  account : Account
  deriving DecidableEq

structure StoreState where
  accounts : AList fun _ : AccountId => Account
  requests : AList fun _ : RequestId => AppliedRequest

namespace StoreState

def empty : StoreState := ⟨∅, ∅⟩

def account (s : StoreState) (id : AccountId) : Account := (s.accounts.lookup id).getD .empty

/-- The durable change of a mutation. -/
def apply (s : StoreState) (reqId : RequestId) (id : AccountId) (mutation : Mutation)
    (account : Account) : StoreState where
  accounts := s.accounts.insert id account
  requests := s.requests.insert reqId ⟨id, mutation, account⟩

end StoreState

/-- The account that a mutation leaves in the store. -/
def advance (durable : Account) (mutation : Mutation) : Except StoreError Account := do
  let balance ← match mutation with
    | .delta delta =>
        (checkedAdd durable.balance delta).elim (.error (.constraint "balance overflow")) .ok
    | .setBalance balance => .ok balance
  let version ← (checkedSucc durable.version).elim (.error (.constraint "version overflow")) .ok
  .ok ⟨balance, version⟩

/-- What the store and the cache hold. -/
structure Data where
  store : StoreState
  cache : AList fun _ : AccountId => Account

def Data.empty : Data := ⟨.empty, ∅⟩

namespace SimStore

def acquire : Faulty (Except StoreError Unit) := do
  if ← fires .storeAcquire then pure (.error .poolExhausted) else pure (.ok ())

def load (s : StoreState) (id : AccountId) : Faulty (Except StoreError Account) := do
  if ← fires .storeLoad then pure (.error .connectionReset) else pure (.ok (s.account id))

def commit (s : StoreState) (reqId : RequestId) (id : AccountId) (current : Account)
    (mutation : Mutation) : Faulty (Except StoreError CommitOutcome × StoreState) := do
  if ← fires .commitBeforeApply then
    pure (.error .connectionReset, s)
  else
    match s.requests.lookup reqId with
    | some prior =>
        if prior.accountId ≠ id ∨ prior.mutation ≠ mutation then pure (.error .requestConflict, s)
        else pure (.ok (.committed prior.account true), s)
    | none =>
        let durable := s.account id
        if durable.version ≠ current.version then
          pure (.error .versionConflict, s)
        else
          match advance durable mutation with
          | .error error => pure (.error error, s)
          | .ok account => do
              let s := s.apply reqId id mutation account
              -- Durably applied, acknowledgement lost.
              if ← fires .commitAfterApply then pure (.ok .inDoubt, s)
              else pure (.ok (.committed account false), s)

end SimStore

namespace SimCache

variable (cache : AList fun _ : AccountId => Account)

def get (id : AccountId) : Faulty (Except CacheError (Option Account)) := do
  if ← fires .cacheGet then pure (.error .connectionReset) else pure (.ok (cache.lookup id))

def put (id : AccountId) (account : Account) :
    Faulty (Except CacheError Unit × AList fun _ : AccountId => Account) := do
  if ← fires .cachePut then pure (.error .connectionReset, cache)
  else pure (.ok (), cache.insert id account)

def invalidate (id : AccountId) :
    Faulty (Except CacheError Unit × AList fun _ : AccountId => Account) := do
  if ← fires .cacheInvalidate then pure (.error .connectionReset, cache)
  else pure (.ok (), cache.erase id)

end SimCache

/-- Run the calculation inline. -/
def SimOffload.run (account : Account) (params : RevalueParams) :
    Faulty (Except OffloadError Int64) := do
  if ← fires .compute then pure (.error .injected) else pure (.ok (heavyRevalue account params))

/-- How the simulation answers the operations of the processor. -/
def simulate : (op : Port Unit) → Data → Faulty (op.Answer × Data)
  | .acquire, d => do
      let answer ← SimStore.acquire
      pure (answer, d)
  | .load _ id, d => do
      let answer ← SimStore.load d.store id
      pure (answer, d)
  | .commit _ reqId id current mutation, d => do
      let (answer, store) ← SimStore.commit d.store reqId id current mutation
      pure (answer, { d with store := store })
  | .get id, d => do
      let answer ← SimCache.get d.cache id
      pure (answer, d)
  | .put id account _, d => do
      let (answer, cache) ← SimCache.put d.cache id account
      pure (answer, { d with cache := cache })
  | .invalidate id, d => do
      let (answer, cache) ← SimCache.invalidate d.cache id
      pure (answer, { d with cache := cache })
  | .run account params, d => do
      let answer ← SimOffload.run account params
      pure (answer, d)
  | .send _, d => pure ((), d)

end Grommet.Accounts
