import Grommet.Accounts.Model
import Grommet.Library.Bytes

/-!
# The production adapters

The store of the service is a pair of tables in PostgreSQL, and its cache is Redis.  The adapters
only translate the operations of the ports to calls of the client libraries, and the errors of
these to the ones of the ports.  An adapter is a program over the calls of the client libraries.

A cached account is written as sixteen bytes, and exactly these are read back.
-/

open Program

namespace Grommet.Accounts

abbrev Bytes := List UInt8

/-! ### PostgreSQL -/

/-- An error of the client library; there is no code when the connection failed. -/
structure PgError where
  code : Option String
  deriving DecidableEq

inductive PgPoolError where
  | timeout
  | backend (error : PgError)
  | other
  deriving DecidableEq

inductive Statement where
  | loadAccount
  | loadRequest
  | insertAccount
  | updateDelta
  | updateBalance
  | insertRequest
  deriving DecidableEq

/-- A row of `xt_accounts`, without its key `id`. -/
structure AccountRow where
  balance : Int64
  version : Int64
  deriving DecidableEq

/-- A row of `xt_requests`, without its key `req_id`. -/
structure RequestRow where
  accountId : Bytes
  mutationKind : Int16
  mutationValue : Int64
  balance : Int64
  version : Int64
  deriving DecidableEq

/-- A call to the database: a statement with its parameters, or one that begins or ends a
transaction. -/
inductive PgQuery where
  | transaction
  | prepareCached (statement : Statement)
  /-- `SELECT balance, version FROM xt_accounts WHERE id = $1` -/
  | loadAccount (id : Bytes)
  /-- `SELECT account_id, mutation_kind, mutation_value, balance, version FROM xt_requests
  WHERE req_id = $1` -/
  | loadRequest (reqId : Bytes)
  /-- `INSERT INTO xt_accounts (id, balance, version) VALUES ($1, $2, 1) ON CONFLICT DO NOTHING
  RETURNING balance, version` -/
  | insertAccount (id : Bytes) (balance : Int64)
  /-- `UPDATE xt_accounts SET balance = balance + $3, version = version + 1 WHERE id = $1 AND
  version = $2 RETURNING balance, version` -/
  | updateDelta (id : Bytes) (version delta : Int64)
  /-- `UPDATE xt_accounts SET balance = $3, version = version + 1 WHERE id = $1 AND version = $2
  RETURNING balance, version` -/
  | updateBalance (id : Bytes) (version balance : Int64)
  /-- `INSERT INTO xt_requests (req_id, account_id, mutation_kind, mutation_value, balance,
  version) VALUES ($1, $2, $3, $4, $5, $6)` -/
  | insertRequest (reqId : Bytes) (row : RequestRow)
  | rollback
  | commit
  deriving DecidableEq

abbrev PgQuery.Result : PgQuery → Type
  | .loadAccount _ => Option AccountRow
  | .loadRequest _ => Option RequestRow
  | .insertAccount _ _ => Option AccountRow
  | .updateDelta _ _ _ => Option AccountRow
  | .updateBalance _ _ _ => Option AccountRow
  | _ => Unit

/-! ### Redis -/

inductive ErrorKind where
  | ioError
  | moved
  | ask
  | tryAgain
  | other
  deriving DecidableEq

structure RedisError where
  kind : ErrorKind
  isTimeout : Bool
  text : String
  deriving DecidableEq

inductive RedisQuery where
  | get (key : String)
  | set (key : String) (value : Bytes) (px : UInt64)
  | del (key : String)
  deriving DecidableEq

abbrev RedisQuery.Result : RedisQuery → Type
  | .get _ => Option Bytes
  | _ => Unit

/-! ### Calls -/

/-- A call of an adapter, to a client library, to the pool that computes, or to the caller. -/
inductive Query where
  | pgPool
  | pg (q : PgQuery)
  /-- A transaction goes out of scope. -/
  | drop
  | redisPool
  | redis (q : RedisQuery)
  | run (account : Account) (params : RevalueParams)
  | send (reply : Reply)
  deriving DecidableEq

abbrev Query.Answer : Query → Type
  | .pgPool => Except PgPoolError Unit
  | .pg q => Except PgError q.Result
  | .drop => Unit
  | .redisPool => Except Unit Unit
  | .redis q => Except RedisError q.Result
  | .run _ _ => Except OffloadError Int64
  | .send _ => Unit

/-- What an adapter does until it returns. -/
abbrev Calls (α : Type) := Program Query.Answer α

/-- What an adapter does until it returns or fails. -/
abbrev Attempt (ε α : Type) := ExceptT ε (Program Query.Answer) α

/-! ### The store -/

def mapPg (error : PgError) : StoreError :=
  match error.code with
  | some code =>
      if code = "40001" then .serializationFailure
      else if code = "40P01" then .deadlock
      else .constraint code
  | none => .connectionReset

def mapPgPool : PgPoolError → StoreError
  | .timeout => .timeout
  | .backend error => mapPg error
  | .other => .poolExhausted

/-- An unsigned word that a `bigint` holds. -/
def toBigint (version : UInt64) : Option Int64 :=
  if version.toNat < 2 ^ 63 then some version.toInt64 else none

def accountFromRow (balance version : Int64) : Except StoreError Account :=
  if 0 ≤ version then .ok ⟨balance, version.toUInt64⟩
  else .error (.constraint "negative account version")

def AccountId.toBeBytes (id : AccountId) : Bytes := Bytes.be 8 id.toNat

def RequestId.toBytes (reqId : RequestId) : Bytes := Bytes.be 16 reqId.toNat

/-- The two columns of a mutation. -/
def Mutation.columns : Mutation → Int16 × Int64
  | .delta change => (0, change)
  | .setBalance balance => (1, balance)

namespace PgStore

/-- A call to the database whose error is handed on. -/
def query (q : PgQuery) : Attempt StoreError q.Result :=
  ExceptT.mk (Except.mapError mapPg <$> ask (Query.pg q))

def acquire : Calls (Except StoreError Unit) := Except.mapError mapPgPool <$> ask Query.pgPool

/-- An account that has no row is empty. -/
def loaded (row : Option AccountRow) : Except StoreError Account :=
  row.elim (.ok .empty) fun row => accountFromRow row.balance row.version

def load (id : AccountId) : Attempt StoreError Account := do
  query (.prepareCached .loadAccount)
  let row ← query (.loadAccount (AccountId.toBeBytes id))
  ExceptT.mk (pure (loaded row))

/-- A version as a column. -/
def bigint (version : UInt64) : Attempt StoreError Int64 :=
  (toBigint version).elim (throw (.constraint "account version exceeds PostgreSQL bigint")) pure

/-- The request was applied before, for this work or for another one. -/
def replay (id : AccountId) (mutation : Mutation) (row : RequestRow) :
    Attempt StoreError CommitOutcome := do
  if row.accountId ≠ AccountId.toBeBytes id ∨ row.mutationKind ≠ mutation.columns.1 ∨
      row.mutationValue ≠ mutation.columns.2 then
    query .rollback
    throw .requestConflict
  else
    let account ← ExceptT.mk (pure (accountFromRow row.balance row.version))
    query .rollback
    pure (.committed account true)

/-- Write the row of the account, if it has the expected version. -/
def write (id : AccountId) (current : Account) (expected : Int64) (mutation : Mutation) :
    Attempt StoreError (Option AccountRow) :=
  if current.version = 0 then do
    query (.prepareCached .insertAccount)
    query (.insertAccount (AccountId.toBeBytes id) mutation.columns.2)
  else
    match mutation with
    | .delta change => do
        query (.prepareCached .updateDelta)
        query (.updateDelta (AccountId.toBeBytes id) expected change)
    | .setBalance balance => do
        query (.prepareCached .updateBalance)
        query (.updateBalance (AccountId.toBeBytes id) expected balance)

/-- The answer to the commit of a transaction. -/
def committed (account : Account) : Except PgError Unit → Except StoreError CommitOutcome
  | .ok () => .ok (.committed account false)
  | .error error => if error.code = none then .ok .inDoubt else .error (mapPg error)

/-- Record the request, and commit. -/
def record (reqId : RequestId) (id : AccountId) (mutation : Mutation) (row : AccountRow) :
    Attempt StoreError CommitOutcome := do
  let account ← ExceptT.mk (pure (accountFromRow row.balance row.version))
  let version ← bigint account.version
  query (.prepareCached .insertRequest)
  query (.insertRequest (RequestId.toBytes reqId)
    ⟨AccountId.toBeBytes id, mutation.columns.1, mutation.columns.2, account.balance, version⟩)
  ExceptT.mk (committed account <$> ask (Query.pg .commit))

/-- Once the row of the account was written, or was not. -/
def conclude (reqId : RequestId) (id : AccountId) (mutation : Mutation) :
    Option AccountRow → Attempt StoreError CommitOutcome
  | none => do
      query .rollback
      throw .versionConflict
  | some row => record reqId id mutation row

/-- Once it is known whether the request was applied before. -/
def proceed (reqId : RequestId) (id : AccountId) (current : Account) (expected : Int64)
    (mutation : Mutation) : Option RequestRow → Attempt StoreError CommitOutcome
  | some row => replay id mutation row
  | none => write id current expected mutation >>= conclude reqId id mutation

/-- What a commit does in its transaction. -/
def transact (reqId : RequestId) (id : AccountId) (current : Account) (expected : Int64)
    (mutation : Mutation) : Attempt StoreError CommitOutcome := do
  query (.prepareCached .loadRequest)
  let row ← query (.loadRequest (RequestId.toBytes reqId))
  proceed reqId id current expected mutation row

/-- A transaction goes out of scope. -/
def close (outcome : Except StoreError CommitOutcome) :
    Calls (Except StoreError CommitOutcome) := do
  ask Query.drop
  pure outcome

def commit (reqId : RequestId) (id : AccountId) (current : Account) (mutation : Mutation) :
    Attempt StoreError CommitOutcome := do
  let expected ← bigint current.version
  query .transaction
  ExceptT.mk ((transact reqId id current expected mutation).run >>= close)

end PgStore

/-! ### The cache -/

def mapRedis (error : RedisError) : CacheError :=
  match error.kind with
  | .ioError => .connectionReset
  | .moved | .ask | .tryAgain => .moved 0
  | .other => if error.isTimeout then .timeout else .server error.text

def encodeAccount (account : Account) : Bytes :=
  Bytes.le 8 account.balance.toUInt64.toNat ++ Bytes.le 8 account.version.toNat

/-- The bytes from one position to another one, if there are so many. -/
def slice (bytes : Bytes) (i j : ℕ) : Option Bytes :=
  if j ≤ bytes.length then some ((bytes.drop i).take (j - i)) else none

def decodeAccount (bytes : Bytes) : Option Account := do
  let balance ← slice bytes 0 8
  let version ← slice bytes 8 16
  if bytes.length = 16 then
    some ⟨(UInt64.ofNat (Bytes.ofLe balance)).toInt64, UInt64.ofNat (Bytes.ofLe version)⟩
  else none

namespace RedisCache

def keyPrefix : String := "xt:account:"

def key (id : AccountId) : String := keyPrefix ++ toString id

/-- A call to the server on a connection of the pool. -/
def query (q : RedisQuery) : Attempt CacheError q.Result := do
  ExceptT.mk (Except.mapError (fun _ => .poolExhausted) <$> ask Query.redisPool)
  ExceptT.mk (Except.mapError mapRedis <$> ask (Query.redis q))

def get (id : AccountId) : Attempt CacheError (Option Account) := do
  let value ← query (.get (key id))
  pure (Option.bind value decodeAccount)

/-- The time to live is in seconds, and the server counts milliseconds. -/
def put (id : AccountId) (account : Account) (ttl : ℕ) : Attempt CacheError Unit :=
  query (.set (key id) (encodeAccount account) (UInt64.ofNat (ttl * 1000)))

def invalidate (id : AccountId) : Attempt CacheError Unit := query (.del (key id))

end RedisCache

/-- How production carries out the operations of the processor. -/
def produce : (op : Port Unit) → Calls op.Answer
  | .acquire => PgStore.acquire
  | .load _ id => (PgStore.load id).run
  | .commit _ reqId id current mutation => (PgStore.commit reqId id current mutation).run
  | .get id => (RedisCache.get id).run
  | .put id account ttl => (RedisCache.put id account ttl).run
  | .invalidate id => (RedisCache.invalidate id).run
  | .run account params => ask (Query.run account params)
  | .send reply => ask (Query.send reply)

/-! ### What is written is what is read -/

variable {account : Account} {bytes : Bytes}

theorem toNat_lt_width (version : UInt64) :
  version.toNat < 256 ^ 8
  := version.toNat_lt

theorem ofNat_ofLe (version : UInt64) :
  UInt64.ofNat (Bytes.ofLe (Bytes.le 8 version.toNat)) = version
  := by
  rw [Bytes.ofLe_le (toNat_lt_width version), UInt64.ofNat_toNat]

/-- Eight bytes are those of the word that is read from them. -/
theorem le_toNat_ofNat (h : bytes.length = 8) :
  Bytes.le 8 (UInt64.ofNat (Bytes.ofLe bytes)).toNat = bytes
  := by
  have hlt := Bytes.ofLe_lt bytes
  rw [h] at hlt
  rw [UInt64.toNat_ofNat_of_lt' hlt, ← h, Bytes.le_ofLe]

theorem length_encodeAccount :
  (encodeAccount account).length = 16
  := by
  rw [encodeAccount, List.length_append, Bytes.length_le (toNat_lt_width _),
    Bytes.length_le (toNat_lt_width _)]

theorem decodeAccount_of_length (h : bytes.length = 16) :
  decodeAccount bytes = some ⟨(UInt64.ofNat (Bytes.ofLe (bytes.take 8))).toInt64,
    UInt64.ofNat (Bytes.ofLe (bytes.drop 8))⟩
  := by
  have hdrop : (bytes.drop 8).take 8 = bytes.drop 8 := List.take_of_length_le (by simp [h])
  rw [decodeAccount, slice, slice, if_pos (by omega), if_pos (by omega)]
  simp only [Option.bind_eq_bind, Option.bind_some, List.drop_zero, Nat.sub_zero, Nat.reduceSub, hdrop]
  exact if_pos h

theorem decodeAccount_of_length_ne (h : bytes.length ≠ 16) :
  decodeAccount bytes = none
  := by
  rw [decodeAccount]
  cases slice bytes 0 8 with
  | none => rfl
  | some balance =>
    cases slice bytes 8 16 with
    | none => rfl
    | some version => exact if_neg h

theorem decodeAccount_encodeAccount (account : Account) :
  decodeAccount (encodeAccount account) = some account
  := by
  have hbalance := Bytes.length_le (toNat_lt_width account.balance.toUInt64)
  rw [decodeAccount_of_length length_encodeAccount, encodeAccount, List.take_left' hbalance,
    List.drop_left' hbalance, ofNat_ofLe, ofNat_ofLe, Int64.toInt64_toUInt64]

/-- What is read as an account is what is written for it, and nothing else. -/
theorem decodeAccount_eq_some :
  decodeAccount bytes = some account ↔ bytes = encodeAccount account
  := by
  constructor
  · intro h
    have hlength : bytes.length = 16 := by
      by_contra hne
      rw [decodeAccount_of_length_ne hne] at h
      cases h
    rw [decodeAccount_of_length hlength] at h
    cases h
    rw [encodeAccount, UInt64.toUInt64_toInt64, le_toNat_ofNat (by simp [hlength]),
      le_toNat_ofNat (by simp [hlength]), List.take_append_drop]
  · rintro rfl
    exact decodeAccount_encodeAccount account

/-- Accounts have different keys. -/
theorem RedisCache.key_inj {id id' : AccountId} :
  RedisCache.key id = RedisCache.key id' ↔ id = id'
  := by
  refine ⟨fun h => ?_, fun h => by rw [h]⟩
  have hdigits : Nat.toDigits 10 id.toNat = Nat.toDigits 10 id'.toNat := by
    rw [← Nat.toList_repr, ← Nat.toList_repr]
    exact congrArg String.toList ((String.append_right_inj keyPrefix).mp h)
  rw [← UInt64.toNat_inj, ← @Nat.ofDigitChars_ten_toDigits id.toNat, hdigits,
    Nat.ofDigitChars_ten_toDigits]

theorem AccountId.toBeBytes_inj {id id' : AccountId} :
  AccountId.toBeBytes id = AccountId.toBeBytes id' ↔ id = id'
  := (Bytes.be_inj (toNat_lt_width id) (toNat_lt_width id')).trans UInt64.toNat_inj

theorem RequestId.toBytes_inj {reqId reqId' : RequestId} :
  RequestId.toBytes reqId = RequestId.toBytes reqId' ↔ reqId = reqId'
  := (Bytes.be_inj reqId.isLt reqId'.isLt).trans BitVec.toNat_inj

theorem Mutation.columns_inj {mutation mutation' : Mutation} :
  mutation.columns = mutation'.columns ↔ mutation = mutation'
  := by
  refine ⟨fun h => ?_, fun h => by rw [h]⟩
  cases mutation <;> cases mutation' <;> simp_all [columns]

end Grommet.Accounts
