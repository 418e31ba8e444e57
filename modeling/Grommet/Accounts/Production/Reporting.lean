import Grommet.Accounts.Course
import Grommet.Accounts.Production.Adapters

/-!
# What production tells the callers

In production a call of the processor talks to the database, to the cache server, to the pool
that computes and to its caller.  Nothing is assumed of what these answer.  Even so the call
commits one transaction at most, which carries the row of its account and the record of its
request and nothing else, it names its own account and request alone, and what it tells its
caller is what it was answered.
-/

open Program

namespace Grommet.Accounts

/-- A call of an adapter with its answer. -/
abbrev Contact := Program.Event Query.Answer

namespace Contact

/-- The answer to a commit. -/
def commit : Contact → Option (Except PgError Unit)
  | ⟨.pg .commit, answer⟩ => some answer
  | _ => none

/-- The reply that the caller is sent. -/
def reply : Contact → Option Reply
  | ⟨.send reply, _⟩ => some reply
  | _ => none

end Contact

/-- The answers to the commits so far. -/
def commits (t : List Contact) : List (Except PgError Unit) := t.filterMap Contact.commit

/-- The replies so far. -/
def told (t : List Contact) : List Reply := t.filterMap Contact.reply

/-- A call to the database that succeeded. -/
def answered (q : PgQuery) (result : q.Result) : Contact := ⟨.pg q, .ok result⟩

/-- A code is that of one value and of no other. -/
def Identifies {α β : Type} (encode : α → β) (code : β) (a : α) : Prop :=
  ∀ a', encode a' = code ↔ a' = a

/-! ### Rows -/

/-- A row holds an account. -/
def AccountRow.Is (row : AccountRow) (account : Account) : Prop :=
  row.balance = account.balance ∧ row.version.toInt = account.version.toNat

/-- A row records a request that was applied. -/
def RequestRow.Is (row : RequestRow) (prior : AppliedRequest) : Prop :=
  row.accountId = AccountId.toBeBytes prior.accountId ∧
    (row.mutationKind, row.mutationValue) = prior.mutation.columns ∧
    (⟨row.balance, row.version⟩ : AccountRow).Is prior.account

/-- The row of an account, or no row when it is empty. -/
def Holds (row : Option AccountRow) (account : Account) : Prop :=
  row.elim (account = .empty) fun row => row.Is account

/-- A statement that writes the row of an account, if that has the version of the current one. -/
inductive Writes (id : AccountId) (current : Account) :
    Mutation → Statement → AccountRow → Contact → Prop
  | insert {mutation : Mutation} {row : AccountRow} : current.version = 0 →
      Writes id current mutation .insertAccount row
        (answered (.insertAccount (AccountId.toBeBytes id) mutation.columns.2) (some row))
  | delta {change expected : Int64} {row : AccountRow} : current.version ≠ 0 →
      expected.toInt = current.version.toNat →
      Writes id current (.delta change) .updateDelta row
        (answered (.updateDelta (AccountId.toBeBytes id) expected change) (some row))
  | balance {balance expected : Int64} {row : AccountRow} : current.version ≠ 0 →
      expected.toInt = current.version.toNat →
      Writes id current (.setBalance balance) .updateBalance row
        (answered (.updateBalance (AccountId.toBeBytes id) expected balance) (some row))

/-! ### What a call may do -/

/-- An account that a call was given: its state, one that the cache had or one that the database
answered. -/
inductive Sourced (request : Request) (state : Option Account) (t : List Contact)
    (account : Account) : Prop
  | resident : state = some account → Sourced request state t account
  | cached {bytes : Bytes} :
      ⟨.redis (.get (RedisCache.key request.account)), .ok (some bytes)⟩ ∈ t →
      decodeAccount bytes = some account → Sourced request state t account
  | loaded {row : Option AccountRow} :
      answered (.loadAccount (AccountId.toBeBytes request.account)) row ∈ t → Holds row account →
      Sourced request state t account
  | wrote {current : Account} {mutation : Mutation} {statement : Statement} {row : AccountRow}
      {write : Contact} : Writes request.account current mutation statement row write → write ∈ t →
      row.Is account → Sourced request state t account
  | recorded {row : RequestRow} {mutation : Mutation} :
      answered (.loadRequest (RequestId.toBytes request.reqId)) (some row) ∈ t →
      row.Is ⟨request.account, mutation, account⟩ → Sourced request state t account

/-- A mutation that an operation asks for, when it is applied to an account. -/
def Wants (t : List Contact) (op : Op) (current : Account) (mutation : Mutation) : Prop :=
  match op with
  | .debit amount => 0 ≤ amount ∧ mutation = .delta (-amount)
  | .credit amount => 0 ≤ amount ∧ mutation = .delta amount
  | .balance => False
  | .revalue params => ∃ balance, ⟨.run current params, .ok balance⟩ ∈ t ∧
      mutation = .setBalance balance

/-- The calls of a transaction that is ready to be committed: the request was not recorded, the
row of the account was written and the request was recorded with that row. -/
def transaction (reqId : RequestId) (id : AccountId) (mutation : Mutation) (statement : Statement)
    (write : Contact) (row : AccountRow) : List Contact :=
  [answered .transaction (), answered (.prepareCached .loadRequest) (),
    answered (.loadRequest (RequestId.toBytes reqId)) none, answered (.prepareCached statement) (),
    write, answered (.prepareCached .insertRequest) (),
    answered (.insertRequest (RequestId.toBytes reqId) ⟨AccountId.toBeBytes id, mutation.columns.1,
      mutation.columns.2, row.balance, row.version⟩) ()]

/-- A call is about to commit a row for its request. -/
def Prepared (request : Request) (state : Option Account) (t : List Contact) (row : AccountRow) :
    Prop :=
  ∃ before current mutation statement write,
    t = before ++ transaction request.reqId request.account mutation statement write row ∧
      Writes request.account current mutation statement row write ∧
      Sourced request state before current ∧ Wants before request.op current mutation

/-- What the database answered of a request, when a commit returns so. -/
def Settled (request : Request) (state : Option Account) (t : List Contact) :
    Except StoreError CommitOutcome → Prop
  | .ok (.committed account false) => commits t = [.ok ()] ∧
      ∃ before after row, t = before ++ answered .commit () :: after ∧
        Prepared request state before row ∧ row.Is account
  | .ok (.committed account true) => commits t = [] ∧ ∃ row current mutation,
      answered (.loadRequest (RequestId.toBytes request.reqId)) (some row) ∈ t ∧
        Sourced request state t current ∧ Wants t request.op current mutation ∧
        ∀ prior, row.Is prior ↔ prior = ⟨request.account, mutation, account⟩
  | .ok .inDoubt => commits t = [.error ⟨none⟩]
  | .error _ => commits t = [] ∨ ∃ code, commits t = [.error ⟨some code⟩]

/-- What entitles a call to tell its caller so. -/
def Warranted (request : Request) (state : Option Account) (t : List Contact) : Reply → Prop
  | .ok balance => (request.op = .balance ∧ commits t = [] ∧
      ∃ account, Sourced request state t account ∧ balance = account.balance) ∨
      ∃ account, Settled request state t (.ok (.committed account false)) ∧
        balance = account.balance
  | .duplicate balance =>
      ∃ account, Settled request state t (.ok (.committed account true)) ∧ balance = account.balance
  | .err message => commits t = [] ∨ (∃ code, commits t = [.error ⟨some code⟩]) ∨
      (commits t = [.error ⟨none⟩] ∧ message = Failure.inDoubt.message)

/-- What holds of every call of an adapter, after the ones before it. -/
def Lawful (request : Request) (state : Option Account) (t : List Contact) : Query → Prop
  | .pg (.loadAccount id) => Identifies AccountId.toBeBytes id request.account
  | .pg (.loadRequest reqId) => Identifies RequestId.toBytes reqId request.reqId
  | .pg (.insertAccount id _) => Identifies AccountId.toBeBytes id request.account
  | .pg (.updateDelta id _ _) => Identifies AccountId.toBeBytes id request.account
  | .pg (.updateBalance id _ _) => Identifies AccountId.toBeBytes id request.account
  | .pg (.insertRequest reqId row) => Identifies RequestId.toBytes reqId request.reqId ∧
      Identifies AccountId.toBeBytes row.accountId request.account
  | .pg .commit => commits t = [] ∧ ∃ row, Prepared request state t row
  | .redis (.get key) => Identifies RedisCache.key key request.account
  | .redis (.set key value _) => Identifies RedisCache.key key request.account ∧
      ∃ account, Sourced request state t account ∧ value = encodeAccount account
  | .redis (.del key) => Identifies RedisCache.key key request.account
  | .run account params => request.op = .revalue params ∧ Sourced request state t account
  | .send reply => told t = [] ∧ Warranted request state t reply
  | _ => True

/-- What holds of a call that has come to its end. -/
def Concluded (request : Request) (state : Option Account) (t : List Contact)
    (r : Except Failure (Disposition Account)) : Prop :=
  (∃ reply, told t = [reply] ∧ Warranted request state t reply) ∧
    ∀ account, r = .ok (.keep account) → Sourced request state t account

variable {request : Request} {state : Option Account} {T : List (Exchange Unit)}
  {t u : List Contact} {x : Exchange Unit} {e : Contact} {account current : Account}
  {row : AccountRow} {mutation : Mutation} {version : UInt64} {expected : Int64} {reply : Reply}
  {answer : Except StoreError CommitOutcome}

theorem identifies_of_inj {α β : Type} {encode : α → β}
    (hinj : ∀ {a a'}, encode a = encode a' ↔ a = a') (a : α) :
  Identifies encode (encode a) a
  := fun _ => hinj

/-! ### Rows are accounts -/

theorem toNat_toUInt64 {version : Int64} (h : 0 ≤ version) :
  (version.toUInt64.toNat : ℤ) = version.toInt
  := by
  have hnonneg : 0 ≤ version.toInt := Int64.le_iff_toInt_le.mp h
  rw [Int64.toNat_toUInt64_of_le h]
  exact Int.toNat_of_nonneg hnonneg

theorem toInt_toInt64 (h : version.toNat < 2 ^ 63) :
  version.toInt64.toInt = version.toNat
  := BitVec.toInt_eq_toNat_of_lt (by rw [UInt64.toBitVec_toInt64, UInt64.toNat_toBitVec]; omega)

theorem accountFromRow_eq_ok :
  accountFromRow row.balance row.version = .ok account ↔ row.Is account
  := by
  rw [accountFromRow, AccountRow.Is]
  by_cases h : 0 ≤ row.version
  · rw [if_pos h, ← toNat_toUInt64 h, Int.natCast_inj, UInt64.toNat_inj]
    constructor
    · rintro ⟨⟩
      exact ⟨rfl, rfl⟩
    · rintro ⟨hbalance, hversion⟩
      rw [hbalance, hversion]
  · rw [if_neg h]
    refine ⟨by rintro ⟨⟩, fun ⟨_, hversion⟩ => (h ?_).elim⟩
    rw [Int64.le_iff_toInt_le, hversion]
    exact Int.natCast_nonneg _

theorem toBigint_eq_some :
  toBigint version = some expected ↔ expected.toInt = version.toNat
  := by
  rw [toBigint]
  have hlt := Int64.toInt_lt expected
  by_cases h : version.toNat < 2 ^ 63
  · rw [if_pos h, Option.some_inj, ← toInt_toInt64 h, Int64.toInt_inj, eq_comm]
  · rw [if_neg h]
    refine ⟨by rintro ⟨⟩, fun hversion => ?_⟩
    omega

/-- A row holds one account. -/
theorem AccountRow.Is.unique {account' : Account} (h : row.Is account) (h' : row.Is account') :
  account = account'
  := by
  rw [← accountFromRow_eq_ok] at h h'
  exact Except.ok.inj (h.symm.trans h')

/-- A row records one request. -/
theorem RequestRow.Is.unique {row : RequestRow} {prior prior' : AppliedRequest} (h : row.Is prior)
    (h' : row.Is prior') :
  prior = prior'
  := by
  obtain ⟨hid, hmutation, haccount⟩ := h
  obtain ⟨hid', hmutation', haccount'⟩ := h'
  obtain ⟨id, mutation, account⟩ := prior
  obtain ⟨id', mutation', account'⟩ := prior'
  obtain rfl : id = id' := AccountId.toBeBytes_inj.mp (hid.symm.trans hid')
  obtain rfl : mutation = mutation' := Mutation.columns_inj.mp (hmutation.symm.trans hmutation')
  obtain rfl : account = account' := haccount.unique haccount'
  rfl

/-- What is loaded is the account of the row. -/
theorem loaded_eq_ok {row : Option AccountRow} :
  PgStore.loaded row = .ok account ↔ Holds row account
  := by
  cases row with
  | none => exact ⟨fun h => (Except.ok.inj h).symm, fun h => congrArg Except.ok h.symm⟩
  | some row => exact accountFromRow_eq_ok

/-- A version that a row holds is written as it was read. -/
theorem bigint_of_is (h : row.Is account) :
  PgStore.bigint account.version = pure row.version
  := by
  rw [PgStore.bigint, toBigint_eq_some.mpr h.2]
  rfl

/-! ### What a call keeps -/

theorem commits_aside (h : e.commit = none) :
  commits (t ++ [e]) = commits t
  := by
  simp [commits, h]

theorem told_aside (h : e.reply = none) :
  told (t ++ [e]) = told t
  := by
  simp [told, h]

/-- A call to the database that is not a commit. -/
theorem Contact.commit_pg {q : PgQuery} (hq : q ≠ .commit) (answer : (Query.pg q).Answer) :
  Contact.commit ⟨.pg q, answer⟩ = none
  := by
  cases q with
  | commit => exact (hq rfl).elim
  | _ => rfl

theorem Sourced.append (h : Sourced request state t account) (u : List Contact) :
  Sourced request state (t ++ u) account
  := by
  cases h with
  | resident hstate => exact .resident hstate
  | cached hmem hdecode => exact .cached (List.mem_append_left _ hmem) hdecode
  | loaded hmem hrow => exact .loaded (List.mem_append_left _ hmem) hrow
  | wrote hwrites hmem hrow => exact .wrote hwrites (List.mem_append_left _ hmem) hrow
  | recorded hmem hrow => exact .recorded (List.mem_append_left _ hmem) hrow

theorem Wants.append {op : Op} (h : Wants t op current mutation) (u : List Contact) :
  Wants (t ++ u) op current mutation
  := by
  cases op with
  | revalue params =>
    obtain ⟨balance, hmem, hmutation⟩ := h
    exact ⟨balance, List.mem_append_left _ hmem, hmutation⟩
  | debit amount => exact h
  | credit amount => exact h
  | balance => exact h

/-- What was settled stays so until the call commits again. -/
theorem Settled.concat (h : Settled request state t answer) (he : e.commit = none) :
  Settled request state (t ++ [e]) answer
  := by
  have hcommits : commits (t ++ [e]) = commits t := commits_aside he
  rcases answer with error | (⟨account, _ | _⟩ | _)
  · rw [Settled, hcommits]
    exact h
  · obtain ⟨hcommitted, before, after, row, rfl, hprepared, hrow⟩ := h
    exact ⟨hcommits.trans hcommitted, before, after ++ [e], row, by simp, hprepared, hrow⟩
  · obtain ⟨hnone, row, current, mutation, hmem, hsourced, hwants, hprior⟩ := h
    exact ⟨hcommits.trans hnone, row, current, mutation, List.mem_append_left _ hmem,
      hsourced.append _, hwants.append _, hprior⟩
  · rw [Settled, hcommits]
    exact h

/-- What the calls of the adapters say of the operations of the processor. -/
structure Tied (request : Request) (state : Option Account) (T : List (Exchange Unit))
    (t : List Contact) : Prop where
  told : told t = replies T
  sourced : ∀ account, Given state T account → Sourced request state t account
  computed : ∀ account params balance, ⟨.run account params, .ok balance⟩ ∈ T →
    (⟨.run account params, .ok balance⟩ : Contact) ∈ t
  settled : (outcomes T = [] ∧ commits t = []) ∨
    ∃ answer, outcomes T = [answer] ∧ Settled request state t answer

namespace Tied

/-- A call of an adapter. -/
theorem concat (h : Tied request state T t) (hcommit : e.commit = none) (hreply : e.reply = none) :
  Tied request state T (t ++ [e])
  := by
  refine ⟨(told_aside hreply).trans h.told,
    fun account hgiven => (h.sourced account hgiven).append _,
    fun account params balance hmem => List.mem_append_left _ (h.computed _ _ _ hmem), ?_⟩
  rcases h.settled with ⟨hnone, hcommits⟩ | ⟨answer, hanswer, hsettled⟩
  · exact Or.inl ⟨hnone, (commits_aside hcommit).trans hcommits⟩
  · exact Or.inr ⟨answer, hanswer, hsettled.concat hcommit⟩

/-- An operation of the processor that is neither a commit nor a reply. -/
theorem operation (h : Tied request state T t) (houtcome : x.outcome = none)
    (hreply : x.reply = none)
    (haccount : ∀ account, x.account = some account → Sourced request state t account)
    (hrun : ∀ account params balance, x = ⟨.run account params, .ok balance⟩ →
      (⟨.run account params, .ok balance⟩ : Contact) ∈ t) :
  Tied request state (T ++ [x]) t
  := by
  refine ⟨h.told.trans (replies_aside hreply).symm, fun account hgiven => ?_,
    fun account params balance hmem => ?_, ?_⟩
  · rcases given_concat.mp hgiven with hgiven | hx
    · exact h.sourced account hgiven
    · exact haccount account hx
  · rcases List.mem_append.mp hmem with hmem | hmem
    · exact h.computed _ _ _ hmem
    · exact hrun _ _ _ (List.mem_singleton.mp hmem).symm
  · rw [outcomes_aside houtcome]
    exact h.settled

/-- An operation that answers no account and computes nothing. -/
theorem quiet (h : Tied request state T t) (houtcome : x.outcome = none) (hreply : x.reply = none)
    (haccount : x.account = none) (hrun : ∀ account params, x.1 ≠ .run account params) :
  Tied request state (T ++ [x]) t
  := by
  apply h.operation houtcome hreply
  · rw [haccount]
    rintro _ ⟨⟩
  · rintro account params balance rfl
    exact (hrun account params rfl).elim

/-- A commit of the processor. -/
theorem outcome {session : Unit} {reqId : RequestId} {id : AccountId}
    (h : Tied request state T t) (hfresh : outcomes T = [])
    (hsettled : Settled request state u answer) (htu : ∃ w, u = t ++ w)
    (htold : u.filterMap Contact.reply = t.filterMap Contact.reply)
    (haccount : ∀ account duplicate, answer = .ok (.committed account duplicate) →
      Sourced request state u account) :
  Tied request state (T ++ [⟨.commit session reqId id current mutation, answer⟩]) u
  := by
  obtain ⟨w, rfl⟩ := htu
  refine ⟨?_, fun account hgiven => ?_, fun account params balance hmem => ?_,
    Or.inr ⟨answer, ?_, hsettled⟩⟩
  · rw [replies_aside rfl, ← h.told]
    exact htold
  · rcases given_concat.mp hgiven with hgiven | hx
    · exact (h.sourced account hgiven).append w
    · rcases answer with error | (⟨account', duplicate⟩ | _)
      · cases hx
      · cases hx
        exact haccount _ _ rfl
      · cases hx
  · rcases List.mem_append.mp hmem with hmem | hmem
    · exact List.mem_append_left _ (h.computed _ _ _ hmem)
    · cases List.mem_singleton.mp hmem
  · rw [outcomes_concat, hfresh]
    rfl

theorem commits_eq_nil (h : Tied request state T t) (hfresh : outcomes T = []) :
  commits t = []
  := by
  rcases h.settled with ⟨-, hcommits⟩ | ⟨answer, hanswer, -⟩
  · exact hcommits
  · rw [hfresh] at hanswer
    cases hanswer

/-- A commit of the processor may fail as long as the database was not asked for one. -/
theorem refused (h : Tied request state T t) (hfresh : outcomes T = []) (error : StoreError) :
  Settled request state t (.error error)
  := Or.inl (h.commits_eq_nil hfresh)

/-- What entitles a call to a reply, as the calls of its adapters say it. -/
theorem warranted (h : Tied request state T t) (hreply : Entitled request state T reply) :
  Warranted request state t reply
  := by
  have hsettled : ∀ answer, outcomes T = [answer] → Settled request state t answer := by
    intro answer hanswer
    rcases h.settled with ⟨hnone, -⟩ | ⟨answer', hanswer', hsettled⟩
    · rw [hnone] at hanswer
      cases hanswer
    · rw [hanswer'] at hanswer
      cases hanswer
      exact hsettled
  cases reply with
  | ok balance =>
    rcases hreply with ⟨hfresh, hop, account, hgiven, rfl⟩ | ⟨account, hanswer, rfl⟩
    · exact Or.inl ⟨hop, h.commits_eq_nil hfresh, account, h.sourced account hgiven, rfl⟩
    · exact Or.inr ⟨account, hsettled _ hanswer, rfl⟩
  | duplicate balance =>
    obtain ⟨account, hanswer, rfl⟩ := hreply
    exact ⟨account, hsettled _ hanswer, rfl⟩
  | err message =>
    rcases hreply with hfresh | ⟨error, hanswer⟩ | ⟨hanswer, hmessage⟩
    · exact Or.inl (h.commits_eq_nil hfresh)
    · rcases hsettled _ hanswer with hcommits | hcode
      · exact Or.inl hcommits
      · exact Or.inr (Or.inl hcode)
    · exact Or.inr (Or.inr ⟨hsettled _ hanswer, hmessage⟩)

end Tied

/-! ### The store -/

section Store

variable {α γ : Type} {q : PgQuery} {f : q.Result → Attempt StoreError α}
  {k : Except StoreError α → Calls γ} {G : List Contact → Query → Prop}
  {Q : List Contact → γ → Prop}

/-- What is left to do after a call to the database. -/
def PgStore.resume (f : q.Result → Attempt StoreError α) (k : Except StoreError α → Calls γ) :
    Except PgError q.Result → Calls γ
  | .ok result => (f result).run >>= k
  | .error error => k (.error (mapPg error))

theorem PgStore.query_bind :
  (PgStore.query q >>= f).run >>= k = act (.pg q) (PgStore.resume f k)
  := by
  show act (Query.pg q) _ = _
  congr 1
  funext answer
  cases answer <;> rfl

theorem PgStore.query_assoc {β : Type} {g : α → Attempt StoreError β} :
  (PgStore.query q >>= f) >>= g = PgStore.query q >>= fun result => f result >>= g
  := by
  show act (Query.pg q) _ = act (Query.pg q) _
  congr 1
  funext answer
  cases answer <;> rfl

/-- The rule for a call to the database whose error is handed on. -/
theorem conducts_query (hG : G t (.pg q))
    (hok : ∀ result, Conducts G Q (t ++ [answered q result]) ((f result).run >>= k))
    (herror : ∀ error, Conducts G Q (t ++ [⟨.pg q, .error error⟩]) (k (.error (mapPg error)))) :
  Conducts G Q t ((PgStore.query q >>= f).run >>= k)
  := by
  rw [PgStore.query_bind]
  refine ⟨hG, fun answer => ?_⟩
  cases answer with
  | ok result => exact hok result
  | error error => exact herror error

end Store

/-- What an operation of the processor is tied to, once it is carried out. -/
def Carries (request : Request) (state : Option Account) (T : List (Exchange Unit)) (op : Port Unit)
    (t : List Contact) (answer : op.Answer) : Prop :=
  Tied request state (T ++ [⟨op, answer⟩]) t

theorem acquire_conducts (h : Tied request state T t) :
  Conducts (Lawful request state) (Carries request state T .acquire) t (produce .acquire)
  := by
  refine ⟨trivial, fun answer => ?_⟩
  exact (h.concat rfl rfl).quiet rfl rfl rfl (by rintro _ _ ⟨⟩)

theorem load_conducts (h : Tied request state T t) :
  Conducts (Lawful request state) (Carries request state T (.load () request.account)) t
    (produce (.load () request.account))
  := by
  have hfails : ∀ {u} error, Tied request state T u →
      Conducts (Lawful request state) (Carries request state T (.load () request.account)) u
        (pure (.error error)) := fun error h => h.quiet rfl rfl rfl (by rintro _ _ ⟨⟩)
  rw [produce, ← bind_pure' (ExceptT.run _)]
  refine conducts_query trivial (fun _ => ?_) fun error => hfails _ (h.concat rfl rfl)
  have hprepared := h.concat (e := answered (.prepareCached .loadAccount) ()) rfl rfl
  refine conducts_query (identifies_of_inj AccountId.toBeBytes_inj _) (fun row => ?_) fun error =>
    hfails _ (hprepared.concat rfl rfl)
  have hloaded := hprepared.concat
    (e := answered (.loadAccount (AccountId.toBeBytes request.account)) row) rfl rfl
  show Carries request state T (.load () request.account) _ (PgStore.loaded row)
  apply hloaded.operation rfl rfl
  · intro account haccount
    cases hrow : PgStore.loaded row with
    | error error =>
      rw [hrow] at haccount
      cases haccount
    | ok account' =>
      rw [hrow] at haccount
      cases haccount
      exact .loaded (List.mem_append_right _ (List.mem_singleton_self _)) (loaded_eq_ok.mp hrow)
  · rintro _ _ _ ⟨⟩

/-- What a call plans is what it wants. -/
theorem Tied.wants {op : Op} (h : Tied request state T t) (hplan : Plans T op current mutation) :
  Wants t op current mutation
  := by
  cases op with
  | revalue params =>
    obtain ⟨balance, hmem, hmutation⟩ := hplan
    exact ⟨balance, h.computed _ _ _ hmem, hmutation⟩
  | debit amount => exact hplan
  | credit amount => exact hplan
  | balance => exact hplan

/-- A program carries out a commit of the processor from here on. -/
abbrev CarriesOut (request : Request) (state : Option Account) (T : List (Exchange Unit))
    (current : Account) (mutation : Mutation) (t : List Contact)
    (p : Calls (Except StoreError CommitOutcome)) : Prop :=
  Conducts (Lawful request state)
    (Carries request state T (.commit () request.reqId request.account current mutation)) t p

/-- A commit returns once its transaction is out of scope. -/
theorem close_conducts (hfresh : outcomes T = []) (h : Tied request state T t)
    (hsettled : Settled request state u answer) (htu : ∃ w, u = t ++ w) (htold : told u = told t)
    (haccount : ∀ account duplicate, answer = .ok (.committed account duplicate) →
      Sourced request state u account) :
  CarriesOut request state T current mutation u (PgStore.close answer)
  := by
  obtain ⟨w, rfl⟩ := htu
  refine ⟨trivial, fun _ => h.outcome hfresh (hsettled.concat rfl) ⟨w ++ [⟨.drop, ()⟩], ?_⟩ ?_ ?_⟩
  · exact List.append_assoc _ _ _
  · exact (told_aside rfl).trans htold
  · exact fun account duplicate hanswer => (haccount account duplicate hanswer).append _

/-- A commit that fails before it has a transaction. -/
theorem fail_conducts (hfresh : outcomes T = []) (h : Tied request state T t) (error : StoreError) :
  CarriesOut request state T current mutation t (pure (.error error))
  := by
  apply h.outcome hfresh (h.refused hfresh error) ⟨[], (List.append_nil t).symm⟩ rfl
  rintro _ _ ⟨⟩

/-- A commit that is refused before it reaches the end of its transaction. -/
theorem refuse_conducts (hfresh : outcomes T = []) (h : Tied request state T t)
    (error : StoreError) :
  CarriesOut request state T current mutation t (PgStore.close (.error error))
  := by
  apply close_conducts hfresh h (h.refused hfresh error) ⟨[], (List.append_nil t).symm⟩ rfl
  rintro _ _ ⟨⟩

/-- A transaction that is rolled back to refuse the commit. -/
theorem rollback_conducts (hfresh : outcomes T = []) (h : Tied request state T t)
    (error : StoreError) :
  CarriesOut request state T current mutation t
    ((PgStore.query .rollback >>= fun _ =>
      (throw error : Attempt StoreError CommitOutcome)).run >>= PgStore.close)
  := conducts_query trivial (fun _ => refuse_conducts hfresh (h.concat rfl rfl) error)
    fun _ => refuse_conducts hfresh (h.concat rfl rfl) _

/-- The rule for a statement of a commit, which is prepared first. -/
theorem statement_conducts {statement : Statement} {q : PgQuery}
    {f : q.Result → Attempt StoreError CommitOutcome} (hfresh : outcomes T = [])
    (h : Tied request state T t) (hq : q ≠ .commit)
    (hlawful : Lawful request state (t ++ [answered (.prepareCached statement) ()]) (.pg q))
    (hrest : ∀ result,
      Tied request state T (t ++ [answered (.prepareCached statement) ()] ++ [answered q result]) →
      CarriesOut request state T current mutation
        (t ++ [answered (.prepareCached statement) ()] ++ [answered q result])
        ((f result).run >>= PgStore.close)) :
  CarriesOut request state T current mutation t
    ((PgStore.query (.prepareCached statement) >>= fun _ => PgStore.query q >>= f).run >>=
      PgStore.close)
  := by
  refine conducts_query trivial (fun _ => ?_) fun error =>
    refuse_conducts hfresh (h.concat rfl rfl) _
  have hprepare := h.concat (e := answered (.prepareCached statement) ()) rfl rfl
  refine conducts_query hlawful (fun result => ?_) fun error =>
    refuse_conducts hfresh (hprepare.concat (Contact.commit_pg hq _) rfl) _
  exact hrest result (hprepare.concat (Contact.commit_pg hq _) rfl)

/-- The request was recorded. -/
theorem replay_conducts {row : RequestRow} (hfresh : outcomes T = []) (h : Tied request state T t)
    (hmem : answered (.loadRequest (RequestId.toBytes request.reqId)) (some row) ∈ t)
    (hsourced : Sourced request state t current) (hwants : Wants t request.op current mutation) :
  CarriesOut request state T current mutation t
    ((PgStore.replay request.account mutation row).run >>= PgStore.close)
  := by
  rw [PgStore.replay]
  split
  · exact rollback_conducts hfresh h .requestConflict
  · rename_i hsame
    simp only [not_or, not_not] at hsame
    cases hrow : accountFromRow row.balance row.version with
    | error error => exact refuse_conducts hfresh h error
    | ok account =>
      have his : row.Is ⟨request.account, mutation, account⟩ :=
        ⟨hsame.1, Prod.ext hsame.2.1 hsame.2.2, accountFromRow_eq_ok.mp hrow⟩
      refine conducts_query trivial (fun _ => ?_) fun error =>
        refuse_conducts hfresh (h.concat rfl rfl) _
      have hrolled := h.concat (e := answered .rollback ()) rfl rfl
      apply close_conducts hfresh hrolled _ ⟨[], (List.append_nil _).symm⟩ rfl
      · rintro _ _ ⟨⟩
        exact .recorded (List.mem_append_left _ hmem) his
      · exact ⟨hrolled.commits_eq_nil hfresh, row, current, mutation, List.mem_append_left _ hmem,
          hsourced.append _, hwants.append _, fun prior => ⟨fun hprior => hprior.unique his,
          fun hprior => hprior ▸ his⟩⟩

/-- A transaction that is ready is committed. -/
theorem commit_conducts (hfresh : outcomes T = []) (h : Tied request state T t)
    (hprepared : Prepared request state t row) (his : row.Is account)
    (hsourced : Sourced request state t account) :
  CarriesOut request state T current mutation t
    (act (.pg .commit) fun answer => PgStore.close (PgStore.committed account answer))
  := by
  have hnone := h.commits_eq_nil hfresh
  refine ⟨⟨hnone, row, hprepared⟩, fun answer => ?_⟩
  have hcommits : commits (t ++ [⟨.pg .commit, answer⟩]) = [answer] := by
    rw [commits, List.filterMap_append, ← commits, hnone]
    rfl
  have hends : ∀ outcome, Settled request state (t ++ [⟨.pg .commit, answer⟩]) outcome →
      (∀ account duplicate, outcome = .ok (.committed account duplicate) →
        Sourced request state t account) →
      CarriesOut request state T current mutation (t ++ [⟨.pg .commit, answer⟩])
        (PgStore.close outcome) := by
    intro outcome hsettled haccount
    apply close_conducts hfresh h hsettled ⟨_, rfl⟩ (told_aside rfl)
    exact fun account duplicate houtcome => (haccount account duplicate houtcome).append _
  rcases answer with ⟨⟨_ | code⟩⟩ | _
  · exact hends (.ok .inDoubt) hcommits (by rintro _ _ ⟨⟩)
  · exact hends (.error _) (Or.inr ⟨code, hcommits⟩) (by rintro _ _ ⟨⟩)
  · apply hends (.ok (.committed account false))
    · exact ⟨hcommits, t, [], row, rfl, hprepared, his⟩
    · rintro _ _ ⟨⟩
      exact hsourced

/-- The row of the account was written: the request is recorded with it, and the transaction is
committed. -/
theorem record_conducts {statement : Statement} {write : Contact} (hfresh : outcomes T = [])
    (hwrites : Writes request.account current mutation statement row write)
    (hsourced : Sourced request state t current) (hwants : Wants t request.op current mutation)
    (hu : u = t ++ [answered .transaction (), answered (.prepareCached .loadRequest) (),
      answered (.loadRequest (RequestId.toBytes request.reqId)) none,
      answered (.prepareCached statement) (), write])
    (htied : Tied request state T u) :
  CarriesOut request state T current mutation u
    ((PgStore.record request.reqId request.account mutation row).run >>= PgStore.close)
  := by
  rw [PgStore.record]
  cases hrow : accountFromRow row.balance row.version with
  | error error => exact refuse_conducts hfresh htied error
  | ok account =>
    have his := accountFromRow_eq_ok.mp hrow
    have hmem : write ∈ u := by simp [hu]
    show Conducts _ _ u ((PgStore.bigint account.version >>= _).run >>= _)
    rw [bigint_of_is his, ← his.1]
    have hreqId := identifies_of_inj RequestId.toBytes_inj request.reqId
    have hid := identifies_of_inj AccountId.toBeBytes_inj request.account
    refine statement_conducts hfresh htied (by rintro ⟨⟩) ⟨hreqId, hid⟩ fun _ hinsert => ?_
    apply commit_conducts hfresh hinsert _ his
    · exact .wrote hwrites (List.mem_append_left _ (List.mem_append_left _ hmem)) his
    · exact ⟨t, current, mutation, statement, write, by simp [hu, transaction], hwrites, hsourced,
        hwants⟩

/-- The row of the account is written, or is not. -/
theorem write_conducts (hfresh : outcomes T = [])
    (hexpected : toBigint current.version = some expected)
    (hsourced : Sourced request state t current) (hwants : Wants t request.op current mutation)
    (hu : u = t ++ [answered .transaction (), answered (.prepareCached .loadRequest) (),
      answered (.loadRequest (RequestId.toBytes request.reqId)) none])
    (htied : Tied request state T u) :
  CarriesOut request state T current mutation u
    ((PgStore.write request.account current expected mutation >>=
      PgStore.conclude request.reqId request.account mutation).run >>= PgStore.close)
  := by
  have hversion := toBigint_eq_some.mp hexpected
  have hrolls : ∀ {v}, Tied request state T v →
      CarriesOut request state T current mutation v
        ((PgStore.conclude request.reqId request.account mutation none).run >>= PgStore.close) :=
    fun h => rollback_conducts hfresh h .versionConflict
  have hrecords : ∀ {statement : Statement} {row : AccountRow} {write : Contact},
      Writes request.account current mutation statement row write →
      Tied request state T (u ++ [answered (.prepareCached statement) ()] ++ [write]) →
      CarriesOut request state T current mutation
        (u ++ [answered (.prepareCached statement) ()] ++ [write])
        ((PgStore.conclude request.reqId request.account mutation (some row)).run >>=
          PgStore.close) := by
    intro statement row write hwrites htied'
    apply record_conducts hfresh hwrites hsourced hwants _ htied'
    simp [hu]
  have hlawful := identifies_of_inj AccountId.toBeBytes_inj request.account
  unfold PgStore.write
  split
  · rename_i hzero
    rw [PgStore.query_assoc]
    refine statement_conducts hfresh htied (by rintro ⟨⟩) hlawful fun row htied' => ?_
    cases row with
    | none => exact hrolls htied'
    | some row => exact hrecords (.insert hzero) htied'
  · rename_i hnonzero
    cases mutation with
    | delta change =>
      refine PgStore.query_assoc ▸
        statement_conducts hfresh htied (by rintro ⟨⟩) hlawful fun row htied' => ?_
      cases row with
      | none => exact hrolls htied'
      | some row => exact hrecords (.delta hnonzero hversion) htied'
    | setBalance balance =>
      refine PgStore.query_assoc ▸
        statement_conducts hfresh htied (by rintro ⟨⟩) hlawful fun row htied' => ?_
      cases row with
      | none => exact hrolls htied'
      | some row => exact hrecords (.balance hnonzero hversion) htied'

theorem pg_commit_conducts (hfresh : outcomes T = []) (h : Tied request state T t)
    (hgiven : Given state T current) (hplan : Plans T request.op current mutation) :
  CarriesOut request state T current mutation t
    (produce (.commit () request.reqId request.account current mutation))
  := by
  have hsourced := h.sourced current hgiven
  have hwants := h.wants hplan
  rw [produce, PgStore.commit, PgStore.bigint]
  cases hexpected : toBigint current.version with
  | none => exact fail_conducts hfresh h _
  | some expected =>
    rw [← bind_pure' (ExceptT.run _)]
    refine conducts_query trivial (fun _ => ?_) fun error =>
      fail_conducts hfresh (h.concat rfl rfl) _
    rw [bind_pure']
    have hbegin := h.concat (e := answered .transaction ()) rfl rfl
    have hlawful := identifies_of_inj RequestId.toBytes_inj request.reqId
    refine statement_conducts hfresh hbegin (by rintro ⟨⟩) hlawful fun row htied => ?_
    cases row with
    | none => exact write_conducts hfresh hexpected hsourced hwants (by simp) htied
    | some row =>
      apply replay_conducts hfresh htied
      · exact List.mem_append_right _ (List.mem_singleton_self _)
      · exact ((hsourced.append _).append _).append _
      · exact ((hwants.append _).append _).append _

/-! ### The cache, the pool and the caller -/

/-- The rule for a call to the cache server. -/
theorem conducts_redis {γ : Type} {q : RedisQuery} {k : Except CacheError q.Result → Calls γ}
    {Q : List Contact → γ → Prop} (h : Tied request state T t)
    (hlawful : Lawful request state (t ++ [⟨.redisPool, .ok ()⟩]) (.redis q))
    (herror : ∀ u error, Tied request state T u →
      Conducts (Lawful request state) Q u (k (.error error)))
    (hok : ∀ result,
      Tied request state T (t ++ [⟨.redisPool, .ok ()⟩] ++ [⟨.redis q, .ok result⟩]) →
      Conducts (Lawful request state) Q (t ++ [⟨.redisPool, .ok ()⟩] ++ [⟨.redis q, .ok result⟩])
        (k (.ok result))) :
  Conducts (Lawful request state) Q t ((RedisCache.query q).run >>= k)
  := by
  refine ⟨trivial, fun pool => ?_⟩
  have hpool := h.concat (e := ⟨.redisPool, pool⟩) rfl rfl
  cases pool with
  | error _ => exact herror _ _ hpool
  | ok _ =>
    refine ⟨hlawful, fun answer => ?_⟩
    have hanswer := hpool.concat (e := ⟨.redis q, answer⟩) rfl rfl
    cases answer with
    | error error => exact herror _ _ hanswer
    | ok result => exact hok result hanswer

theorem get_conducts (h : Tied request state T t) :
  Conducts (Lawful request state) (Carries request state T (.get request.account)) t
    (produce (.get request.account))
  := by
  have hget : produce (.get request.account) =
      (RedisCache.query (.get (RedisCache.key request.account))).run >>= fun result =>
        ret (Except.map (fun value => Option.bind value decodeAccount) result) := by
    rw [produce, RedisCache.get, ExceptT.run_bind]
    congr 1
    funext result
    cases result <;> rfl
  rw [hget]
  refine conducts_redis h (identifies_of_inj RedisCache.key_inj _)
    (fun u error hu => hu.quiet rfl rfl rfl (by rintro _ _ ⟨⟩)) fun value hvalue => ?_
  apply hvalue.operation rfl rfl
  · intro account haccount
    cases value with
    | none => cases haccount
    | some bytes =>
      change Exchange.account ⟨.get _, .ok (decodeAccount bytes)⟩ = some account at haccount
      cases hdecode : decodeAccount bytes with
      | none =>
        rw [hdecode] at haccount
        cases haccount
      | some account' =>
        rw [hdecode] at haccount
        cases haccount
        exact .cached (List.mem_append_right _ (List.mem_singleton_self _)) hdecode
  · rintro _ _ _ ⟨⟩

theorem put_conducts {ttl : ℕ} (h : Tied request state T t) (hgiven : Given state T account) :
  Conducts (Lawful request state) (Carries request state T (.put request.account account ttl)) t
    (produce (.put request.account account ttl))
  := by
  rw [produce, RedisCache.put, ← bind_pure' (ExceptT.run _)]
  refine conducts_redis h ?_ (fun u error hu => hu.quiet rfl rfl rfl (by rintro _ _ ⟨⟩))
    fun _ hstored => hstored.quiet rfl rfl rfl (by rintro _ _ ⟨⟩)
  exact ⟨identifies_of_inj RedisCache.key_inj _, account, (h.sourced account hgiven).append _, rfl⟩

theorem invalidate_conducts (h : Tied request state T t) :
  Conducts (Lawful request state) (Carries request state T (.invalidate request.account)) t
    (produce (.invalidate request.account))
  := by
  rw [produce, RedisCache.invalidate, ← bind_pure' (ExceptT.run _)]
  exact conducts_redis h (identifies_of_inj RedisCache.key_inj _)
    (fun u error hu => hu.quiet rfl rfl rfl (by rintro _ _ ⟨⟩))
    fun _ hdeleted => hdeleted.quiet rfl rfl rfl (by rintro _ _ ⟨⟩)

theorem run_conducts {params : RevalueParams} (h : Tied request state T t)
    (hop : request.op = .revalue params) (hgiven : Given state T account) :
  Conducts (Lawful request state) (Carries request state T (.run account params)) t
    (produce (.run account params))
  := by
  refine ⟨⟨hop, h.sourced account hgiven⟩, fun answer => ?_⟩
  apply (h.concat rfl rfl).operation rfl rfl
  · rintro _ ⟨⟩
  · rintro _ _ _ ⟨⟩
    exact List.mem_append_right _ (List.mem_singleton_self _)

theorem send_conducts (h : Tied request state T t) (hreplies : replies T = [])
    (hreply : Entitled request state T reply) :
  Conducts (Lawful request state) (Carries request state T (.send reply)) t (produce (.send reply))
  := by
  refine ⟨⟨h.told.trans hreplies, h.warranted hreply⟩, fun answer => ?_⟩
  refine ⟨?_, fun account hgiven => ?_, fun account params balance hmem => ?_, ?_⟩
  · rw [told, List.filterMap_append, ← told, h.told, replies_concat]
    rfl
  · rcases given_concat.mp hgiven with hgiven | hx
    · exact (h.sourced account hgiven).append _
    · cases hx
  · rcases List.mem_append.mp hmem with hmem | hmem
    · exact List.mem_append_left _ (h.computed _ _ _ hmem)
    · cases List.mem_singleton.mp hmem
  · rw [outcomes_aside rfl]
    rcases h.settled with ⟨hnone, hcommits⟩ | ⟨answer, hanswer, hsettled⟩
    · exact Or.inl ⟨hnone, (commits_aside rfl).trans hcommits⟩
    · exact Or.inr ⟨answer, hanswer, hsettled.concat rfl⟩

/-! ### A call in production -/

/-- Every operation of a call is carried out lawfully. -/
theorem produce_conducts {op : Port Unit} (hguarantee : Guarantee request state T op)
    (h : Tied request state T t) :
  Conducts (Lawful request state) (Carries request state T op) t (produce op)
  := by
  cases op with
  | acquire => exact acquire_conducts h
  | load session id =>
    obtain rfl : id = request.account := hguarantee
    exact load_conducts h
  | commit session reqId id current mutation =>
    obtain ⟨rfl, rfl, hgiven, hplan, hfresh, -⟩ := hguarantee
    exact pg_commit_conducts hfresh h hgiven hplan
  | get id =>
    obtain rfl : id = request.account := hguarantee
    exact get_conducts h
  | put id account ttl =>
    obtain ⟨rfl, hgiven⟩ := hguarantee
    exact put_conducts h hgiven
  | invalidate id =>
    obtain rfl : id = request.account := hguarantee
    exact invalidate_conducts h
  | run account params => exact run_conducts h hguarantee.1 hguarantee.2
  | send reply => exact send_conducts h hguarantee.1 hguarantee.2

/-- Whatever the database, the cache server and the pool answer, a call of the processor in
production keeps to its account and its request, commits once at most and only a transaction
that is ready, and tells its caller once what it was answered. -/
theorem production_is_lawful (request : Request) (state : Option Account) :
  Conducts (Lawful request state) (Concluded request state) []
    ((process request.account state request).expand produce)
  := by
  have hstart : Tied request state [] [] := by
    refine ⟨rfl, ?_, fun _ _ _ hmem => ?_, Or.inl ⟨rfl, rfl⟩⟩
    · rintro account (hstate | ⟨x, hx, -⟩)
      · exact .resident hstate
      · cases hx
    · cases hmem
  apply (process_conducts request state).expand hstart
  · exact fun T t op hguarantee h => produce_conducts hguarantee h
  · rintro T t r ⟨⟨reply, hreplies, hentitled⟩, hkept⟩ h
    refine ⟨⟨reply, h.told.trans hreplies, h.warranted hentitled⟩, fun account hr => ?_⟩
    exact h.sourced account (hkept account hr)

end Grommet.Accounts
