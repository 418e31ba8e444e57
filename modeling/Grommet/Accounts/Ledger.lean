import Grommet.Accounts.Contract
import Grommet.Accounts.Processor

/-!
# The ledger behind the ports

A ledger lists the mutations that were applied, in order.  It says what the store is for: the
balance of an account is what its mutations make of nothing, and its version is their number.
An account that was ever read is a snapshot, which is what the first mutations of the ledger
made; two snapshots of one version are equal.

Whatever an operation does, the data stays backed by the ledger.
-/

namespace Grommet.Accounts

/-- A mutation that was applied. -/
structure Entry where
  reqId : RequestId
  id : AccountId
  mutation : Mutation
  deriving DecidableEq

/-- What mutations make of an untouched balance. -/
def replay (l : List Mutation) : ℤ := l.foldl Mutation.wide 0

/-- The mutations of an account, in order. -/
def mutations (l : List Entry) (id : AccountId) : List Mutation :=
  (l.filter fun entry => entry.id = id).map Entry.mutation

/-- What all the mutations made. -/
def Latest (l : List Mutation) (account : Account) : Prop :=
  account.version.toNat = l.length ∧ account.balance.toInt = replay l

/-- What the first of the mutations made, as many as the version tells. -/
def Snapshot (l : List Mutation) (account : Account) : Prop :=
  ∃ l₁ l₂, l = l₁ ++ l₂ ∧ Latest l₁ account

variable {l l₁ l₂ : List Mutation} {account account' : Account} {mutation : Mutation}
  {id id' : AccountId} {reqId : RequestId} {entries : List Entry} {entry : Entry} {d d' : Data}

theorem Latest.snapshot (h : Latest l account) :
  Snapshot l account
  := ⟨l, [], (List.append_nil l).symm, h⟩

theorem Snapshot.append (h : Snapshot l account) (l' : List Mutation) :
  Snapshot (l ++ l') account
  := by
  obtain ⟨l₁, l₂, rfl, h⟩ := h
  exact ⟨l₁, l₂ ++ l', List.append_assoc .., h⟩

theorem latest_unique (h : Latest l account) (h' : Latest l account') :
  account = account'
  := by
  obtain ⟨balance, version⟩ := account
  obtain ⟨balance', version'⟩ := account'
  have hbalance : balance = balance' := Int64.toInt_inj.mp (h.2.trans h'.2.symm)
  have hversion : version = version' := UInt64.toNat_inj.mp (h.1.trans h'.1.symm)
  rw [hbalance, hversion]

/-- Two snapshots of one version are equal. -/
theorem snapshot_unique (h : Snapshot l account) (h' : Snapshot l account')
    (hversion : account.version = account'.version) :
  account = account'
  := by
  obtain ⟨l₁, l₂, rfl, h⟩ := h
  obtain ⟨l₁', l₂', happend, h'⟩ := h'
  obtain ⟨rfl, -⟩ := List.append_inj happend (by rw [← h.1, ← h'.1, hversion])
  exact latest_unique h h'

theorem Snapshot.version_le (h : Snapshot l account) :
  account.version.toNat ≤ l.length
  := by
  obtain ⟨l₁, l₂, rfl, h⟩ := h
  rw [h.1, List.length_append]
  omega

/-- An account that a mutation moves on. -/
theorem Latest.apply (h : Latest l account) (happly : applyMutation account mutation = .ok account') :
  Latest (l ++ [mutation]) account'
  := by
  obtain ⟨hbalance, hversion⟩ := applyMutation_eq_ok.mp happly
  refine ⟨?_, ?_⟩
  · rw [hversion, h.1, List.length_append, List.length_singleton]
  · rw [hbalance, h.2, replay, replay, List.foldl_append]
    rfl

theorem latest_empty :
  Latest [] .empty
  := ⟨rfl, rfl⟩

theorem mutations_concat_self :
  mutations (entries ++ [⟨reqId, id, mutation⟩]) id = mutations entries id ++ [mutation]
  := by
  simp [mutations, List.filter_append]

theorem mutations_concat_of_ne (h : entry.id ≠ id) :
  mutations (entries ++ [entry]) id = mutations entries id
  := by
  simp [mutations, List.filter_append, h]

theorem mutations_append (entries entries' : List Entry) (id : AccountId) :
  mutations (entries ++ entries') id = mutations entries id ++ mutations entries' id
  := by
  simp [mutations, List.filter_append]

/-- A snapshot stays one while the ledger grows. -/
theorem Snapshot.grow (h : Snapshot (mutations entries id) account) (entries' : List Entry) :
  Snapshot (mutations (entries ++ entries') id) account
  := by
  rw [mutations_append]
  apply h.append

/-! ### Data that is backed by a ledger -/

/-- The data that a ledger accounts for. -/
structure Backed (entries : List Entry) (d : Data) : Prop where
  /-- No request was applied twice. -/
  once : (entries.map Entry.reqId).Nodup
  durable : ∀ id, Latest (mutations entries id) (d.store.account id)
  /-- A request is recorded with the account that it left. -/
  recorded : ∀ reqId prior, d.store.requests.lookup reqId = some prior →
    ∃ before after, entries = before ++ ⟨reqId, prior.accountId, prior.mutation⟩ :: after ∧
      Latest (mutations before prior.accountId ++ [prior.mutation]) prior.account
  listed : ∀ entry ∈ entries, d.store.requests.lookup entry.reqId ≠ none
  cached : ∀ id account, d.cache.lookup id = some account →
    Snapshot (mutations entries id) account

theorem backed_empty :
  Backed [] .empty
  where
  once := List.nodup_nil
  durable _ := latest_empty
  recorded _ _ h := nomatch h
  listed _ h := nomatch h
  cached _ _ h := nomatch h

variable {Session : Type} {op : Port Session} {answer : op.Answer} {applied : Bool}

/-- The mutation that an operation asks for. -/
def Port.mutates : Port Session → Option Entry
  | .commit _ reqId id _ mutation => some ⟨reqId, id, mutation⟩
  | _ => none

/-- What an operation adds to the ledger, when it applied its mutation or not. -/
def Port.enters (op : Port Session) (applied : Bool) : List Entry :=
  if applied then op.mutates.toList else []

@[simp]
theorem enters_false :
  op.enters false = []
  := rfl

/-- The account that an operation is about. -/
def Port.names : Port Session → Option AccountId
  | .load _ id => some id
  | .commit _ _ id _ _ => some id
  | .get id => some id
  | .put id _ _ => some id
  | .invalidate id => some id
  | _ => none

theorem Backed.recorded_snapshot {prior : AppliedRequest} (h : Backed entries d)
    (hprior : d.store.requests.lookup reqId = some prior) :
  Snapshot (mutations entries prior.accountId) prior.account
  := by
  obtain ⟨before, after, rfl, hlatest⟩ := h.recorded reqId prior hprior
  rw [← List.singleton_append, ← List.append_assoc]
  apply Snapshot.grow
  rw [mutations_concat_self]
  exact hlatest.snapshot

theorem account_apply_self (s : StoreState) :
  (s.apply reqId id mutation account).account id = account
  := by
  rw [StoreState.account, StoreState.apply, AList.lookup_insert]
  rfl

theorem account_apply_of_ne (s : StoreState) (h : id' ≠ id) :
  (s.apply reqId id mutation account).account id' = s.account id'
  := by
  rw [StoreState.account, StoreState.account, StoreState.apply, AList.lookup_insert_ne h]

/-- A mutation is applied for a request that was not applied before. -/
theorem Backed.apply (h : Backed entries d) (hfresh : d.store.requests.lookup reqId = none)
    (happly : applyMutation (d.store.account id) mutation = .ok account) :
  Backed (entries ++ [⟨reqId, id, mutation⟩])
    { d with store := d.store.apply reqId id mutation account }
  where
  once := by
    rw [List.map_append, List.nodup_append']
    refine ⟨h.once, List.nodup_singleton _, ?_⟩
    intro reqId' hmem hnew
    obtain ⟨entry, hentry, rfl⟩ := List.mem_map.mp hmem
    rw [List.map_singleton, List.mem_singleton] at hnew
    apply h.listed entry hentry
    rw [hnew, hfresh]
  durable := by
    intro id'
    by_cases hid : id' = id
    · subst hid
      rw [account_apply_self, mutations_concat_self]
      exact (h.durable id').apply happly
    · rw [account_apply_of_ne _ hid, mutations_concat_of_ne (Ne.symm hid)]
      exact h.durable id'
  recorded := by
    intro reqId' prior hprior
    by_cases hreq : reqId' = reqId
    · subst hreq
      rw [StoreState.apply, AList.lookup_insert] at hprior
      cases hprior
      exact ⟨entries, [], rfl, (h.durable id).apply happly⟩
    · rw [StoreState.apply, AList.lookup_insert_ne hreq] at hprior
      obtain ⟨before, after, rfl, hlatest⟩ := h.recorded reqId' prior hprior
      exact ⟨before, after ++ [_], List.append_assoc .., hlatest⟩
  listed := by
    intro entry hentry
    rw [StoreState.apply, AList.lookup_insert_eq]
    by_cases hreq : entry.reqId = reqId
    · rw [hreq, Function.update_self]
      exact Option.some_ne_none _
    · rw [Function.update_of_ne hreq]
      rcases List.mem_append.mp hentry with hentry | hentry
      · exact h.listed entry hentry
      · rw [List.mem_singleton] at hentry
        exact absurd (by rw [hentry]) hreq
  cached id' account' hcached := (h.cached id' account' hcached).grow _

/-- The data with another cache, each entry of which was there or is a snapshot. -/
theorem Backed.recache (h : Backed entries d) {cache : AList fun _ : AccountId => Account}
    (hcache : ∀ id account, cache.lookup id = some account →
      d.cache.lookup id = some account ∨ Snapshot (mutations entries id) account) :
  Backed entries { d with cache := cache }
  := by
  refine ⟨h.once, h.durable, h.recorded, h.listed, fun id account hlookup => ?_⟩
  rcases hcache id account hlookup with hold | hnew
  · exact h.cached id account hold
  · exact hnew

/-- Whatever an operation does, the data stays backed by the ledger. -/
theorem Backed.serves (h : Backed entries d) (hserves : Serves d op answer applied d')
    (hput : ∀ id account ttl, op = .put id account ttl → Snapshot (mutations entries id) account) :
  Backed (entries ++ op.enters applied) d'
  := by
  cases hserves with
  | apply hfresh hversion happly houtcome => exact h.apply hfresh happly
  | @put id account ttl answer =>
    rw [enters_false, List.append_nil]
    apply h.recache
    intro id' account' hlookup
    rw [AList.lookup_insert_eq] at hlookup
    by_cases hid : id' = id
    · subst hid
      rw [Function.update_self, Option.some_inj] at hlookup
      subst hlookup
      exact Or.inr (hput _ _ _ rfl)
    · rw [Function.update_of_ne hid] at hlookup
      exact Or.inl hlookup
  | @invalidate id answer =>
    rw [enters_false, List.append_nil]
    apply h.recache
    intro id' account' hlookup
    rw [AList.lookup_erase_eq] at hlookup
    by_cases hid : id' = id
    · rw [hid, Function.update_self] at hlookup
      cases hlookup
    · rw [Function.update_of_ne hid] at hlookup
      exact Or.inl hlookup
  | _ =>
    rw [enters_false, List.append_nil]
    exact h

/-- An account that an operation answers is a snapshot. -/
theorem Backed.answers (h : Backed entries d) (hserves : Serves d op answer applied d')
    (hnames : op.names = some id) (haccount : Exchange.account ⟨op, answer⟩ = some account) :
  Snapshot (mutations (entries ++ op.enters applied) id) account
  := by
  cases hserves with
  | load =>
    cases hnames
    cases haccount
    exact (h.durable _).snapshot.grow _
  | hit hlookup =>
    cases hnames
    cases haccount
    exact (h.cached _ _ hlookup).grow _
  | replay hprior hid hmutation =>
    cases hnames
    cases haccount
    rw [← hid]
    exact (h.recorded_snapshot hprior).grow _
  | @apply session reqId id current account mutation outcome hfresh hversion happly houtcome =>
    cases hnames
    rcases houtcome with rfl | rfl
    · cases haccount
      show Snapshot (mutations (entries ++ [⟨reqId, id, mutation⟩]) id) account
      rw [mutations_concat_self]
      exact ((h.durable _).apply happly).snapshot
    · cases haccount
  | _ => cases haccount

end Grommet.Accounts
