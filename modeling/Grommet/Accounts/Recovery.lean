import Grommet.Accounts.World

/-!
# Recovery from faults

A call that no fault hits, and that finds no stale copy of its account, settles its request and
leaves no stale copy.  A call that no fault hits and that does not settle its request has found
a stale copy, and leaves none.  It takes two faults in one call to leave a new one.  So the
calls that are not settled are no more than the faults.
-/

open Program Grommet.Testkit

namespace Grommet.Accounts

/-- A program in the simulation, with the exchanges so far. -/
def simulated {α : Type} (p : Action Unit α) (x : Data × List (Exchange Unit)) :
    Faulty (α × Data × List (Exchange Unit)) :=
  p.handle (recording simulate) x

/-! ### Calls that no fault hits -/

/-- What a program comes to in the simulation when nothing fails. -/
def heal {α : Type} (p : Action Unit α) (x : Data × List (Exchange Unit)) :
    α × Data × List (Exchange Unit) :=
  Workload.healthy (simulated p x)

variable {α β : Type} {p : Action Unit α} {x : Data × List (Exchange Unit)} {f : α → Action Unit β}

theorem heal_act {op : Port Unit} {next : op.Answer → Action Unit α} :
  heal (.act op next) x = heal (next (Workload.healthy (simulate op x.1)).1)
    ((Workload.healthy (simulate op x.1)).2,
      x.2 ++ [⟨op, (Workload.healthy (simulate op x.1)).1⟩])
  := by
  simp [heal, simulated, recording]

theorem heal_bind :
  heal (p >>= f) x = heal (f (heal p x).1) (heal p x).2
  := by
  induction p generalizing x with
  | ret a => rfl
  | act op next ih => rw [act_bind, heal_act, heal_act, ih]

variable {request : Request} {state cached : Option Account} {d : Data}
  {t : List (Exchange Unit)} {w : World} {id : AccountId}
  {account current committed durable : Account} {op : Op} {mutation : Mutation}
  {session : Option Unit} {entries : List Entry} {s : StoreState} {reqId : RequestId}

/-- The account that a call finds: the resident one, else the cached one, else the durable one. -/
def sight (d : Data) (id : AccountId) (state : Option Account) : Account :=
  state.getD ((d.cache.lookup id).getD (d.store.account id))

/-- What is cached for an account after a call found it. -/
def seen (d : Data) (id : AccountId) : Option Account → Option Account
  | some _ => d.cache.lookup id
  | none => some (sight d id none)

/-- What an operation needs to write, or the reply that finishes it, when its computation does
not fail. -/
def planned (account : Account) : Op → Except Reply Mutation
  | .balance => .error (.ok account.balance)
  | .debit amount =>
      if amount < 0 then .error (.err "debit amount must be non-negative")
      else .ok (.delta (-amount))
  | .credit amount =>
      if amount < 0 then .error (.err "credit amount must be non-negative")
      else .ok (.delta amount)
  | .revalue params => .ok (.setBalance (heavyRevalue account params))

theorem heal_readThrough :
  ∃ t', heal (readThrough id) (d, t) =
      (.ok (d.store.account id, some ()),
        { d with cache := d.cache.insert id (d.store.account id) }, t') ∧
    replies t' = replies t
  := by
  refine ⟨_, rfl, ?_⟩
  rw [replies_aside rfl, replies_aside rfl, replies_aside rfl]

/-- A call finds its account, and the store is left alone. -/
theorem heal_resolve :
  ∃ session d' t', heal (resolve id state) (d, t) = (.ok (sight d id state, session), d', t') ∧
    d'.store = d.store ∧ d'.cache.lookup id = seen d id state ∧ replies t' = replies t
  := by
  cases state with
  | some account => exact ⟨none, d, t, rfl, rfl, rfl, rfl⟩
  | none =>
    have hact : heal (resolve id none) (d, t) = heal (cachedOr id (.ok (d.cache.lookup id)))
        (d, t ++ [⟨.get id, .ok (d.cache.lookup id)⟩]) := rfl
    rw [hact, seen, sight]
    cases hlookup : d.cache.lookup id with
    | some account => exact ⟨none, d, _, rfl, rfl, hlookup, replies_aside rfl⟩
    | none =>
      obtain ⟨t', ht', hreplies⟩ := @heal_readThrough d (t ++ [⟨.get id, .ok none⟩]) id
      refine ⟨some (), _, t', ht', rfl, AList.lookup_insert _, ?_⟩
      rw [hreplies, replies_aside rfl]

theorem heal_plan :
  ∃ t', heal (plan account op) (d, t) = (planned account op, d, t') ∧ replies t' = replies t
  := by
  cases op with
  | balance => exact ⟨t, rfl, rfl⟩
  | revalue params => exact ⟨_, rfl, replies_aside rfl⟩
  | debit amount =>
    refine ⟨t, ?_, rfl⟩
    rw [plan, planned]
    split <;> rfl
  | credit amount =>
    refine ⟨t, ?_, rfl⟩
    rw [plan, planned]
    split <;> rfl

theorem heal_lease :
  ∃ t', heal (lease session) (d, t) = (.ok (), d, t') ∧ replies t' = replies t
  := by
  cases session with
  | some session => exact ⟨t, rfl, rfl⟩
  | none => exact ⟨_, rfl, replies_aside rfl⟩

/-- How a call ends, as far as its own account is concerned. -/
structure Ending where
  reply : Reply
  state : Option Account
  cached : Option Account
  store : StoreState

/-- How a call ends that found an account, after the answer to its commit. -/
def concluded (account : Account) :
    Except StoreError CommitOutcome × StoreState → Ending
  | (.ok (.committed committed duplicate), s) =>
      ⟨if duplicate then .duplicate committed.balance else .ok committed.balance,
        some (resident account committed duplicate), some (resident account committed duplicate), s⟩
  | (.ok .inDoubt, s) => ⟨.err Failure.inDoubt.message, none, none, s⟩
  | (.error .versionConflict, s) => ⟨.err StoreError.versionConflict.message, none, none, s⟩
  | (.error error, s) => ⟨.err error.message, some account, none, s⟩

/-- A call ends so, when it returns with this data after these exchanges. -/
def Ends (id : AccountId) (t : List (Exchange Unit)) (ending : Ending)
    (x : Except Failure (Disposition Account) × Data × List (Exchange Unit)) : Prop :=
  replies x.2.2 = replies t ++ [ending.reply] ∧ left x.1 = ending.state ∧
    x.2.1.cache.lookup id = ending.cached ∧ x.2.1.store = ending.store

theorem heal_conclude {answer : Except StoreError CommitOutcome} :
  Ends id t (concluded account (answer, d.store)) (heal (conclude id account answer) (d, t))
  := by
  have hsend : ∀ (y : Exchange Unit) (reply : Reply), y.reply = none →
      replies (t ++ [y] ++ [⟨.send reply, ()⟩]) = replies t ++ [reply] := by
    intro y reply hy
    rw [replies_concat, replies_aside hy]
    rfl
  rcases answer with error | (⟨committed, duplicate⟩ | _)
  · cases error <;> exact ⟨hsend _ _ rfl, rfl, AList.lookup_erase _ _, rfl⟩
  · exact ⟨hsend _ _ rfl, rfl, AList.lookup_insert _, rfl⟩
  · exact ⟨hsend _ _ rfl, rfl, AList.lookup_erase _ _, rfl⟩

/-- How a call ends that no fault hits. -/
def ending (d : Data) (state : Option Account) (request : Request) : Ending :=
  let account := sight d request.account state
  match planned account request.op with
  | .error reply => ⟨reply, some account, seen d request.account state, d.store⟩
  | .ok mutation =>
      concluded account (Workload.healthy
        (SimStore.commit d.store request.reqId request.account account mutation))

theorem heal_commit :
  heal (commit () reqId id current mutation) (d, t) =
    (let x := Workload.healthy (SimStore.commit d.store reqId id current mutation)
     (x.1, { d with store := x.2 }, t ++ [⟨.commit () reqId id current mutation, x.1⟩]))
  := by
  rw [commit, ask, heal_act]
  simp only [simulate, Workload.healthy_bind]
  rfl

/-- A call that no fault hits. -/
theorem heal_process :
  Ends request.account t (ending d state request) (heal (process request.account state request) (d, t))
  := by
  obtain ⟨session, d', t₁, hresolve, hstore, hseen, hreplies₁⟩ :=
    @heal_resolve state d t request.account
  rw [process, heal_bind, hresolve]
  simp only
  obtain ⟨t₂, hplan, hreplies₂⟩ :=
    @heal_plan d' t₁ (sight d request.account state) request.op
  rw [heal_bind, hplan, ending]
  simp only
  cases planned (sight d request.account state) request.op with
  | error reply =>
    refine ⟨?_, rfl, hseen, hstore⟩
    rw [← hreplies₁, ← hreplies₂]
    exact replies_concat
  | ok mutation =>
    obtain ⟨t₃, hlease, hreplies₃⟩ := @heal_lease
      { d' with cache := d'.cache.erase request.account }
      (t₂ ++ [⟨.invalidate request.account, .ok ()⟩]) session
    have hinvalidate : ∀ f : Except CacheError Unit →
          Action Unit (Except Failure (Disposition Account)),
        heal (invalidate request.account >>= f) (d', t₂) =
          heal (f (.ok ())) ({ d' with cache := d'.cache.erase request.account },
            t₂ ++ [⟨.invalidate request.account, .ok ()⟩]) := fun f => rfl
    simp only
    rw [hinvalidate, heal_bind, hlease]
    simp only
    rw [heal_bind, heal_commit, ← hstore]
    refine ⟨?_, heal_conclude.2⟩
    rw [heal_conclude.1, replies_aside rfl, hreplies₃, replies_aside rfl, hreplies₂, hreplies₁]

/-! ### Copies of an account that are stale -/

/-- A reply that does not settle the request: an adapter failed, or what the call found was
stale. -/
def Reply.unsettled : Reply → Bool
  | .err message => message ∈ [StoreError.poolExhausted.message, StoreError.connectionReset.message,
      StoreError.versionConflict.message, Failure.inDoubt.message, OffloadError.injected.message]
  | _ => false

/-- Whether a copy differs from the account. -/
def differs (account : Account) (copy : Option Account) : Bool := copy.any fun c => c ≠ account

/-- Whether a call leaves a stale copy of its account. -/
def Ending.stale (ending : Ending) (id : AccountId) : Bool :=
  differs (ending.store.account id) ending.state || differs (ending.store.account id) ending.cached

theorem differs_some :
  differs durable (some account) = false ↔ account = durable
  := by
  simp [differs]

theorem unsettled_planned {reply : Reply} (h : planned account op = .error reply) :
  reply.unsettled = false
  := by
  cases op with
  | balance =>
    cases h
    rfl
  | debit amount =>
    rw [planned] at h
    split at h
    · cases h
      decide
    · cases h
  | credit amount =>
    rw [planned] at h
    split at h
    · cases h
      decide
    · cases h
  | revalue params => cases h

theorem advance_eq_error {error : StoreError} (h : advance durable mutation = .error error) :
  error = .constraint "balance overflow" ∨ error = .constraint "version overflow"
  := by
  have hversion : ∀ balance : Int64, (checkedSucc durable.version).elim
      (.error (.constraint "version overflow")) .ok >>= (fun version =>
        (.ok ⟨balance, version⟩ : Except StoreError Account)) = .error error →
      error = .constraint "version overflow" := by
    intro balance h
    cases hsucc : checkedSucc durable.version with
    | none =>
      rw [hsucc] at h
      cases h
      rfl
    | some version =>
      rw [hsucc] at h
      cases h
  cases mutation with
  | setBalance balance => exact Or.inr (hversion balance h)
  | delta change =>
    rw [advance] at h
    cases hadd : checkedAdd durable.balance change with
    | none =>
      rw [hadd] at h
      cases h
      exact Or.inl rfl
    | some balance =>
      rw [hadd] at h
      exact Or.inr (hversion balance h)

/-- A commit that no fault hits. -/
inductive Settles (s : StoreState) (reqId : RequestId) (id : AccountId) (current : Account)
    (mutation : Mutation) : Except StoreError CommitOutcome × StoreState → Prop
  | replay {prior : AppliedRequest} : s.requests.lookup reqId = some prior →
      prior.accountId = id → prior.mutation = mutation →
      Settles s reqId id current mutation (.ok (.committed prior.account true), s)
  | conflict {prior : AppliedRequest} : s.requests.lookup reqId = some prior →
      (prior.accountId ≠ id ∨ prior.mutation ≠ mutation) →
      Settles s reqId id current mutation (.error .requestConflict, s)
  | stale : s.requests.lookup reqId = none → (s.account id).version ≠ current.version →
      Settles s reqId id current mutation (.error .versionConflict, s)
  | overflow {error : StoreError} : s.requests.lookup reqId = none →
      advance (s.account id) mutation = .error error →
      Settles s reqId id current mutation (.error error, s)
  | apply {account : Account} : s.requests.lookup reqId = none →
      (s.account id).version = current.version → advance (s.account id) mutation = .ok account →
      Settles s reqId id current mutation
        (.ok (.committed account false), s.apply reqId id mutation account)

theorem settles_commit (s : StoreState) (reqId : RequestId) (id : AccountId) (current : Account)
    (mutation : Mutation) :
  Settles s reqId id current mutation
    (Workload.healthy (SimStore.commit s reqId id current mutation))
  := by
  simp only [SimStore.commit, fires, ask_bind, Workload.healthy]
  cases hlookup : s.requests.lookup reqId with
  | some prior =>
    simp only [Bool.false_eq_true, if_false]
    split
    · exact .conflict hlookup ‹_›
    · rename_i h
      rw [not_or, not_not, not_not] at h
      exact .replay hlookup h.1 h.2
  | none =>
    simp only [Bool.false_eq_true, if_false]
    split
    · exact .stale hlookup ‹_›
    · rename_i hversion
      cases hadvance : advance (s.account id) mutation with
      | error error => exact .overflow hlookup hadvance
      | ok account => exact .apply hlookup (not_not.mp hversion) hadvance

/-- A call that no fault hits, and whose request is not settled, leaves no stale copy. -/
theorem Ending.not_stale_of_unsettled (h : (ending d state request).reply.unsettled = true) :
  (ending d state request).stale request.account = false
  := by
  rw [ending] at h ⊢
  cases hplanned : planned (sight d request.account state) request.op with
  | error reply =>
    rw [hplanned] at h
    simp only [unsettled_planned hplanned] at h
    cases h
  | ok mutation =>
    rw [hplanned] at h
    simp only at h ⊢
    have hsettles := settles_commit d.store request.reqId request.account
      (sight d request.account state) mutation
    generalize Workload.healthy (SimStore.commit d.store request.reqId request.account
      (sight d request.account state) mutation) = x at h hsettles ⊢
    cases hsettles with
    | stale => rfl
    | replay => cases h
    | conflict => cases h
    | apply => cases h
    | overflow _ hadvance =>
      rcases advance_eq_error hadvance with rfl | rfl <;> cases h

/-- A duplicate leaves the durable account resident, when that was found. -/
theorem resident_recorded (hbacked : Backed entries d) {prior : AppliedRequest}
    (hprior : d.store.requests.lookup reqId = some prior) (hid : prior.accountId = id) :
  resident (d.store.account id) prior.account true = d.store.account id
  := by
  subst hid
  have hsnapshot := hbacked.recorded_snapshot hprior
  have hdurable := hbacked.durable prior.accountId
  rw [resident]
  split
  · rfl
  · rename_i h
    rw [not_and, UInt64.lt_iff_toNat_lt, not_lt, hdurable.1] at h
    apply snapshot_unique hsnapshot hdurable.snapshot
    apply UInt64.toNat_inj.mp
    rw [hdurable.1]
    exact le_antisymm hsnapshot.version_le (h rfl)

/-- A call that no fault hits, and that finds no stale copy, settles its request and leaves no
stale copy. -/
theorem Ending.fresh (hbacked : Backed entries d)
    (hstate : differs (d.store.account request.account) state = false)
    (hcache : differs (d.store.account request.account) (d.cache.lookup request.account) = false) :
  (ending d state request).reply.unsettled = false ∧
    (ending d state request).stale request.account = false
  := by
  have hsight : sight d request.account state = d.store.account request.account := by
    cases state with
    | some account => exact differs_some.mp hstate
    | none =>
      rw [sight]
      cases hlookup : d.cache.lookup request.account with
      | none => rfl
      | some account =>
        rw [hlookup] at hcache
        exact differs_some.mp hcache
  have hdurable : ∀ account : Account, differs account (some account) = false :=
    fun account => differs_some.mpr rfl
  rw [ending, hsight]
  cases hplanned : planned (d.store.account request.account) request.op with
  | error reply =>
    refine ⟨unsettled_planned hplanned, ?_⟩
    simp only [stale, hdurable, Bool.false_or]
    cases state with
    | some account => exact hcache
    | none =>
      rw [seen, hsight]
      apply hdurable
  | ok mutation =>
    simp only
    have hsettles := settles_commit d.store request.reqId request.account
      (d.store.account request.account) mutation
    generalize Workload.healthy (SimStore.commit d.store request.reqId request.account
      (d.store.account request.account) mutation) = x at hsettles ⊢
    cases hsettles with
    | stale _ hversion => exact absurd rfl hversion
    | replay hprior hid _ =>
      refine ⟨rfl, ?_⟩
      simp only [stale, concluded, resident_recorded hbacked hprior hid, hdurable, Bool.or_self]
    | conflict => exact ⟨rfl, by simp [stale, concluded, differs]⟩
    | @apply account _ _ _ =>
      refine ⟨rfl, ?_⟩
      simp [stale, concluded, account_apply_self, resident, differs]
    | overflow _ hadvance =>
      rcases advance_eq_error hadvance with rfl | rfl
      · exact ⟨rfl, by simp [stale, concluded, differs]⟩
      · exact ⟨rfl, by simp [stale, concluded, differs]⟩

/-! ### Calls that faults hit -/

/-- A call leaves no stale copy, unless two of its operations failed. -/
def Fine (id : AccountId) (n : ℕ)
    (x : Except Failure (Disposition Account) × Data × List (Exchange Unit)) : Prop :=
  2 ≤ n ∨ differs (x.2.1.store.account id) (left x.1) = false ∧
    differs (x.2.1.store.account id) (x.2.1.cache.lookup id) = false

/-- Data whose store is known and whose cache has no stale copy. -/
def Current (s : StoreState) (id : AccountId) (d : Data) : Prop :=
  d.store = s ∧ differs (s.account id) (d.cache.lookup id) = false

theorem differs_insert (s : AList fun _ : AccountId => Account) :
  differs account ((s.insert id account).lookup id) = false
  := by
  rw [AList.lookup_insert]
  exact differs_some.mpr rfl

theorem differs_erase (s : AList fun _ : AccountId => Account) :
  differs account ((s.erase id).lookup id) = false
  := by
  rw [AList.lookup_erase]
  rfl

variable {n : ℕ}

theorem costs_readThrough (hd : Current s id d) :
  Workload.Costs (fun _ x => Current s id x.2.1 ∧
      ∀ found, x.1 = .ok found → found.1 = s.account id) n (simulated (readThrough id) (d, t))
  := by
  obtain ⟨rfl, hcache⟩ := hd
  refine ⟨⟨⟨rfl, hcache⟩, nofun⟩, ⟨⟨rfl, hcache⟩, nofun⟩, ⟨⟨rfl, hcache⟩, ?_⟩, ⟨rfl, ?_⟩, ?_⟩
  · rintro _ ⟨⟩
    rfl
  · apply differs_insert
  · rintro _ ⟨⟩
    rfl

/-- A call that finds no stale copy finds the durable account. -/
theorem costs_resolve (hd : Current s id d) (hstate : differs (s.account id) state = false) :
  Workload.Costs (fun _ x => Current s id x.2.1 ∧
      ∀ found, x.1 = .ok found → found.1 = s.account id) n (simulated (resolve id state) (d, t))
  := by
  cases state with
  | some account =>
    refine ⟨hd, ?_⟩
    rintro _ ⟨⟩
    exact differs_some.mp hstate
  | none =>
    refine ⟨costs_readThrough hd, ?_⟩
    change Workload.Costs _ n (simulated (cachedOr id (.ok (d.cache.lookup id)))
      (d, t ++ [⟨.get id, .ok (d.cache.lookup id)⟩]))
    cases hlookup : d.cache.lookup id with
    | none => exact costs_readThrough hd
    | some account =>
      refine ⟨hd, ?_⟩
      rintro _ ⟨⟩
      apply differs_some.mp
      rw [← hlookup]
      exact hd.2

theorem costs_plan (hd : Current s id d) :
  Workload.Costs (fun _ x => Current s id x.2.1) n (simulated (plan account op) (d, t))
  := by
  cases op with
  | balance => exact hd
  | revalue params => exact ⟨hd, hd⟩
  | debit amount =>
    rw [plan]
    split <;> exact hd
  | credit amount =>
    rw [plan]
    split <;> exact hd

theorem costs_lease (hd : Current s id d) :
  Workload.Costs (fun _ x => Current s id x.2.1) n (simulated (lease session) (d, t))
  := by
  cases session with
  | some session => exact hd
  | none => exact ⟨hd, hd⟩

/-- What a commit of the durable account returns to a call. -/
def Honest (id : AccountId) (account : Account) (n : ℕ) (d : Data) :
    Except StoreError CommitOutcome → Prop
  | .ok (.committed committed duplicate) => resident account committed duplicate = d.store.account id
  | .ok .inDoubt => 1 ≤ n
  | .error _ => account = d.store.account id ∧ Current d.store id d

theorem costs_commit (hd : Current s id d)
    (hresident : ∀ reqId prior, s.requests.lookup reqId = some prior → prior.accountId = id →
      resident (s.account id) prior.account true = s.account id) :
  Workload.Costs (fun n x => Honest id (s.account id) n x.2.1 x.1) n
    (simulated (commit () reqId id (s.account id) mutation) (d, t))
  := by
  obtain ⟨rfl, hcache⟩ := hd
  refine ⟨⟨rfl, rfl, hcache⟩, ?_⟩
  simp only [ask, handle_ret, fires, act_bind, ret_bind]
  cases hlookup : d.store.requests.lookup reqId with
  | some prior =>
    simp only
    split
    · exact ⟨rfl, rfl, hcache⟩
    · rename_i h
      rw [not_or, not_not, not_not] at h
      exact hresident reqId prior hlookup h.1
  | none =>
    simp only [ne_eq, not_true_eq_false, if_false]
    cases advance (d.store.account id) mutation with
    | error error => exact ⟨rfl, rfl, hcache⟩
    | ok account => exact ⟨Nat.le_add_left 1 n, (account_apply_self d.store).symm⟩

theorem costs_conclude {answer : Except StoreError CommitOutcome}
    (hanswer : Honest id account n d answer) :
  Workload.Costs (Fine id) n (simulated (conclude id account answer) (d, t))
  := by
  rcases answer with error | (⟨committed, duplicate⟩ | _)
  · obtain ⟨rfl, -, hcache⟩ := hanswer
    have hkept : differs (d.store.account id) (some (d.store.account id)) = false :=
      differs_some.mpr rfl
    cases error with
    | versionConflict => exact ⟨Or.inr ⟨rfl, hcache⟩, Or.inr ⟨rfl, differs_erase _⟩⟩
    | _ => exact ⟨Or.inr ⟨hkept, hcache⟩, Or.inr ⟨hkept, differs_erase _⟩⟩
  · have hkept : differs (d.store.account id) (some (resident account committed duplicate)) = false :=
      differs_some.mpr hanswer
    refine ⟨⟨Or.inl (Nat.le_add_left 2 n), Or.inr ⟨hkept, differs_erase _⟩⟩, Or.inr ⟨hkept, ?_⟩⟩
    show differs _ ((d.cache.insert id _).lookup id) = false
    rw [AList.lookup_insert]
    exact hkept
  · exact ⟨Or.inl (Nat.succ_le_succ hanswer), Or.inr ⟨rfl, differs_erase _⟩⟩

/-- A call that finds no stale copy leaves none, unless two of its operations failed. -/
theorem costs_process (hbacked : Backed entries d) (hd : Current d.store request.account d)
    (hstate : differs (d.store.account request.account) state = false) :
  Workload.Costs (Fine request.account) n
    (simulated (process request.account state request) (d, t))
  := by
  have hkept : differs (d.store.account request.account)
      (some (d.store.account request.account)) = false := differs_some.mpr rfl
  rw [simulated, process, handle_bind]
  apply (costs_resolve hd hstate).bind
  rintro n ⟨_ | ⟨found, session⟩, d₁, t₁⟩ ⟨hd₁, hfound⟩
  · exact Or.inr ⟨rfl, hd₁.1 ▸ hd₁.2⟩
  · obtain rfl : found = d.store.account request.account := hfound _ rfl
    simp only [handle_bind]
    apply (costs_plan hd₁).bind
    rintro n ⟨reply | mutation, d₂, t₂⟩ hd₂
    · obtain ⟨hstore, hcache⟩ := hd₂
      exact Or.inr ⟨hstore ▸ hkept, hstore ▸ hcache⟩
    · simp only [handle_bind]
      apply Workload.Costs.bind (C := fun _ x => Current d.store request.account x.2.1)
      · exact ⟨hd₂, hd₂.1, differs_erase _⟩
      rintro n ⟨_, d₃, t₃⟩ hd₃
      simp only
      apply (costs_lease hd₃).bind
      rintro n ⟨_ | session, d₄, t₄⟩ hd₄
      · obtain ⟨hstore, hcache⟩ := hd₄
        exact Or.inr ⟨hstore ▸ hkept, hstore ▸ hcache⟩
      · simp only [handle_bind]
        apply (costs_commit hd₄ fun reqId prior hprior => resident_recorded hbacked hprior).bind
        rintro n ⟨answer, d₅, t₅⟩ hanswer
        exact costs_conclude hanswer

/-! ### The world -/

namespace World

/-- Whether a copy of an account is resident or cached that is not the durable account. -/
def stale (w : World) (id : AccountId) : Bool :=
  differs (w.data.store.account id) (w.residents id) ||
    differs (w.data.store.account id) (w.data.cache.lookup id)

/-- Whether a call was not settled. -/
def unsettled (reply : Option Reply) : Bool := reply.any Reply.unsettled

variable {k : ℕ} {plan : FaultPlan FaultPoint}

theorem stale_update :
  stale ⟨Function.update w.residents id state, d⟩ id =
    (differs (d.store.account id) state || differs (d.store.account id) (d.cache.lookup id))
  := by
  simp [stale]

/-- A call comes to what its process comes to. -/
theorem call_under :
  (w.call request).under plan =
    (let x := (simulated (process request.account (w.residents request.account) request)
        (w.data, [])).under plan
     (((replies x.1.2.2).head?,
        ⟨Function.update w.residents request.account (left x.1.1), x.1.2.1⟩), x.2))
  := Workload.under_bind

theorem call_healthy :
  Workload.healthy (w.call request) =
    (let x := heal (process request.account (w.residents request.account) request) (w.data, [])
     ((replies x.2.2).head?, ⟨Function.update w.residents request.account (left x.1), x.2.1⟩))
  := Workload.healthy_bind

/-- A call that no fault hits ends as it does when nothing fails. -/
theorem call_ending (hquiet : ((w.call request).under plan).2.fired.length = plan.fired.length) :
  ((w.call request).under plan).1.1 =
      some (ending w.data (w.residents request.account) request).reply ∧
    ((w.call request).under plan).1.2.stale request.account =
      (ending w.data (w.residents request.account) request).stale request.account
  := by
  rw [Workload.under_of_quiet hquiet, call_healthy]
  obtain ⟨hreplies, hleft, hcached, hstore⟩ := @heal_process request
    (w.residents request.account) w.data []
  simp only
  rw [stale_update, hreplies, hleft, hcached, hstore]
  exact ⟨rfl, rfl⟩

/-- A call that no fault hits settles its request, or has found a stale copy and leaves none. -/
theorem call_quiet (h : w.Backed entries)
    (hquiet : ((w.call request).under plan).2.fired.length = plan.fired.length) :
  (unsettled ((w.call request).under plan).1.1).toNat +
      (((w.call request).under plan).1.2.stale request.account).toNat ≤
    (w.stale request.account).toNat
  := by
  obtain ⟨hreply, hstale⟩ := call_ending hquiet
  rw [hreply, hstale, unsettled, Option.any_some]
  cases hw : w.stale request.account with
  | false =>
    rw [stale, Bool.or_eq_false_iff] at hw
    obtain ⟨hsettled, hfresh⟩ := Ending.fresh h.data hw.1 hw.2
    rw [hsettled, hfresh]
    exact le_rfl
  | true =>
    cases hsettled : (ending w.data (w.residents request.account) request).reply.unsettled with
    | true =>
      rw [Ending.not_stale_of_unsettled hsettled]
      exact le_rfl
    | false =>
      rw [Bool.toNat_false, Nat.zero_add]
      exact Bool.toNat_le _

/-- A call that one fault hits leaves no stale copy unless it found one. -/
theorem call_hit (h : w.Backed entries)
    (hk : ((w.call request).under plan).2.fired.length = plan.fired.length + (k + 1)) :
  (((w.call request).under plan).1.2.stale request.account).toNat ≤
    (w.stale request.account).toNat + k
  := by
  have hle := Bool.toNat_le (((w.call request).under plan).1.2.stale request.account)
  cases hw : w.stale request.account with
  | true =>
    rw [Bool.toNat_true]
    omega
  | false =>
    rw [stale, Bool.or_eq_false_iff] at hw
    obtain ⟨k', hk', htwo | hfine⟩ :=
      (costs_process (n := 0) (t := []) h.data ⟨rfl, hw.2⟩ hw.1).under plan
    · rw [call_under] at hk
      simp only at hk
      omega
    · rw [call_under, stale_update, hfine.1, hfine.2]
      exact Nat.zero_le _

/-- A call costs no more than the faults that hit it and the stale copy that it found. -/
theorem call_cost (h : w.Backed entries)
    (hk : ((w.call request).under plan).2.fired.length = plan.fired.length + k) :
  (unsettled ((w.call request).under plan).1.1).toNat +
      (((w.call request).under plan).1.2.stale request.account).toNat ≤
    (w.stale request.account).toNat + k
  := by
  cases k with
  | zero => exact call_quiet h hk
  | succ k =>
    have hunsettled := Bool.toNat_le (unsettled ((w.call request).under plan).1.1)
    have hhit := call_hit h hk
    omega

end World

end Grommet.Accounts
