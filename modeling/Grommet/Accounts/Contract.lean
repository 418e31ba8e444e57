import Grommet.Accounts.Store
import Mathlib.Algebra.Ring.Int.Parity

/-!
# The contract of the ports

What the processor may rely on, and no more.  Any operation may fail.  A commit that fails has
not been applied; one that is in doubt may have been.  A commit applies its mutation at most
once, and only to the version it names.  What was put into the cache may be lost at any time,
and whether a failed change of the cache took place is not known.

The simulated adapters keep the contract under every fault plan.
-/

open Program Grommet.Testkit

namespace Grommet.Accounts

/-! ### Mutations in unbounded arithmetic -/

/-- What a mutation makes of a balance. -/
def Mutation.wide (balance : ℤ) : Mutation → ℤ
  | .delta change => balance + change.toInt
  | .setBalance balance => balance.toInt

variable {current account durable : Account} {mutation : Mutation} {a b c : Int64}
  {version next : UInt64}

theorem checkedAdd_eq_some :
  checkedAdd a b = some c ↔ c.toInt = a.toInt + b.toInt
  := by
  rw [checkedAdd]
  have hlo := Int64.le_toInt c
  have hhi := Int64.toInt_lt c
  constructor
  · intro h
    split at h
    · cases h
      rw [Int64.toInt_add, Int.bmod_eq_of_le] <;> omega
    · cases h
  · intro h
    rw [if_pos (by omega)]
    congr 1
    apply Int64.toInt_inj.mp
    rw [Int64.toInt_add, Int.bmod_eq_of_le] <;> omega

theorem checkedSucc_eq_some :
  checkedSucc version = some next ↔ next.toNat = version.toNat + 1
  := by
  have hlt := next.toNat_lt
  have hone : (1 : UInt64).toNat = 1 := rfl
  rw [checkedSucc]
  constructor
  · intro h
    split at h
    · cases h
      rw [UInt64.toNat_add, hone]
      omega
    · cases h
  · intro h
    rw [if_pos (by omega)]
    congr 1
    apply UInt64.toNat_inj.mp
    rw [UInt64.toNat_add, h, hone]
    omega

/-- A balance and a version that are computed one after the other. -/
theorem elim_bind_elim {E : Type} {x : Option Int64} {y : Option UInt64} {e₁ e₂ : E} :
  (x.elim (.error e₁) .ok >>= fun balance => y.elim (.error e₂) .ok >>= fun version =>
      (.ok ⟨balance, version⟩ : Except E Account)) = .ok account ↔
    x = some account.balance ∧ y = some account.version
  := by
  cases x with
  | none => exact ⟨nofun, nofun⟩
  | some balance =>
    cases y with
    | none => exact ⟨nofun, nofun⟩
    | some version =>
      constructor
      · rintro ⟨⟩
        exact ⟨rfl, rfl⟩
      · rintro ⟨⟨⟩, ⟨⟩⟩
        rfl

/-- A mutation that is applied acts as in unbounded arithmetic, and moves one version on. -/
theorem applyMutation_eq_ok :
  applyMutation current mutation = .ok account ↔
    account.balance.toInt = mutation.wide current.balance.toInt ∧
      account.version.toNat = current.version.toNat + 1
  := by
  cases mutation with
  | delta change =>
    rw [← checkedSucc_eq_some, Mutation.wide, ← checkedAdd_eq_some]
    exact elim_bind_elim
  | setBalance balance =>
    rw [← checkedSucc_eq_some, Mutation.wide, Int64.toInt_inj, eq_comm (a := account.balance),
      ← Option.some_inj (a := balance)]
    exact @elim_bind_elim _ _ (some balance) _ .balanceOverflow _

/-- The store applies mutations as the domain does. -/
theorem advance_eq_ok :
  advance durable mutation = .ok account ↔ applyMutation durable mutation = .ok account
  := by
  cases mutation with
  | delta change => exact elim_bind_elim.trans elim_bind_elim.symm
  | setBalance balance =>
    exact (@elim_bind_elim _ _ (some balance) _ (.constraint "balance overflow") _).trans
      (@elim_bind_elim _ _ (some balance) _ .balanceOverflow _).symm

/-! ### The contract -/

variable {Session : Type}

/-- An operation may be answered so, and may leave the data so.  The flag tells whether it
applied a mutation. -/
inductive Serves (d : Data) : (op : Port Session) → op.Answer → Bool → Data → Prop
  | acquire (answer : Except StoreError Session) : Serves d .acquire answer false d
  | load {session : Session} {id : AccountId} :
      Serves d (.load session id) (.ok (d.store.account id)) false d
  | loadFails {session : Session} {id : AccountId} (error : StoreError) :
      Serves d (.load session id) (.error error) false d
  | refuse {session : Session} {reqId : RequestId} {id : AccountId} {current : Account}
      {mutation : Mutation} (error : StoreError) :
      Serves d (.commit session reqId id current mutation) (.error error) false d
  /-- The request was applied before. -/
  | replay {session : Session} {reqId : RequestId} {id : AccountId} {current : Account}
      {mutation : Mutation} {prior : AppliedRequest} :
      d.store.requests.lookup reqId = some prior → prior.accountId = id →
      prior.mutation = mutation →
      Serves d (.commit session reqId id current mutation)
        (.ok (.committed prior.account true)) false d
  | apply {session : Session} {reqId : RequestId} {id : AccountId} {current account : Account}
      {mutation : Mutation} {outcome : CommitOutcome} :
      d.store.requests.lookup reqId = none → (d.store.account id).version = current.version →
      applyMutation (d.store.account id) mutation = .ok account →
      outcome = .committed account false ∨ outcome = .inDoubt →
      Serves d (.commit session reqId id current mutation) (.ok outcome) true
        { d with store := d.store.apply reqId id mutation account }
  /-- The commit did not take effect, and the caller does not learn it. -/
  | lose {session : Session} {reqId : RequestId} {id : AccountId} {current : Account}
      {mutation : Mutation} :
      Serves d (.commit session reqId id current mutation) (.ok .inDoubt) false d
  | hit {id : AccountId} {account : Account} : d.cache.lookup id = some account →
      Serves d (.get id) (.ok (some account)) false d
  | miss {id : AccountId} : Serves d (.get id) (.ok none) false d
  | getFails {id : AccountId} (error : CacheError) : Serves d (.get id) (.error error) false d
  | put {id : AccountId} {account : Account} {ttl : ℕ} (answer : Except CacheError Unit) :
      Serves d (.put id account ttl) answer false
        { d with cache := d.cache.insert id account }
  | putFails {id : AccountId} {account : Account} {ttl : ℕ} (error : CacheError) :
      Serves d (.put id account ttl) (.error error) false d
  | invalidate {id : AccountId} (answer : Except CacheError Unit) :
      Serves d (.invalidate id) answer false { d with cache := d.cache.erase id }
  | invalidateFails {id : AccountId} (error : CacheError) :
      Serves d (.invalidate id) (.error error) false d
  | run {account : Account} {params : RevalueParams} :
      Serves d (.run account params) (.ok (heavyRevalue account params)) false d
  | runFails {account : Account} {params : RevalueParams} (error : OffloadError) :
      Serves d (.run account params) (.error error) false d
  | send {reply : Reply} : Serves d (.send reply) () false d

/-- The simulated store commits as the contract says, whichever of its operations fail. -/
theorem commit_yields (d : Data) (session : Session) (reqId : RequestId) (id : AccountId)
    (current : Account) (mutation : Mutation) :
  Yields (fun x => ∃ applied, Serves d (.commit session reqId id current mutation) x.1 applied
      { d with store := x.2 })
    (SimStore.commit d.store reqId id current mutation)
  := by
  intro fire
  cases fire with
  | true => exact ⟨false, .refuse _⟩
  | false =>
    cases hprior : d.store.requests.lookup reqId with
    | some prior =>
      simp only
      split
      · exact ⟨false, .refuse _⟩
      · rename_i hsame
        rw [not_or, not_not, not_not] at hsame
        exact ⟨false, .replay hprior hsame.1 hsame.2⟩
    | none =>
      simp only
      split
      · exact ⟨false, .refuse _⟩
      · rename_i hversion
        rw [not_not] at hversion
        cases hadvance : advance (d.store.account id) mutation with
        | error error => exact ⟨false, .refuse error⟩
        | ok account =>
          rw [advance_eq_ok] at hadvance
          intro fire
          cases fire with
          | true => exact ⟨true, .apply hprior hversion hadvance (Or.inr rfl)⟩
          | false => exact ⟨true, .apply hprior hversion hadvance (Or.inl rfl)⟩

/-- The simulated adapters keep the contract, whichever of their operations fail. -/
theorem simulate_yields (op : Port Unit) (d : Data) :
  Yields (fun x => ∃ applied, Serves d op x.1 applied x.2) (simulate op d)
  := by
  cases op with
  | acquire =>
    intro fire
    cases fire
    · exact ⟨false, .acquire _⟩
    · exact ⟨false, .acquire _⟩
  | load session id =>
    intro fire
    cases fire
    · exact ⟨false, .load⟩
    · exact ⟨false, .loadFails _⟩
  | commit session reqId id current mutation =>
    apply (commit_yields d session reqId id current mutation).bind
    exact fun _ h => h
  | get id =>
    intro fire
    cases fire
    · show ∃ applied, Serves d (.get id) (.ok (d.cache.lookup id)) applied d
      cases h : d.cache.lookup id with
      | none => exact ⟨false, .miss⟩
      | some account => exact ⟨false, .hit h⟩
    · exact ⟨false, .getFails _⟩
  | put id account ttl =>
    intro fire
    cases fire
    · exact ⟨false, .put _⟩
    · exact ⟨false, .putFails _⟩
  | invalidate id =>
    intro fire
    cases fire
    · exact ⟨false, .invalidate _⟩
    · exact ⟨false, .invalidateFails _⟩
  | run account params =>
    intro fire
    cases fire
    · exact ⟨false, .run⟩
    · exact ⟨false, .runFails _⟩
  | send reply => exact ⟨false, .send⟩

end Grommet.Accounts
