import Grommet.Accounts.Retries
import Grommet.Testkit.Campaign
import Mathlib.Algebra.BigOperators.Group.Finset.Basic
import Mathlib.Algebra.Order.BigOperators.Group.List

/-!
# Retries until every request is settled

Callers submit the same credits under the same ids, and retry until each one is applied or
recognised as applied.  The rounds of retries that come to nothing are no more than the faults,
and what the store holds after a clean round does not depend on the faults at all.
-/

open Program Grommet.Testkit

namespace Grommet.Accounts

/-- Whether a reply says that a request is applied. -/
def settled : Option Reply → Bool
  | some (.ok _) => true
  | some (.duplicate _) => true
  | _ => false

/-- Call every request once, and tell whether each one is applied. -/
def round : List Request → World → Faulty (Bool × World)
  | [], w => pure (true, w)
  | request :: requests, w => do
      let (reply, w) ← w.call request
      let (clean, w) ← round requests w
      pure (settled reply && clean, w)

/-- Submit the same requests under the same ids, until each one is applied. -/
def settle : ℕ → List Request → World → Faulty (Bool × World)
  | 0, _, w => pure (false, w)
  | rounds + 1, requests, w => do
      let (clean, w) ← round requests w
      if clean then pure (true, w) else settle rounds requests w

/-! ### Credits -/

structure Credit where
  reqId : RequestId
  account : AccountId
  amount : Int64

namespace Credit

def request (c : Credit) : Request := ⟨c.reqId, c.account, .credit c.amount⟩

/-- What a credit enters into the ledger. -/
def entry (c : Credit) : Entry := ⟨c.reqId, c.account, .delta c.amount⟩

end Credit

/-- The credits for an account. -/
def creditsFor (credits : List Credit) (id : AccountId) : List Credit :=
  credits.filter fun c => c.account = id

/-- What the credits for an account come to. -/
def total (credits : List Credit) (id : AccountId) : ℤ :=
  ((creditsFor credits id).map fun c => c.amount.toInt).sum

/-- Credits that can all be applied. -/
structure Payable (credits : List Credit) : Prop where
  ids : (credits.map Credit.reqId).Nodup
  nonneg : ∀ c ∈ credits, 0 ≤ c.amount.toInt
  fits : ∀ id, total credits id < 2 ^ 63
  few : credits.length < 2 ^ 64

/-- A world in which some of the credits were applied, and nothing else. -/
structure Owes (credits : List Credit) (entries : List Entry) (w : World) : Prop where
  backed : w.Backed entries
  paid : ∀ entry ∈ entries, ∃ c ∈ credits, entry = c.entry

variable {credits : List Credit} {entries own : List Entry} {w w' : World} {c c' : Credit}
  {id : AccountId} {reply : Option Reply} {plan : FaultPlan FaultPoint} {k : ℕ}

theorem Payable.eq_of_reqId (h : Payable credits) (hc : c ∈ credits) (hc' : c' ∈ credits)
    (hreq : c.reqId = c'.reqId) :
  c = c'
  := List.inj_on_of_nodup_map h.ids hc hc' hreq

/-! ### What credits make of an account -/

theorem replay_deltas (cs : List Credit) :
  replay (cs.map fun c => .delta c.amount) = (cs.map fun c => c.amount.toInt).sum
  := by
  have hfold : ∀ (cs : List Credit) (a : ℤ),
      (cs.map fun c => Mutation.delta c.amount).foldl Mutation.wide a =
        a + (cs.map fun c => c.amount.toInt).sum := by
    intro cs
    induction cs with
    | nil => exact fun a => (add_zero a).symm
    | cons c cs ih =>
      intro a
      rw [List.map_cons, List.foldl_cons, ih, List.map_cons, List.sum_cons, Mutation.wide,
        add_assoc]
  rw [replay, hfold, zero_add]

theorem mutations_credits (cs : List Credit) (id : AccountId) :
  mutations (cs.map Credit.entry) id = (creditsFor cs id).map fun c => .delta c.amount
  := by
  rw [mutations, List.filter_map, List.map_map]
  rfl

/-- An account that only credits have touched. -/
theorem latest_credits {cs : List Credit} {account : Account}
    (h : Latest (mutations (cs.map Credit.entry) id) account) :
  account.balance.toInt = total cs id ∧ account.version.toNat = (creditsFor cs id).length
  := by
  rw [mutations_credits] at h
  refine ⟨?_, ?_⟩
  · rw [h.2, replay_deltas, total]
  · rw [h.1, List.length_map]

theorem total_le_of_subperm (h : ∀ c ∈ credits, 0 ≤ c.amount.toInt) {cs : List Credit}
    (hcs : cs.Subperm credits) :
  total cs id ≤ total credits id
  := by
  obtain ⟨l, hperm, hsublist⟩ := hcs.filter fun c => c.account = id
  rw [total, creditsFor, ← (hperm.map fun c => c.amount.toInt).sum_eq]
  apply (hsublist.map fun c => c.amount.toInt).sum_le_sum
  intro a hmem
  obtain ⟨c, hc, rfl⟩ := List.mem_map.mp hmem
  exact h c (List.mem_of_mem_filter hc)

namespace Owes

/-- The credits that were applied. -/
theorem applied (h : Owes credits entries w) :
  ∃ cs : List Credit, entries = cs.map Credit.entry ∧ cs.Subperm credits
  := by
  have hcs : ∀ l : List Entry, (∀ entry ∈ l, ∃ c ∈ credits, entry = c.entry) →
      ∃ cs : List Credit, l = cs.map Credit.entry ∧ cs ⊆ credits := by
    intro l
    induction l with
    | nil => exact fun _ => ⟨[], rfl, List.nil_subset _⟩
    | cons entry l ih =>
      intro hpaid
      obtain ⟨c, hc, rfl⟩ := hpaid entry List.mem_cons_self
      obtain ⟨cs, rfl, hsubset⟩ := ih fun entry hmem => hpaid entry (List.mem_cons_of_mem _ hmem)
      exact ⟨c :: cs, rfl, List.cons_subset.mpr ⟨hc, hsubset⟩⟩
  obtain ⟨cs, rfl, hsubset⟩ := hcs entries h.paid
  refine ⟨cs, rfl, List.subperm_of_subset ?_ hsubset⟩
  have honce := h.backed.data.once
  rw [List.map_map] at honce
  exact honce.of_map _

/-- What is recorded for the id of a credit is the credit. -/
theorem recorded (h : Owes credits entries w) (hpayable : Payable credits) (hc : c ∈ credits)
    {prior : AppliedRequest} (hprior : w.data.store.requests.lookup c.reqId = some prior) :
  c.entry ∈ entries ∧ prior.accountId = c.account ∧ prior.mutation = .delta c.amount
  := by
  obtain ⟨before, after, hentries, -⟩ := h.backed.data.recorded _ _ hprior
  have hmem : (⟨c.reqId, prior.accountId, prior.mutation⟩ : Entry) ∈ entries := by
    rw [hentries]
    simp
  obtain ⟨c', hc', hentry⟩ := h.paid _ hmem
  have hreq : c.reqId = c'.reqId := congrArg Entry.reqId hentry
  obtain rfl := hpayable.eq_of_reqId hc hc' hreq
  exact ⟨hentry ▸ hmem, congrArg Entry.id hentry, congrArg Entry.mutation hentry⟩

/-- A credit that was not applied yet can be. -/
theorem advance_eq_ok (h : Owes credits entries w) (hpayable : Payable credits) (hc : c ∈ credits)
    (hnew : c.entry ∉ entries) :
  ∃ account, advance (w.data.store.account c.account) (.delta c.amount) = .ok account
  := by
  obtain ⟨cs, rfl, hcs⟩ := h.applied
  obtain ⟨hbalance, hversion⟩ := latest_credits (h.backed.data.durable c.account)
  have hfresh : c ∉ cs := fun hmem => hnew (List.mem_map_of_mem hmem)
  have hcons := List.cons_subperm_of_not_mem_of_mem hfresh hc hcs
  have hle := @total_le_of_subperm credits c.account hpayable.nonneg (c :: cs) hcons
  have hsum : total (c :: cs) c.account = c.amount.toInt + total cs c.account := by
    simp [total, creditsFor]
  have hfits := hpayable.fits c.account
  have hnonneg := hpayable.nonneg c hc
  have hpaid : 0 ≤ total cs c.account :=
    total_le_of_subperm (fun c hc => hpayable.nonneg c (hcs.subset hc)) List.nil_subperm
  have hlength : (creditsFor cs c.account).length ≤ cs.length := List.length_filter_le ..
  have hfew := hcons.length_le.trans_lt hpayable.few
  rw [List.length_cons] at hfew
  refine ⟨⟨.ofInt (total cs c.account + c.amount.toInt),
    .ofNat ((creditsFor cs c.account).length + 1)⟩, ?_⟩
  rw [Accounts.advance_eq_ok, applyMutation_eq_ok, hbalance, hversion]
  refine ⟨?_, ?_⟩
  · rw [Int64.toInt_ofInt_of_le (by omega) (by omega)]
    rfl
  · apply UInt64.toNat_ofNat_of_lt'
    rw [UInt64.size]
    omega

/-- A call for one of the credits applies nothing else. -/
theorem call (h : Owes credits entries w) (hc : c ∈ credits)
    (hcalled : Called c.request entries w own reply w') :
  Owes credits (entries ++ own) w'
  := by
  refine ⟨hcalled.backed, fun entry hmem => ?_⟩
  rcases List.mem_append.mp hmem with hmem | hmem
  · exact h.paid entry hmem
  · obtain ⟨hreq, hid, current, -, hmutation⟩ := hcalled.asked entry hmem
    refine ⟨c, hc, ?_⟩
    obtain ⟨reqId, id, mutation⟩ := entry
    simp only at hreq hid hmutation
    rw [hreq, hid, hmutation]
    rfl

/-- A credit that a reply says is applied was applied. -/
theorem applied_of_settled (h : Owes credits entries w) (hpayable : Payable credits)
    (hc : c ∈ credits) (hcalled : Called c.request entries w own reply w')
    (hsettled : settled reply = true) :
  c.entry ∈ entries ++ own
  := by
  have howes := h.call hc hcalled
  have hrecorded : ∀ entry account, Recorded (entries ++ own) c.request entry account →
      c.entry ∈ entries ++ own := by
    rintro entry account ⟨hreq, -, before, after, hentries, -⟩
    have hmem : entry ∈ entries ++ own := by
      rw [hentries]
      simp
    obtain ⟨c', hc', rfl⟩ := howes.paid entry hmem
    obtain rfl := hpayable.eq_of_reqId hc' hc hreq
    exact hmem
  obtain ⟨r, rfl, hreports⟩ := hcalled.reports
  cases r with
  | ok balance =>
    rcases hreports with ⟨hop, -⟩ | ⟨entry, account, -, hrec, -⟩
    · cases hop
    · exact hrecorded entry account hrec
  | duplicate balance =>
    obtain ⟨-, entry, account, hrec, -⟩ := hreports
    exact hrecorded entry account hrec
  | err message => cases hsettled

/-- A call for one of the credits that no fault hits, and that does not apply it, is told to try
again. -/
theorem unsettled_of_not_settled (h : Owes credits entries w) (hpayable : Payable credits)
    (hc : c ∈ credits) (state : Option Account)
    (hsettled : settled (some (ending w.data state c.request).reply) = false) :
  (ending w.data state c.request).reply.unsettled = true
  := by
  have hplanned : ∀ account, planned account c.request.op = .ok (.delta c.amount) := by
    intro account
    have hnonneg := hpayable.nonneg c hc
    exact if_neg (by rw [Int64.lt_iff_toInt_lt]; simpa using hnonneg)
  rw [ending, hplanned] at hsettled ⊢
  have hsettles := settles_commit w.data.store c.request.reqId c.request.account
    (sight w.data c.request.account state) (.delta c.amount)
  simp only at hsettled ⊢
  generalize Workload.healthy (SimStore.commit w.data.store c.request.reqId c.request.account
    (sight w.data c.request.account state) (.delta c.amount)) = x at hsettled hsettles ⊢
  cases hsettles with
  | replay => cases hsettled
  | apply => cases hsettled
  | stale => rfl
  | conflict hprior hdiffers =>
    obtain ⟨-, hid, hmutation⟩ := h.recorded hpayable hc hprior
    exact absurd hdiffers (not_or.mpr ⟨not_not.mpr hid, not_not.mpr hmutation⟩)
  | overflow hlookup hadvance =>
    have hnew : c.entry ∉ entries := fun hmem => h.backed.data.listed _ hmem hlookup
    obtain ⟨account, haccount⟩ := h.advance_eq_ok hpayable hc hnew
    cases hadvance.symm.trans haccount

/-- A call for one of the credits costs no more than the faults that hit it and the stale copy
that it found. -/
theorem call_cost (h : Owes credits entries w) (hpayable : Payable credits) (hc : c ∈ credits)
    (hk : ((w.call c.request).under plan).2.fired.length = plan.fired.length + k) :
  (!settled ((w.call c.request).under plan).1.1).toNat +
      (((w.call c.request).under plan).1.2.stale c.account).toNat ≤
    (w.stale c.account).toNat + k
  := by
  cases k with
  | zero =>
    have hquiet := World.call_quiet h.backed hk
    obtain ⟨hreply, -⟩ := World.call_ending hk
    rw [hreply] at hquiet ⊢
    cases hsettled : settled
        (some (ending w.data (w.residents c.request.account) c.request).reply) with
    | true =>
      rw [Bool.not_true, Bool.toNat_false, Nat.zero_add]
      exact (Nat.le_add_left _ _).trans hquiet
    | false =>
      rw [World.unsettled, Option.any_some, h.unsettled_of_not_settled hpayable hc _ hsettled]
        at hquiet
      exact hquiet
  | succ k =>
    have hsettled := Bool.toNat_le (!settled ((w.call c.request).under plan).1.1)
    have hhit := World.call_hit h.backed hk
    change _ ≤ (w.stale c.account).toNat + k at hhit
    change (((w.call c.request).under plan).1.2.stale c.account).toNat ≤ _ at hhit
    omega

end Owes

/-! ### Rounds -/

/-- The accounts of which a copy is stale. -/
def staleness (accounts : Finset AccountId) (w : World) : ℕ :=
  ∑ id ∈ accounts, (w.stale id).toNat

theorem staleness_call {accounts : Finset AccountId} {own : List Entry} {m n : ℕ}
    (hcalled : Called c.request entries w own reply w') (hmem : c.account ∈ accounts)
    (hcost : n + (w'.stale c.account).toNat ≤ (w.stale c.account).toNat + m) :
  n + staleness accounts w' ≤ staleness accounts w + m
  := by
  have hothers : ∑ id ∈ accounts.erase c.account, (w'.stale id).toNat =
      ∑ id ∈ accounts.erase c.account, (w.stale id).toNat := by
    apply Finset.sum_congr rfl
    intro id hid
    rw [World.stale_of_called hcalled (Finset.ne_of_mem_erase hid)]
  rw [staleness, staleness, ← Finset.add_sum_erase _ _ hmem, ← Finset.add_sum_erase _ _ hmem,
    hothers]
  omega

theorem round_cons_under (request : Request) (requests : List Request) :
  (round (request :: requests) w).under plan =
    (let x := (w.call request).under plan
     let y := (round requests x.1.2).under x.2
     ((settled x.1.1 && y.1.1, y.1.2), y.2))
  := by
  rw [round, Workload.under_bind, Workload.under_bind]
  rfl

theorem settle_succ_under (rounds : ℕ) (requests : List Request) :
  (settle (rounds + 1) requests w).under plan =
    (let x := (round requests w).under plan
     if x.1.1 then ((true, x.1.2), x.2) else (settle rounds requests x.1.2).under x.2)
  := by
  rw [settle, Workload.under_bind]
  simp only
  split <;> rfl

/-- What calls for some of the credits come to: they apply nothing else, each one is applied if
the round is clean, and a round that is not is paid by the faults. -/
theorem round_under (hpayable : Payable credits) {accounts : Finset AccountId} {cs : List Credit}
    (hcs : cs ⊆ credits) (haccounts : ∀ c ∈ cs, c.account ∈ accounts)
    (h : Owes credits entries w) :
  let x := (round (cs.map Credit.request) w).under plan
  ∃ own k, Owes credits (entries ++ own) x.1.2 ∧ x.2.fired.length = plan.fired.length + k ∧
    (x.1.1 = true → ∀ c ∈ cs, c.entry ∈ entries ++ own) ∧
    (!x.1.1).toNat + staleness accounts x.1.2 ≤ staleness accounts w + k
  := by
  induction cs generalizing entries w plan with
  | nil => exact ⟨[], 0, by rwa [List.append_nil], rfl, fun _ => nofun, (Nat.zero_add _).le⟩
  | cons c cs ih =>
    have hc : c ∈ credits := hcs List.mem_cons_self
    obtain ⟨own, hcalled⟩ := (call_yields h.backed c.request).serve FaultPlan.fires plan
    obtain ⟨l, hl⟩ := Workload.fired_under (w.call c.request) plan
    have hfired : ((w.call c.request).under plan).2.fired.length = plan.fired.length + l.length := by
      rw [hl, List.length_append]
    have hcost := h.call_cost hpayable hc hfired
    rw [List.map_cons, round_cons_under]
    change Called c.request entries w own ((w.call c.request).under plan).1.1
      ((w.call c.request).under plan).1.2 at hcalled
    generalize (w.call c.request).under plan = x at hcalled hfired hcost ⊢
    obtain ⟨⟨reply, w₁⟩, plan₁⟩ := x
    obtain ⟨own', k, howes, hk, hall, hrest⟩ := @ih _ _ plan₁
      (List.subset_of_cons_subset hcs) (fun c hmem => haccounts c (List.mem_cons_of_mem _ hmem))
      (h.call hc hcalled)
    simp only at hcalled hfired hcost ⊢
    generalize (round (cs.map Credit.request) w₁).under plan₁ = y at howes hk hall hrest ⊢
    obtain ⟨⟨clean, w₂⟩, plan₂⟩ := y
    simp only at howes hk hall hrest ⊢
    refine ⟨own ++ own', l.length + k, ?_, by omega, ?_, ?_⟩
    · rw [← List.append_assoc]
      exact howes
    · intro hclean
      rw [Bool.and_eq_true] at hclean
      rw [← List.append_assoc]
      rintro c' (⟨⟩ | hmem)
      · exact List.mem_append_left _ (h.applied_of_settled hpayable hc hcalled hclean.1)
      · exact hall hclean.2 c' ‹_›
    · have hstaleness := staleness_call hcalled (haccounts c List.mem_cons_self) hcost
      have hand : (!(settled reply && clean)).toNat ≤ (!settled reply).toNat + (!clean).toNat := by
        cases settled reply <;> cases clean <;> decide
      omega

/-- What a workload of all the credits comes to: each one is applied if it settles, and a fault
was met in each of its rounds if it does not. -/
theorem settle_under (hpayable : Payable credits) {accounts : Finset AccountId}
    (haccounts : ∀ c ∈ credits, c.account ∈ accounts) (rounds : ℕ) (h : Owes credits entries w) :
  let x := (settle rounds (credits.map Credit.request) w).under plan
  ∃ own k, Owes credits (entries ++ own) x.1.2 ∧ x.2.fired.length = plan.fired.length + k ∧
    (x.1.1 = true → ∀ c ∈ credits, c.entry ∈ entries ++ own) ∧
    (x.1.1 = false → rounds ≤ staleness accounts w + k)
  := by
  induction rounds generalizing entries w plan with
  | zero => exact ⟨[], 0, by rwa [List.append_nil], rfl, nofun, fun _ => Nat.zero_le _⟩
  | succ rounds ih =>
    obtain ⟨own, k, howes, hk, hall, hcost⟩ := @round_under credits _ w plan hpayable
      accounts credits (List.Subset.refl credits) haccounts h
    rw [settle_succ_under]
    generalize (round (credits.map Credit.request) w).under plan = x at howes hk hall hcost ⊢
    obtain ⟨⟨clean, w₁⟩, plan₁⟩ := x
    cases clean with
    | true => exact ⟨own, k, howes, hk, hall, nofun⟩
    | false =>
      obtain ⟨own', k', howes', hk', hall', hrest⟩ := @ih _ _ plan₁ howes
      rw [List.append_assoc] at howes' hall'
      simp only [Bool.not_false, Bool.toNat_true] at hk hcost
      refine ⟨own ++ own', k + k', howes', hk'.trans (by omega), hall', fun hdone => ?_⟩
      have hrounds : rounds ≤ staleness accounts w₁ + k' := hrest hdone
      omega

/-- What all the credits make of an account. -/
theorem Owes.latest (h : Owes credits entries w) (hpayable : Payable credits)
    (hall : ∀ c ∈ credits, c.entry ∈ entries) (id : AccountId) :
  (w.data.store.account id).balance.toInt = total credits id ∧
    (w.data.store.account id).version.toNat = (creditsFor credits id).length
  := by
  obtain ⟨cs, rfl, hcs⟩ := h.applied
  have hperm : cs.Perm credits := by
    apply hcs.antisymm
    apply List.subperm_of_subset hpayable.ids.of_map
    intro c hc
    obtain ⟨c', hc', hentry⟩ := List.mem_map.mp (hall c hc)
    have hreq : c'.reqId = c.reqId := congrArg Entry.reqId hentry
    exact hpayable.eq_of_reqId (hcs.subset hc') hc hreq ▸ hc'
  obtain ⟨hbalance, hversion⟩ := latest_credits (h.backed.data.durable id)
  have hfor : (creditsFor cs id).Perm (creditsFor credits id) := hperm.filter _
  refine ⟨?_, ?_⟩
  · rw [hbalance, total, total, (hfor.map _).sum_eq]
  · rw [hversion, hfor.length_eq]

/-- What a workload of all the credits comes to from nothing. -/
theorem settle_start (hpayable : Payable credits) (rounds : ℕ) (plan : FaultPlan FaultPoint) :
  let x := (settle rounds (credits.map Credit.request) .empty).under plan
  (x.1.1 = false → rounds + plan.fired.length ≤ x.2.fired.length) ∧
    ∃ entries, Owes credits entries x.1.2 ∧
      (x.1.1 = true → ∀ c ∈ credits, c.entry ∈ entries)
  := by
  have hstart : Owes credits [] .empty := ⟨World.backed_empty, nofun⟩
  obtain ⟨own, k, howes, hk, hall, hrounds⟩ := @settle_under credits [] _ plan hpayable
    (credits.map Credit.account).toFinset
    (fun c hc => List.mem_toFinset.mpr (List.mem_map_of_mem hc)) rounds hstart
  have hfresh : staleness (credits.map Credit.account).toFinset .empty = 0 :=
    Finset.sum_eq_zero fun id _ => rfl
  refine ⟨fun hdone => ?_, own, howes, hall⟩
  have := hrounds hdone
  omega

/-- Credits that are submitted under distinct ids, and retried until each one is applied:
whatever the plan fails, the rounds are used up only if as many operations failed, and when the
workload settles the store holds each credit once. -/
theorem settle_reconciles (hpayable : Payable credits) (rounds : ℕ)
    (plan : FaultPlan FaultPoint) :
  let x := (settle rounds (credits.map Credit.request) .empty).under plan
  (x.1.1 = false → rounds + plan.fired.length ≤ x.2.fired.length) ∧
    (x.1.1 = true → ∀ id, (x.1.2.data.store.account id).balance.toInt = total credits id ∧
      (x.1.2.data.store.account id).version.toNat = (creditsFor credits id).length)
  := by
  obtain ⟨hrounds, entries, howes, hall⟩ := settle_start hpayable rounds plan
  exact ⟨hrounds, fun hdone => howes.latest hpayable (hall hdone)⟩

/-- Credits of one amount for one account. -/
def equalCredits (id : AccountId) (amount : Int64) (count : ℕ) : List Credit :=
  (List.range count).map fun index => ⟨.ofNat 128 (index + 1), id, amount⟩

theorem payable_equal : Payable (equalCredits 55 10 4) := by
  refine ⟨by decide, by decide, fun id => ?_, by decide⟩
  by_cases hid : 55 = id
  · subst hid
    decide
  · have hnone : creditsFor (equalCredits 55 10 4) id = [] := by
      apply List.filter_eq_nil_iff.mpr
      intro c hmem
      obtain ⟨index, -, rfl⟩ := List.mem_map.mp hmem
      simpa using hid
    rw [total, hnone]
    decide

/-- Four credits that meet a fault at one of their operations. -/
theorem settle_reconciles_equal :
  let x := (settle 8 ((equalCredits 55 10 4).map Credit.request) .empty).under (.countdown (6 : ℕ))
  x.1.1 = true ∧ (x.1.2.data.store.account 55).balance.toInt = 40 ∧
    (x.1.2.data.store.account 55).version.toNat = 4
  := by
  obtain ⟨hrounds, hsettled⟩ := settle_reconciles payable_equal 8 (.countdown (6 : ℕ))
  have hfired := Workload.fired_under_countdown_le
    (settle 8 ((equalCredits 55 10 4).map Credit.request) .empty) (6 : ℕ)
  have hdone : ((settle 8 ((equalCredits 55 10 4).map Credit.request) .empty).under
      (.countdown (6 : ℕ))).1.1 = true := by
    by_contra h
    have hle := hrounds (Bool.eq_false_of_not_eq_true h)
    rw [show (FaultPlan.countdown (P := FaultPoint) (6 : ℕ)).fired.length = 0 from rfl] at hle
    omega
  exact ⟨hdone, hsettled hdone 55⟩

end Grommet.Accounts
