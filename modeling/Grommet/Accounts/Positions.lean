import Grommet.Accounts.Reconciliation

/-!
# The failure positions of a workload

The first call for an account reads it through the cache and the store, and each later call
finds it resident.  So credits for one account have five failure positions each, and three more
in all.  A campaign that fails each of them once finds that the workload reconciles.
-/

open Program Grommet.Testkit

namespace Grommet.Accounts

variable {credits : List Credit} {entries own : List Entry} {w w' : World} {c c' : Credit}
  {id : AccountId} {d : Data} {t : List (Exchange Unit)} {account current : Account}
  {reqId : RequestId} {mutation : Mutation}

/-- The points that a program consults when nothing fails. -/
def points {α : Type} (p : Action Unit α) (x : Data × List (Exchange Unit)) : List FaultPoint :=
  Workload.consulted none (simulated p x)

theorem points_bind {α β : Type} {p : Action Unit α} {f : α → Action Unit β}
    {x : Data × List (Exchange Unit)} :
  points (p >>= f) x = points p x ++ points (f (heal p x).1) (heal p x).2
  := by
  rw [points, simulated, handle_bind, Workload.consulted_bind]
  rfl

/-- The points that a call consults which applies its credit, after it found its account. -/
def applying : Option Unit → List FaultPoint
  | none => [.cacheInvalidate, .storeAcquire, .commitBeforeApply, .commitAfterApply, .cachePut]
  | some _ => [.cacheInvalidate, .commitBeforeApply, .commitAfterApply, .cachePut]

/-- A commit of the durable account for a new request. -/
theorem healthy_commit (hlookup : d.store.requests.lookup reqId = none)
    (hadvance : advance (d.store.account id) mutation = .ok account) :
  Workload.healthy (SimStore.commit d.store reqId id (d.store.account id) mutation) =
    (.ok (.committed account false), d.store.apply reqId id mutation account)
  := by
  have hsettles := settles_commit d.store reqId id (d.store.account id) mutation
  generalize Workload.healthy (SimStore.commit d.store reqId id (d.store.account id) mutation) = x
    at hsettles ⊢
  cases hsettles with
  | replay hprior => cases hlookup.symm.trans hprior
  | conflict hprior => cases hlookup.symm.trans hprior
  | stale _ hversion => exact absurd rfl hversion
  | overflow _ herror => cases hadvance.symm.trans herror
  | apply _ _ hok =>
    cases hadvance.symm.trans hok
    rfl

theorem points_commit (hlookup : d.store.requests.lookup reqId = none)
    (hadvance : advance (d.store.account id) mutation = .ok account) :
  points (commit () reqId id (d.store.account id) mutation >>= conclude id current) (d, t) =
    [.commitBeforeApply, .commitAfterApply, .cachePut]
  := by
  have hcommit : points (commit () reqId id (d.store.account id) mutation) (d, t) =
      [.commitBeforeApply, .commitAfterApply] := by
    simp only [points, simulated, commit, ask, handle_act, handle_ret, recording, simulate,
      Workload.consulted_bind, SimStore.commit, fires, hlookup, hadvance, ne_eq,
      not_true_eq_false, if_false]
    rfl
  rw [points_bind, heal_commit, hcommit, healthy_commit hlookup hadvance]
  rfl

theorem planned_credit (hnonneg : 0 ≤ c.amount.toInt) (account : Account) :
  planned account c.request.op = .ok (.delta c.amount)
  := by
  apply if_neg
  rw [Int64.lt_iff_toInt_lt]
  simpa using hnonneg

theorem points_plan (hnonneg : 0 ≤ c.amount.toInt) :
  points (plan account c.request.op) (d, t) = []
  := by
  have hsign : ¬ c.amount < 0 := by
    rw [Int64.lt_iff_toInt_lt]
    simpa using hnonneg
  rw [Credit.request, plan, if_neg hsign]
  rfl

/-- The points of a call for a credit that is applied, before it found its account. -/
theorem points_process {state : Option Account} {session : Option Unit} {d' : Data}
    {t' : List (Exchange Unit)}
    (hnonneg : 0 ≤ c.amount.toInt) (hlookup : d.store.requests.lookup c.reqId = none)
    (hadvance : advance (d.store.account c.account) (.delta c.amount) = .ok account)
    (hresolve : heal (resolve c.account state) (d, t) =
      (.ok (d.store.account c.account, session), d', t')) (hstore : d'.store = d.store) :
  points (process c.account state c.request) (d, t) =
    points (resolve c.account state) (d, t) ++ applying session
  := by
  rw [process, points_bind, hresolve]
  congr 1
  simp only
  obtain ⟨t₁, hplan, -⟩ := @heal_plan d' t' (d.store.account c.account) c.request.op
  rw [points_bind, points_plan hnonneg, hplan, planned_credit hnonneg]
  simp only [List.nil_append]
  rw [← hstore] at hlookup hadvance ⊢
  rw [points_bind]
  have hinvalidate : heal (invalidate c.account) (d', t₁) =
      (.ok (), { d' with cache := d'.cache.erase c.account },
        t₁ ++ [⟨.invalidate c.account, .ok ()⟩]) := rfl
  rw [hinvalidate]
  cases session with
  | none =>
    have hcommit := @points_commit c.account { d' with cache := d'.cache.erase c.account }
      (t₁ ++ [⟨.invalidate c.account, .ok ()⟩] ++ [⟨.acquire, .ok ()⟩]) account
      (d'.store.account c.account) c.reqId (.delta c.amount) hlookup hadvance
    exact congrArg (fun l => FaultPoint.cacheInvalidate :: .storeAcquire :: l) hcommit
  | some session =>
    have hcommit := @points_commit c.account { d' with cache := d'.cache.erase c.account }
      (t₁ ++ [⟨.invalidate c.account, .ok ()⟩]) account
      (d'.store.account c.account) c.reqId (.delta c.amount) hlookup hadvance
    exact congrArg (fun l => FaultPoint.cacheInvalidate :: l) hcommit

/-- A call for a credit that was not applied yet, and that finds the durable account. -/
structure Applies (w : World) (c : Credit) (account : Account) : Prop where
  nonneg : 0 ≤ c.amount.toInt
  lookup : w.data.store.requests.lookup c.reqId = none
  advance : Accounts.advance (w.data.store.account c.account) (.delta c.amount) = .ok account
  sight : sight w.data c.account (w.residents c.account) = w.data.store.account c.account

namespace Applies

/-- The call leaves the account resident that it made. -/
theorem healthy_call (h : Applies w c account) :
  settled (Workload.healthy (w.call c.request)).1 = true ∧
    (Workload.healthy (w.call c.request)).2.residents c.account = some account ∧
    (Workload.healthy (w.call c.request)).2.data.store.account c.account = account
  := by
  have hending : ending w.data (w.residents c.account) c.request =
      ⟨.ok account.balance, some account, some account,
        w.data.store.apply c.reqId c.account (.delta c.amount) account⟩ := by
    rw [ending, planned_credit h.nonneg]
    change concluded (Accounts.sight w.data c.account (w.residents c.account))
      (Workload.healthy (SimStore.commit w.data.store c.reqId c.account
        (Accounts.sight w.data c.account (w.residents c.account)) (.delta c.amount))) = _
    rw [h.sight, healthy_commit h.lookup h.advance]
    rfl
  obtain ⟨hreplies, hleft, -, hstore⟩ := @heal_process c.request (w.residents c.account) w.data []
  change left (heal (process c.account (w.residents c.account) c.request) (w.data, [])).1 = _
    at hleft
  rw [World.call_healthy]
  rw [hending] at hreplies hleft hstore
  refine ⟨?_, (Function.update_self ..).trans hleft, ?_⟩
  · exact congrArg (fun l => settled l.head?) hreplies
  · exact (congrArg (fun s => s.account c.account) hstore).trans (account_apply_self _)

theorem consulted_call :
  Workload.consulted none (w.call c.request) =
    points (process c.account (w.residents c.account) c.request) (w.data, [])
  := by
  rw [World.call, Workload.consulted_bind]
  exact List.append_nil _

/-- The points of a call that finds its account resident. -/
theorem consulted_warm (h : Applies w c account)
    (hresident : w.residents c.account = some (w.data.store.account c.account)) :
  Workload.consulted none (w.call c.request) = applying none
  := by
  rw [consulted_call, hresident]
  have hheal : heal (resolve c.account (some (w.data.store.account c.account))) (w.data, []) =
      (.ok (w.data.store.account c.account, none), w.data, []) := rfl
  rw [points_process h.nonneg h.lookup h.advance hheal rfl]
  rfl

/-- The points of a call that reads its account through. -/
theorem consulted_cold (h : Applies w c account) (hresident : w.residents c.account = none)
    (hcache : w.data.cache.lookup c.account = none) :
  Workload.consulted none (w.call c.request) =
    [.cacheGet, .storeAcquire, .storeLoad, .cachePut] ++ applying (some ())
  := by
  have hheal : heal (resolve c.account none) (w.data, []) =
      heal (cachedOr c.account (.ok (w.data.cache.lookup c.account)))
        (w.data, [⟨.get c.account, .ok (w.data.cache.lookup c.account)⟩]) := rfl
  have hpoints : points (resolve c.account none) (w.data, []) =
      .cacheGet :: points (cachedOr c.account (.ok (w.data.cache.lookup c.account)))
        (w.data, [⟨.get c.account, .ok (w.data.cache.lookup c.account)⟩]) := rfl
  obtain ⟨t', ht', -⟩ := @heal_readThrough w.data
    [⟨.get c.account, .ok (w.data.cache.lookup c.account)⟩] c.account
  rw [hcache] at hheal hpoints ht'
  rw [consulted_call, hresident, points_process h.nonneg h.lookup h.advance (hheal.trans ht') rfl,
    hpoints]
  rfl

end Applies

/-! ### Rounds -/

theorem consulted_round_cons (request : Request) (requests : List Request) :
  Workload.consulted none (round (request :: requests) w) =
    Workload.consulted none (w.call request) ++
      Workload.consulted none (round requests (Workload.healthy (w.call request)).2)
  := by
  rw [round, Workload.consulted_bind, Workload.consulted_bind]
  exact congrArg _ (List.append_nil _)

theorem healthy_round_cons (request : Request) (requests : List Request) :
  (Workload.healthy (round (request :: requests) w)).1 =
    (settled (Workload.healthy (w.call request)).1 &&
      (Workload.healthy (round requests (Workload.healthy (w.call request)).2)).1)
  := by
  rw [round, Workload.healthy_bind, Workload.healthy_bind]
  rfl

/-- A credit that was not applied yet can be applied to the account that a call finds. -/
theorem Owes.applies (h : Owes credits entries w) (hpayable : Payable credits) (hc : c ∈ credits)
    (hnew : c.entry ∉ entries)
    (hsight : sight w.data c.account (w.residents c.account) = w.data.store.account c.account) :
  ∃ account, Applies w c account
  := by
  obtain ⟨account, hadvance⟩ := h.advance_eq_ok hpayable hc hnew
  refine ⟨account, hpayable.nonneg c hc, ?_, hadvance, hsight⟩
  cases hlookup : w.data.store.requests.lookup c.reqId with
  | none => rfl
  | some prior => exact absurd (h.recorded hpayable hc hlookup).1 hnew

/-- A call for a credit applies none of the others. -/
theorem Owes.healthy_call (h : Owes credits entries w) (hpayable : Payable credits)
    (hc : c ∈ credits) :
  ∃ own, Owes credits (entries ++ own) (Workload.healthy (w.call c.request)).2 ∧
    ∀ c' ∈ credits, c' ≠ c → c'.entry ∉ entries → c'.entry ∉ entries ++ own
  := by
  obtain ⟨own, hcalled⟩ := Workload.healthy_of_yields (call_yields h.backed c.request)
  refine ⟨own, h.call hc hcalled, fun c' hc' hne hnew hmem => ?_⟩
  rcases List.mem_append.mp hmem with hmem | hmem
  · exact hnew hmem
  · exact hne (hpayable.eq_of_reqId hc' hc (hcalled.asked _ hmem).1)

/-- A round of credits for an account that is resident. -/
theorem warm_round (hpayable : Payable credits) {cs : List Credit} (hcs : cs ⊆ credits)
    (hone : ∀ c ∈ cs, c.account = id) (hnodup : cs.Nodup) (h : Owes credits entries w)
    (hnew : ∀ c ∈ cs, c.entry ∉ entries)
    (hresident : w.residents id = some (w.data.store.account id)) :
  (Workload.consulted none (round (cs.map Credit.request) w)).length = 5 * cs.length ∧
    (Workload.healthy (round (cs.map Credit.request) w)).1 = true
  := by
  induction cs generalizing entries w with
  | nil => exact ⟨rfl, rfl⟩
  | cons c cs ih =>
    have hc : c ∈ credits := hcs List.mem_cons_self
    obtain rfl := hone c List.mem_cons_self
    obtain ⟨account, happlies⟩ := h.applies hpayable hc (hnew c List.mem_cons_self)
      (by rw [hresident]; rfl)
    obtain ⟨hsettled, hresident', hdurable⟩ := happlies.healthy_call
    obtain ⟨own, howes, hothers⟩ := h.healthy_call hpayable hc
    obtain ⟨hlength, hclean⟩ := ih (List.subset_of_cons_subset hcs)
      (fun c hmem => hone c (List.mem_cons_of_mem _ hmem)) hnodup.of_cons howes
      (fun c' hmem => hothers c' (hcs (List.mem_cons_of_mem _ hmem))
        (fun heq => (List.nodup_cons.mp hnodup).1 (heq ▸ hmem))
        (hnew c' (List.mem_cons_of_mem _ hmem)))
      (by rw [hresident', hdurable])
    rw [List.map_cons, consulted_round_cons, healthy_round_cons, hsettled, hclean,
      List.length_append, happlies.consulted_warm hresident, hlength, List.length_cons]
    exact ⟨by rw [show (applying none).length = 5 from rfl]; omega, rfl⟩

/-- A round of credits for an account that was never touched. -/
theorem cold_round (hpayable : Payable credits) (hone : ∀ c ∈ credits, c.account = id)
    (hne : credits ≠ []) :
  (Workload.consulted none (round (credits.map Credit.request) .empty)).length =
      5 * credits.length + 3 ∧
    (Workload.healthy (round (credits.map Credit.request) .empty)).1 = true
  := by
  obtain ⟨c, cs, rfl⟩ := List.exists_cons_of_ne_nil hne
  have hstart : Owes (c :: cs) [] .empty := ⟨World.backed_empty, nofun⟩
  have hc : c ∈ c :: cs := List.mem_cons_self
  have hnodup : (c :: cs).Nodup := hpayable.ids.of_map
  obtain rfl := hone c hc
  obtain ⟨account, happlies⟩ := hstart.applies hpayable hc List.not_mem_nil rfl
  obtain ⟨hsettled, hresident, hdurable⟩ := happlies.healthy_call
  obtain ⟨own, howes, hothers⟩ := hstart.healthy_call hpayable hc
  obtain ⟨hlength, hclean⟩ := warm_round hpayable (List.subset_cons_self c cs)
    (fun c' hmem => hone c' (List.mem_cons_of_mem _ hmem)) hnodup.of_cons howes
    (fun c' hmem => hothers c' (List.mem_cons_of_mem _ hmem)
      (fun heq => (List.nodup_cons.mp hnodup).1 (heq ▸ hmem)) List.not_mem_nil)
    (by rw [hresident, hdurable])
  rw [List.map_cons, consulted_round_cons, healthy_round_cons, hsettled, hclean, List.length_append,
    happlies.consulted_cold rfl rfl, hlength, List.length_cons]
  exact ⟨by simp only [List.length_append, applying, List.length_cons, List.length_nil]; omega, rfl⟩

/-- A workload that settles in its first round consults what that round does. -/
theorem consulted_settle (requests : List Request) (rounds : ℕ)
    (hclean : (Workload.healthy (round requests w)).1 = true) :
  Workload.consulted none (settle (rounds + 1) requests w) =
    Workload.consulted none (round requests w)
  := by
  rw [settle, Workload.consulted_bind]
  simp only [hclean, if_true]
  exact List.append_nil _

/-- Whether a workload settled and left an account with its credits. -/
def reconciled (credits : List Credit) (id : AccountId) (x : Bool × World) : Bool :=
  x.1 && x.2.data.store.account id =
    ⟨.ofInt (total credits id), .ofNat (creditsFor credits id).length⟩

/-- The campaign that fails each failure position of a workload of credits for one account
once: it visits five positions for each credit and three more, and the workload reconciles at
each of them, although it has no more than two rounds. -/
theorem campaign_reconciles (hpayable : Payable credits) (hone : ∀ c ∈ credits, c.account = id)
    (hne : credits ≠ []) {rounds maxCases : ℕ} (hrounds : 2 ≤ rounds)
    (hcases : 5 * credits.length + 3 < maxCases) :
  singleFaultCampaign maxCases
      (Workload.caseOf (settle rounds (credits.map Credit.request) .empty) (reconciled credits id)) =
    .ok ⟨min (5 * credits.length + 3) (2 ^ 63)⟩
  := by
  obtain ⟨rounds, rfl⟩ : ∃ r, rounds = r + 1 := ⟨rounds - 1, by omega⟩
  obtain ⟨hlength, hclean⟩ := cold_round hpayable hone hne
  rw [singleFaultCampaign_eq_ok, consulted_settle _ _ hclean, hlength]
  refine ⟨rfl, (min_le_left _ _).trans_lt hcases, fun position => ?_⟩
  generalize position.toInt = n
  obtain ⟨hquiet, entries, howes, hall⟩ := settle_start hpayable (rounds + 1) (.countdown n)
  have hfired := Workload.fired_under_countdown_le
    (settle (rounds + 1) (credits.map Credit.request) .empty) n
  have hdone : ((settle (rounds + 1) (credits.map Credit.request) .empty).under
      (.countdown n)).1.1 = true := by
    by_contra h
    have := hquiet (Bool.eq_false_of_not_eq_true h)
    omega
  obtain ⟨hbalance, hversion⟩ := howes.latest hpayable (hall hdone) id
  rw [reconciled, hdone, Bool.true_and, decide_eq_true_eq]
  generalize ((settle (rounds + 1) (credits.map Credit.request) .empty).under
    (.countdown n)).1.2.data.store.account id = account at hbalance hversion ⊢
  obtain ⟨balance, version⟩ := account
  simp only at hbalance hversion
  rw [← hbalance, ← hversion, Int64.ofInt_toInt, UInt64.ofNat_toNat]

theorem campaign_reconciles_equal :
  singleFaultCampaign 256 (Workload.caseOf
      (settle 8 ((equalCredits 55 10 4).map Credit.request) .empty)
      (reconciled (equalCredits 55 10 4) 55)) =
    .ok ⟨23⟩
  := campaign_reconciles payable_equal (by decide) (by decide) (by decide) (by decide)

end Grommet.Accounts
