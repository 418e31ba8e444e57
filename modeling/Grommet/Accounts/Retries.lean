import Grommet.Accounts.Recovery

/-!
# Sequences of calls

Callers and the shard take turns: a request is called, or the resident state of an account is
dropped.  Each operation that fails costs at most one of the calls for the account it was for.
-/

open Program Grommet.Testkit

namespace Grommet.Accounts

/-- What the callers and the shard do, one after the other. -/
inductive Turn where
  | call (request : Request)
  | evict (id : AccountId)

/-- A call that was served, and how many of its operations failed. -/
structure Served where
  account : AccountId
  reply : Option Reply
  faults : ℕ

/-- The calls of a sequence of turns. -/
def session : List Turn → World → FaultPlan FaultPoint → List Served
  | [], _, _ => []
  | .evict id :: turns, w, plan => session turns (w.evict id) plan
  | .call request :: turns, w, plan =>
      let x := (w.call request).under plan
      ⟨request.account, x.1.1, x.2.fired.length - plan.fired.length⟩ :: session turns x.1.2 x.2

/-- The calls for an account that were not settled. -/
def unsettledFor (id : AccountId) (l : List Served) : ℕ :=
  l.countP fun served => served.account = id ∧ World.unsettled served.reply

/-- The operations that failed during the calls for an account. -/
def faultsFor (id : AccountId) (l : List Served) : ℕ :=
  ((l.filter fun served => served.account = id).map Served.faults).sum

theorem unsettledFor_cons (id : AccountId) (served : Served) (l : List Served) :
  unsettledFor id (served :: l) =
    unsettledFor id l + if served.account = id then (World.unsettled served.reply).toNat else 0
  := by
  rw [unsettledFor, unsettledFor, List.countP_cons]
  by_cases hid : served.account = id
  · cases h : World.unsettled served.reply <;> simp [hid]
  · simp [hid]

theorem faultsFor_cons (id : AccountId) (served : Served) (l : List Served) :
  faultsFor id (served :: l) = faultsFor id l + if served.account = id then served.faults else 0
  := by
  rw [faultsFor, faultsFor, List.filter_cons]
  by_cases hid : served.account = id
  · simp [hid, Nat.add_comm]
  · simp [hid]

variable {w w' : World} {id id' : AccountId} {entries : List Entry} {plan : FaultPlan FaultPoint}
  {request : Request} {turns : List Turn}

theorem World.backed_evict (h : w.Backed entries) (id : AccountId) :
  (w.evict id).Backed entries
  := by
  refine ⟨h.data, fun id' account hresident => ?_⟩
  rw [World.evict] at hresident
  by_cases hid : id' = id
  · subst hid
    simp at hresident
  · simp only [Function.update_of_ne hid] at hresident
    exact h.resident id' account hresident

/-- An account is no more stale without its resident state. -/
theorem World.stale_evict :
  ((w.evict id').stale id).toNat ≤ (w.stale id).toNat
  := by
  have hstale : (w.evict id').stale id = true → w.stale id = true := by
    rw [stale, stale, Bool.or_eq_true, Bool.or_eq_true]
    rintro (hresident | hcached)
    · by_cases hid : id = id'
      · subst hid
        simp [evict, differs] at hresident
      · simp only [evict, Function.update_of_ne hid] at hresident
        exact Or.inl hresident
    · exact Or.inr hcached
  cases h : (w.evict id').stale id with
  | false => exact Nat.zero_le _
  | true => rw [hstale h]

theorem World.backed_empty :
  World.empty.Backed []
  := ⟨Accounts.backed_empty, nofun⟩

/-- A call leaves another account as stale as it was. -/
theorem World.stale_of_called {own : List Entry} {reply : Option Reply}
    (h : Called request entries w own reply w') (hid : id ≠ request.account) :
  w'.stale id = w.stale id
  := by
  obtain ⟨hresident, hcache, hstore⟩ := h.others id hid
  rw [stale, stale, hresident, hcache, hstore]

/-- The calls that are not settled are paid by faults, and by the copies that are stale. -/
theorem unsettledFor_session (h : w.Backed entries) :
  unsettledFor id (session turns w plan) ≤
    (w.stale id).toNat + faultsFor id (session turns w plan)
  := by
  induction turns generalizing w plan entries with
  | nil => exact Nat.zero_le _
  | cons turn turns ih =>
    cases turn with
    | evict id' =>
      rw [session]
      have hrest := @ih (w.evict id') entries plan (World.backed_evict h id')
      have hstale := @World.stale_evict w id id'
      omega
    | call request =>
      obtain ⟨own, hcalled⟩ := (call_yields h request).serve FaultPlan.fires plan
      change Called request entries w own ((w.call request).under plan).1.1
        ((w.call request).under plan).1.2 at hcalled
      obtain ⟨l, hl⟩ := Workload.fired_under (w.call request) plan
      have hfired : ((w.call request).under plan).2.fired.length = plan.fired.length + l.length := by
        rw [hl, List.length_append]
      have hrest := @ih _ _ ((w.call request).under plan).2 hcalled.backed
      rw [session]
      simp only [unsettledFor_cons, faultsFor_cons, hfired, Nat.add_sub_cancel_left]
      by_cases hid : request.account = id
      · subst hid
        have hcost := World.call_cost h hfired
        rw [if_pos rfl, if_pos rfl]
        omega
      · rw [World.stale_of_called hcalled (Ne.symm hid)] at hrest
        rw [if_neg hid, if_neg hid]
        exact hrest

/-- Every call is answered. -/
theorem answered_session (h : w.Backed entries) :
  ∀ served ∈ session turns w plan, served.reply ≠ none
  := by
  induction turns generalizing w plan entries with
  | nil => nofun
  | cons turn turns ih =>
    cases turn with
    | evict id => exact ih (World.backed_evict h id)
    | call request =>
      obtain ⟨own, hcalled⟩ := (call_yields h request).serve FaultPlan.fires plan
      obtain ⟨reply, hreply, -⟩ := hcalled.reports
      rintro served (⟨⟩ | hmem)
      · change ((w.call request).under plan).1.1 ≠ none
        rw [show ((w.call request).under plan).1.1 = some reply from hreply]
        exact Option.some_ne_none reply
      · exact ih hcalled.backed served ‹_›

/-- Over any sequence of calls and evictions, and whatever the plan fails: every call is
answered, and the calls for an account that are not settled are no more than the operations
that failed during the calls for it. -/
theorem unsettled_le_faults (turns : List Turn) (plan : FaultPlan FaultPoint) (id : AccountId) :
  (∀ served ∈ session turns .empty plan, served.reply ≠ none) ∧
    unsettledFor id (session turns .empty plan) ≤ faultsFor id (session turns .empty plan)
  := by
  refine ⟨answered_session World.backed_empty, ?_⟩
  have h := @unsettledFor_session .empty id [] plan turns World.backed_empty
  have hfresh : World.empty.stale id = false := rfl
  rw [hfresh, Bool.toNat_false, Nat.zero_add] at h
  exact h

end Grommet.Accounts
