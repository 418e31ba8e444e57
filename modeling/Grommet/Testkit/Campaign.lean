import Grommet.Library.Checked
import Grommet.Testkit.Fault

/-!
# The single-fault campaign

A campaign runs a workload once for each position at which one of its operations can fail,
until there is a position that the workload never reaches.  A campaign that reports has
visited every failure position there is, and the workload converged at each of them.
-/

open Checked

namespace Grommet.Testkit

variable {P α : Type}

structure CaseOutcome where
  /-- Whether the plan injected a fault in this case. -/
  fired : Bool
  /-- Whether the workload reached its expected final state afterwards. -/
  converged : Bool

structure CampaignReport where
  /-- Failure positions visited. -/
  cases : ℕ
  deriving DecidableEq

/-- The cases of a campaign from a number on, when a number of them is left. -/
def campaignFrom (maxCases : ℕ) (case : Int64 → CaseOutcome) : ℕ → ℕ → Checked CampaignReport
  | 0, _ => .error (.assertion
      s!"the workload has more than {maxCases} failure positions; raise the bound")
  | left + 1, n => do
      let outcome := case (.ofNat n)
      assert outcome.converged s!"the workload did not converge with a fault at position {n}"
      if outcome.fired then campaignFrom maxCases case left (n + 1) else .ok ⟨n⟩

/-- Run a workload once for each single-failure position. -/
def singleFaultCampaign (maxCases : ℕ) (case : Int64 → CaseOutcome) : Checked CampaignReport :=
  campaignFrom maxCases case maxCases 0

variable {case : Int64 → CaseOutcome} {maxCases left n : ℕ} {report : CampaignReport}

theorem campaignFrom_eq_ok :
  campaignFrom maxCases case left n = .ok report ↔
    n ≤ report.cases ∧ report.cases < n + left ∧
      (∀ m, n ≤ m → m ≤ report.cases → (case (.ofNat m)).converged = true) ∧
      (∀ m, n ≤ m → m < report.cases → (case (.ofNat m)).fired = true) ∧
      (case (.ofNat report.cases)).fired = false
  := by
  induction left generalizing n with
  | zero =>
    constructor
    · intro h
      cases h
    · rintro ⟨hle, hlt, -⟩
      omega
  | succ left ih =>
    rw [campaignFrom, bind_eq_ok]
    constructor
    · rintro ⟨_, hconverged, h⟩
      rw [assert_eq_ok] at hconverged
      split at h
      · rename_i hfired
        obtain ⟨hle, hlt, hall, hfires, hlast⟩ := ih.mp h
        refine ⟨by omega, by omega, fun m hn hm => ?_, fun m hn hm => ?_, hlast⟩
        · rcases hn.eq_or_lt with rfl | hn
          · exact hconverged
          · exact hall m hn hm
        · rcases hn.eq_or_lt with rfl | hn
          · exact hfired
          · exact hfires m hn hm
      · rename_i hfired
        cases h
        refine ⟨le_rfl, by simp, fun m hn hm => ?_, fun m hn hm => ?_, by simpa using hfired⟩
        · cases hn.antisymm hm
          exact hconverged
        · exact absurd hm (by simpa using hn)
    · rintro ⟨hle, hlt, hall, hfires, hlast⟩
      refine ⟨(), assert_of (hall n le_rfl hle) _, ?_⟩
      rcases hle.eq_or_lt with rfl | hne
      · rw [if_neg (by rw [hlast]; simp)]
      · rw [if_pos (hfires n le_rfl hne), ih]
        exact ⟨hne, by omega, fun m hn => hall m (by omega), fun m hn => hfires m (by omega), hlast⟩

variable [DecidableEq P]

/-- The case of a campaign that runs a workload under the countdown. -/
def Workload.caseOf (w : Workload P α) (converged : α → Bool) (n : Int64) : CaseOutcome :=
  ⟨(w.under (.countdown n.toInt)).2.didFire, converged (w.under (.countdown n.toInt)).1⟩

variable {w : Workload P α} {converged : α → Bool}

/-- A fault at a position that the workload does not reach changes nothing. -/
theorem Workload.under_countdown_of_le (h : (w.consulted none).length ≤ n) :
  (w.under (.countdown n)).1 = w.healthy
  := by
  apply under_of_quiet
  have hget : (w.consulted (FaultPlan.countdown (P := P) n).enabled)[n]? = none :=
    List.getElem?_eq_none h
  rw [fired_under_countdown rfl, hget]
  rfl

/-- The position with a number, as long as it can be told from the negative ones. -/
theorem Workload.caseOf_of_lt (h : n < 2 ^ 63) :
  w.caseOf converged (.ofNat n) =
    ⟨decide (n < (w.consulted none).length), converged (w.under (.countdown n)).1⟩
  := by
  rw [caseOf, Int64.toInt_ofNat_of_lt h, didFire_under_countdown]

/-- No operation has a negative position. -/
theorem Workload.caseOf_of_neg {position : Int64} (h : position.toInt < 0) :
  w.caseOf converged position = ⟨false, converged w.healthy⟩
  := by
  obtain ⟨hfired, hresult⟩ := @under_of_spent P α _ (.countdown position.toInt) w _ h rfl
  rw [caseOf, FaultPlan.didFire, hfired, hresult]
  rfl

/-- A case fires when its number is that of an operation and of a position. -/
theorem Workload.fired_caseOf (h : n ≤ 2 ^ 63) :
  (w.caseOf converged (.ofNat n)).fired = decide (n < min (w.consulted none).length (2 ^ 63))
  := by
  rcases h.lt_or_eq with hlt | rfl
  · rw [caseOf_of_lt hlt]
    simp only [lt_min_iff, hlt, and_true]
  · rw [caseOf_of_neg (by decide), eq_comm, decide_eq_false_iff_not, lt_min_iff]
    exact fun hlt => hlt.2.false

/-- A workload converges at every position if it does so at those of its operations and at the
one that comes after them. -/
theorem Workload.converged_caseOf :
  (∀ m ≤ min (w.consulted none).length (2 ^ 63),
      (w.caseOf converged (.ofNat m)).converged = true) ↔
    ∀ position : Int64, converged (w.under (.countdown position.toInt)).1 = true
  := by
  constructor
  · intro h position
    have hhealthy : converged w.healthy = true := by
      have hlast := h _ le_rfl
      rcases lt_or_ge (w.consulted none).length (2 ^ 63) with hlt | hge
      · rw [min_eq_left hlt.le, caseOf_of_lt hlt, under_countdown_of_le le_rfl] at hlast
        exact hlast
      · rw [min_eq_right hge, caseOf_of_neg (by decide)] at hlast
        exact hlast
    rcases lt_or_ge position.toInt 0 with hneg | hpos
    · rw [(@under_of_spent P α _ (.countdown position.toInt) w _ hneg rfl).2]
      exact hhealthy
    · obtain ⟨n, hn⟩ := Int.eq_ofNat_of_zero_le hpos
      have hlt : n < 2 ^ 63 := by
        have := position.toInt_lt
        omega
      rw [hn]
      rcases le_total n (w.consulted none).length with hle | hge
      · have hcase := h n (le_min hle hlt.le)
        rw [caseOf_of_lt hlt] at hcase
        exact hcase
      · rw [under_countdown_of_le hge]
        exact hhealthy
  · intro h m _
    exact h (.ofNat m)

/-- A campaign reports the number of the failure positions of its workload. -/
theorem singleFaultCampaign_eq_ok :
  singleFaultCampaign maxCases (w.caseOf converged) = .ok report ↔
    report.cases = min (w.consulted none).length (2 ^ 63) ∧ report.cases < maxCases ∧
      ∀ position : Int64, converged (w.under (.countdown position.toInt)).1 = true
  := by
  rw [singleFaultCampaign, campaignFrom_eq_ok, ← Workload.converged_caseOf]
  constructor
  · rintro ⟨-, hlt, hall, hfires, hlast⟩
    have hbound : report.cases ≤ 2 ^ 63 := by
      by_contra hgt
      have hfired := hfires (2 ^ 63) (Nat.zero_le _) (Nat.lt_of_not_le hgt)
      rw [Workload.fired_caseOf le_rfl, decide_eq_true_eq, lt_min_iff] at hfired
      exact hfired.2.false
    rw [Workload.fired_caseOf hbound, decide_eq_false_iff_not, not_lt] at hlast
    have hcases : report.cases = min (w.consulted none).length (2 ^ 63) := by
      refine hlast.antisymm' (le_of_not_gt fun hgt => ?_)
      have hfired := hfires _ (Nat.zero_le _) hgt
      rw [Workload.fired_caseOf (min_le_right ..), decide_eq_true_eq] at hfired
      exact hfired.false
    exact ⟨hcases, by omega, fun m hm => hall m (Nat.zero_le m) (hm.trans hcases.ge)⟩
  · rintro ⟨hcases, hlt, hall⟩
    have hbound : report.cases ≤ 2 ^ 63 := hcases.le.trans (min_le_right ..)
    refine ⟨Nat.zero_le _, by omega, fun m _ hm => hall m (hm.trans hcases.le), ?_, ?_⟩
    · intro m _ hm
      rw [Workload.fired_caseOf (hm.le.trans hbound), decide_eq_true_eq, ← hcases]
      exact hm
    · rw [Workload.fired_caseOf hbound, decide_eq_false_iff_not, ← hcases]
      exact lt_irrefl _

/-- Each case of a campaign fails the operation at its position and no other one, and the
campaign reports exactly when its bound exceeds the number of the failure positions and the
workload converges wherever a fault is injected. -/
theorem singleFaultCampaign_spec (w : Workload P α) (converged : α → Bool) (maxCases : ℕ)
    (report : CampaignReport) :
  (∀ n : ℕ, (w.under (.countdown n)).2.fired = ((w.consulted none)[n]?).toList) ∧
    (singleFaultCampaign maxCases (w.caseOf converged) = .ok report ↔
      report.cases = min (w.consulted none).length (2 ^ 63) ∧ report.cases < maxCases ∧
        ∀ position : Int64, converged (w.under (.countdown position.toInt)).1 = true)
  := ⟨fun _ => Workload.fired_under_countdown rfl, singleFaultCampaign_eq_ok⟩

end Grommet.Testkit
