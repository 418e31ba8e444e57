import Grommet.Library.Handler
import Mathlib.Algebra.Order.Ring.Int
import Mathlib.Data.List.Basic

/-!
# Fault plans

A fault plan decides, at each labelled point of an adapter, whether this call fails.  A
workload consults the plan at points that may depend on all it was told before, so it is a
program whose operations are the points and whose answers are the plan's.

A countdown fires at the eligible consultation with its number and at no other one.  Until a
plan fires, a workload runs as it does under a plan that is off.
-/

namespace Grommet.Testkit

variable {P α : Type}

inductive Mode (P : Type) where
  | off
  /-- Fail exactly these points, in this order, one occurrence each. -/
  | ordered (points : List P)
  /-- Fail the eligible operation that comes after this number of others. -/
  | countdown (remaining : ℤ)
  | bytes (input : List UInt8) (position : ℕ)

structure FaultPlan (P : Type) where
  mode : Mode P
  /-- The points to which injection is restricted. -/
  enabled : Option (List P)
  /-- The points that failed, in order. -/
  fired : List P
  /-- The eligible points that were consulted. -/
  checks : ℕ

namespace FaultPlan

def withMode (mode : Mode P) : FaultPlan P := ⟨mode, none, [], 0⟩

def off : FaultPlan P := withMode .off

def ordered (points : List P) : FaultPlan P := withMode (.ordered points)

def countdown (n : ℤ) : FaultPlan P := withMode (.countdown n)

def fromFuzzBytes (input : List UInt8) : FaultPlan P := withMode (.bytes input 0)

def only (plan : FaultPlan P) (points : List P) : FaultPlan P :=
  { plan with enabled := some points }

def isExhausted (plan : FaultPlan P) : Bool :=
  match plan.mode with
  | .off => true
  | .ordered points => points.isEmpty
  | .countdown _ => !plan.fired.isEmpty
  | .bytes input position => input.length ≤ position

def didFire (plan : FaultPlan P) : Bool := !plan.fired.isEmpty

end FaultPlan

variable [DecidableEq P]

/-- A point that a plan with this restriction may fail. -/
def eligible (enabled : Option (List P)) (point : P) : Bool :=
  match enabled with
  | some enabled => point ∈ enabled
  | none => true

/-- Whether a mode fails an eligible call of a point, and what is left of it. -/
def Mode.fire (point : P) : Mode P → Bool × Mode P
  | .off => (false, .off)
  | .ordered points =>
      if points.head? = some point then (true, .ordered points.tail) else (false, .ordered points)
  | .countdown remaining =>
      if remaining = 0 then (true, .countdown (-1))
      else if 0 < remaining then (false, .countdown (remaining - 1))
      else (false, .countdown remaining)
  | .bytes input position =>
      ((input[position]?).any (fun value => value.toNat % 8 == 0), .bytes input (position + 1))

namespace FaultPlan

/-- Ask whether this call should fail. -/
def fires (point : P) (plan : FaultPlan P) : Bool × FaultPlan P :=
  if eligible plan.enabled point then
    let (fire, mode) := plan.mode.fire point
    (fire, { plan with
      mode := mode
      fired := if fire then plan.fired ++ [point] else plan.fired
      checks := plan.checks + 1 })
  else
    (false, plan)

end FaultPlan

/-- A workload consults its plan and is told whether the call fails. -/
abbrev Workload (P α : Type) := Program (fun _ : P => Bool) α

namespace Workload

/-- Run a workload under a plan. -/
def under (w : Workload P α) (plan : FaultPlan P) : α × FaultPlan P :=
  w.serve FaultPlan.fires plan

/-- What a workload does when nothing fails. -/
def healthy : Workload P α → α
  | .ret a => a
  | .act _ next => healthy (next false)

/-- The eligible points that a workload consults when nothing fails, in order. -/
def consulted (enabled : Option (List P)) : Workload P α → List P
  | .ret _ => []
  | .act point next =>
      if eligible enabled point then point :: consulted enabled (next false)
      else consulted enabled (next false)

end Workload

namespace FaultPlan

variable {plan : FaultPlan P} {point : P} {w : Workload P α}

/-- A point that is not eligible is not counted. -/
theorem fires_of_not_eligible (h : eligible plan.enabled point = false) :
  plan.fires point = (false, plan)
  := by
  rw [fires, h]
  rfl

/-- A call of an eligible point. -/
theorem fires_of_eligible (h : eligible plan.enabled point = true) :
  plan.fires point = ((plan.mode.fire point).1, { plan with
    mode := (plan.mode.fire point).2
    fired := if (plan.mode.fire point).1 then plan.fired ++ [point] else plan.fired
    checks := plan.checks + 1 })
  := if_pos h

/-- What a call records. -/
theorem fired_fires :
  (plan.fires point).2.fired = if (plan.fires point).1 then plan.fired ++ [point] else plan.fired
  := by
  cases h : eligible plan.enabled point with
  | false =>
    rw [fires_of_not_eligible h]
    rfl
  | true => rw [fires_of_eligible h]

end FaultPlan

namespace Workload

open FaultPlan

variable {plan plan' : FaultPlan P} {point : P} {w : Workload P α}

@[simp]
theorem under_ret (a : α) :
  under (.ret a : Workload P α) plan = (a, plan)
  := rfl

@[simp]
theorem under_act (next : Bool → Workload P α) :
  under (.act point next) plan = under (next (plan.fires point).1) (plan.fires point).2
  := rfl

@[simp]
theorem under_bind {β : Type} {f : α → Workload P β} :
  under (w >>= f) plan = under (f (w.under plan).1) (w.under plan).2
  := Program.serve_bind

omit [DecidableEq P] in
@[simp]
theorem healthy_ret (a : α) :
  healthy (.ret a : Workload P α) = a
  := rfl

omit [DecidableEq P] in
@[simp]
theorem healthy_bind {β : Type} {f : α → Workload P β} :
  healthy (w >>= f) = healthy (f w.healthy)
  := by
  induction w with
  | ret a => rfl
  | act point next ih => exact ih false

/-- The points that a sequence consults. -/
theorem consulted_bind {β : Type} {f : α → Workload P β} (enabled : Option (List P)) :
  consulted enabled (w >>= f) = consulted enabled w ++ consulted enabled (f w.healthy)
  := by
  induction w with
  | ret a => rfl
  | act point next ih =>
    rw [Program.act_bind, consulted, consulted, ih]
    split <;> rfl

omit [DecidableEq P] in
/-- What a workload yields, it yields when nothing fails. -/
theorem healthy_of_yields {C : α → Prop} (h : Program.Yields C w) :
  C w.healthy
  := by
  induction w with
  | ret a => exact h
  | act point next ih => exact ih false (h false)

/-- What every consultation keeps of a plan. -/
theorem under_induction {I : FaultPlan P → Prop} (hplan : I plan)
    (hfires : ∀ point plan, I plan → I (plan.fires point).2) :
  I (w.under plan).2
  := Program.serve_induction hplan hfires

/-- The points that fired are recorded after those that fired before. -/
theorem fired_under (w : Workload P α) (plan : FaultPlan P) :
  ∃ l, (w.under plan).2.fired = plan.fired ++ l
  := by
  refine under_induction (I := fun p : FaultPlan P => ∃ l, p.fired = plan.fired ++ l) ?_ ?_
  · exact ⟨[], (List.append_nil _).symm⟩
  · rintro point p ⟨l, hl⟩
    rw [fired_fires, hl]
    split
    · exact ⟨l ++ [point], List.append_assoc ..⟩
    · exact ⟨l, rfl⟩

/-- A workload under a plan that does not fire during it runs as if nothing failed. -/
theorem under_of_quiet (h : (w.under plan).2.fired.length = plan.fired.length) :
  (w.under plan).1 = w.healthy
  := by
  induction w generalizing plan with
  | ret a => rfl
  | act point next ih =>
    rw [under_act] at h ⊢
    obtain ⟨l, hl⟩ := fired_under (next (plan.fires point).1) (plan.fires point).2
    rw [hl, fired_fires, List.length_append] at h
    cases hfire : (plan.fires point).1 with
    | true =>
      rw [hfire] at h
      simp only [if_true, List.length_append, List.length_singleton] at h
      omega
    | false =>
      rw [hfire] at h hl
      apply ih
      rw [hl, fired_fires, hfire, List.length_append]
      exact h

/-! ### The number of failures -/

/-- Whatever the plan fails, the workload returns a value with the property, told how many of
its calls failed. -/
def Costs (C : ℕ → α → Prop) : ℕ → Workload P α → Prop
  | n, .ret a => C n a
  | n, .act _ next => Costs C (n + 1) (next true) ∧ Costs C n (next false)

section Costs

variable {β : Type} {C : ℕ → α → Prop} {E : ℕ → β → Prop} {n : ℕ} {f : α → Workload P β}

omit [DecidableEq P] in
/-- The rule for sequences. -/
theorem Costs.bind (hw : Costs C n w) (hf : ∀ n a, C n a → Costs E n (f a)) :
  Costs E n (w >>= f)
  := by
  induction w generalizing n with
  | ret a => exact hf n a hw
  | act point next ih => exact ⟨ih true hw.1, ih false hw.2⟩

/-- The failures of a workload are the points that fired during it. -/
theorem Costs.under (hw : Costs C n w) (plan : FaultPlan P) :
  ∃ k, (w.under plan).2.fired.length = plan.fired.length + k ∧ C (n + k) (w.under plan).1
  := by
  induction w generalizing n plan with
  | ret a => exact ⟨0, rfl, hw⟩
  | act point next ih =>
    rw [under_act, ← Nat.add_zero plan.fired.length]
    cases hfire : (plan.fires point).1 with
    | true =>
      obtain ⟨k, hk, hc⟩ := ih true hw.1 (plan.fires point).2
      refine ⟨k + 1, ?_, ?_⟩
      · rw [hk, fired_fires, hfire, if_pos rfl, List.length_append, List.length_singleton]
        omega
      · rw [Nat.add_comm k, ← Nat.add_assoc]
        exact hc
    | false =>
      obtain ⟨k, hk, hc⟩ := ih false hw.2 (plan.fires point).2
      refine ⟨k, ?_, hc⟩
      rw [hk, fired_fires, hfire]
      rfl

end Costs

/-! ### Plans that count down -/

/-- A countdown that fired does not fire again. -/
theorem under_of_spent {n : ℤ} (hn : n < 0) (hmode : plan.mode = .countdown n) :
  (w.under plan).2.fired = plan.fired ∧ (w.under plan).1 = w.healthy
  := by
  have hfired : (w.under plan).2.mode = .countdown n ∧ (w.under plan).2.fired = plan.fired := by
    refine under_induction (I := fun p : FaultPlan P =>
      p.mode = .countdown n ∧ p.fired = plan.fired) ?_ ?_
    · exact ⟨hmode, rfl⟩
    · rintro point p ⟨hp, hf⟩
      cases h : eligible p.enabled point with
      | false =>
        rw [fires_of_not_eligible h]
        exact ⟨hp, hf⟩
      | true =>
        rw [fires_of_eligible h, hp, Mode.fire, if_neg (by omega), if_neg (by omega)]
        exact ⟨rfl, hf⟩
  exact ⟨hfired.2, under_of_quiet (by rw [hfired.2])⟩

/-- A countdown fails the eligible operation with its number, and no other. -/
theorem fired_under_countdown {n : ℕ} (hmode : plan.mode = .countdown n) :
  (w.under plan).2.fired = plan.fired ++ ((w.consulted plan.enabled)[n]?).toList
  := by
  induction w generalizing plan n with
  | ret a => simp [consulted]
  | act point next ih =>
    rw [under_act, consulted]
    cases h : eligible plan.enabled point with
    | false =>
      rw [fires_of_not_eligible h, if_neg (by simp)]
      exact ih false hmode
    | true =>
      rw [fires_of_eligible h, hmode, if_pos rfl]
      cases n with
      | zero =>
        rw [Mode.fire, if_pos (by simp)]
        rw [(under_of_spent (n := -1) (by omega) rfl).1]
        rfl
      | succ n =>
        rw [Mode.fire, if_neg (by omega), if_pos (by omega)]
        have hn : (((n + 1 : ℕ) : ℤ) - 1) = (n : ℤ) := by omega
        rw [hn, ih false rfl]
        rfl

/-- A countdown fails at most one operation. -/
theorem fired_under_countdown_le (w : Workload P α) (n : ℤ) :
  (w.under (countdown n)).2.fired.length ≤ 1
  := by
  rcases lt_or_ge n 0 with hneg | hpos
  · rw [(@under_of_spent P α _ (countdown n) w n hneg rfl).1]
    exact Nat.zero_le 1
  · obtain ⟨m, rfl⟩ := Int.eq_ofNat_of_zero_le hpos
    rw [@fired_under_countdown P α _ (countdown m) w m rfl]
    exact Option.length_toList_le

/-- A countdown fires when the workload consults enough points. -/
theorem didFire_under_countdown {n : ℕ} (w : Workload P α) :
  (w.under (countdown n)).2.didFire = decide (n < (w.consulted none).length)
  := by
  rw [didFire, fired_under_countdown rfl]
  by_cases hn : n < (w.consulted none).length
  · have hget : (w.consulted (countdown (P := P) n).enabled)[n]? = some (w.consulted none)[n] :=
      List.getElem?_eq_getElem hn
    rw [hget, decide_eq_true hn]
    rfl
  · have hget : (w.consulted (countdown (P := P) n).enabled)[n]? = none :=
      List.getElem?_eq_none (Nat.le_of_not_lt hn)
    rw [hget, decide_eq_false hn]
    rfl

end Workload

end Grommet.Testkit
