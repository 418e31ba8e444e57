import Grommet.Core.Scheduler.Order
import Grommet.Runtime.Shard.Model

/-!
# The desk of a shard

What a shard owes, without the loop in which it works it off: the account of its scheduler,
the futures in flight and the candidates that wait for a flush.  A desk may take any of its
steps at any time, so that what holds of every desk does not depend on batches, on budgets or
on the order of the stages of a turn.

The works of a key wait on the desk in the order in which they were admitted, and the state of
a key is in the custody of the desk, of one `process` future or of one flush.
-/

namespace Grommet

namespace Shard

variable {K I W S : Type} {CLASSES : ℕ}

namespace Job

/-- The key of a future. -/
def key : Job K I W S → K
  | .runOne _ d => d.key
  | .runFlush _ key _ => key

/-- The dispatch that a future works off. -/
def running : Job K I W S → Option (K × ClassId)
  | .runOne _ d => some (d.key, d.classId)
  | .runFlush _ _ _ => none

/-- The key that a future flushes. -/
def flushing : Job K I W S → Option K
  | .runOne _ _ => none
  | .runFlush _ key _ => some key

@[simp]
theorem key_polled (job : Job K I W S) :
  job.polled.key = job.key
  := by
  cases job <;> rfl

@[simp]
theorem running_polled (job : Job K I W S) :
  job.polled.running = job.running
  := by
  cases job <;> rfl

@[simp]
theorem flushing_polled (job : Job K I W S) :
  job.polled.flushing = job.flushing
  := by
  cases job <;> rfl

/-- The futures of a set are those that run and those that flush. -/
theorem map_key_perm (jobs : List (Job K I W S)) :
  (jobs.map key).Perm ((jobs.filterMap running).map Prod.fst ++ jobs.filterMap flushing)
  := by
  induction jobs with
  | nil => exact .nil
  | cons job jobs ih =>
    cases job with
    | runOne started d =>
      simp only [List.map_cons, List.filterMap_cons, running, flushing, key, List.cons_append]
      apply ih.cons
    | runFlush started k state =>
      simp only [List.map_cons, List.filterMap_cons, running, flushing, key]
      apply (ih.cons k).trans
      apply List.perm_middle.symm

end Job

/-- The account of a shard with its futures and its staged candidates. -/
structure Desk (K I W S : Type) (CLASSES : ℕ) where
  account : Account K (Stamped I W) S CLASSES
  jobs : List (Job K I W S)
  staged : List (K × S)
  running : account.ledger.running.Perm (jobs.filterMap Job.running)
  flushing : account.ledger.flushing.Perm
    (staged.map Prod.fst ++ jobs.filterMap Job.flushing)

namespace Desk

/-- The keys that the desk holds. -/
def held (x : Desk K I W S CLASSES) : List K :=
  x.staged.map Prod.fst ++ x.jobs.map Job.key

/-- The desk holds the keys that its scheduler handed out. -/
theorem owned_perm (x : Desk K I W S CLASSES) :
  x.account.ledger.owned.Perm x.held
  := by
  rw [Ledger.owned, held]
  apply ((x.running.map Prod.fst).append x.flushing).trans
  apply List.Perm.trans ?_ ((Job.map_key_perm x.jobs).symm.append_left _)
  rw [← List.append_assoc, ← List.append_assoc]
  apply List.perm_append_comm.append_right

/-- A key is held once. -/
theorem held_nodup (x : Desk K I W S CLASSES) :
  x.held.Nodup
  := x.owned_perm.nodup_iff.mp x.account.owned_nodup

theorem mem_held_iff {x : Desk K I W S CLASSES} {k : K} :
  k ∈ x.held ↔ k ∈ x.account.ledger.owned
  := x.owned_perm.mem_iff.symm

theorem mem_held_of_job {x : Desk K I W S CLASSES} {job : Job K I W S} (h : job ∈ x.jobs) :
  job.key ∈ x.held
  := by
  rw [held, List.mem_append]
  right
  apply List.mem_map_of_mem h

theorem mem_held_of_staged {x : Desk K I W S CLASSES} {k : K} {state : S}
    (h : (k, state) ∈ x.staged) :
  k ∈ x.held
  := by
  rw [held, List.mem_append]
  left
  apply List.mem_map_of_mem h

variable [DecidableEq K]

/-- The desk of a fresh shard. -/
def empty : Desk K I W S CLASSES where
  account := .empty
  jobs := []
  staged := []
  running := .nil
  flushing := .nil

/-- One thing that a shard does. -/
inductive Step (cfg : Config CLASSES) (x : Desk K I W S CLASSES) :
    List (Deed K I W S) → Desk K I W S CLASSES → Prop
  | accept {envelope : Envelope K I W} : Step cfg x [.accepted envelope] x
  | coalesce {envelope : Envelope K I W} :
      Step cfg x [.received envelope, .onCoalesced envelope.key envelope.work] x
  | admitItem {envelope : Envelope K I W} {tracked : Option I} {y : Desk K I W S CLASSES} :
      x.account.Step cfg (.admitItem ⟨envelope.key, envelope.classId, envelope.expiresAt,
        ⟨envelope.enqueued, tracked, envelope.work⟩⟩) y.account →
      y.jobs = x.jobs → y.staged = x.staged → Step cfg x [.received envelope] y
  | dispatch {c : ClassId} {now : Duration} {discarded : List (K × ClassId × Stamped I W)}
      {d : Dispatch K (Stamped I W) S} {y : Desk K I W S CLASSES} :
      x.account.Step cfg (.next c now discarded (some d)) y.account →
      y.jobs = x.jobs ++ [.runOne false d] → y.staged = x.staged → Step cfg x [] y
  | pass {c : ClassId} {now : Duration} {discarded : List (K × ClassId × Stamped I W)}
      {y : Desk K I W S CLASSES} :
      x.account.Step cfg (.next c now discarded none) y.account →
      y.jobs = x.jobs → y.staged = x.staged → Step cfg x [] y
  | shed {key : K} {c : ClassId} {stamped : Stamped I W} {y : Desk K I W S CLASSES} :
      x.account.Step cfg (.popExpired (some (key, c, stamped))) y.account →
      y.jobs = x.jobs → y.staged = x.staged → Step cfg x [.onExpired key stamped.work] y
  /-- Staged candidates go into flight. -/
  | flush {n : ℕ} {y : Desk K I W S CLASSES} : y.account = x.account →
      y.jobs = x.jobs ++ (x.staged.take n).map (fun p => .runFlush false p.1 p.2) →
      y.staged = x.staged.drop n → Step cfg x [] y
  | evict {e : Event K (Stamped I W) S} {y : Desk K I W S CLASSES} :
      (∃ now pushed, e = .evict now pushed ∨ e = .evictAll pushed) →
      x.account.Step cfg e y.account → y.jobs = x.jobs → y.staged = x.staged ++ e.pushed →
      Step cfg x [] y
  /-- A future is polled once everything expired was shed. -/
  | poll {before after : List (Job K I W S)} {job : Job K I W S} {y : Desk K I W S CLASSES} :
      x.account.book.expired = [] → x.jobs = before ++ job :: after → y.account = x.account →
      y.jobs = before ++ job.polled :: after → y.staged = x.staged → Step cfg x job.calls y
  /-- A future that was polled finishes its work. -/
  | ran {before after : List (Job K I W S)} {d : Dispatch K (Stamped I W) S} {outcome : Outcome S}
      {time : Duration} {y : Desk K I W S CLASSES} :
      x.jobs = before ++ .runOne true d :: after →
      x.account.Step cfg (.complete ⟨d.key, d.classId, outcome.disposition⟩ time) y.account →
      y.jobs = before ++ after → y.staged = x.staged →
      Step cfg x [.processed d.key outcome] y
  /-- A future that was polled finishes its flush. -/
  | flushed {before after : List (Job K I W S)} {key : K} {state : S} {time : Duration}
      {y : Desk K I W S CLASSES} :
      x.jobs = before ++ .runFlush true key state :: after →
      x.account.Step cfg (.finishEvict key time) y.account →
      y.jobs = before ++ after → y.staged = x.staged → Step cfg x [.evicted key] y

/-- A step of a desk is an event of its account, or leaves the account alone. -/
theorem Step.account {cfg : Config CLASSES} {x y : Desk K I W S CLASSES}
    {deeds : List (Deed K I W S)} (h : x.Step cfg deeds y) :
  y.account = x.account ∨ ∃ e, x.account.Step cfg e y.account
  := by
  cases h with
  | accept => exact Or.inl rfl
  | coalesce => exact Or.inl rfl
  | admitItem hstep _ _ => exact Or.inr ⟨_, hstep⟩
  | dispatch hstep _ _ => exact Or.inr ⟨_, hstep⟩
  | pass hstep _ _ => exact Or.inr ⟨_, hstep⟩
  | shed hstep _ _ => exact Or.inr ⟨_, hstep⟩
  | flush haccount _ _ => exact Or.inl haccount
  | evict _ hstep _ _ => exact Or.inr ⟨_, hstep⟩
  | poll _ _ haccount _ _ => exact Or.inl haccount
  | ran _ hstep _ _ => exact Or.inr ⟨_, hstep⟩
  | flushed _ hstep _ _ => exact Or.inr ⟨_, hstep⟩

/-- What every event keeps of an account holds along every trail of desks. -/
theorem account_of_trail {cfg : Config CLASSES} {x y : Desk K I W S CLASSES}
    {trace : List (List (Deed K I W S))}
    {motive : Account K (Stamped I W) S CLASSES → Prop}
    (hkept : ∀ a e a', motive a → a.Step cfg e a' → motive a')
    (h : Trail (Step cfg) x trace y) (hx : motive x.account) :
  motive y.account
  := by
  apply h.invariant fun _ (x : Desk K I W S CLASSES) => motive x.account
  · exact hx
  · intro _ z _ w _ hz hstep
    rcases hstep.account with hsame | ⟨e, hevent⟩
    · rw [hsame]
      exact hz
    · exact hkept _ e _ hz hevent

end Desk

end Shard

end Grommet
