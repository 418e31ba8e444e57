import Grommet.Runtime.Semaphore.Counting
import Mathlib.Data.List.Perm.Subperm

/-!
# The compute pool

A call of `run` acquires a permit, hands its task to the pool and waits for the output.  The
permit belongs to the call and the task to the pool.  A call that comes to its end does so
after its task; a call that is dropped while it waits gives its permit back at once, and its
task stays in the pool.  So the permits bound the tasks in the pool in the runs in which no
call is dropped before its task is finished.
-/

open Checked

namespace Grommet.Offload

/-- What became of the task of a call. -/
inductive Task where
  /-- Not handed over yet. -/
  | kept
  | queued
  | running
  /-- The task has returned; the output is still to be sent. -/
  | returned
  | sent
  /-- The task has panicked; the responder is still to be dropped. -/
  | unwinding
  | lost
  deriving DecidableEq

/-- The pool and the calls of `run`. -/
structure System (ι : Type) where
  permits : Semaphore.System ι
  task : ι → Task
  /-- The tasks that were handed over and are not finished, in the order of the hand-over. -/
  pool : List ι

inductive Event (ι : Type) where
  /-- A step of the call's `acquire`, or of the end of its permit. -/
  | acquire (i : ι) (d : Semaphore.Deed)
  | spawn (i : ι)
  /-- A worker takes up the task. -/
  | begin (i : ι)
  | finish (i : ι)
  | send (i : ι)
  | panic (i : ι)
  | unwind (i : ι)
  /-- The call returns the output, or `WorkerLost`. -/
  | complete (i : ι)
  /-- The call is dropped while it waits for the output. -/
  | drop (i : ι)
  deriving DecidableEq

variable {ι : Type} [DecidableEq ι]

/-- The permits of a pool, whose product wraps where a build does not check it. -/
def assemble (workers queueDepth : ℕ) : Checked (System ι) := do
  assert (0 < queueDepth) "a compute pool needs a queue depth"
  .ok ⟨.start (workers * queueDepth % 2 ^ 64), fun _ => .kept, []⟩

/-- The steps that a call makes on the permits by itself. -/
def Acquires : Semaphore.Deed → Bool
  | .poll _ => true
  | .take => true
  | .check => true
  | .park => true
  | .refresh => true
  | .finish => true
  | .drop => true
  | .pass => true
  | .look => true
  | .hand => true
  | _ => false

namespace System

def setTask (s : System ι) (i : ι) (task : Task) : System ι :=
  { s with task := Function.update s.task i task }

/-- The task of a call is finished. -/
def leave (s : System ι) (i : ι) : System ι := { s with pool := s.pool.erase i }

end System

inductive Step (s : System ι) : Event ι → System ι → Prop
  | acquire {i : ι} {d : Semaphore.Deed} {p : Semaphore.System ι} : Acquires d = true →
      Semaphore.Step s.permits (i, d) p → Step s (.acquire i d) { s with permits := p }
  | spawn {i : ι} : s.permits.place i = .holding → s.task i = .kept →
      Step s (.spawn i) ({ s with pool := s.pool ++ [i] }.setTask i .queued)
  | begin {i : ι} : s.task i = .queued → Step s (.begin i) (s.setTask i .running)
  | finish {i : ι} : s.task i = .running →
      Step s (.finish i) ((s.leave i).setTask i .returned)
  | send {i : ι} : s.task i = .returned → Step s (.send i) (s.setTask i .sent)
  | panic {i : ι} : s.task i = .running →
      Step s (.panic i) ((s.leave i).setTask i .unwinding)
  | unwind {i : ι} : s.task i = .unwinding → Step s (.unwind i) (s.setTask i .lost)
  | complete {i : ι} {p : Semaphore.System ι} : s.task i = .sent ∨ s.task i = .lost →
      Semaphore.Step s.permits (i, .release) p → Step s (.complete i) { s with permits := p }
  | drop {i : ι} {p : Semaphore.System ι} : s.task i ≠ .kept →
      Semaphore.Step s.permits (i, .release) p → Step s (.drop i) { s with permits := p }

/-- A call that is dropped while it waits has its task finished. -/
def Meets (s : System ι) : Event ι → Prop
  | .drop i => i ∉ s.pool
  | _ => True

variable {s s' : System ι} {e : Event ι} {i j : ι} {n : ℕ}

/-- The task of each call in the pool is not finished and the call has its permit. -/
structure Backed (n : ℕ) (s : System ι) : Prop where
  counts : Semaphore.Counts n s.permits
  nodup : s.pool.Nodup
  unfinished : ∀ i ∈ s.pool, s.task i = .queued ∨ s.task i = .running
  holding : ∀ i ∈ s.pool, s.permits.place i = .holding

/-- Only the end of its permit moves a call that holds one. -/
theorem holding_of_acquires {d : Semaphore.Deed} {p : Semaphore.System ι} (hd : Acquires d = true)
    (hstep : Semaphore.Step s.permits (i, d) p) (hj : s.permits.place j = .holding) :
  p.place j = .holding
  := by
  by_cases hji : j = i
  · subst hji
    cases hstep with
    | release hplace => cases hd
    | tryAcquire hplace | begin hplace | resume hplace | take hplace | takeAgain hplace
    | check hplace | checkAgain hplace | park hplace | parkClosed hplace | parkPanics hplace
    | refresh hplace | finish hplace | dropIdle hplace | drop hplace | pass hplace | look hplace
    | hand hplace | flag hplace | shut hplace | wake hplace => cases hj.symm.trans hplace
  · rw [hstep.place_of_ne hji, hj]

theorem Backed.setTask {task : Task} (h : Backed n s) (hi : i ∉ s.pool) :
  Backed n (s.setTask i task)
  := by
  refine ⟨h.counts, h.nodup, fun j hj => ?_, h.holding⟩
  have hne : j ≠ i := by
    rintro rfl
    exact hi hj
  show Function.update s.task i task j = _ ∨ Function.update s.task i task j = _
  rw [Function.update_of_ne hne]
  exact h.unfinished j hj

theorem Backed.leave (h : Backed n s) (i : ι) :
  Backed n (s.leave i) ∧ i ∉ (s.leave i).pool
  := by
  refine ⟨⟨h.counts, h.nodup.erase i, fun j hj => ?_, fun j hj => ?_⟩, h.nodup.not_mem_erase⟩
  · exact h.unfinished j (List.mem_of_mem_erase hj)
  · exact h.holding j (List.mem_of_mem_erase hj)

/-- A call gives its permit back when its task is not in the pool. -/
theorem Backed.release {p : Semaphore.System ι} (h : Backed n s) (hi : i ∉ s.pool)
    (hstep : Semaphore.Step s.permits (i, .release) p) :
  Backed n { s with permits := p }
  := by
  refine ⟨h.counts.step hstep, h.nodup, h.unfinished, fun j hj => ?_⟩
  show p.place j = _
  rw [hstep.place_of_ne]
  · exact h.holding j hj
  · rintro rfl
    exact hi hj

omit [DecidableEq ι] in
theorem Backed.not_mem (h : Backed n s) (hqueued : s.task i ≠ .queued)
    (hrunning : s.task i ≠ .running) :
  i ∉ s.pool
  := fun hi => (h.unfinished i hi).elim hqueued hrunning

theorem Backed.step (h : Backed n s) (hmeets : Meets s e) (hstep : Step s e s') :
  Backed n s'
  := by
  cases hstep with
  | acquire hd hstep =>
    refine ⟨h.counts.step hstep, h.nodup, h.unfinished, fun j hj => ?_⟩
    exact holding_of_acquires hd hstep (h.holding j hj)
  | @spawn i hplace hkept =>
    have hout : i ∉ s.pool := h.not_mem (by rw [hkept]; decide) (by rw [hkept]; decide)
    refine ⟨h.counts, ?_, fun j hj => ?_, fun j hj => ?_⟩
    · exact List.nodup_append_comm.mp (List.nodup_cons.mpr ⟨hout, h.nodup⟩)
    · show Function.update s.task i .queued j = _ ∨ Function.update s.task i .queued j = _
      by_cases hji : j = i
      · subst hji
        exact Or.inl (Function.update_self ..)
      · rw [Function.update_of_ne hji]
        rcases List.mem_append.mp hj with hj | hj
        · exact h.unfinished j hj
        · exact absurd (List.mem_singleton.mp hj) hji
    · rcases List.mem_append.mp hj with hj | hj
      · exact h.holding j hj
      · rw [List.mem_singleton.mp hj]
        exact hplace
  | @begin i hqueued =>
    refine ⟨h.counts, h.nodup, fun j hj => ?_, h.holding⟩
    show Function.update s.task i .running j = _ ∨ Function.update s.task i .running j = _
    by_cases hji : j = i
    · subst hji
      exact Or.inr (Function.update_self ..)
    · rw [Function.update_of_ne hji]
      exact h.unfinished j hj
  | @finish i hrunning =>
    obtain ⟨hleave, hout⟩ := h.leave i
    exact hleave.setTask hout
  | @send i hreturned =>
    exact h.setTask (h.not_mem (by rw [hreturned]; decide) (by rw [hreturned]; decide))
  | @panic i hrunning =>
    obtain ⟨hleave, hout⟩ := h.leave i
    exact hleave.setTask hout
  | @unwind i hunwinding =>
    exact h.setTask (h.not_mem (by rw [hunwinding]; decide) (by rw [hunwinding]; decide))
  | @complete i p hdone hrelease =>
    refine h.release (h.not_mem ?_ ?_) hrelease
    · rcases hdone with hdone | hdone <;> rw [hdone] <;> decide
    · rcases hdone with hdone | hdone <;> rw [hdone] <;> decide
  | drop hspawned hrelease => exact h.release hmeets hrelease

omit [DecidableEq ι] in
/-- There are no more tasks in the pool than permits. -/
theorem Backed.length_le (h : Backed n s) :
  s.pool.length ≤ n
  := by
  obtain ⟨holders, -, hmem, hcount⟩ := h.counts
  have hsubset : s.pool ⊆ holders := by
    intro i hi
    rw [hmem, h.holding i hi]
    rfl
  have hle := (List.subperm_of_subset h.nodup hsubset).length_le
  omega

/-- In every run in which no call is dropped before its task is finished, the tasks in the
pool stay within `workers * queueDepth`. -/
theorem pool_is_bounded {workers queueDepth : ℕ} {start : System ι} {trace : List (Event ι)}
    (hassemble : assemble workers queueDepth = .ok start)
    (h : Trail (fun s e s' => Step s e s' ∧ Meets s e) start trace s) :
  s.pool.length ≤ workers * queueDepth
  := by
  obtain ⟨-, -, hstart⟩ := bind_eq_ok.mp hassemble
  cases hstart
  have hbacked : Backed (workers * queueDepth % 2 ^ 64) s := by
    induction h with
    | nil =>
      refine ⟨Semaphore.counts_start _, List.nodup_nil, fun i hi => ?_, fun i hi => ?_⟩
      · cases hi
      · cases hi
    | snoc htrail hstep ih => exact ih.step hstep.2 hstep.1
  exact hbacked.length_le.trans (Nat.mod_le _ _)

/-- Two permits: the first call is dropped when its task is finished and its output was not sent,
a third one takes its permit while the task of the second is in the pool, and the second is
dropped when its task has panicked. -/
theorem pool_is_bounded_served :
  ∃ start s : System ℕ, assemble 1 2 = .ok start ∧
    Trail (fun s e s' => Step s e s' ∧ Meets s e) start [.acquire 0 (.poll 7), .acquire 0 .take,
      .spawn 0, .acquire 1 (.poll 8), .acquire 1 .take, .spawn 1, .begin 0, .finish 0, .drop 0,
      .acquire 2 (.poll 9), .acquire 2 .take, .spawn 2, .begin 1, .panic 1, .drop 1] s ∧
    s.pool = [2] ∧ s.pool.length ≤ 1 * 2
  := by
  have h₀ : Trail (fun s e s' => Step s e s' ∧ Meets s e)
      (⟨.start 2, fun _ => .kept, []⟩ : System ℕ) [] _ := .nil
  have h₁ := ((h₀.snoc ⟨.acquire (i := 0) (d := .poll 7) rfl (.begin rfl), trivial⟩).snoc
    ⟨.acquire (i := 0) (d := .take) rfl (.take rfl), trivial⟩).snoc ⟨.spawn (i := 0) rfl rfl, trivial⟩
  have h₂ := ((h₁.snoc ⟨.acquire (i := 1) (d := .poll 8) rfl (.begin rfl), trivial⟩).snoc
    ⟨.acquire (i := 1) (d := .take) rfl (.take rfl), trivial⟩).snoc ⟨.spawn (i := 1) rfl rfl, trivial⟩
  have h₃ := (h₂.snoc ⟨.begin (i := 0) rfl, trivial⟩).snoc ⟨.finish (i := 0) rfl, trivial⟩
  have h₄ := h₃.snoc ⟨.drop (i := 0) (by decide) (.release rfl), show 0 ∉ [1] by decide⟩
  have h₅ := ((h₄.snoc ⟨.acquire (i := 2) (d := .poll 9) rfl (.begin rfl), trivial⟩).snoc
    ⟨.acquire (i := 2) (d := .take) rfl (.take rfl), trivial⟩).snoc ⟨.spawn (i := 2) rfl rfl, trivial⟩
  have h₆ := (h₅.snoc ⟨.begin (i := 1) rfl, trivial⟩).snoc ⟨.panic (i := 1) rfl, trivial⟩
  have h₇ := h₆.snoc ⟨.drop (i := 1) (by decide) (.release rfl), show 1 ∉ [2] by decide⟩
  exact ⟨_, _, rfl, h₇, rfl, pool_is_bounded rfl h₇⟩

/-- One worker with one task at a time: the first call is dropped while its task is in the
pool, and the second hands over another. -/
theorem dropped_call_overfills_pool :
  ∃ start s : System ℕ, assemble 1 1 = .ok start ∧
    Trail Step start [.acquire 0 (.poll 7), .acquire 0 .take, .spawn 0, .drop 0,
      .acquire 1 (.poll 8), .acquire 1 .take, .spawn 1] s ∧
    s.pool = [0, 1] ∧ ¬ s.pool.length ≤ 1 * 1
  := by
  have htrail : Trail Step (⟨.start 1, fun _ => .kept, []⟩ : System ℕ) [.acquire 0 (.poll 7),
      .acquire 0 .take, .spawn 0, .drop 0, .acquire 1 (.poll 8), .acquire 1 .take, .spawn 1] _ :=
    .cons (.acquire rfl (.begin rfl)) (.cons (.acquire rfl (.take rfl)) (.cons (.spawn rfl rfl)
      (.cons (.drop (fun h => Task.noConfusion h) (.release rfl)) (.cons (.acquire rfl (.begin rfl))
        (.cons (.acquire rfl (.take rfl)) (.cons (.spawn rfl rfl) .nil))))))
  exact ⟨_, _, rfl, htrail, rfl, by decide⟩

end Grommet.Offload
