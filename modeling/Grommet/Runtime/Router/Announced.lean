import Grommet.Library.Duties
import Grommet.Runtime.Router.Traces

/-!
# A batch never sleeps on unannounced pushes

A push raises the duty to announce to its shard, the announcement meets it, and a suspension
must not happen while such a duty is open.  While a batch runs, the shards with an open duty
are among those whose bits are set: a shard without a bit is announced to at once, and the
bits are announced before the batch waits and at its end.
-/

open Checked Program

namespace Grommet.Router

open Waiters (Ticket Closed)

variable {K I W : Type}

/-- An event pushes an item into the mailbox of a shard. -/
def pushes (e : Event K I W) (shard : ℕ) : Prop :=
  match e with
  | ⟨.trySendDeferred s _, .ok ()⟩ => s = shard
  | _ => False

/-- An event announces to a shard. -/
def tells (e : Event K I W) (shard : ℕ) : Prop :=
  match e with
  | ⟨.announce s, _⟩ => s = shard
  | _ => False

/-- The batch suspends. -/
def suspends (e : Event K I W) : Prop :=
  match e with
  | ⟨.suspend, _⟩ => True
  | _ => False

/-- The duty to announce what was pushed. -/
def announcing : Duties (Event K I W) ℕ where
  raises := pushes
  meets := tells
  bars := suspends

/-- After every push its shard is announced. -/
def Announced (t : List (Event K I W)) : Prop :=
  ∀ a e b shard, t = a ++ e :: b → pushes e shard → ∃ e' ∈ b, tells e' shard

variable {r : Router} {arrival : Option Duration} {item work : W} {shard : ℕ} {S S' : ℕ → Prop}
  {envelope : Envelope K I W} {t t' : List (Event K I W)} {d : Deferred} {e : Event K I W}

/-- An event that neither pushes nor suspends. -/
def idle : Event K I W → Bool
  | ⟨.trySendDeferred _ _, .ok ()⟩ => false
  | ⟨.suspend, _⟩ => false
  | _ => true

theorem idle_spec (h : idle e = true) :
  (∀ shard, ¬ pushes e shard) ∧ ¬ suspends e
  := by
  obtain ⟨op, answer⟩ := e
  cases op with
  | trySendDeferred s envelope =>
    cases answer with
    | error error => exact ⟨fun shard => id, id⟩
    | ok _ => exact Bool.noConfusion h
  | suspend => exact Bool.noConfusion h
  | _ => exact ⟨fun shard => id, id⟩

theorem calm_of_idle (h : t.all idle = true) :
  announcing.Calm S t S
  := by
  induction t with
  | nil => exact fun i hi => hi
  | cons e t ih =>
    rw [List.all_cons, Bool.and_eq_true] at h
    obtain ⟨hpush, hsuspend⟩ := idle_spec h.1
    exact (ih h.2).skip hpush hsuspend

/-- A push with its announcement opens no duty. -/
theorem calm_told (h : announcing.Calm S t S') :
  announcing.Calm S (⟨.trySendDeferred shard envelope, .ok ()⟩ :: ⟨.announce shard, ()⟩ :: t) S'
  := by
  refine ⟨False.elim, False.elim, h.mono ?_⟩
  rintro i (hraised | ⟨hpushed | ⟨hi, -⟩, htold⟩)
  · exact hraised.elim
  · exact (htold hpushed).elim
  · exact hi

/-- A push that is refused, before a caller that has no open duties suspends. -/
theorem calm_of_full (h : announcing.Calm (fun _ => False) t S') :
  announcing.Calm (fun _ => False)
    (⟨.trySendDeferred shard envelope, .error .full⟩ :: ⟨.suspend, ()⟩ :: t) S'
  := (h.clear fun _ => id).skip (fun _ => id) id

/-- Announcements meet the duties of their shards. -/
theorem Deferred.Announces.calm {p : ℕ → Prop} (h : Announces p t) (hS : ∀ i, S i → p i) :
  announcing.Calm S t fun _ => False
  := by
  have hleft : announcing.Calm S t fun i => S i ∧ ∀ e ∈ t, ¬ tells e i := by
    obtain ⟨honly, -⟩ := h
    clear hS
    induction t generalizing S with
    | nil => exact fun i hi => ⟨hi, fun e he => (List.not_mem_nil he).elim⟩
    | cons e t ih =>
      obtain ⟨shard, -, rfl⟩ := honly e List.mem_cons_self
      refine ⟨False.elim, ?_⟩
      apply (ih fun e he => honly e (List.mem_cons_of_mem _ he)).weaken
      rintro i ⟨hraised | ⟨hi, htold⟩, hnot⟩
      · exact hraised.elim
      · refine ⟨hi, fun e he => ?_⟩
        rcases List.mem_cons.mp he with rfl | he
        · exact htold
        · exact hnot e he
  apply hleft.weaken
  rintro i ⟨hi, hnot⟩
  exact hnot _ (h.all i (hS i hi)) rfl

/-! ### One item -/

theorem Reading.calm {s : Except (SubmitError W) (Envelope K I W)}
    (h : Reading r work arrival t s) :
  announcing.Calm S t S
  := by
  cases h <;> exact calm_of_idle rfl

theorem Waiting.calm {ticket : Ticket} {x : Option (Except Closed Unit)}
    (h : Waiting shard envelope ticket t x) :
  announcing.Calm (fun _ => False) t fun _ => False
  := by
  induction h with
  | sent => exact calm_told (calm_of_idle rfl)
  | closed => exact calm_of_idle rfl
  | dropped => exact calm_of_full (calm_of_idle rfl)
  | again _ ih => exact calm_of_full (ih.skip (fun _ => id) id)

theorem Sending.calm {x : Option (Except Closed Unit)} (h : Sending shard envelope t x) :
  announcing.Calm (fun _ => False) t fun _ => False
  := by
  cases h with
  | sent => exact calm_told (calm_of_idle rfl)
  | closed => exact calm_of_idle rfl
  | gone => exact calm_of_idle rfl
  | waiting hwait =>
    exact ((hwait.calm.skip (fun _ => id) id).skip (fun _ => id) id).skip (fun _ => id) id

/-- The events end with a suspension. -/
def Asleep (t : List (Event K I W)) : Prop := ∃ a e, t = a ++ [e] ∧ suspends e

theorem Asleep.append (h : Asleep t') : Asleep (t ++ t')
  := by
  obtain ⟨a, e, rfl, he⟩ := h
  exact ⟨t ++ a, e, (List.append_assoc _ _ _).symm, he⟩

theorem Waiting.asleep {ticket : Ticket} (h : Waiting shard envelope ticket t none) :
  Asleep t
  := by
  generalize hx : none = x at h
  induction h with
  | sent => cases hx
  | closed => cases hx
  | dropped => exact ⟨[_], _, rfl, trivial⟩
  | again _ ih => exact (ih hx).append (t := [_, _, _])

theorem Sending.asleep (h : Sending shard envelope t none) :
  Asleep t
  := by
  cases h with
  | waiting hwait => exact hwait.asleep.append (t := [_, _, _])

variable [ShardKey K]

theorem Submitting.asleep (h : Submitting r work arrival t none) :
  Asleep t
  := by
  generalize hx : none = x at h
  cases h with
  | refused => cases hx
  | sent _ _ hsend =>
    rw [eq_comm, Option.map_eq_none_iff] at hx
    subst hx
    exact hsend.asleep.append

theorem Submitting.calm {x : Option (Verdict W)} (h : Submitting r work arrival t x) :
  announcing.Calm (fun _ => False) t fun _ => False
  := by
  cases h with
  | refused hread => exact hread.calm
  | sent hread _ hsend => exact hread.calm.append hsend.calm

/-- What may be open when an item has passed. -/
def left {α : Type} (x : Option (α × Deferred)) (shard : ℕ) : Prop :=
  ∃ y ∈ x, y.2.holds shard = true

theorem Deferring.calm {y : Verdict W × Deferred} (h : Deferring r envelope d t y) :
  announcing.Calm (fun shard => d.holds shard = true) t fun shard => y.2.holds shard = true
  := by
  cases h with
  | @pushed shard _ _ hshard =>
    refine ⟨False.elim, ?_⟩
    intro i hi
    rw [Deferred.holds_defer hshard, Bool.or_eq_true, decide_eq_true_eq]
    rcases hi with hpushed | ⟨hi, -⟩
    · exact Or.inr hpushed.symm
    · exact Or.inl hi
  | announced => exact calm_told (calm_of_idle rfl)
  | closed => exact calm_of_idle rfl

theorem Passing.calm
    {full : W → Deferred → List (Event K I W) → Option (Verdict W × Deferred) → Prop}
    {x : Option (Verdict W × Deferred)} (h : Passing r arrival full item d t x)
    (hfull : ∀ t, full item d t x →
      announcing.Calm (fun shard => d.holds shard = true) t (left x)) :
  announcing.Calm (fun shard => d.holds shard = true) t (left x)
  := by
  cases h with
  | refused hread =>
    apply hread.calm.weaken
    exact fun shard hshard => ⟨_, rfl, hshard⟩
  | settled hread hdeferring =>
    apply hread.calm.append
    apply hdeferring.calm.weaken
    exact fun shard hshard => ⟨_, rfl, hshard⟩
  | full hread _ h =>
    apply hread.calm.append
    exact (hfull _ h).skip (fun _ => id) id

omit [ShardKey K] in
theorem Shedding.calm {x : Option (Verdict W × Deferred)}
    (h : Shedding (K := K) (I := I) item d t x) :
  announcing.Calm (fun shard => d.holds shard = true) t (left x)
  := by
  cases h
  exact fun shard hshard => ⟨_, rfl, hshard⟩

theorem Yielding.calm {x : Option (Verdict W × Deferred)} (h : Yielding r arrival item d t x) :
  announcing.Calm (fun shard => d.holds shard = true) t (left x)
  := by
  cases h with
  | yielded hannounced _ hsubmit =>
    apply ((hannounced.calm fun shard => id).append hsubmit.calm).weaken
    exact fun shard => False.elim

omit [ShardKey K] in
theorem Shedding.asleep (h : Shedding (K := K) (I := I) item d t none) :
  Asleep t
  := by
  cases h

theorem Yielding.asleep (h : Yielding r arrival item d t none) :
  Asleep t
  := by
  generalize hx : none = x at h
  cases h with
  | yielded _ _ hsubmit =>
    rw [eq_comm, Option.map_eq_none_iff] at hx
    subst hx
    exact hsubmit.asleep.append

theorem Passing.asleep
    {full : W → Deferred → List (Event K I W) → Option (Verdict W × Deferred) → Prop}
    (h : Passing r arrival full item d t none) (hfull : ∀ t, full item d t none → Asleep t) :
  Asleep t
  := by
  cases h with
  | full _ _ h => exact ((hfull _ h).append (t := [_])).append

/-! ### A batch -/

omit [ShardKey K] in
theorem Course.calm
    {step : W → Deferred → List (Event K I W) → Option (Verdict W × Deferred) → Prop}
    {items : List W} {ts : List (List (Event K I W))} {x : Option (List (Verdict W) × Deferred)}
    (h : Course step items d ts x)
    (hstep : ∀ item d t x, step item d t x →
      announcing.Calm (fun shard => d.holds shard = true) t (left x)) :
  announcing.Calm (fun shard => d.holds shard = true) ts.flatten (left x)
  := by
  induction h with
  | done => exact fun shard hshard => ⟨_, rfl, hshard⟩
  | stopped h =>
    rw [List.flatten_singleton]
    apply (hstep _ _ _ _ h).weaken
    rintro shard ⟨y, ⟨⟩, -⟩
  | @next item items d d' t ts verdict x h _ ih =>
    rw [List.flatten_cons]
    apply (hstep _ _ _ _ h).append
    apply (ih.mono _).weaken
    · rintro shard ⟨y, hy, hshard⟩
      exact ⟨_, Option.mem_map_of_mem _ hy, hshard⟩
    · rintro shard ⟨y, ⟨⟩, hshard⟩
      exact hshard

omit [ShardKey K] in
theorem Course.asleep
    {step : W → Deferred → List (Event K I W) → Option (Verdict W × Deferred) → Prop}
    {items : List W} {ts : List (List (Event K I W))} (h : Course step items d ts none)
    (hstep : ∀ item d t, step item d t none → Asleep t) :
  Asleep ts.flatten
  := by
  generalize hx : none = x at h
  induction h with
  | done => cases hx
  | stopped h =>
    rw [List.flatten_singleton]
    exact hstep _ _ _ h
  | next _ _ ih =>
    rw [eq_comm, Option.map_eq_none_iff] at hx
    rw [List.flatten_cons]
    exact (ih hx.symm).append

omit [ShardKey K] in
theorem Arriving.calm (h : Arriving r t arrival) :
  announcing.Calm S t S
  := by
  cases h <;> exact calm_of_idle rfl

omit [ShardKey K] in
theorem Batching.calm
    {step : Option Duration → W → Deferred → List (Event K I W) →
      Option (Verdict W × Deferred) → Prop}
    {items : List W} {x : Option (Except (BatchError W) Unit)} (h : Batching r step items t x)
    (hstep : ∀ arrival item d t x, step arrival item d t x →
      announcing.Calm (fun shard => d.holds shard = true) t (left x)) :
  announcing.Calm (fun _ => False) t fun _ => False
  := by
  have hstart (shard : ℕ) (h : False) : (default : Deferred).holds shard = true := h.elim
  cases h with
  | stopped harrival hcourse =>
    apply (harrival.calm.append ((hcourse.calm (hstep _)).mono hstart)).weaken
    rintro shard ⟨y, ⟨⟩, -⟩
  | returned harrival hcourse hannounced =>
    apply harrival.calm.append
    apply ((hcourse.calm (hstep _)).mono hstart).append
    apply hannounced.calm
    rintro shard ⟨y, ⟨⟩, hshard⟩
    exact hshard

omit [ShardKey K] in
/-- What a batch promises: no open duty where it suspends, where it is dropped and where it
returns, and it is dropped nowhere but where it suspends. -/
theorem Batching.announced
    {step : Option Duration → W → Deferred → List (Event K I W) →
      Option (Verdict W × Deferred) → Prop}
    {items : List W} {x : Option (Except (BatchError W) Unit)} (h : Batching r step items t x)
    (hcalm : ∀ arrival item d t x, step arrival item d t x →
      announcing.Calm (fun shard => d.holds shard = true) t (left x))
    (hasleep : ∀ arrival item d t, step arrival item d t none → Asleep t) :
  (∀ a e b, t = a ++ e :: b → suspends e → Announced a) ∧ Announced t ∧ (x = none → Asleep t)
  := by
  have hannounced {t : List (Event K I W)} (h : announcing.Calm (fun _ => False) t fun _ => False) :
      Announced t := by
    rintro a e b shard rfl hpush
    exact h.raised hpush id
  refine ⟨?_, hannounced (h.calm hcalm), ?_⟩
  · rintro a e b rfl he
    exact hannounced ((h.calm hcalm).before he)
  · rintro rfl
    cases h with
    | stopped _ hcourse => exact (hcourse.asleep (hasleep _)).append

/-- Whenever a batch suspends, is dropped or returns, every shard that it pushed to was announced
after the last push. -/
theorem batch_never_sleeps_unannounced (r : Router) (items : List W) {t : List (Event K I W)}
    {x : Option (Except (BatchError W) Unit)}
    (h : Run Op.halts (r.submitBatch items) t x ∨ Run Op.halts (r.trySubmitBatch items) t x) :
  (∀ a e b, t = a ++ e :: b → suspends e → Announced a) ∧ Announced t ∧ (x = none → Asleep t)
  := by
  rcases h with h | h
  · apply (submitBatch_run h).announced
    · intro arrival item d t x hstep
      exact hstep.calm fun t h => h.calm
    · intro arrival item d t hstep
      exact hstep.asleep fun t h => h.asleep
  · apply (trySubmitBatch_run h).announced
    · intro arrival item d t x hstep
      exact hstep.calm fun t h => h.calm
    · intro arrival item d t hstep
      exact hstep.asleep fun t h => h.asleep

/-- A batch that suspends for one shard after it has pushed to another one. -/
theorem batch_never_sleeps_unannounced_pushed :
  ∃ before between after : List (Event (BitVec 64) ℕ ℕ),
    Run Op.halts (double.submitBatch [7, 8])
      (before ++ ⟨.trySendDeferred 0 first, .ok ()⟩ :: (between ++ ⟨.suspend, ()⟩ :: after))
      (some (.error ⟨1, [.shardDown 8]⟩)) ∧
    ∃ e ∈ between, tells e 0
  := by
  obtain ⟨t, -, hrun⟩ := waited_run
  have hsplit : waited t = (⟨.now, (0 : ℕ)⟩ :: readings first) ++
      ⟨.trySendDeferred 0 first, .ok ()⟩ ::
        ((readings other ++ ⟨.trySendDeferred 1 other, .error .full⟩ :: (t ++ (readings other ++
          awaited.take 4))) ++ ⟨.suspend, ()⟩ :: awaited.drop 5) := by
    simp [waited, awaited]
  rw [hsplit] at hrun
  refine ⟨_, _, _, hrun, ?_⟩
  obtain ⟨hannounced, -⟩ := batch_never_sleeps_unannounced double [7, 8] (Or.inl hrun)
  rw [← List.cons_append, ← List.append_assoc] at hannounced
  exact hannounced _ _ _ rfl trivial _ _ _ 0 rfl rfl

end Grommet.Router
