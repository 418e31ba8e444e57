import Grommet.Runtime.Router.Deferred

/-!
# The traces of a submission

What each part of a submission asks and is answered, in the order in which it happens.  The
relations below are what the parts can do, so that a property of every run is proved by cases
on them.
-/

open Checked Program

namespace Grommet.Router

open Waiters (Ticket Closed)

variable {K I W : Type}

/-- The verdict on one item. -/
abbrev Verdict (W : Type) := Except (SubmitError W) Unit

/-- The clock is read when arrivals are stamped. -/
inductive Arriving (r : Router) : List (Event K I W) → Option Duration → Prop
  | stamped {now : Duration} : r.stampArrival = true → Arriving r [⟨.now, now⟩] (some now)
  | unstamped : r.stampArrival = false → Arriving r [] none

/-- A work item is stamped, or refused for its class. -/
inductive Reading (r : Router) (work : W) (arrival : Option Duration) :
    List (Event K I W) → Except (SubmitError W) (Envelope K I W) → Prop
  | invalid {classId : ClassId} : r.classes ≤ classId.toNat →
      Reading r work arrival [⟨.classOf work, classId⟩] (.error (.invalidClass work))
  | stamped {classId : ClassId} {key : K} {now : Duration} {timeToLive : Option Duration}
      {requestId : Option I} : classId.toNat < r.classes → arrival = some now →
      Reading r work arrival [⟨.classOf work, classId⟩, ⟨.keyOf work, key⟩,
        ⟨.timeToLive work, timeToLive⟩, ⟨.requestId work, requestId⟩]
        (.ok ⟨key, classId, requestId, timeToLive.map (saturatingAdd now), now, work⟩)
  | timeless {classId : ClassId} {key : K} {requestId : Option I} : classId.toNat < r.classes →
      arrival = none →
      Reading r work arrival
        [⟨.classOf work, classId⟩, ⟨.keyOf work, key⟩, ⟨.requestId work, requestId⟩]
        (.ok ⟨key, classId, requestId, none, 0, work⟩)

/-- The polls of a caller that waits for room: the item is pushed, the shard is gone, or the
future is dropped. -/
inductive Waiting (shard : ℕ) (envelope : Envelope K I W) (ticket : Ticket) :
    List (Event K I W) → Option (Except Closed Unit) → Prop
  | sent : Waiting shard envelope ticket [⟨.trySendDeferred shard envelope, .ok ()⟩,
      ⟨.announce shard, ()⟩, ⟨.finish shard ticket, ()⟩] (some (.ok ()))
  | closed : Waiting shard envelope ticket [⟨.trySendDeferred shard envelope, .error .closed⟩,
      ⟨.finish shard ticket, ()⟩] (some (.error .closed))
  | dropped : Waiting shard envelope ticket [⟨.trySendDeferred shard envelope, .error .full⟩,
      ⟨.suspend, ()⟩] none
  | again {t : List (Event K I W)} {x : Option (Except Closed Unit)} :
      Waiting shard envelope ticket t x →
      Waiting shard envelope ticket (⟨.trySendDeferred shard envelope, .error .full⟩ ::
        ⟨.suspend, ()⟩ :: ⟨.refresh shard ticket, ()⟩ :: t) x

/-- A submission to a mailbox that waits for room. -/
inductive Sending (shard : ℕ) (envelope : Envelope K I W) :
    List (Event K I W) → Option (Except Closed Unit) → Prop
  | sent : Sending shard envelope
      [⟨.trySendDeferred shard envelope, .ok ()⟩, ⟨.announce shard, ()⟩] (some (.ok ()))
  | closed : Sending shard envelope [⟨.trySendDeferred shard envelope, .error .closed⟩]
      (some (.error .closed))
  | gone : Sending shard envelope [⟨.trySendDeferred shard envelope, .error .full⟩,
      ⟨.park shard, .error .closed⟩] (some (.error .closed))
  | waiting {ticket : Ticket} {polls : ℕ} {t : List (Event K I W)}
      {x : Option (Except Closed Unit)} : Waiting shard envelope ticket t x →
      Sending shard envelope (⟨.trySendDeferred shard envelope, .error .full⟩ ::
        ⟨.park shard, .ok ticket⟩ :: ⟨.polls, polls⟩ :: t) x

/-- What the router makes of the end of a submission to a mailbox. -/
def outcome (work : W) : Except Closed Unit → Verdict W
  | .ok () => .ok ()
  | .error .closed => .error (.shardDown work)

/-- A work item is stamped and sent, waiting for room. -/
inductive Submitting [ShardKey K] (r : Router) (work : W) (arrival : Option Duration) :
    List (Event K I W) → Option (Verdict W) → Prop
  | refused {t : List (Event K I W)} {error : SubmitError W} :
      Reading r work arrival t (.error error) → Submitting r work arrival t (some (.error error))
  | sent {t t' : List (Event K I W)} {envelope : Envelope K I W} {shard : ℕ}
      {x : Option (Except Closed Unit)} : Reading r work arrival t (.ok envelope) →
      r.placement.shardIndex envelope.key = .ok shard → Sending shard envelope t' x →
      Submitting r work arrival (t ++ t') (x.map (outcome work))

/-- A push whose announcement is deferred, or made at once for a shard that is not tracked. -/
inductive Deferring [ShardKey K] (r : Router) (envelope : Envelope K I W) (d : Deferred) :
    List (Event K I W) → Verdict W × Deferred → Prop
  | pushed {shard : ℕ} : r.placement.shardIndex envelope.key = .ok shard → shard < r.shards →
      shard < DEFERRED_SHARDS →
      Deferring r envelope d [⟨.trySendDeferred shard envelope, .ok ()⟩]
        (.ok (), (d.defer shard).2)
  | announced {shard : ℕ} : r.placement.shardIndex envelope.key = .ok shard →
      Deferring r envelope d
        [⟨.trySendDeferred shard envelope, .ok ()⟩, ⟨.announce shard, ()⟩] (.ok (), d)
  | closed {shard : ℕ} : r.placement.shardIndex envelope.key = .ok shard →
      Deferring r envelope d [⟨.trySendDeferred shard envelope, .error .closed⟩]
        (.error (.shardDown envelope.work), d)

/-- One item of a batch passes; `full` is what happens to an item whose mailbox is full. -/
inductive Passing [ShardKey K] (r : Router) (arrival : Option Duration)
    (full : W → Deferred → List (Event K I W) → Option (Verdict W × Deferred) → Prop) (item : W)
    (d : Deferred) : List (Event K I W) → Option (Verdict W × Deferred) → Prop
  | refused {t : List (Event K I W)} {error : SubmitError W} :
      Reading r item arrival t (.error error) →
      Passing r arrival full item d t (some (.error error, d))
  | settled {t t' : List (Event K I W)} {envelope : Envelope K I W} {y : Verdict W × Deferred} :
      Reading r item arrival t (.ok envelope) → Deferring r envelope d t' y →
      Passing r arrival full item d (t ++ t') (some y)
  | full {t t' : List (Event K I W)} {envelope : Envelope K I W} {shard : ℕ}
      {x : Option (Verdict W × Deferred)} : Reading r item arrival t (.ok envelope) →
      r.placement.shardIndex envelope.key = .ok shard → full item d t' x →
      Passing r arrival full item d
        (t ++ ⟨.trySendDeferred shard envelope, .error .full⟩ :: t') x

/-- A full mailbox is reported. -/
inductive Shedding (item : W) (d : Deferred) :
    List (Event K I W) → Option (Verdict W × Deferred) → Prop
  | shed : Shedding item d [] (some (.error (.full item), d))

/-- The deferred announcements are made, and the work is stamped again and sent. -/
inductive Yielding [ShardKey K] (r : Router) (arrival : Option Duration) (item : W)
    (d : Deferred) : List (Event K I W) → Option (Verdict W × Deferred) → Prop
  | yielded {t t' : List (Event K I W)} {d' : Deferred} {x : Option (Verdict W)} :
      Deferred.Announces (fun shard => d.holds shard = true) t →
      (∀ shard, d'.holds shard = false) → Submitting r item arrival t' x →
      Yielding r arrival item d (t ++ t') (x.map fun verdict => (verdict, d'))

/-- The items of a batch pass in turn, each with its own part of the trace. -/
inductive Course (step : W → Deferred → List (Event K I W) → Option (Verdict W × Deferred) → Prop) :
    List W → Deferred → List (List (Event K I W)) → Option (List (Verdict W) × Deferred) → Prop
  | done {d : Deferred} : Course step [] d [] (some ([], d))
  | stopped {item : W} {items : List W} {d : Deferred} {t : List (Event K I W)} :
      step item d t none → Course step (item :: items) d [t] none
  | next {item : W} {items : List W} {d d' : Deferred} {t : List (Event K I W)}
      {ts : List (List (Event K I W))} {verdict : Verdict W}
      {x : Option (List (Verdict W) × Deferred)} : step item d t (some (verdict, d')) →
      Course step items d' ts x →
      Course step (item :: items) d (t :: ts) (x.map fun y => (verdict :: y.1, y.2))

/-- A batch: the clock, the items, and the announcements that are left at the end. -/
inductive Batching (r : Router)
    (step : Option Duration → W → Deferred → List (Event K I W) →
      Option (Verdict W × Deferred) → Prop) (items : List W) :
    List (Event K I W) → Option (Except (BatchError W) Unit) → Prop
  | stopped {t : List (Event K I W)} {ts : List (List (Event K I W))} {arrival : Option Duration} :
      Arriving r t arrival → Course (step arrival) items default ts none →
      Batching r step items (t ++ ts.flatten) none
  | returned {t t' : List (Event K I W)} {ts : List (List (Event K I W))}
      {arrival : Option Duration} {verdicts : List (Verdict W)} {d : Deferred} :
      Arriving r t arrival → Course (step arrival) items default ts (some (verdicts, d)) →
      Deferred.Announces (fun shard => d.holds shard = true) t' →
      Batching r step items (t ++ (ts.flatten ++ t'))
        (some (verdicts.foldl BatchError.record default).intoResult)

/-! ### Every run has such a trace -/

variable {r : Router} {arrival : Option Duration} {item work : W} {shard : ℕ}
  {envelope : Envelope K I W} {t : List (Event K I W)} {d : Deferred}

theorem Reading.work_eq (h : Reading r work arrival t (.ok envelope)) :
  envelope.work = work
  := by
  cases h <;> rfl

theorem arrival_returns :
  Returns Op.halts (r.arrival : Submission K I W (Option Duration)) (Arriving r)
  := by
  rw [Router.arrival]
  split
  · rename_i hstamp
    apply returns_ask_bind rfl
    intro now
    exact returns_pure (.stamped hstamp)
  · rename_i hstamp
    exact returns_pure (.unstamped (Bool.eq_false_of_not_eq_true hstamp))

theorem stamp_returns :
  Returns Op.halts (r.stamp work arrival : Submission K I W _) (Reading r work arrival)
  := by
  apply returns_ask_bind rfl
  intro classId
  split
  · rename_i hclass
    exact returns_pure (.invalid hclass)
  · rename_i hclass
    apply returns_ask_bind rfl
    intro key
    cases arrival with
    | none =>
      rw [pure_bind']
      apply returns_ask_bind rfl
      intro requestId
      exact returns_pure (.timeless (Nat.lt_of_not_le hclass) rfl)
    | some now =>
      apply returns_ask_bind rfl
      intro timeToLive
      apply returns_ask_bind rfl
      intro requestId
      exact returns_pure (.stamped (Nat.lt_of_not_le hclass) rfl)

/-- A push with its announcement. -/
inductive Trying (shard : ℕ) (envelope : Envelope K I W) :
    List (Event K I W) → Except TrySendError Unit → Prop
  | ok : Trying shard envelope
      [⟨.trySendDeferred shard envelope, .ok ()⟩, ⟨.announce shard, ()⟩] (.ok ())
  | error {error : TrySendError} : Trying shard envelope
      [⟨.trySendDeferred shard envelope, .error error⟩] (.error error)

theorem trySend_returns :
  Returns Op.halts (Mailbox.trySend shard envelope) (Trying shard envelope)
  := by
  apply returns_ask_bind rfl
  rintro (error | _)
  · exact returns_pure .error
  · apply returns_ask_bind rfl
    intro answer
    exact returns_pure .ok

/-- The same, as a caller that waits attempts it. -/
inductive Attempting (shard : ℕ) (envelope : Envelope K I W) : List (Event K I W) → Attempt → Prop
  | ready : Attempting shard envelope
      [⟨.trySendDeferred shard envelope, .ok ()⟩, ⟨.announce shard, ()⟩] .ready
  | retry : Attempting shard envelope [⟨.trySendDeferred shard envelope, .error .full⟩] .retry
  | closed : Attempting shard envelope [⟨.trySendDeferred shard envelope, .error .closed⟩] .closed

theorem attempt_returns :
  Returns Op.halts (Mailbox.attempt shard envelope) (Attempting shard envelope)
  := by
  apply trySend_returns.bind
  rintro _ t (_ | @(_ | _))
  · exact returns_pure .ready
  · exact returns_pure .retry
  · exact returns_pure .closed

/-- One poll: it ends the wait, or suspends before what follows. -/
theorem poll_run {ticket : Ticket} {pending : Submission K I W (Except Closed Unit)}
    {x : Option (Except Closed Unit)}
    (h : Run Op.halts (Mailbox.poll shard envelope ticket pending) t x) :
  Waiting shard envelope ticket t x ∨
    ∃ t', t = ⟨.trySendDeferred shard envelope, .error .full⟩ :: ⟨.suspend, ()⟩ :: t' ∧
      Run Op.halts pending t' x
  := by
  obtain ⟨attempt, t₁, t₂, rfl, hattempt, hrest⟩ := attempt_returns.run_bind h
  cases hattempt with
  | ready =>
    obtain ⟨-, t', rfl, hret⟩ := (run_ask_bind rfl).mp hrest
    obtain ⟨rfl, rfl⟩ := run_pure.mp hret
    exact Or.inl .sent
  | retry =>
    obtain ⟨-, t', rfl, hpending⟩ := (run_ask_bind rfl).mp hrest
    exact Or.inr ⟨t', rfl, hpending⟩
  | closed =>
    obtain ⟨-, t', rfl, hret⟩ := (run_ask_bind rfl).mp hrest
    obtain ⟨rfl, rfl⟩ := run_pure.mp hret
    exact Or.inl .closed

theorem wait_run {ticket : Ticket} {polls : ℕ} {x : Option (Except Closed Unit)}
    (h : Run Op.halts (Mailbox.wait shard envelope ticket polls) t x) :
  Waiting shard envelope ticket t x
  := by
  induction polls generalizing t with
  | zero =>
    rcases poll_run h with hwait | ⟨t', rfl, hdropped⟩
    · exact hwait
    · obtain ⟨rfl, rfl⟩ := (run_halt_bind rfl Empty.elim).mp hdropped
      exact .dropped
  | succ polls ih =>
    rcases poll_run h with hwait | ⟨t', rfl, hrest⟩
    · exact hwait
    · obtain ⟨-, t', rfl, hagain⟩ := (run_ask_bind rfl).mp hrest
      exact .again (ih hagain)

theorem send_run {x : Option (Except Closed Unit)}
    (h : Run Op.halts (Mailbox.send shard envelope) t x) :
  Sending shard envelope t x
  := by
  obtain ⟨attempt, t₁, t₂, rfl, hattempt, hrest⟩ := attempt_returns.run_bind h
  cases hattempt with
  | ready =>
    obtain ⟨rfl, rfl⟩ := run_pure.mp hrest
    exact .sent
  | retry =>
    obtain ⟨parked, t', rfl, hparked⟩ := (run_ask_bind rfl).mp hrest
    cases parked with
    | error gone =>
      obtain ⟨rfl, rfl⟩ := run_pure.mp hparked
      exact .gone
    | ok ticket =>
      obtain ⟨polls, t', rfl, hwait⟩ := (run_ask_bind rfl).mp hparked
      exact .waiting (wait_run hwait)
  | closed =>
    obtain ⟨rfl, rfl⟩ := run_pure.mp hrest
    exact .closed

/-! ### Items -/

variable [ShardKey K]

/-- The mailbox of the shard that owns a key is found. -/
theorem route (r : Router) (key : K) :
  ∃ shard < r.shards, r.placement.shardIndex key = .ok shard ∧
    (r.shardIndex key : Submission K I W ℕ) = pure shard ∧
    (r.mailbox shard : Submission K I W ℕ) = pure shard
  := by
  obtain ⟨shard, hlt, howner⟩ := owned r key
  refine ⟨shard, hlt, howner, ?_, mailbox_of_lt hlt⟩
  rw [shardIndex, howner, lift]

theorem routerSend_run {x : Option (Verdict W)} (h : Run Op.halts (r.send envelope) t x) :
  ∃ shard y, r.placement.shardIndex envelope.key = .ok shard ∧ Sending shard envelope t y ∧
    x = y.map (outcome envelope.work)
  := by
  obtain ⟨shard, -, howner, hindex, hmailbox⟩ := route (I := I) (W := W) r envelope.key
  rw [Router.send, hindex, pure_bind', hmailbox, pure_bind'] at h
  rcases run_bind h with ⟨rfl, hsend⟩ | ⟨sent, t₁, t₂, rfl, hsend, hret⟩
  · exact ⟨shard, none, howner, send_run hsend, rfl⟩
  · rcases sent with ⟨⟨⟩⟩ | _
    all_goals
      obtain ⟨rfl, rfl⟩ := run_pure.mp hret
      rw [List.append_nil]
      exact ⟨shard, _, howner, send_run hsend, rfl⟩

theorem submitting_run {x : Option (Verdict W)}
    (h : Run Op.halts (r.sendWork work arrival : Submission K I W _) t x) :
  Submitting (K := K) r work arrival t x
  := by
  obtain ⟨stamped, t₁, t₂, rfl, hread, hrest⟩ := stamp_returns.run_bind h
  cases stamped with
  | error error =>
    obtain ⟨rfl, rfl⟩ := run_pure.mp hrest
    rw [List.append_nil]
    exact .refused hread
  | ok envelope =>
    obtain ⟨shard, y, howner, hsend, rfl⟩ := routerSend_run hrest
    rw [hread.work_eq]
    exact .sent hread howner hsend

theorem deferring_returns :
  Returns Op.halts (r.trySendDeferred envelope d) fun t y =>
    Deferring r envelope d t y ∨ ∃ shard, r.placement.shardIndex envelope.key = .ok shard ∧
      t = [⟨.trySendDeferred shard envelope, .error .full⟩] ∧ y = (.error (.full envelope.work), d)
  := by
  obtain ⟨shard, hlt, howner, hindex, hmailbox⟩ := route (I := I) (W := W) r envelope.key
  rw [Router.trySendDeferred, hindex, pure_bind', hmailbox, pure_bind']
  apply returns_ask_bind rfl
  rintro ((_ | _) | _)
  · exact returns_pure (Or.inr ⟨shard, howner, rfl, rfl⟩)
  · exact returns_pure (Or.inl (.closed howner))
  · by_cases hshard : shard < DEFERRED_SHARDS
    · have hdefer : d.defer shard = (true, (d.defer shard).2) :=
        Prod.ext (Deferred.defer_of_lt hshard) rfl
      rw [hdefer]
      exact returns_pure (Or.inl (.pushed howner hlt hshard))
    · rw [Deferred.defer_of_le (Nat.le_of_not_lt hshard)]
      apply returns_ask_bind rfl
      intro answer
      exact returns_pure (Or.inl (.announced howner))

theorem Deferring.sound {y : Verdict W × Deferred} (h : Deferring r envelope d t y)
    (hd : d.Sound r) :
  y.2.Sound r
  := by
  cases h with
  | pushed _ hlt hshard => exact hd.defer hshard hlt
  | announced => exact hd
  | closed => exact hd

variable {b : BatchError W}

/-- What a batch makes of the verdict on an item. -/
def BatchError.add (b : BatchError W) (y : Verdict W × Deferred) : BatchError W × Deferred :=
  (b.record y.1, y.2)

theorem trySubmitItem_run {x : Option (BatchError W × Deferred)}
    (h : Run Op.halts (r.trySubmitItem arrival (b, d) item : Submission K I W _) t x) :
  ∃ y, Passing (K := K) r arrival Shedding item d t y ∧ x = y.map b.add
  := by
  obtain ⟨stamped, t₁, t₂, rfl, hread, hrest⟩ := stamp_returns.run_bind h
  cases stamped with
  | error error =>
    obtain ⟨rfl, rfl⟩ := run_pure.mp hrest
    rw [List.append_nil]
    exact ⟨_, .refused hread, rfl⟩
  | ok envelope =>
    obtain ⟨y, t₃, t₄, rfl, hsent, hret⟩ := deferring_returns.run_bind hrest
    obtain ⟨rfl, rfl⟩ := run_pure.mp hret
    rw [List.append_nil]
    rcases hsent with hsent | ⟨shard, howner, rfl, rfl⟩
    · exact ⟨_, .settled hread hsent, rfl⟩
    · refine ⟨_, .full hread howner .shed, ?_⟩
      rw [hread.work_eq]
      rfl

theorem submitItem_run {x : Option (BatchError W × Deferred)} (hd : d.Sound r)
    (h : Run Op.halts (r.submitItem arrival (b, d) item : Submission K I W _) t x) :
  ∃ y, Passing (K := K) r arrival (Yielding r arrival) item d t y ∧ x = y.map b.add
  := by
  obtain ⟨stamped, t₁, t₂, rfl, hread, hrest⟩ := stamp_returns.run_bind h
  cases stamped with
  | error error =>
    obtain ⟨rfl, rfl⟩ := run_pure.mp hrest
    rw [List.append_nil]
    exact ⟨_, .refused hread, rfl⟩
  | ok envelope =>
    obtain ⟨y, t₃, t₄, rfl, hsent, hret⟩ := deferring_returns.run_bind hrest
    rcases hsent with hsent | ⟨shard, howner, rfl, rfl⟩
    · have hsettled := hsent
      cases hsent
      all_goals
        obtain ⟨rfl, rfl⟩ := run_pure.mp hret
        rw [List.append_nil]
        exact ⟨_, .settled hread hsettled, rfl⟩
    · obtain ⟨d', t₅, t₆, rfl, ⟨hnone, hannounced⟩, hsend⟩ :=
        (Deferred.announce_returns hd).run_bind hret
      rw [hread.work_eq] at hsend
      rcases run_bind hsend with ⟨rfl, hsubmit⟩ | ⟨sent, t₇, t₈, rfl, hsubmit, hret⟩
      · refine ⟨none, .full hread howner ?_, rfl⟩
        exact .yielded hannounced hnone (submitting_run hsubmit)
      · obtain ⟨rfl, rfl⟩ := run_pure.mp hret
        rw [List.append_nil]
        refine ⟨some (sent, d'), .full hread howner ?_, rfl⟩
        exact .yielded hannounced hnone (submitting_run hsubmit)

theorem Passing.sound
    {full : W → Deferred → List (Event K I W) → Option (Verdict W × Deferred) → Prop}
    {y : Verdict W × Deferred} (h : Passing r arrival full item d t (some y)) (hd : d.Sound r)
    (hfull : ∀ t y, full item d t (some y) → y.2.Sound r) :
  y.2.Sound r
  := by
  cases h with
  | refused => exact hd
  | settled _ hdeferring => exact hdeferring.sound hd
  | full _ _ h => exact hfull _ _ h

omit [ShardKey K] in
theorem shedding_sound {y : Verdict W × Deferred} (h : Shedding item d t (some y))
    (hd : d.Sound r) :
  y.2.Sound r
  := by
  cases h
  exact hd

theorem yielding_sound {y : Verdict W × Deferred}
    (h : Yielding (K := K) r arrival item d t (some y)) :
  y.2.Sound r
  := by
  generalize hx : some y = x at h
  cases h with
  | @yielded _ _ _ x _ hnone _ =>
    cases x with
    | none => cases hx
    | some verdict =>
      cases hx
      exact Deferred.sound_of_none hnone

omit [ShardKey K] in
/-- The loop of a batch follows the course of its items. -/
theorem course_run
    {step : W → Deferred → List (Event K I W) → Option (Verdict W × Deferred) → Prop}
    {g : BatchError W × Deferred → W → Submission K I W (BatchError W × Deferred)}
    {items : List W} {x : Option (BatchError W × Deferred)}
    (hrun : ∀ b d item t x, d.Sound r → Run Op.halts (g (b, d) item) t x →
      ∃ y, step item d t y ∧ x = y.map b.add)
    (hsound : ∀ item d t y, d.Sound r → step item d t (some y) → y.2.Sound r) (hd : d.Sound r)
    (h : Run Op.halts (items.foldlM g (b, d)) t x) :
  ∃ ts y, Course step items d ts y ∧ t = ts.flatten ∧ (∀ z ∈ y, z.2.Sound r) ∧
    x = y.map fun z => (z.1.foldl BatchError.record b, z.2)
  := by
  induction items generalizing b d t with
  | nil =>
    obtain ⟨rfl, rfl⟩ := run_pure.mp h
    refine ⟨[], _, .done, rfl, ?_, rfl⟩
    rintro z ⟨⟩
    exact hd
  | cons item items ih =>
    rw [List.foldlM_cons] at h
    rcases run_bind h with ⟨rfl, hfirst⟩ | ⟨a, t₁, t₂, rfl, hfirst, hrest⟩
    · obtain ⟨y, hstep, hy⟩ := hrun _ _ _ _ _ hd hfirst
      cases y with
      | some y => cases hy
      | none =>
        refine ⟨[t], none, .stopped hstep, ?_, ?_, rfl⟩
        · rw [List.flatten_singleton]
        · rintro z ⟨⟩
    · obtain ⟨y, hstep, hy⟩ := hrun _ _ _ _ _ hd hfirst
      cases y with
      | none => cases hy
      | some y =>
        cases hy
        obtain ⟨ts, z, hcourse, rfl, hz, rfl⟩ := ih (hsound _ _ _ _ hd hstep) hrest
        refine ⟨t₁ :: ts, _, .next hstep hcourse, rfl, ?_, ?_⟩
        · cases z with
          | none => rintro w ⟨⟩
          | some z =>
            rintro w ⟨⟩
            exact hz z rfl
        · rw [Option.map_map]
          rfl

omit [ShardKey K] in
theorem batch_run
    {step : Option Duration → W → Deferred → List (Event K I W) →
      Option (Verdict W × Deferred) → Prop}
    {g : Option Duration → BatchError W × Deferred → W → Submission K I W (BatchError W × Deferred)}
    {items : List W} {x : Option (Except (BatchError W) Unit)}
    (hrun : ∀ arrival b d item t x, d.Sound r → Run Op.halts (g arrival (b, d) item) t x →
      ∃ y, step arrival item d t y ∧ x = y.map b.add)
    (hsound : ∀ arrival item d t y, d.Sound r → step arrival item d t (some y) → y.2.Sound r)
    (h : Run Op.halts (do
      let arrival ← r.arrival
      let batch ← items.foldlM (g arrival) (default, default)
      let _ ← batch.2.announce r
      return batch.1.intoResult) t x) :
  Batching r step items t x
  := by
  obtain ⟨arrival, t₀, t₁, rfl, harrival, hrest⟩ := arrival_returns.run_bind h
  have hdefault : (default : Deferred).Sound r := Deferred.sound_of_none Deferred.holds_default
  rcases run_bind hrest with ⟨rfl, hloop⟩ | ⟨batch, t₂, t₃, rfl, hloop, hend⟩
  · obtain ⟨ts, y, hcourse, rfl, -, hy⟩ := course_run (hrun arrival) (hsound arrival) hdefault hloop
    cases y with
    | none => exact .stopped harrival hcourse
    | some z => cases hy
  · obtain ⟨ts, y, hcourse, rfl, hy, hbatch⟩ :=
      course_run (hrun arrival) (hsound arrival) hdefault hloop
    cases y with
    | none => cases hbatch
    | some z =>
      cases hbatch
      obtain ⟨d', t₄, t₅, rfl, ⟨-, hannounced⟩, hret⟩ :=
        (Deferred.announce_returns (hy z rfl)).run_bind hend
      obtain ⟨rfl, rfl⟩ := run_pure.mp hret
      rw [List.append_nil]
      exact .returned harrival hcourse hannounced

theorem submit_run {x : Option (Verdict W)}
    (h : Run Op.halts (r.submit work : Submission K I W _) t x) :
  ∃ arrival t₁ t₂, t = t₁ ++ t₂ ∧ Arriving r t₁ arrival ∧
    Submitting (K := K) r work arrival t₂ x
  := by
  obtain ⟨arrival, t₁, t₂, rfl, harrival, hrest⟩ := arrival_returns.run_bind h
  exact ⟨arrival, t₁, t₂, rfl, harrival, submitting_run hrest⟩

/-- What the router makes of a push that does not wait. -/
def offered (work : W) : Except TrySendError Unit → Verdict W
  | .ok () => .ok ()
  | .error .full => .error (.full work)
  | .error .closed => .error (.shardDown work)

/-- A work item is stamped and sent without waiting. -/
inductive Offering [ShardKey K] (r : Router) (work : W) (arrival : Option Duration) :
    List (Event K I W) → Verdict W → Prop
  | refused {t : List (Event K I W)} {error : SubmitError W} :
      Reading r work arrival t (.error error) → Offering r work arrival t (.error error)
  | sent {t t' : List (Event K I W)} {envelope : Envelope K I W} {shard : ℕ}
      {sent : Except TrySendError Unit} : Reading r work arrival t (.ok envelope) →
      r.placement.shardIndex envelope.key = .ok shard → Trying shard envelope t' sent →
      Offering r work arrival (t ++ t') (offered work sent)

theorem trySubmitAt_returns :
  Returns Op.halts (r.trySubmitAt arrival work : Submission K I W _)
    (Offering (K := K) r work arrival)
  := by
  apply stamp_returns.bind
  rintro (error | envelope) t hread
  · apply returns_pure
    rw [List.append_nil]
    exact .refused hread
  · obtain ⟨shard, -, howner, hindex, hmailbox⟩ := route (I := I) (W := W) r envelope.key
    simp only [Router.trySend]
    rw [hindex, pure_bind', hmailbox, pure_bind']
    apply trySend_returns.bind
    obtain rfl := hread.work_eq
    rintro ((_ | _) | _) t' htry
    all_goals
      apply returns_pure
      rw [List.append_nil]
      exact .sent hread howner htry

theorem trySubmit_run {x : Option (Verdict W)}
    (h : Run Op.halts (r.trySubmit work : Submission K I W _) t x) :
  ∃ arrival t₁ t₂ verdict, t = t₁ ++ t₂ ∧ Arriving r t₁ arrival ∧
    Offering (K := K) r work arrival t₂ verdict ∧ x = some verdict
  := by
  obtain ⟨arrival, t₁, t₂, rfl, harrival, hrest⟩ := arrival_returns.run_bind h
  obtain ⟨verdict, rfl, hoffer⟩ := trySubmitAt_returns _ _ hrest
  exact ⟨arrival, t₁, t₂, verdict, rfl, harrival, hoffer, rfl⟩

theorem submitBatch_run {items : List W} {x : Option (Except (BatchError W) Unit)}
    (h : Run Op.halts (r.submitBatch items : Submission K I W _) t x) :
  Batching r (fun arrival => Passing (K := K) r arrival (Yielding r arrival)) items t x
  := by
  apply batch_run _ _ h
  · intro arrival b d item t x hd hrun
    exact submitItem_run hd hrun
  · intro arrival item d t y hd hstep
    exact hstep.sound hd fun t y h => yielding_sound h

theorem trySubmitBatch_run {items : List W} {x : Option (Except (BatchError W) Unit)}
    (h : Run Op.halts (r.trySubmitBatch items : Submission K I W _) t x) :
  Batching r (fun arrival => Passing (K := K) r arrival Shedding) items t x
  := by
  apply batch_run _ _ h
  · intro arrival b d item t x hd hrun
    exact trySubmitItem_run hrun
  · intro arrival item d t y hd hstep
    exact hstep.sound hd fun t y h => shedding_sound h hd

/-! ### One shard -/

omit [ShardKey K] in
theorem Reading.run {s : Except (SubmitError W) (Envelope K I W)}
    (h : Reading r work arrival t s) :
  Run Op.halts (r.stamp work arrival) t (some s)
  := by
  cases h with
  | @invalid classId hclass =>
    apply (run_ask_bind rfl).mpr
    refine ⟨classId, _, rfl, ?_⟩
    rw [if_pos hclass]
    exact .ret _
  | @stamped classId key now timeToLive requestId hclass hsome =>
    subst hsome
    apply (run_ask_bind rfl).mpr
    refine ⟨classId, _, rfl, ?_⟩
    rw [if_neg (Nat.not_le_of_lt hclass)]
    exact .act _ (.act _ (.act _ (.ret _)))
  | @timeless classId key requestId hclass hnone =>
    subst hnone
    apply (run_ask_bind rfl).mpr
    refine ⟨classId, _, rfl, ?_⟩
    rw [if_neg (Nat.not_le_of_lt hclass)]
    exact .act _ (.act _ (.ret _))

/-- A router for one shard and two classes. -/
def single : Router where
  shards := 1
  placement := table 1 6
  stampArrival := true
  classes := 2
  placed := rfl

theorem route_single (key : K) :
  (single.shardIndex key : Submission K I W ℕ) = pure 0 ∧
    (single.mailbox 0 : Submission K I W ℕ) = pure 0
  := by
  obtain ⟨shard, hlt, -, hindex, hmailbox⟩ := route (I := I) (W := W) single key
  obtain rfl : shard = 0 := Nat.lt_one_iff.mp hlt
  exact ⟨hindex, hmailbox⟩

/-- What a work item answers. -/
def first : Envelope (BitVec 64) ℕ ℕ := ⟨1, 0, none, none, 0, 7⟩

/-- The readings of a stamp on the work item of an envelope. -/
def readings (envelope : Envelope (BitVec 64) ℕ ℕ) : List (Event (BitVec 64) ℕ ℕ) :=
  [⟨.classOf envelope.work, envelope.classId⟩, ⟨.keyOf envelope.work, envelope.key⟩,
    ⟨.timeToLive envelope.work, none⟩, ⟨.requestId envelope.work, envelope.requestId⟩]

/-! ### Two shards -/

/-- A router for two shards and two classes. -/
def double : Router where
  shards := 2
  placement := table 2 7
  stampArrival := true
  classes := 2
  placed := rfl

/-- A work item of the other shard, and what it answers. -/
def other : Envelope (BitVec 64) ℕ ℕ := ⟨2, 1, some 5, none, 0, 8⟩

theorem route_double {envelope : Envelope (BitVec 64) ℕ ℕ} {shard : ℕ}
    (howner : double.placement.shardIndex envelope.key = .ok shard) :
  (double.shardIndex envelope.key : Submission (BitVec 64) ℕ ℕ ℕ) = pure shard ∧
    (double.mailbox shard : Submission (BitVec 64) ℕ ℕ ℕ) = pure shard
  := by
  obtain ⟨shard', hlt, howner', hindex, hmailbox⟩ := route (I := ℕ) (W := ℕ) double envelope.key
  obtain rfl : shard' = shard := Except.ok.inj (howner'.symm.trans howner)
  exact ⟨hindex, hmailbox⟩

theorem owner_first :
  double.placement.shardIndex first.key = .ok 0
  := by decide

theorem owner_other :
  double.placement.shardIndex other.key = .ok 1
  := by decide

/-- The shards with unannounced pushes are announced to in some order. -/
theorem announce_run {d : Deferred} {r : Router} (hd : d.Sound r) :
  ∃ (t : List (Event (BitVec 64) ℕ ℕ)) (d' : Deferred),
    Run Op.halts (d.announce r) t (some d') ∧ (∀ shard, d'.holds shard = false) ∧
      Deferred.Announces (fun shard => d.holds shard = true) t
  := by
  have hanswer (op : Op (BitVec 64) ℕ ℕ) : op.halts = true ∨ Nonempty (Answer op) := by
    cases op with
    | dropped => exact Or.inl rfl
    | panicked => exact Or.inl rfl
    | trySendDeferred => exact Or.inr ⟨.ok ()⟩
    | park => exact Or.inr ⟨.error .closed⟩
    | _ => exact Or.inr ⟨default⟩
  obtain ⟨t, x, hrun⟩ := exists_run hanswer (d.announce r)
  obtain ⟨d', rfl, hnone, hannounced⟩ := Deferred.announce_returns hd t x hrun
  exact ⟨t, d', hrun, hnone, hannounced⟩

/-- A caller waits for the other shard, which goes. -/
def awaited : List (Event (BitVec 64) ℕ ℕ) :=
  [⟨.trySendDeferred 1 other, .error .full⟩, ⟨.park 1, .ok ⟨0, 0⟩⟩, ⟨.polls, (1 : ℕ)⟩,
    ⟨.trySendDeferred 1 other, .error .full⟩, ⟨.suspend, ()⟩, ⟨.refresh 1 ⟨0, 0⟩, ()⟩,
    ⟨.trySendDeferred 1 other, .error .closed⟩, ⟨.finish 1 ⟨0, 0⟩, ()⟩]

theorem awaited_run :
  Run Op.halts (double.send other) awaited (some (.error (.shardDown 8)))
  := by
  obtain ⟨hindex, hmailbox⟩ := route_double owner_other
  rw [Router.send, hindex, pure_bind', hmailbox, pure_bind']
  exact .act _ (.act _ (.act _ (.act _ (.act _ (.act _ (.act _ (.act _ (.ret _))))))))

/-- A push into a mailbox that has room. -/
theorem push_run {envelope : Envelope (BitVec 64) ℕ ℕ} {shard : ℕ} (d : Deferred)
    (howner : double.placement.shardIndex envelope.key = .ok shard)
    (hshard : shard < DEFERRED_SHARDS) :
  Run Op.halts (double.trySendDeferred envelope d) [⟨.trySendDeferred shard envelope, .ok ()⟩]
    (some (.ok (), (d.defer shard).2))
  := by
  obtain ⟨hindex, hmailbox⟩ := route_double howner
  have hdefer : d.defer shard = (true, (d.defer shard).2) :=
    Prod.ext (Deferred.defer_of_lt hshard) rfl
  rw [Router.trySendDeferred, hindex, pure_bind', hmailbox, pure_bind']
  refine .act _ ?_
  rw [hdefer]
  exact .ret _

/-- A batch of two items: the first one is pushed, and the second one waits for the other shard,
which goes. -/
def waited (t : List (Event (BitVec 64) ℕ ℕ)) : List (Event (BitVec 64) ℕ ℕ) :=
  ⟨.now, (0 : ℕ)⟩ :: (readings first ++ ⟨.trySendDeferred 0 first, .ok ()⟩ ::
    (readings other ++ ⟨.trySendDeferred 1 other, .error .full⟩ :: (t ++ (readings other ++ awaited))))

theorem waited_run :
  ∃ t, Deferred.Announces (fun shard => shard = 0) t ∧
    Run Op.halts (double.submitBatch [7, 8]) (waited t) (some (.error ⟨1, [.shardDown 8]⟩))
  := by
  have hsound : (Deferred.defer default 0).2.Sound double :=
    (Deferred.sound_of_none Deferred.holds_default).defer (by decide) (by decide)
  obtain ⟨t, d, hannounce, hnone, hannounced⟩ := announce_run hsound
  obtain ⟨t', d', hend, -, hannounced'⟩ := announce_run (Deferred.sound_of_none hnone (r := double))
  obtain rfl : t' = [] := by
    apply List.eq_nil_iff_forall_not_mem.mpr
    intro e he
    obtain ⟨shard, hshard, -⟩ := hannounced'.only e he
    rw [hnone] at hshard
    cases hshard
  have hfirst : Reading double 7 (some 0) (readings first) (.ok first) := .stamped (by decide) rfl
  have hother : Reading double 8 (some 0) (readings other) (.ok other) := .stamped (by decide) rfl
  have hfull : Run Op.halts (double.trySendDeferred other (Deferred.defer default 0).2)
      [⟨.trySendDeferred 1 other, .error .full⟩]
      (some (.error (.full 8), (Deferred.defer default 0).2)) := by
    obtain ⟨hindex, hmailbox⟩ := route_double owner_other
    rw [Router.trySendDeferred, hindex, pure_bind', hmailbox, pure_bind']
    exact .act _ (.ret _)
  have hpushed : Run Op.halts (double.submitItem (some 0) (default, default) 7)
      (readings first ++ ([⟨.trySendDeferred 0 first, .ok ()⟩] ++ []))
      (some (⟨1, []⟩, (Deferred.defer default 0).2)) :=
    hfirst.run.bind ((push_run default owner_first (by decide)).bind (.ret _))
  have hwork : Run Op.halts (double.sendWork 8 (some 0) : Submission (BitVec 64) ℕ ℕ _)
      (readings other ++ awaited) (some (.error (.shardDown 8))) :=
    hother.run.bind awaited_run
  have hwaited : Run Op.halts (double.submitItem (some 0) (⟨1, []⟩, (Deferred.defer default 0).2) 8)
      (readings other ++ ([⟨.trySendDeferred 1 other, .error .full⟩] ++ (t ++
        (readings other ++ awaited ++ []))))
      (some (⟨1, [.shardDown 8]⟩, d)) :=
    hother.run.bind (hfull.bind (hannounce.bind (hwork.bind (.ret _))))
  have hloop : Run Op.halts ([7, 8].foldlM (double.submitItem (some 0)) (default, default)) _
      (some (⟨1, [.shardDown 8]⟩, d)) :=
    hpushed.bind (hwaited.bind (f := pure) (.ret _))
  refine ⟨t, hannounced.congr fun shard => ?_, ?_⟩
  · rw [Deferred.holds_defer (by decide), Deferred.holds_default]
    simp
  · have hrun : Run Op.halts (double.submitBatch [7, 8]) (⟨.now, (0 : ℕ)⟩ :: _)
        (some (.error ⟨1, [.shardDown 8]⟩)) := .act _ (hloop.bind (hend.bind (.ret _)))
    simpa [waited] using hrun

/-- A batch of two items that are pushed to their shards. -/
def landed (t : List (Event (BitVec 64) ℕ ℕ)) : List (Event (BitVec 64) ℕ ℕ) :=
  ⟨.now, (0 : ℕ)⟩ :: (readings first ++ ⟨.trySendDeferred 0 first, .ok ()⟩ ::
    (readings other ++ ⟨.trySendDeferred 1 other, .ok ()⟩ :: t))

theorem landed_run :
  ∃ t, Deferred.Announces (fun shard => shard = 0 ∨ shard = 1) t ∧
    Run Op.halts (double.submitBatch [7, 8]) (landed t) (some (.ok ()))
  := by
  have hsound : (Deferred.defer (Deferred.defer default 0).2 1).2.Sound double :=
    ((Deferred.sound_of_none Deferred.holds_default).defer (by decide) (by decide)).defer
      (by decide) (by decide)
  obtain ⟨t, d, hannounce, -, hannounced⟩ := announce_run hsound
  have hfirst : Reading double 7 (some 0) (readings first) (.ok first) := .stamped (by decide) rfl
  have hother : Reading double 8 (some 0) (readings other) (.ok other) := .stamped (by decide) rfl
  have hone : Run Op.halts (double.submitItem (some 0) (default, default) 7)
      (readings first ++ ([⟨.trySendDeferred 0 first, .ok ()⟩] ++ []))
      (some (⟨1, []⟩, (Deferred.defer default 0).2)) :=
    hfirst.run.bind ((push_run default owner_first (by decide)).bind (.ret _))
  have htwo : Run Op.halts (double.submitItem (some 0) (⟨1, []⟩, (Deferred.defer default 0).2) 8)
      (readings other ++ ([⟨.trySendDeferred 1 other, .ok ()⟩] ++ []))
      (some (⟨2, []⟩, (Deferred.defer (Deferred.defer default 0).2 1).2)) :=
    hother.run.bind ((push_run _ owner_other (by decide)).bind (.ret _))
  have hloop : Run Op.halts ([7, 8].foldlM (double.submitItem (some 0)) (default, default)) _
      (some (⟨2, []⟩, (Deferred.defer (Deferred.defer default 0).2 1).2)) :=
    hone.bind (htwo.bind (f := pure) (.ret _))
  refine ⟨t, hannounced.congr fun shard => ?_, ?_⟩
  · rw [Deferred.holds_defer (by decide), Deferred.holds_defer (by decide), Deferred.holds_default]
    simp
  · have hrun : Run Op.halts (double.submitBatch [7, 8]) (⟨.now, (0 : ℕ)⟩ :: _) (some (.ok ())) :=
      .act _ (hloop.bind (hannounce.bind (.ret _)))
    simpa [landed] using hrun

end Grommet.Router
