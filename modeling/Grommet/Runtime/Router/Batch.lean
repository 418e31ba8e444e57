import Grommet.Runtime.Router.Traces

/-!
# A batch is its items one by one

With nobody else acting, the mailboxes are rings and the work and the clock answer from a state
of their own.  There a batch that never waits does to the rings what the single-item path does
for each item in turn, and refuses what it refuses.

Whoever else acts, every item of a batch has its own part of the trace, with one accepted push
of the item, or with none and the reason for which it was refused.
-/

open Checked Program

namespace Grommet.Router

variable {K I W : Type}

/-! ### Verdicts -/

def refusal : Verdict W → Option (SubmitError W)
  | .ok () => none
  | .error error => some error

/-- What a batch reports of its verdicts. -/
def BatchError.of (verdicts : List (Verdict W)) : BatchError W where
  submitted := verdicts.countP fun verdict => (refusal verdict).isNone
  rejected := verdicts.filterMap refusal

theorem of_ok {verdicts : List (Verdict W)} :
  BatchError.of (.ok () :: verdicts) =
    ⟨(BatchError.of verdicts).submitted + 1, (BatchError.of verdicts).rejected⟩
  := by
  rw [BatchError.of, List.countP_cons_of_pos rfl, List.filterMap_cons_none rfl]
  rfl

theorem of_error {error : SubmitError W} {verdicts : List (Verdict W)} :
  BatchError.of (.error error :: verdicts) =
    ⟨(BatchError.of verdicts).submitted, error :: (BatchError.of verdicts).rejected⟩
  := by
  rw [BatchError.of, List.countP_cons_of_neg Bool.false_ne_true,
    List.filterMap_cons_some (f := refusal) rfl]
  rfl

theorem record_all {batch : BatchError W} {verdicts : List (Verdict W)} :
  verdicts.foldl BatchError.record batch =
    ⟨batch.submitted + (BatchError.of verdicts).submitted,
      batch.rejected ++ (BatchError.of verdicts).rejected⟩
  := by
  induction verdicts generalizing batch with
  | nil => simp [BatchError.of]
  | cons verdict verdicts ih =>
    rw [List.foldl_cons, ih]
    rcases verdict with error | ⟨⟨⟩⟩
    · simp [of_error, BatchError.record]
    · simp [of_ok, BatchError.record, Nat.add_assoc, Nat.add_comm]

theorem record_all_default {verdicts : List (Verdict W)} :
  verdicts.foldl BatchError.record default = BatchError.of verdicts
  := by
  rw [record_all]
  simp [default]

theorem of_total {verdicts : List (Verdict W)} :
  (BatchError.of verdicts).submitted + (BatchError.of verdicts).rejected.length = verdicts.length
  := by
  induction verdicts with
  | nil => rfl
  | cons verdict verdicts ih =>
    rcases verdict with error | ⟨⟨⟩⟩
    · rw [of_error, List.length_cons, List.length_cons, ← ih, Nat.add_assoc]
    · rw [of_ok, List.length_cons, ← ih, Nat.add_right_comm]

theorem intoResult_ok {batch : BatchError W} :
  batch.intoResult = .ok () ↔ batch.rejected = []
  := by
  rw [BatchError.intoResult]
  cases batch.rejected with
  | nil => simp
  | cons error rejected => simp

/-! ### Nobody else acts -/

/-- An implementation of `Work` and a clock, with a state. -/
structure Oracle (K I W ω : Type) where
  classOf : W → ω → ClassId × ω
  keyOf : W → ω → K × ω
  timeToLive : W → ω → Option Duration × ω
  requestId : W → ω → Option I × ω
  now : ω → Duration × ω

/-- The state of the work and the clock, and the ring of each mailbox. -/
abbrev World (K I W ω : Type) := ω × (ℕ → Ring (Envelope K I W))

/-- What a mailbox answers to a push. -/
def pushed : Attempt → Except TrySendError Unit
  | .ready => .ok ()
  | .retry => .error .full
  | .closed => .error .closed

/-- The answers when nobody else acts: nobody would make room for a caller that waits. -/
def Oracle.answer {ω : Type} (o : Oracle K I W ω) :
    (op : Op K I W) → World K I W ω → Option (Answer op × World K I W ω)
  | .classOf work, (w, rings) => some ((o.classOf work w).1, (o.classOf work w).2, rings)
  | .keyOf work, (w, rings) => some ((o.keyOf work w).1, (o.keyOf work w).2, rings)
  | .timeToLive work, (w, rings) => some ((o.timeToLive work w).1, (o.timeToLive work w).2, rings)
  | .requestId work, (w, rings) => some ((o.requestId work w).1, (o.requestId work w).2, rings)
  | .now, (w, rings) => some ((o.now w).1, (o.now w).2, rings)
  | .trySendDeferred shard envelope, (w, rings) =>
    some (pushed ((rings shard).send envelope).1, w,
      Function.update rings shard ((rings shard).send envelope).2)
  | .announce _, s => some ((), s)
  | _, _ => none

/-- The single-item path for each item in turn. -/
def trySubmitEach [ShardKey K] (r : Router) (arrival : Option Duration) :
    List W → Submission K I W (List (Verdict W))
  | [] => pure []
  | item :: items => do
    let verdict ← r.trySubmitAt arrival item
    let verdicts ← trySubmitEach r arrival items
    return verdict :: verdicts

/-- One by one, with the arrival stamp of the batch. -/
def oneByOne [ShardKey K] (r : Router) (items : List W) :
    Submission K I W (List (Verdict W)) := do
  let arrival ← r.arrival
  trySubmitEach r arrival items

section Alone

variable {ω : Type} {o : Oracle K I W ω} {r : Router} {arrival : Option Duration} {item : W}
  {s : World K I W ω} {d : Deferred}

theorem eval_announceBits {word : ℕ} {set : BitVec 64}
    (hinside : ∀ i, set.getLsbD i = true → word * 64 + i < r.shards) :
  (Deferred.announceBits r word set).eval o.answer s = some ((), s)
  := by
  induction set using Deferred.announceBits.induct with
  | case1 =>
    rw [Deferred.announceBits, dif_pos rfl]
    rfl
  | case2 set hset ih =>
    have hrest {i : ℕ} := BitVec.getLsbD_and_sub_one_iff (m := set) (i := i)
    rw [Deferred.announceBits, dif_neg hset,
      mailbox_of_lt (hinside _ (BitVec.getLsbD_true_ctz_of_ne_zero hset)), pure_bind', eval_bind,
      ask, eval_ask]
    exact ih fun i hi => hinside i (hrest.mp hi).1

theorem eval_announceWords (ws : List (Fin DEFERRED_WORDS))
    (hinside : ∀ w i, (d.words w).getLsbD i = true → w * 64 + i < r.shards) :
  ∃ d', (ws.foldlM (Deferred.announceWord r) d).eval o.answer s = some (d', s)
  := by
  induction ws generalizing d with
  | nil => exact ⟨d, rfl⟩
  | cons w ws ih =>
    obtain ⟨d', hd'⟩ := ih (d := { d with words := Function.update d.words w 0 })
      (Deferred.inside_update hinside)
    refine ⟨d', ?_⟩
    rw [List.foldlM_cons, eval_bind, Deferred.announceWord,
      eval_bind_of (eval_announceBits (hinside w))]
    exact hd'

theorem eval_announce (hd : d.Sound r) :
  ∃ d', (d.announce r).eval o.answer s = some (d', s)
  := by
  rw [Deferred.announce]
  split
  · obtain ⟨d', hd'⟩ := eval_announceWords (o := o) (s := s) (List.finRange _)
      fun w i hi => hd.inside _ (Deferred.holds_iff.mpr ⟨w, i, hi, rfl⟩)
    refine ⟨{ d' with any := false }, ?_⟩
    rw [eval_bind_of hd']
    rfl
  · exact ⟨d, rfl⟩

theorem eval_arrival :
  ∃ arrival s', (r.arrival).eval o.answer s = some (arrival, s')
  := by
  rw [Router.arrival]
  split
  · exact ⟨_, _, rfl⟩
  · exact ⟨_, _, rfl⟩

/-- Stamping always answers. -/
theorem eval_stamp (arrival : Option Duration) (item : W) (s : World K I W ω) :
  ∃ stamped s', (r.stamp item arrival).eval o.answer s = some (stamped, s')
  := by
  unfold stamp
  rw [eval_bind, ask, eval_ask]
  simp only [Oracle.answer, Option.bind_some]
  split
  · exact ⟨_, _, rfl⟩
  · cases arrival with
    | none => exact ⟨_, _, rfl⟩
    | some now => exact ⟨_, _, rfl⟩

variable [ShardKey K]

/-- What a push does alone, on either path: the deferred one gives the same verdict and leaves
the same mailboxes. -/
theorem eval_push (envelope : Envelope K I W) (s : World K I W ω) (hd : d.Sound r) :
  ∃ verdict s' d', (r.trySend envelope).eval o.answer s = some (verdict, s') ∧
    (r.trySendDeferred envelope d).eval o.answer s = some ((verdict, d'), s') ∧ d'.Sound r
  := by
  obtain ⟨shard, hlt, -, hindex, hmailbox⟩ := route (I := I) (W := W) r envelope.key
  rw [Router.trySend, Router.trySendDeferred, hindex, pure_bind', pure_bind', hmailbox,
    pure_bind', pure_bind', eval_bind, eval_bind, Mailbox.trySend, eval_bind, ask, eval_ask]
  cases hsend : ((s.2 shard).send envelope).1 with
  | ready =>
    have hanswer : o.answer (.trySendDeferred shard envelope) s = some (.ok (), s.1,
        Function.update s.2 shard ((s.2 shard).send envelope).2) := by
      rw [Oracle.answer, hsend, pushed]
    rw [hanswer]
    by_cases hshard : shard < DEFERRED_SHARDS
    · refine ⟨_, _, (d.defer shard).2, rfl, ?_, hd.defer hshard hlt⟩
      rw [Option.bind_some, Deferred.defer, dif_pos hshard]
      rfl
    · refine ⟨_, _, d, rfl, ?_, hd⟩
      rw [Option.bind_some, Deferred.defer_of_le (Nat.le_of_not_lt hshard)]
      rfl
  | retry =>
    have hanswer : o.answer (.trySendDeferred shard envelope) s = some (.error .full, s.1,
        Function.update s.2 shard ((s.2 shard).send envelope).2) := by
      rw [Oracle.answer, hsend, pushed]
    rw [hanswer]
    exact ⟨_, _, d, rfl, rfl, hd⟩
  | closed =>
    have hanswer : o.answer (.trySendDeferred shard envelope) s = some (.error .closed, s.1,
        Function.update s.2 shard ((s.2 shard).send envelope).2) := by
      rw [Oracle.answer, hsend, pushed]
    rw [hanswer]
    exact ⟨_, _, d, rfl, rfl, hd⟩

theorem eval_item (b : BatchError W) (arrival : Option Duration) (item : W) (s : World K I W ω)
    (hd : d.Sound r) :
  ∃ verdict s' d', (r.trySubmitAt arrival item).eval o.answer s = some (verdict, s') ∧
    (r.trySubmitItem arrival (b, d) item).eval o.answer s = some ((b.record verdict, d'), s') ∧
    d'.Sound r
  := by
  obtain ⟨stamped, s₁, hstamp⟩ := eval_stamp (o := o) (r := r) arrival item s
  rw [Router.trySubmitAt, Router.trySubmitItem, eval_bind_of hstamp, eval_bind_of hstamp]
  cases stamped with
  | error error => exact ⟨_, _, d, rfl, rfl, hd⟩
  | ok envelope =>
    obtain ⟨verdict, s', d', hsend, hdefer, hd'⟩ := eval_push (o := o) envelope s₁ hd
    refine ⟨verdict, s', d', hsend, ?_, hd'⟩
    rw [eval_bind_of hdefer]
    rfl

theorem eval_items (items : List W) (arrival : Option Duration) {b : BatchError W}
    (hd : d.Sound r) :
  ∃ verdicts s' d', (trySubmitEach r arrival items).eval o.answer s = some (verdicts, s') ∧
    (items.foldlM (r.trySubmitItem arrival) (b, d)).eval o.answer s =
      some ((verdicts.foldl BatchError.record b, d'), s') ∧ d'.Sound r
  := by
  induction items generalizing s b d with
  | nil => exact ⟨[], s, d, rfl, rfl, hd⟩
  | cons item items ih =>
    obtain ⟨verdict, s₁, d₁, hone, hitem, hd₁⟩ := eval_item (o := o) b arrival item s hd
    obtain ⟨verdicts, s', d', hrest, hitems, hd'⟩ := ih (s := s₁) (b := b.record verdict) hd₁
    refine ⟨verdict :: verdicts, s', d', ?_, ?_, hd'⟩
    · rw [trySubmitEach, eval_bind_of hone, eval_bind_of hrest]
      rfl
    · rw [List.foldlM_cons, eval_bind_of hitem]
      exact hitems

/-- A batch that never waits does what the single-item path does for each item in turn. -/
theorem eval_trySubmitBatch {items : List W} :
  ∃ verdicts s', (oneByOne r items).eval o.answer s = some (verdicts, s') ∧
    (r.trySubmitBatch items).eval o.answer s = some ((BatchError.of verdicts).intoResult, s')
  := by
  obtain ⟨arrival, s₁, harrival⟩ := eval_arrival (o := o) (r := r) (s := s)
  obtain ⟨verdicts, s', d', hone, hitems, hd'⟩ := eval_items (o := o) (s := s₁) items arrival
    (b := default) (Deferred.sound_of_none Deferred.holds_default)
  obtain ⟨d'', hannounce⟩ := eval_announce (o := o) (s := s') hd'
  refine ⟨verdicts, s', ?_, ?_⟩
  · rw [oneByOne, eval_bind_of harrival]
    exact hone
  · rw [trySubmitBatch, eval_bind_of harrival, eval_bind_of hitems, eval_bind_of hannounce,
      record_all_default]
    rfl

end Alone

/-! ### Whoever else acts -/

open Waiters (Ticket Closed)

/-- The item that an event puts into a mailbox. -/
def accept : Event K I W → Option (ℕ × Envelope K I W)
  | ⟨.trySendDeferred shard envelope, .ok ()⟩ => some (shard, envelope)
  | _ => none

/-- The items that a trace puts into the mailboxes, in order. -/
def accepted (t : List (Event K I W)) : List (ℕ × Envelope K I W) := t.filterMap accept

/-- What an answer rules on the item that is passing. -/
def ruling (r : Router) (item : W) : Event K I W → Option (Verdict W)
  | ⟨.classOf _, classId⟩ =>
      if r.classes ≤ classId.toNat then some (.error (.invalidClass item)) else none
  | ⟨.trySendDeferred _ _, .ok ()⟩ => some (.ok ())
  | ⟨.trySendDeferred _ _, .error .full⟩ => some (.error (.full item))
  | ⟨.trySendDeferred _ _, .error .closed⟩ => some (.error (.shardDown item))
  | ⟨.park _, .error _⟩ => some (.error (.shardDown item))
  | _ => none

/-- The last ruling on an item. -/
def lastRuling (r : Router) (item : W) (t : List (Event K I W)) : Option (Verdict W) :=
  (t.filterMap (ruling r item)).getLast?

/-- The part of the trace that belongs to an item gives reason for its verdict: the item is
pushed once into the mailbox of the shard that owns its key, or it is not pushed and comes back
for the reason that the trace has.  Only a batch that sheds gives an item back for want of room. -/
inductive Reasoned [ShardKey K] (sheds : Bool) (r : Router) (item : W) :
    List (Event K I W) → Verdict W → Prop
  | pushed {t : List (Event K I W)} {shard : ℕ} {envelope : Envelope K I W} :
      accepted t = [(shard, envelope)] → envelope.work = item →
      r.placement.shardIndex envelope.key = .ok shard → Reasoned sheds r item t (.ok ())
  | invalidClass {t : List (Event K I W)} {classId : ClassId} : accepted t = [] →
      ⟨.classOf item, classId⟩ ∈ t → r.classes ≤ classId.toNat →
      Reasoned sheds r item t (.error (.invalidClass item))
  | full {t : List (Event K I W)} {shard : ℕ} {envelope : Envelope K I W} : sheds = true →
      accepted t = [] → ⟨.trySendDeferred shard envelope, .error .full⟩ ∈ t →
      envelope.work = item → r.placement.shardIndex envelope.key = .ok shard →
      Reasoned sheds r item t (.error (.full item))
  | shardDown {t : List (Event K I W)} {shard : ℕ} {envelope : Envelope K I W} :
      accepted t = [] → (⟨.trySendDeferred shard envelope, .error .closed⟩ ∈ t ∨
        ⟨.park shard, .error .closed⟩ ∈ t) → envelope.work = item →
      r.placement.shardIndex envelope.key = .ok shard →
      Reasoned sheds r item t (.error (.shardDown item))

/-- The verdict on an item is the last ruling of its part of the trace, and has its reason there. -/
structure Settled [ShardKey K] (sheds : Bool) (r : Router) (item : W) (t : List (Event K I W))
    (verdict : Verdict W) : Prop where
  ruled : lastRuling r item t = some verdict
  reasoned : Reasoned sheds r item t verdict

variable {r : Router} {arrival : Option Duration} {item work : W} {shard : ℕ}
  {envelope : Envelope K I W} {t t' : List (Event K I W)} {d : Deferred} {sheds : Bool}

/-- A ruling stands whatever went before. -/
theorem lastRuling_append (u : List (Event K I W)) {verdict : Verdict W}
    (h : lastRuling r item t = some verdict) :
  lastRuling r item (u ++ t) = some verdict
  := by
  rw [lastRuling, List.filterMap_append, List.getLast?_append, ← lastRuling, h]
  rfl

theorem accepted_append :
  accepted (t ++ t') = accepted t ++ accepted t'
  := List.filterMap_append

theorem Reading.accepted {s : Except (SubmitError W) (Envelope K I W)}
    (h : Reading r work arrival t s) :
  accepted t = []
  := by
  cases h <;> rfl

theorem Reading.error_eq {error : SubmitError W}
    (h : Reading (K := K) (I := I) r work arrival t (.error error)) :
  error = .invalidClass work ∧ lastRuling r work t = some (.error (.invalidClass work)) ∧
    ∃ classId : ClassId, ⟨.classOf work, classId⟩ ∈ t ∧ r.classes ≤ classId.toNat
  := by
  cases h with
  | @invalid classId hclass =>
    have hruling : ruling r work (⟨.classOf work, classId⟩ : Event K I W) =
        some (.error (.invalidClass work)) := if_pos hclass
    refine ⟨rfl, ?_, classId, List.mem_singleton_self _, hclass⟩
    rw [lastRuling, List.filterMap_cons_some hruling]
    rfl

/-- What a wait for room has pushed when it ends, and why it ends without a push. -/
def Ends (shard : ℕ) (envelope : Envelope K I W) (t : List (Event K I W)) :
    Option (Except Closed Unit) → Prop
  | some (.ok ()) => accepted t = [(shard, envelope)]
  | some (.error .closed) => accepted t = [] ∧
      (⟨.trySendDeferred shard envelope, .error .closed⟩ ∈ t ∨ ⟨.park shard, .error .closed⟩ ∈ t)
  | none => accepted t = []

theorem Ends.cons {e : Event K I W} {x : Option (Except Closed Unit)}
    (h : Ends shard envelope t x) (he : accept e = none) :
  Ends shard envelope (e :: t) x
  := by
  have haccepted : accepted (e :: t) = accepted t := List.filterMap_cons_none he
  rcases x with _ | ⟨⟨⟩⟩ | ⟨⟨⟩⟩
  · exact haccepted.trans h
  · refine ⟨haccepted.trans h.1, ?_⟩
    rcases h.2 with hmem | hmem
    · exact Or.inl (List.mem_cons_of_mem _ hmem)
    · exact Or.inr (List.mem_cons_of_mem _ hmem)
  · exact haccepted.trans h

/-- A wait ends with a ruling. -/
theorem Waiting.ruled {ticket : Ticket} {y : Except Closed Unit}
    (h : Waiting shard envelope ticket t (some y)) :
  lastRuling r item t = some (outcome item y)
  := by
  generalize hx : some y = x at h
  induction h with
  | sent =>
    cases hx
    rfl
  | closed =>
    cases hx
    rfl
  | dropped => cases hx
  | again _ ih => exact lastRuling_append [_, _, _] (ih hx)

theorem Sending.ruled {y : Except Closed Unit} (h : Sending shard envelope t (some y)) :
  lastRuling r item t = some (outcome item y)
  := by
  cases h with
  | sent => rfl
  | closed => rfl
  | gone => rfl
  | waiting hwait => exact lastRuling_append [_, _, _] hwait.ruled

theorem Waiting.ends {ticket : Ticket} {x : Option (Except Closed Unit)}
    (h : Waiting shard envelope ticket t x) :
  Ends shard envelope t x
  := by
  induction h with
  | sent => rfl
  | closed => exact ⟨rfl, Or.inl List.mem_cons_self⟩
  | dropped => rfl
  | again _ ih => exact ((ih.cons rfl).cons rfl).cons rfl

theorem Sending.ends {x : Option (Except Closed Unit)} (h : Sending shard envelope t x) :
  Ends shard envelope t x
  := by
  cases h with
  | sent => rfl
  | closed => exact ⟨rfl, Or.inl List.mem_cons_self⟩
  | gone => exact ⟨rfl, Or.inr (List.mem_cons_of_mem _ List.mem_cons_self)⟩
  | waiting hwait => exact ((hwait.ends.cons rfl).cons rfl).cons rfl

theorem Deferred.Announces.accepted {p : ℕ → Prop} (h : Announces p t) :
  accepted t = []
  := by
  apply List.filterMap_eq_nil_iff.mpr
  intro e he
  obtain ⟨shard, -, rfl⟩ := h.only e he
  rfl

variable [ShardKey K]

/-- An item that has passed has its verdict, and one whose future was dropped is not pushed. -/
def Passed (sheds : Bool) (r : Router) (item : W) (t : List (Event K I W)) : Option (Verdict W) → Prop
  | some verdict => Settled sheds r item t verdict
  | none => accepted t = []

theorem Reasoned.append {verdict : Verdict W} (h : Reasoned sheds r item t verdict)
    (ht' : accepted t' = []) :
  Reasoned sheds r item (t' ++ t) verdict
  := by
  have haccepted : accepted (t' ++ t) = accepted t := by
    rw [accepted_append, ht', List.nil_append]
  cases h with
  | pushed hone hwork howner => exact .pushed (haccepted.trans hone) hwork howner
  | invalidClass hnone hread hclass =>
    exact .invalidClass (haccepted.trans hnone) (List.mem_append_right _ hread) hclass
  | full hsheds hnone hfull hwork howner =>
    exact .full hsheds (haccepted.trans hnone) (List.mem_append_right _ hfull) hwork howner
  | shardDown hnone hdown hwork howner =>
    refine .shardDown (haccepted.trans hnone) ?_ hwork howner
    rcases hdown with hdown | hdown
    · exact Or.inl (List.mem_append_right _ hdown)
    · exact Or.inr (List.mem_append_right _ hdown)

theorem Settled.append {verdict : Verdict W} (h : Settled sheds r item t verdict)
    (ht' : accepted t' = []) :
  Settled sheds r item (t' ++ t) verdict
  := ⟨lastRuling_append _ h.ruled, h.reasoned.append ht'⟩

theorem Passed.append {x : Option (Verdict W)} (h : Passed sheds r item t x) (ht' : accepted t' = []) :
  Passed sheds r item (t' ++ t) x
  := by
  cases x with
  | none =>
    rw [Passed, accepted_append, ht']
    exact h
  | some verdict => exact Settled.append h ht'

theorem Submitting.passed {x : Option (Verdict W)} (h : Submitting (K := K) r item arrival t x) :
  Passed sheds r item t x
  := by
  cases h with
  | refused hread =>
    obtain ⟨rfl, hruled, classId, hmem, hclass⟩ := hread.error_eq
    exact ⟨hruled, .invalidClass hread.accepted hmem hclass⟩
  | @sent t t' envelope shard x hread howner hsend =>
    have hends := hsend.ends
    apply Passed.append _ hread.accepted
    rcases x with _ | ⟨⟨⟩⟩ | ⟨⟨⟩⟩
    · exact hends
    · exact ⟨hsend.ruled, .shardDown hends.1 hends.2 hread.work_eq howner⟩
    · exact ⟨hsend.ruled, .pushed hends hread.work_eq howner⟩

theorem Passing.passed
    {full : W → Deferred → List (Event K I W) → Option (Verdict W × Deferred) → Prop}
    {x : Option (Verdict W × Deferred)} (h : Passing r arrival full item d t x)
    (hfull : ∀ t t' envelope shard, full item d t x → envelope.work = item →
      r.placement.shardIndex envelope.key = .ok shard → accepted t' = [] →
      Passed sheds r item (t' ++ ⟨.trySendDeferred shard envelope, .error .full⟩ :: t)
        (x.map Prod.fst)) :
  Passed sheds r item t (x.map Prod.fst)
  := by
  cases h with
  | refused hread =>
    obtain ⟨rfl, hruled, classId, hmem, hclass⟩ := hread.error_eq
    exact ⟨hruled, .invalidClass hread.accepted hmem hclass⟩
  | settled hread hdeferring =>
    apply Settled.append _ hread.accepted
    cases hdeferring with
    | pushed howner => exact ⟨rfl, .pushed rfl hread.work_eq howner⟩
    | announced howner => exact ⟨rfl, .pushed rfl hread.work_eq howner⟩
    | closed howner =>
      rw [hread.work_eq]
      exact ⟨rfl, .shardDown rfl (Or.inl List.mem_cons_self) hread.work_eq howner⟩
  | full hread howner h => exact hfull _ _ _ _ h hread.work_eq howner hread.accepted

theorem Shedding.passed {x : Option (Verdict W × Deferred)}
    (h : Shedding (K := K) (I := I) item d t x) (hwork : envelope.work = item)
    (howner : r.placement.shardIndex envelope.key = .ok shard) (ht' : accepted t' = []) :
  Passed true r item (t' ++ ⟨.trySendDeferred shard envelope, .error .full⟩ :: t) (x.map Prod.fst)
  := by
  cases h
  apply Settled.append _ ht'
  exact ⟨rfl, .full rfl rfl List.mem_cons_self hwork howner⟩

theorem Yielding.passed {x : Option (Verdict W × Deferred)} (h : Yielding r arrival item d t x)
    (ht' : accepted t' = []) :
  Passed sheds r item (t' ++ ⟨.trySendDeferred shard envelope, .error .full⟩ :: t) (x.map Prod.fst)
  := by
  cases h with
  | @yielded t t'' d' x hannounced _ hsubmit =>
    have hprefix : accepted (t' ++ ⟨.trySendDeferred shard envelope, .error .full⟩ :: t) = [] := by
      rw [accepted_append, ht']
      exact hannounced.accepted
    have hverdict : (x.map fun verdict => (verdict, d')).map Prod.fst = x := by
      rw [Option.map_map]
      exact Option.map_id'
    rw [hverdict, ← List.cons_append, ← List.append_assoc]
    exact hsubmit.passed.append hprefix

/-! ### A batch -/

/-- What a passed item has pushed is the item itself, if it was pushed at all. -/
theorem Passed.sublist {x : Option (Verdict W)} (h : Passed sheds r item t x) :
  ((accepted t).map fun push => push.2.work).Sublist [item]
  := by
  have hnone (h : accepted t = []) :
      ((accepted t).map fun push => push.2.work).Sublist [item] := by
    rw [h]
    exact List.nil_sublist _
  cases x with
  | none => exact hnone h
  | some verdict =>
    obtain ⟨-, h⟩ := h
    cases h with
    | pushed hone hwork =>
      rw [hone, List.map_singleton, hwork]
    | invalidClass h => exact hnone h
    | full _ h => exact hnone h
    | shardDown h => exact hnone h

variable {step : W → Deferred → List (Event K I W) → Option (Verdict W × Deferred) → Prop}
  {items : List W} {ts : List (List (Event K I W))}

theorem Course.sublist {x : Option (List (Verdict W) × Deferred)} (h : Course step items d ts x)
    (hstep : ∀ item d t x, step item d t x → Passed sheds r item t (x.map Prod.fst)) :
  ((accepted ts.flatten).map fun push => push.2.work).Sublist items
  := by
  induction h with
  | done => exact List.Sublist.slnil
  | stopped h =>
    rw [List.flatten_singleton]
    apply (hstep _ _ _ _ h).sublist.trans
    exact List.cons_sublist_cons.mpr (List.nil_sublist _)
  | next h _ ih =>
    rw [List.flatten_cons, accepted_append, List.map_append, ← List.singleton_append]
    exact (hstep _ _ _ _ h).sublist.append ih

theorem Course.passed {verdicts : List (Verdict W)} {d' : Deferred}
    (h : Course step items d ts (some (verdicts, d')))
    (hstep : ∀ item d t x, step item d t x → Passed sheds r item t (x.map Prod.fst)) :
  ∃ passes : List (List (Event K I W) × Verdict W),
    List.Forall₂ (fun item pass => Settled sheds r item pass.1 pass.2) items passes ∧
    passes.map Prod.fst = ts ∧ passes.map Prod.snd = verdicts
  := by
  generalize hx : some (verdicts, d') = x at h
  induction h generalizing verdicts with
  | done =>
    cases hx
    exact ⟨[], .nil, rfl, rfl⟩
  | stopped => cases hx
  | @next item items d d'' t ts verdict x h _ ih =>
    cases x with
    | none => cases hx
    | some y =>
      cases hx
      obtain ⟨passes, hpasses, hts, hverdicts⟩ := ih rfl
      refine ⟨(t, verdict) :: passes, .cons (hstep _ _ _ _ h) hpasses, ?_, ?_⟩
      · rw [List.map_cons, hts]
      · rw [List.map_cons, hverdicts]

omit [ShardKey K] in
theorem Arriving.accepted (h : Arriving r t arrival) :
  accepted t = []
  := by
  cases h <;> rfl

/-- What a batch reports, and what its trace has for each of its items: but for the reading of the
clock and the announcements at the end, the trace is made of the parts of the items, in order. -/
structure Reported (sheds : Bool) (r : Router) (items : List W) (t : List (Event K I W))
    (result : Except (BatchError W) Unit) (passes : List (List (Event K I W) × Verdict W)) :
    Prop where
  settled : List.Forall₂ (fun item pass => Settled sheds r item pass.1 pass.2) items passes
  parts : ∃ before after, t = before ++ ((passes.map Prod.fst).flatten ++ after) ∧
    (∀ e ∈ before, ∃ now, e = ⟨.now, now⟩) ∧ ∀ e ∈ after, ∃ shard, e = ⟨.announce shard, ()⟩
  pushed : accepted t = (passes.map fun pass => accepted pass.1).flatten
  reports : result = (BatchError.of (passes.map Prod.snd)).intoResult
  total : (BatchError.of (passes.map Prod.snd)).submitted +
    (BatchError.of (passes.map Prod.snd)).rejected.length = items.length
  ok : result = .ok () ↔ (BatchError.of (passes.map Prod.snd)).rejected = []

theorem Batching.reported
    {step : Option Duration → W → Deferred → List (Event K I W) →
      Option (Verdict W × Deferred) → Prop}
    {x : Option (Except (BatchError W) Unit)} (h : Batching r step items t x)
    (hstep : ∀ arrival item d t x, step arrival item d t x →
      Passed sheds r item t (x.map Prod.fst)) :
  ((accepted t).map fun push => push.2.work).Sublist items ∧
    ∀ result, x = some result → ∃ passes, Reported sheds r items t result passes
  := by
  cases h with
  | stopped harrival hcourse =>
    constructor
    · rw [accepted_append, harrival.accepted]
      exact hcourse.sublist (hstep _)
    · rintro result ⟨⟩
  | @returned t t' ts arrival verdicts d harrival hcourse hannounced =>
    have haccepted : accepted (t ++ (ts.flatten ++ t')) = accepted ts.flatten := by
      rw [accepted_append, accepted_append, harrival.accepted, hannounced.accepted,
        List.append_nil, List.nil_append]
    constructor
    · rw [haccepted]
      exact hcourse.sublist (hstep _)
    · intro result hx
      cases hx
      obtain ⟨passes, hpasses, hts, hverdicts⟩ := hcourse.passed (hstep _)
      refine ⟨passes, hpasses, ⟨t, t', ?_, ?_, ?_⟩, ?_, ?_, ?_, ?_⟩
      · rw [hts]
      · cases harrival with
        | stamped =>
          intro e he
          exact ⟨_, List.mem_singleton.mp he⟩
        | unstamped => exact fun e he => nomatch he
      · intro e he
        obtain ⟨shard, -, rfl⟩ := hannounced.only e he
        exact ⟨shard, rfl⟩
      · rw [haccepted, ← hts, accepted, List.filterMap_flatten, List.map_map]
        rfl
      · rw [record_all_default, hverdicts]
      · rw [of_total, List.length_map, hpasses.length_eq]
      · rw [record_all_default, hverdicts]
        exact intoResult_ok

/-- A batch is its items one by one.  A batch that never waits, when nobody else acts, leaves the
rings that the single-item path leaves for each item in turn and reports its refusals.  In every
run of a batch the items are pushed in the order of the batch, and when it returns each of them
was pushed once or comes back once with the reason that its part of the trace has, and the counts
tell so.  A batch that waits gives no item back for want of room. -/
theorem batch_is_one_by_one (r : Router) (items : List W) :
  (∀ (ω : Type) (o : Oracle K I W ω) (s : World K I W ω), ∃ verdicts s',
    (oneByOne r items).eval o.answer s = some (verdicts, s') ∧
    (r.trySubmitBatch items).eval o.answer s = some ((BatchError.of verdicts).intoResult, s')) ∧
  ∀ (t : List (Event K I W)) (x : Option (Except (BatchError W) Unit)),
    (Run Op.halts (r.submitBatch items) t x →
      ((accepted t).map fun push => push.2.work).Sublist items ∧
      ∀ result, x = some result → ∃ passes, Reported false r items t result passes) ∧
    (Run Op.halts (r.trySubmitBatch items) t x →
      ((accepted t).map fun push => push.2.work).Sublist items ∧
      ∀ result, x = some result → ∃ passes, Reported true r items t result passes)
  := by
  refine ⟨fun ω o s => eval_trySubmitBatch, fun t x => ⟨fun h => ?_, fun h => ?_⟩⟩
  · apply (submitBatch_run h).reported
    intro arrival item d t x hstep
    apply hstep.passed
    intro t t' envelope shard h _ _ ht'
    exact h.passed ht'
  · apply (trySubmitBatch_run h).reported
    intro arrival item d t x hstep
    apply hstep.passed
    intro t t' envelope shard h hwork howner ht'
    exact h.passed hwork howner ht'

/-- A batch whose second item waits for a shard that goes. -/
theorem batch_is_one_by_one_waited :
  ∃ t passes, Run Op.halts (double.submitBatch [7, 8]) t (some (.error ⟨1, [.shardDown 8]⟩)) ∧
    (⟨.suspend, ()⟩ : Event (BitVec 64) ℕ ℕ) ∈ t ∧
    Reported false double [7, 8] t (.error ⟨1, [.shardDown 8]⟩) passes
  := by
  obtain ⟨t, -, hrun⟩ := waited_run
  obtain ⟨-, hreported⟩ := (batch_is_one_by_one double [7, 8]).2 _ _ |>.1 hrun
  obtain ⟨passes, hpasses⟩ := hreported _ rfl
  exact ⟨waited t, passes, hrun, by simp [waited, awaited], hpasses⟩

end Grommet.Router
