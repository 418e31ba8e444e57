import Grommet.Accounts.Retries
import Grommet.Runtime.Shard.Shutdown

/-!
# The service on a shard

The adapters of the simulation never wait, so that a call comes to its end when its future is
polled for the first time, and so does a flush.  Any number of callers may have requests in the
mailbox and in the queues of the shard meanwhile.  The answers of such a shard are those of the
calls one after the other, in the order in which it processed them, with its flushes between
them: each call finds the state that the calls before it left.
-/

open Program Grommet.Testkit

namespace Grommet.Accounts

open Shard (Deed stateLeft)

/-- What the shard is told of the end of a call. -/
def outcome : Except Failure (Disposition Account) → Shard.Outcome Account
  | .ok state => .ok state
  | .error _ => .error

theorem intoOption_outcome (r : Except Failure (Disposition Account)) :
  (outcome r).disposition.intoOption = left r
  := by
  cases r <;> rfl

/-- A shard of the service, with the simulation behind its processor. -/
structure Hosted (CLASSES : ℕ) where
  shard : Shard AccountId RequestId Request Account CLASSES
  data : Data
  plan : FaultPlan FaultPoint

/-- Neither a call nor a flush; the mailbox is given requests under the keys of their accounts. -/
def Aside : Deed AccountId RequestId Request Account → Prop
  | .process _ _ _ => False
  | .processed _ _ => False
  | .onEvict _ _ => False
  | .evicted _ => False
  | .accepted envelope => envelope.key = envelope.work.account
  | _ => True

variable {CLASSES : ℕ}

/-- One step of the shard, and the calls that it served. -/
inductive Hosts (x : Hosted CLASSES) :
    List (Deed AccountId RequestId Request Account) × List Served → Hosted CLASSES → Prop
  /-- A call comes to its end at its first poll. -/
  | call {s : Shard AccountId RequestId Request Account CLASSES} {id : AccountId}
      {state : Option Account} {request : Request} {r : Except Failure (Disposition Account)}
      {data : Data} {exchanges : List (Exchange Unit)} {plan : FaultPlan FaultPoint} :
      (simulated (process id state request) (x.data, [])).under x.plan =
        ((r, data, exchanges), plan) →
      Shard.Step x.shard [.process id state request, .processed id (outcome r)] s →
      Hosts x ([.process id state request, .processed id (outcome r)],
        [⟨id, (replies exchanges).head?, plan.fired.length - x.plan.fired.length⟩]) ⟨s, data, plan⟩
  /-- A flush does nothing, and comes to its end at its first poll. -/
  | flush {s : Shard AccountId RequestId Request Account CLASSES} {id : AccountId}
      {account : Account} : Shard.Step x.shard [.onEvict id account, .evicted id] s →
      Hosts x ([.onEvict id account, .evicted id], []) { x with shard := s }
  | aside {s : Shard AccountId RequestId Request Account CLASSES}
      {deeds : List (Deed AccountId RequestId Request Account)} : Shard.Step x.shard deeds s →
      (∀ deed ∈ deeds, Aside deed) → Hosts x (deeds, []) { x with shard := s }

/-- What a deed means for the callers. -/
def turn : Deed AccountId RequestId Request Account → List Turn
  | .process _ _ request => [.call request]
  | .evicted id => [.evict id]
  | _ => []

/-- The world and the plan after a sequence of turns. -/
def play : List Turn → World × FaultPlan FaultPoint → World × FaultPlan FaultPoint
  | [], x => x
  | .evict id :: turns, x => play turns (x.1.evict id, x.2)
  | .call request :: turns, x =>
      play turns (((x.1.call request).under x.2).1.2, ((x.1.call request).under x.2).2)

theorem play_append (turns turns' : List Turn) (x : World × FaultPlan FaultPoint) :
  play (turns ++ turns') x = play turns' (play turns x)
  := by
  induction turns generalizing x with
  | nil => rfl
  | cons turn turns ih =>
    cases turn with
    | evict id => exact ih _
    | call request => exact ih _

theorem session_append (turns turns' : List Turn) (w : World) (plan : FaultPlan FaultPoint) :
  session (turns ++ turns') w plan =
    session turns w plan ++ session turns' (play turns (w, plan)).1 (play turns (w, plan)).2
  := by
  induction turns generalizing w plan with
  | nil => rfl
  | cons turn turns ih =>
    cases turn with
    | evict id => exact ih _ _
    | call request => exact congrArg _ (ih _ _)

/-- The deeds of a run. -/
def deedsOf (trace : List (List (Deed AccountId RequestId Request Account) × List Served)) :
    List (Deed AccountId RequestId Request Account) := trace.flatMap Prod.fst

/-- The calls that were served in a run. -/
def servedIn (trace : List (List (Deed AccountId RequestId Request Account) × List Served)) :
    List Served := trace.flatMap Prod.snd

variable {x x' : Hosted CLASSES} {e : List (Deed AccountId RequestId Request Account) × List Served}
  {trace : List (List (Deed AccountId RequestId Request Account) × List Served)}
  {s₀ : Shard AccountId RequestId Request Account CLASSES} {plan : FaultPlan FaultPoint}

theorem Hosts.step (h : Hosts x e x') :
  Shard.Step x.shard e.1 x'.shard
  := by
  cases h with
  | call _ hstep => exact hstep
  | flush hstep => exact hstep
  | aside hstep _ => exact hstep

/-- A hosted shard is a shard. -/
theorem shard_of_hosted (h : Trail Hosts x trace x') :
  Trail Shard.Step x.shard (trace.map Prod.fst) x'.shard
  := by
  induction h with
  | nil => exact .nil
  | snoc _ hstep ih =>
    rw [List.map_append]
    exact ih.snoc hstep.step

/-! ### Keys -/

/-- The mailbox is given requests under the keys of their accounts. -/
theorem Hosts.accepted (h : Hosts x e x') {envelope : Envelope AccountId RequestId Request}
    (hmem : .accepted envelope ∈ e.1) :
  envelope.key = envelope.work.account
  := by
  cases h with
  | call _ _ => simp at hmem
  | flush _ => simp at hmem
  | aside _ haside => exact haside _ hmem

/-- The shard takes requests under the keys of their accounts. -/
theorem received_of_hosted (hinbox : x.shard.inbox = []) (h : Trail Hosts x trace x') :
  (∀ envelope ∈ x'.shard.inbox, envelope.key = envelope.work.account) ∧
    ∀ envelope, .received envelope ∈ deedsOf trace → envelope.key = envelope.work.account
  := by
  induction h with
  | nil =>
    rw [hinbox]
    exact ⟨nofun, nofun⟩
  | snoc _ hstep ih =>
    obtain ⟨hbox, hreceived⟩ := hstep.step.gate.envelopes ih.1 fun _ => hstep.accepted
    refine ⟨hbox, fun envelope hmem => ?_⟩
    rw [deedsOf, List.flatMap_append, List.flatMap_singleton, List.mem_append] at hmem
    exact hmem.elim (ih.2 envelope) (hreceived envelope)

/-- A request is processed under the key of its account, with the state that was left for it. -/
theorem process_of_hosted {cfg : ShardConfig CLASSES} {now : Duration} {wheelId : ℕ}
    {data : Data} {id : AccountId} {state : Option Account} {request : Request}
    {deeds : List (Deed AccountId RequestId Request Account)}
    (hstart : Shard.start cfg now wheelId = .ok s₀) (h : Trail Hosts ⟨s₀, data, plan⟩ trace x)
    (hstep : Hosts x e x') (hdeeds : e.1 = .process id state request :: deeds) :
  id = request.account ∧ state = stateLeft id (deedsOf trace)
  := by
  have hrun := h.snoc hstep
  obtain ⟨trace', y, htrail, hflatten, -, -⟩ :=
    Shard.sits_of_trail (shard_of_hosted hrun) (Shard.Sits.start hstart)
  have hlog : trace'.flatten = deedsOf trace ++ .process id state request :: deeds := by
    rw [hflatten, ← List.flatMap_def, List.flatMap_append, List.flatMap_singleton, hdeeds]
    rfl
  constructor
  · obtain ⟨hsublist, -⟩ := Shard.Desk.works_of_trail htrail id
    have hserved : request ∈ trace'.flatten.flatMap (Deed.serves id) := by
      rw [hlog, List.flatMap_append, List.flatMap_cons]
      simp [Deed.serves, Deed.processes]
    have hmem := hsublist.mem (List.mem_append_left _ hserved)
    rw [hflatten, ← List.flatMap_def, List.mem_flatMap] at hmem
    obtain ⟨deed, hdeed, hreceives⟩ := hmem
    cases deed with
    | received envelope =>
      have hkey := (received_of_hosted (Shard.start_eq_ok hstart).2.1 hrun).2 envelope hdeed
      rw [Deed.receives] at hreceives
      split at hreceives
      · rename_i hid
        rw [List.mem_singleton.mp hreceives, ← hid, hkey]
      · cases hreceives
    | _ => cases hreceives
  · obtain ⟨holder, hk, -⟩ := Shard.Desk.custody_of_trail htrail id
    rw [hlog] at hk
    exact Shard.state_of_custody hk

/-- The states that were left after a run. -/
def lefts (trace : List (List (Deed AccountId RequestId Request Account) × List Served))
    (id : AccountId) : Option Account :=
  stateLeft id (deedsOf trace)

theorem lefts_concat (id : AccountId) :
  lefts (trace ++ [e]) id = e.1.foldl (Deed.leaves id) (lefts trace id)
  := by
  rw [lefts, deedsOf, List.flatMap_append, List.flatMap_singleton, stateLeft, List.foldl_append]
  rfl

theorem leaves_call (residents : AccountId → Option Account) (id : AccountId)
    (state : Option Account) (request : Request) (r : Except Failure (Disposition Account)) :
  (fun id' => ([.process id state request, .processed id (outcome r)] :
      List (Deed AccountId RequestId Request Account)).foldl (Deed.leaves id') (residents id')) =
    Function.update residents id (left r)
  := by
  funext id'
  simp only [List.foldl_cons, List.foldl_nil, Deed.leaves, intoOption_outcome]
  by_cases hid : id = id'
  · rw [if_pos hid, hid, Function.update_self]
  · rw [if_neg hid, Function.update_of_ne (Ne.symm hid)]

theorem leaves_flush (residents : AccountId → Option Account) (id : AccountId)
    (account : Account) :
  (fun id' => ([.onEvict id account, .evicted id] :
      List (Deed AccountId RequestId Request Account)).foldl (Deed.leaves id') (residents id')) =
    Function.update residents id none
  := by
  funext id'
  simp only [List.foldl_cons, List.foldl_nil, Deed.leaves]
  by_cases hid : id = id'
  · rw [if_pos hid, hid, Function.update_self]
  · rw [if_neg hid, Function.update_of_ne (Ne.symm hid)]

/-- A call of the world is the call that its program makes. -/
theorem under_call {residents : AccountId → Option Account} {data data' : Data}
    {plan plan' : FaultPlan FaultPoint} {request : Request} {exchanges : List (Exchange Unit)}
    {r : Except Failure (Disposition Account)}
    (h : (simulated (process request.account (residents request.account) request)
      (data, [])).under plan = ((r, data', exchanges), plan')) :
  ((⟨residents, data⟩ : World).call request).under plan = (((replies exchanges).head?,
    ⟨Function.update residents request.account (left r), data'⟩), plan')
  := by
  rw [simulated] at h
  rw [World.call, Workload.under_bind, h]
  rfl

/-- What is aside leaves the states alone and is no turn of the world. -/
theorem aside_turns {deeds : List (Deed AccountId RequestId Request Account)}
    (h : ∀ deed ∈ deeds, Aside deed) (id : AccountId) (state : Option Account) :
  deeds.flatMap turn = [] ∧ deeds.foldl (Deed.leaves id) state = state
  := by
  induction deeds with
  | nil => exact ⟨rfl, rfl⟩
  | cons deed deeds ih =>
    obtain ⟨hturns, hleft⟩ := ih fun deed' hmem => h deed' (List.mem_cons_of_mem _ hmem)
    have hdeed := h deed List.mem_cons_self
    rw [List.flatMap_cons, List.foldl_cons, hturns]
    cases deed with
    | process id state request => exact hdeed.elim
    | processed id outcome => exact hdeed.elim
    | onEvict id account => exact hdeed.elim
    | evicted id => exact hdeed.elim
    | _ => exact ⟨rfl, hleft⟩

/-- Over any run of the shard with any number of callers, whatever its plan fails: the calls that
it served are those of the world, made one after the other in the order in which the shard
processed them and with its flushes between them, and the world has the states, the data and the
plan of the shard. -/
theorem hosted_session {cfg : ShardConfig CLASSES} {now : Duration} {wheelId : ℕ}
    (hstart : Shard.start cfg now wheelId = .ok s₀) (h : Trail Hosts ⟨s₀, .empty, plan⟩ trace x) :
  session ((deedsOf trace).flatMap turn) .empty plan = servedIn trace ∧
    play ((deedsOf trace).flatMap turn) (.empty, plan) = (⟨lefts trace, x.data⟩, x.plan)
  := by
  apply h.invariant fun trace (x : Hosted CLASSES) =>
    session ((deedsOf trace).flatMap turn) .empty plan = servedIn trace ∧
      play ((deedsOf trace).flatMap turn) (.empty, plan) = (⟨lefts trace, x.data⟩, x.plan)
  · exact ⟨rfl, rfl⟩
  · rintro trace x e x' htrail ⟨hsession, hplay⟩ hstep
    have hdeeds : deedsOf (trace ++ [e]) = deedsOf trace ++ e.1 := by
      rw [deedsOf, List.flatMap_append, List.flatMap_singleton]
      rfl
    have hserved : servedIn (trace ++ [e]) = servedIn trace ++ e.2 := by
      rw [servedIn, List.flatMap_append, List.flatMap_singleton]
      rfl
    have hlefts : lefts (trace ++ [e]) = fun id => e.1.foldl (Deed.leaves id) (lefts trace id) :=
      funext fun id => lefts_concat id
    rw [hdeeds, List.flatMap_append, session_append, play_append, hplay, hsession, hserved, hlefts]
    have hstep' := hstep
    cases hstep with
    | @call s id state request r data exchanges plan' hcall hshard =>
      obtain ⟨rfl, rfl⟩ := process_of_hosted hstart htrail hstep' rfl
      have hunder := @under_call (lefts trace) _ _ _ _ _ _ _ hcall
      constructor
      · show servedIn trace ++ session [.call request] _ x.plan = _
        simp only [session, hunder]
      · show play [.call request] (_, x.plan) = _
        simp only [play, hunder, leaves_call]
    | @flush s id account hshard =>
      refine ⟨rfl, ?_⟩
      show play [.evict id] (_, x.plan) = _
      simp only [play, World.evict, leaves_flush]
    | @aside s deeds hshard haside =>
      simp only [(aside_turns haside 0 none).1, (aside_turns haside _ _).2]
      exact ⟨rfl, rfl⟩

/-! ### A run -/

/-- A request as the mailbox is given it. -/
def Request.envelope (request : Request) (enqueued : Duration) :
    Envelope AccountId RequestId Request :=
  ⟨request.account, request.op.classId, some request.reqId, none, enqueued, request⟩

/-- The turns of a run in which two callers credit an account and a third one another account,
whose state is not kept since its commit is in doubt. -/
def creditedTurns : List Turn :=
  [.call ⟨1, 7, .credit 5⟩, .call ⟨2, 8, .credit 4⟩, .call ⟨3, 7, .credit 3⟩, .evict 7]

def creditedServed : List Served :=
  [⟨7, some (.ok 5), 0⟩, ⟨8, some (.err Failure.inDoubt.message), 1⟩, ⟨7, some (.ok 8), 0⟩]

theorem Hosts.silent {s : Shard AccountId RequestId Request Account CLASSES}
    (h : Shard.Step x.shard [] s) :
  Hosts x ([], []) { x with shard := s }
  := .aside h fun _ hmem => absurd hmem List.not_mem_nil

theorem Hosts.takes {s : Shard AccountId RequestId Request Account CLASSES}
    {deed : Deed AccountId RequestId Request Account} (h : Shard.Step x.shard [deed] s)
    (haside : Aside deed) :
  Hosts x ([deed], []) { x with shard := s }
  := .aside h fun _ hmem => List.mem_singleton.mp hmem ▸ haside

/-- What a call comes to at its first poll. -/
def Hosted.served (x : Hosted CLASSES)
    (d : Dispatch AccountId (Stamped RequestId Request) Account) :
    (Except Failure (Disposition Account) × Data × List (Exchange Unit)) × FaultPlan FaultPoint :=
  (simulated (process d.key d.state d.payload.work) (x.data, [])).under x.plan

/-- The first of the outstanding futures is polled, and ends. -/
theorem Hosts.first {s : Shard AccountId RequestId Request Account CLASSES}
    {d : Dispatch AccountId (Stamped RequestId Request) Account}
    {after : List (Shard.Job AccountId RequestId Request Account)} {time : Duration}
    {admitted : ℕ} {report : Outstanding.Harvest}
    (hphase : x.shard.phase = .harvesting time admitted report false)
    (hpolled : report.polled < max x.shard.cfg.completeBatch 1)
    (houtstanding : x.shard.outstanding = .runOne false d :: after)
    (r : Except Failure (Disposition Account)) (reply : Option Reply) (faults : ℕ)
    (hr : (x.served d).1.1 = r)
    (hfinish : Shard.finishRun { x.shard with outstanding := after } d (outcome r) time = .ok s)
    (hreply : (replies (x.served d).1.2.2).head? = reply)
    (hfaults : (x.served d).2.fired.length - x.plan.fired.length = faults) :
  Hosts x ([.process d.key d.state d.payload.work, .processed d.key (outcome r)],
    [⟨d.key, reply, faults⟩])
    ⟨{ s with
        phase := .harvesting time admitted
          { report with polled := report.polled + 1, finished := report.finished + 1 }
          (false || ((outcome r).isPanic && x.shard.cfg.panicPolicy == .abort)) },
      (x.served d).1.2.1, (x.served d).2⟩
  := by
  subst hr hreply hfaults
  exact .call rfl (.ran [] _ hphase hpolled houtstanding hfinish)

theorem Hosts.firstFlush {s : Shard AccountId RequestId Request Account CLASSES} {id : AccountId}
    {account : Account} {after : List (Shard.Job AccountId RequestId Request Account)}
    {time : Duration} {admitted : ℕ} {report : Outstanding.Harvest}
    (hphase : x.shard.phase = .harvesting time admitted report false)
    (hpolled : report.polled < max x.shard.cfg.completeBatch 1)
    (houtstanding : x.shard.outstanding = .runFlush false id account :: after)
    (hfinish : Shard.finishFlush { x.shard with outstanding := after } id time = .ok s) :
  Hosts x ([.onEvict id account, .evicted id], []) { x with
    shard := { s with
      phase := .harvesting time admitted
        { report with polled := report.polled + 1, finished := report.finished + 1 } false } }
  := .flush (.flushed [] hphase hpolled houtstanding hfinish)

/-- A shard that serves three requests, flushes the state that it kept and returns. -/
theorem hosted_run :
  ∃ (s₀ : Shard AccountId RequestId Request Account 2) (x : Hosted 2)
      (trace : List (List (Deed AccountId RequestId Request Account) × List Served)),
    Shard.start (.new fun _ => 2) 0 1 = .ok s₀ ∧
    Trail Hosts ⟨s₀, .empty, .countdown (14 : ℕ)⟩ trace x ∧ x.shard.phase = .returned ∧
    (deedsOf trace).flatMap turn = creditedTurns ∧ servedIn trace = creditedServed
  := by
  have hstart : Shard.start (.new fun _ => 2) 0 1 = .ok ((Shard.start (.new fun _ => 2) 0 1 :
      Checked (Shard AccountId RequestId Request Account 2)).toOption.get rfl) := rfl
  have h₀ : Trail Hosts ⟨(Shard.start (.new fun _ => 2) 0 1 :
      Checked (Shard AccountId RequestId Request Account 2)).toOption.get rfl, .empty,
      .countdown (14 : ℕ)⟩ [] _ := .nil
  have h₁ := h₀.snoc (.takes (.send (Request.envelope ⟨1, 7, .credit 5⟩ 0) rfl) rfl)
  have h₂ := h₁.snoc (.takes (.send (Request.envelope ⟨2, 8, .credit 4⟩ 0) rfl) rfl)
  have h₃ := h₂.snoc (.takes (.send (Request.envelope ⟨3, 7, .credit 3⟩ 0) rfl) rfl)
  have h₄ := h₃.snoc (.silent .disconnect)
  have h₅ := h₄.snoc (.silent (.wake 1 rfl))
  have h₆ := h₅.snoc (.silent (.nextClass rfl (by decide) rfl))
  have h₇ := h₆.snoc (.silent (.nextClass rfl (by decide) rfl))
  have h₈ := h₇.snoc (.silent (.dispatched rfl (by decide)))
  have h₉ := h₈.snoc (.silent (.shedAll rfl rfl))
  have h₁₀ := h₉.snoc (.silent (.flush rfl rfl rfl))
  have h₁₁ := h₁₀.snoc (.silent (.drain rfl rfl rfl))
  have h₁₂ := h₁₁.snoc (.takes (.receive rfl rfl rfl rfl) trivial)
  have h₁₃ := h₁₂.snoc (.takes (.receive rfl rfl rfl rfl) trivial)
  have h₁₄ := h₁₃.snoc (.takes (.receive rfl rfl rfl rfl) trivial)
  have h₁₅ := h₁₄.snoc (.silent (.closed 2 2 rfl rfl rfl rfl))
  have h₁₆ := h₁₅.snoc (.silent (.harvested false 2 rfl))
  have h₁₇ := h₁₆.snoc (.silent (.service rfl rfl))
  have h₁₈ := h₁₇.snoc (.silent (.dispatch rfl (by decide) rfl rfl))
  have h₁₉ := h₁₈.snoc (.silent (.dispatch rfl (by decide) rfl rfl))
  have h₂₀ := h₁₉.snoc (.silent (.nextClass rfl (by decide) rfl))
  have h₂₁ := h₂₀.snoc (.silent (.nextClass rfl (by decide) rfl))
  have h₂₂ := h₂₁.snoc (.silent (.dispatched rfl (by decide)))
  have h₂₃ := h₂₂.snoc (.silent (.shedAll rfl rfl))
  have h₂₄ := h₂₃.snoc (.silent (.flush rfl rfl rfl))
  have h₂₅ := h₂₄.snoc (.silent (.skipDrain 3 rfl rfl rfl))
  have h₂₆ := h₂₅.snoc (.first rfl (by decide) rfl
    (.ok (.keep ⟨5, 1⟩)) (some (.ok 5)) 0 rfl rfl rfl rfl)
  have h₂₇ := h₂₆.snoc (.first rfl (by decide) rfl
    (.error .inDoubt) (some (.err Failure.inDoubt.message)) 1 rfl rfl rfl rfl)
  have h₂₈ := h₂₇.snoc (.silent (.harvested false 3 rfl))
  have h₂₉ := h₂₈.snoc (.silent (.service rfl rfl))
  have h₃₀ := h₂₉.snoc (.silent (.dispatch rfl (by decide) rfl rfl))
  have h₃₁ := h₃₀.snoc (.silent (.nextClass rfl (by decide) rfl))
  have h₃₂ := h₃₁.snoc (.silent (.nextClass rfl (by decide) rfl))
  have h₃₃ := h₃₂.snoc (.silent (.dispatched rfl (by decide)))
  have h₃₄ := h₃₃.snoc (.silent (.shedAll rfl rfl))
  have h₃₅ := h₃₄.snoc (.silent (.flush rfl rfl rfl))
  have h₃₆ := h₃₅.snoc (.silent (.skipDrain 4 rfl rfl rfl))
  have h₃₇ := h₃₆.snoc (.first rfl (by decide) rfl
    (.ok (.keep ⟨8, 2⟩)) (some (.ok 8)) 0 rfl rfl rfl rfl)
  have h₃₈ := h₃₇.snoc (.silent (.harvested false 4 rfl))
  have h₃₉ := h₃₈.snoc (.silent (.service rfl rfl))
  have h₄₀ := h₃₉.snoc (.silent (.nextClass rfl (by decide) rfl))
  have h₄₁ := h₄₀.snoc (.silent (.nextClass rfl (by decide) rfl))
  have h₄₂ := h₄₁.snoc (.silent (.dispatched rfl (by decide)))
  have h₄₃ := h₄₂.snoc (.silent (.shedAll rfl rfl))
  have h₄₄ := h₄₃.snoc (.silent (.flush rfl rfl rfl))
  have h₄₅ := h₄₄.snoc (.silent (.evictAll rfl rfl rfl rfl))
  have h₄₆ := h₄₅.snoc (.silent (.nextClass rfl (by decide) rfl))
  have h₄₇ := h₄₆.snoc (.silent (.nextClass rfl (by decide) rfl))
  have h₄₈ := h₄₇.snoc (.silent (.dispatched rfl (by decide)))
  have h₄₉ := h₄₈.snoc (.silent (.shedAll rfl rfl))
  have h₅₀ := h₄₉.snoc (.silent (.flush rfl rfl rfl))
  have h₅₁ := h₅₀.snoc (.silent (.skipDrain 5 rfl rfl rfl))
  have h₅₂ := h₅₁.snoc (.firstFlush rfl (by decide) rfl rfl)
  have h₅₃ := h₅₂.snoc (.silent (.harvested false 5 rfl))
  have h₅₄ := h₅₃.snoc (.silent (.service rfl rfl))
  have h₅₅ := h₅₄.snoc (.silent (.nextClass rfl (by decide) rfl))
  have h₅₆ := h₅₅.snoc (.silent (.nextClass rfl (by decide) rfl))
  have h₅₇ := h₅₆.snoc (.silent (.dispatched rfl (by decide)))
  have h₅₈ := h₅₇.snoc (.silent (.shedAll rfl rfl))
  have h₅₉ := h₅₈.snoc (.silent (.flush rfl rfl rfl))
  have h₆₀ := h₅₉.snoc (.silent (.exit rfl rfl rfl))
  exact ⟨_, _, _, hstart, h₆₀, rfl, rfl, rfl⟩

/-! ### Every run is a session -/

/-- However many callers there are and whatever the plan fails, a run of the shard answers as the
world does when the calls are made one after the other, in the order in which the shard processed
them and with its flushes between them.  So every call that it served is answered, and the calls
for an account that are not settled are no more than the operations that failed during them. -/
theorem hosted_calls_are_sequential {cfg : ShardConfig CLASSES} {now : Duration} {wheelId : ℕ}
    (hstart : Shard.start cfg now wheelId = .ok s₀) (h : Trail Hosts ⟨s₀, .empty, plan⟩ trace x) :
  session ((deedsOf trace).flatMap turn) .empty plan = servedIn trace ∧
    play ((deedsOf trace).flatMap turn) (.empty, plan) = (⟨lefts trace, x.data⟩, x.plan) ∧
    (∀ served ∈ servedIn trace, served.reply ≠ none) ∧
    ∀ id, unsettledFor id (servedIn trace) ≤ faultsFor id (servedIn trace)
  := by
  obtain ⟨hsession, hplay⟩ := hosted_session hstart h
  refine ⟨hsession, hplay, ?_⟩
  rw [← hsession]
  refine ⟨answered_session World.backed_empty, fun id => ?_⟩
  have hle := @unsettledFor_session .empty id [] plan ((deedsOf trace).flatMap turn)
    World.backed_empty
  have hfresh : World.empty.stale id = false := rfl
  rw [hfresh, Bool.toNat_false, Nat.zero_add] at hle
  exact hle

/-- The calls that the shard serves in turns are those of the world. -/
theorem hosted_calls_are_sequential_credited :
  ∃ (x : Hosted 2) (trace : List (List (Deed AccountId RequestId Request Account) × List Served)),
    x.shard.phase = .returned ∧
    session creditedTurns .empty (.countdown (14 : ℕ)) = creditedServed ∧
    play creditedTurns (.empty, .countdown (14 : ℕ)) = (⟨lefts trace, x.data⟩, x.plan) ∧
    (∀ served ∈ creditedServed, served.reply ≠ none) ∧
    ∀ id, unsettledFor id creditedServed ≤ faultsFor id creditedServed
  := by
  obtain ⟨s₀, x, trace, hstart, hrun, hphase, hturns, hserved⟩ := hosted_run
  refine ⟨x, trace, hphase, ?_⟩
  rw [← hturns, ← hserved]
  exact hosted_calls_are_sequential hstart hrun

end Grommet.Accounts
