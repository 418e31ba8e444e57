import Grommet.Runtime.Shard.Contract

/-!
# A shard that returns has dropped nothing

A shard returns when its mailbox is closed, nothing is outstanding and nothing is staged, after
it has handed out every resident state once.  From the turn in which it hands them out no key
is ready or dispatched, so that the flushes it starts are the last work there is.

That no key is ready then rests on the pass of that turn, which begins with nothing outstanding:
`Ascending` says of a state that this pass discards no item in front of one of a lower class.
-/

open Checked

namespace Grommet

namespace Shard

variable {K I W S : Type} [DecidableEq K] {CLASSES : ℕ}

/-! ### The mailbox -/

namespace Deed

/-- The work of the key that enters the mailbox. -/
def accepts (k : K) : Deed K I W S → List W
  | .accepted envelope => if envelope.key = k then [envelope.work] else []
  | _ => []

omit [DecidableEq K] in
/-- The deed leaves the mailbox alone. -/
def Inside : Deed K I W S → Prop
  | .accepted _ => False
  | .received _ => False
  | _ => True

theorem mail_of_inside {deed : Deed K I W S} (h : deed.Inside) (k : K) :
  deed.accepts k = [] ∧ deed.receives k = []
  := by
  cases deed <;> simp_all [Inside, accepts, receives]

end Deed

/-- The works for a key in the mailbox. -/
def mail (s : Shard K I W S CLASSES) (k : K) : List W :=
  s.inbox.flatMap fun envelope => if envelope.key = k then [envelope.work] else []

theorem mail_of_insides {deeds : List (Deed K I W S)} (h : ∀ deed ∈ deeds, deed.Inside) (k : K) :
  deeds.flatMap (Deed.accepts k) = [] ∧ deeds.flatMap (Deed.receives k) = []
  := by
  simp only [List.flatMap_eq_nil_iff]
  constructor
  · intro deed hdeed
    apply (Deed.mail_of_inside (h deed hdeed) k).1
  · intro deed hdeed
    apply (Deed.mail_of_inside (h deed hdeed) k).2

omit [DecidableEq K] in
theorem Job.inside_calls (job : Job K I W S) {deed : Deed K I W S} (h : deed ∈ job.calls) :
  deed.Inside
  := by
  cases job with
  | runOne started d =>
    cases started with
    | false =>
      rw [calls, List.mem_singleton] at h
      subst h
      exact True.intro
    | true => simp [calls] at h
  | runFlush started key state =>
    cases started with
    | false =>
      rw [calls, List.mem_singleton] at h
      subst h
      exact True.intro
    | true => simp [calls] at h

/-- What a step does to the mailbox and to the way out. -/
inductive Gate (s : Shard K I W S CLASSES) : List (Deed K I W S) → Shard K I W S CLASSES → Prop
  | send (envelope : Envelope K I W) : s.connected = true →
      Gate s [.accepted envelope] { s with inbox := s.inbox ++ [envelope] }
  | disconnect : Gate s [] { s with connected := false }
  | receive {n : ℕ} {envelope : Envelope K I W} {rest : List (Envelope K I W)}
      {deeds : List (Deed K I W S)} {s' : Shard K I W S CLASSES} :
      s.phase = .draining n → s.inbox = envelope :: rest → (∀ deed ∈ deeds, deed.Inside) →
      s'.inbox = rest → s'.connected = s.connected → s'.isOpen = s.isOpen →
      s'.finalFlush = s.finalFlush → s'.phase = .draining (n + 1) →
      Gate s (.received envelope :: deeds) s'
  | closed {n : ℕ} (now time : Duration) : s.phase = .draining n → s.inbox = [] →
      s.connected = false → Gate s [] (s.endDrain n true now time)
  | evictAll {book : Scheduler K (Stamped I W) S CLASSES} {staged : List (K × S)} :
      s.phase = .exiting → s.isDone = true → s.finalFlush = true →
      s.book.evictAll s.staged = .ok (book, staged) →
      Gate s [] { s with
        book := book
        staged := staged
        finalFlush := false
        phase := if staged.isEmpty then .returned else .dispatching 0 }
  | inside {deeds : List (Deed K I W S)} {s' : Shard K I W S CLASSES} :
      (∀ deed ∈ deeds, deed.Inside) → s'.inbox = s.inbox → s'.connected = s.connected →
      s'.isOpen = s.isOpen → s'.finalFlush = s.finalFlush →
      (∀ n, s'.phase = .draining n → s.isOpen = true) →
      (s'.phase = .returned → s.isDone = true ∧ s.finalFlush = false ∧
        s'.outstanding = s.outstanding ∧ s'.staged = s.staged) → Gate s deeds s'

variable {s s' : Shard K I W S CLASSES} {x : Desk K I W S CLASSES} {deeds : List (Deed K I W S)}
  [DecidableEq I]

/-- Every step goes through the gate. -/
theorem Step.gate (hstep : Step s deeds s') :
  Gate s deeds s'
  := by
  cases hstep with
  | send envelope hconnected => exact .send envelope hconnected
  | disconnect => exact .disconnect
  | wake now hphase => exact .inside (by simp) rfl rfl rfl rfl (by simp) (by simp)
  | dispatch hphase _ _ hpush =>
    rw [push_eq_ok hpush]
    exact .inside (by simp) rfl rfl rfl rfl (by simp [hphase]) (by simp [hphase])
  | nextClass hphase _ _ => exact .inside (by simp) rfl rfl rfl rfl (by simp) (by simp)
  | dispatched hphase _ => exact .inside (by simp) rfl rfl rfl rfl (by simp) (by simp)
  | shed hphase _ =>
    exact .inside (by simp [Deed.Inside]) rfl rfl rfl rfl (by simp [hphase]) (by simp [hphase])
  | shedAll hphase _ => exact .inside (by simp) rfl rfl rfl rfl (by simp) (by simp)
  | flush hphase hbegin _ =>
    rw [beginFlushes_eq_ok hbegin]
    exact .inside (by simp) rfl rfl rfl rfl (by simp) (by simp)
  | evictAll hphase hdone hfinal hevict => exact .evictAll hphase hdone hfinal hevict
  | exit hphase hdone hfinal =>
    exact .inside (by simp) rfl rfl rfl rfl (by simp) fun _ => ⟨hdone, hfinal, rfl, rfl⟩
  | drain hphase _ hopen => exact .inside (by simp) rfl rfl rfl rfl (fun _ _ => hopen) (by simp)
  | skipDrain time hphase _ _ => exact .inside (by simp) rfl rfl rfl rfl (by simp) (by simp)
  | @receive n envelope rest s' deeds hphase _ hinbox hadmitted =>
    rcases admitOne_eq_ok hadmitted with ⟨rfl, rfl⟩ | ⟨tracked, live, book, rfl, hbook, rfl⟩
    · exact .receive hphase hinbox (by simp [Deed.Inside]) rfl rfl rfl rfl rfl
    · exact .receive hphase hinbox (by simp) rfl rfl rfl rfl rfl
  | closed now time hphase _ hinbox hconnected => exact .closed now time hphase hinbox hconnected
  | pending now time hphase _ =>
    exact .inside (by simp) rfl rfl (by simp [endDrain]) rfl (by simp [endDrain]) (by simp [endDrain])
  | full now time hphase _ =>
    exact .inside (by simp) rfl rfl (by simp [endDrain]) rfl (by simp [endDrain]) (by simp [endDrain])
  | @poll time admitted report abort before after job hphase _ hjobs =>
    exact .inside (fun _ => Job.inside_calls job) rfl rfl rfl rfl (by simp) (by simp)
  | @ran time admitted report abort started before after d outcome s' hphase _ hjobs hfinish =>
    obtain ⟨book, -, rfl⟩ := finishRun_eq_ok hfinish
    refine .inside ?_ rfl rfl rfl rfl (by simp) (by simp)
    intro deed hdeed
    rcases List.mem_append.mp hdeed with hcall | hdone
    · apply Job.inside_calls _ hcall
    · rw [List.mem_singleton.mp hdone]
      exact True.intro
  | @flushed time admitted report abort started before after key state s' hphase _ hjobs hfinish =>
    obtain ⟨book, -, rfl⟩ := finishFlush_eq_ok hfinish
    refine .inside ?_ rfl rfl rfl rfl (by simp) (by simp)
    intro deed hdeed
    rcases List.mem_append.mp hdeed with hcall | hdone
    · apply Job.inside_calls _ hcall
    · rw [List.mem_singleton.mp hdone]
      exact True.intro
  | harvested moreReady now hphase =>
    exact .inside (by simp) rfl rfl rfl rfl (by simp [endHarvest]) (by simp [endHarvest])
  | abort hphase => exact .inside (by simp) rfl rfl rfl rfl (by simp) (by simp)
  | @service admitted report fired s' hphase hservice =>
    obtain ⟨book, staged, timers, rfl⟩ := serviceTimers_frame hservice
    refine .inside (by simp) rfl rfl rfl rfl ?_ ?_
    · intro n
      split <;> simp
    · intro hreturned
      split at hreturned <;> cases hreturned
  | suspend hphase => exact .inside (by simp) rfl rfl rfl rfl (by simp) (by simp)
  | resume now hphase => exact .inside (by simp) rfl rfl rfl rfl (by simp) (by simp)

omit [DecidableEq I] in
/-- What was accepted and not received is in the mailbox, in order. -/
theorem Gate.mail (h : Gate s deeds s') (k : K) :
  s.mail k ++ deeds.flatMap (Deed.accepts k) = deeds.flatMap (Deed.receives k) ++ s'.mail k
  := by
  cases h with
  | send envelope _ => simp [Shard.mail, Deed.accepts, Deed.receives]
  | disconnect => simp [Shard.mail]
  | @receive n envelope rest deeds _ hphase hinbox hinside hinbox' =>
    obtain ⟨haccepts, hreceives⟩ := mail_of_insides hinside k
    simp only [Shard.mail, hinbox, hinbox', List.flatMap_cons, haccepts, hreceives, List.append_nil,
      Deed.accepts, Deed.receives]
  | closed now time hphase hinbox _ => simp [Shard.mail, endDrain]
  | evictAll => simp [Shard.mail]
  | inside hinside hinbox =>
    obtain ⟨haccepts, hreceives⟩ := mail_of_insides hinside k
    rw [haccepts, hreceives, List.append_nil, List.nil_append, Shard.mail, Shard.mail, hinbox]

omit [DecidableEq I] in
/-- What holds of the envelopes that enter the mailbox holds of those that the shard takes. -/
theorem Gate.envelopes {P : Envelope K I W → Prop} (h : Gate s deeds s')
    (hinbox : ∀ envelope ∈ s.inbox, P envelope)
    (haccepted : ∀ envelope, .accepted envelope ∈ deeds → P envelope) :
  (∀ envelope ∈ s'.inbox, P envelope) ∧ ∀ envelope, .received envelope ∈ deeds → P envelope
  := by
  cases h with
  | send envelope _ =>
    refine ⟨fun envelope' hmem => ?_, fun envelope' hmem => ?_⟩
    · rcases List.mem_append.mp hmem with hmem | hmem
      · exact hinbox envelope' hmem
      · rw [List.mem_singleton.mp hmem]
        exact haccepted envelope (List.mem_singleton_self _)
    · cases List.mem_singleton.mp hmem
  | disconnect => exact ⟨hinbox, fun _ hmem => nomatch hmem⟩
  | @receive n envelope rest deeds _ _ hold hinside hnew =>
    rw [hold] at hinbox
    refine ⟨fun envelope' hmem => ?_, fun envelope' hmem => ?_⟩
    · rw [hnew] at hmem
      exact hinbox envelope' (List.mem_cons_of_mem _ hmem)
    · rcases List.mem_cons.mp hmem with hmem | hmem
      · cases hmem
        exact hinbox envelope List.mem_cons_self
      · exact (hinside _ hmem).elim
  | closed now time _ _ _ => exact ⟨hinbox, fun _ hmem => nomatch hmem⟩
  | evictAll => exact ⟨hinbox, fun _ hmem => nomatch hmem⟩
  | inside hinside hsame =>
    rw [← hsame] at hinbox
    exact ⟨hinbox, fun _ hmem => (hinside _ hmem).elim⟩

/-! ### The last turns -/

omit [DecidableEq I] in
/-- Every key of the scheduler is being flushed, and nothing is queued. -/
def Spent (s : Shard K I W S CLASSES) : Prop :=
  ∀ k p, s.book.presence k = some p → p = .evicting ∧ s.book.contents k = []

omit [DecidableEq I] in
theorem Sits.spent_iff (h : s.Sits x) :
  s.Spent ↔ x.account.book.Spent
  := by
  constructor
  · intro hspent k p hp
    rw [← h.contents]
    rw [← h.presence] at hp
    apply hspent k p hp
  · intro hspent k p hp
    rw [h.contents]
    rw [h.presence] at hp
    apply hspent k p hp

omit [DecidableEq I] in
/-- A desk that receives nothing stays given up. -/
theorem Desk.Step.spent {cfg : Config CLASSES} {y : Desk K I W S CLASSES} (hstep : x.Step cfg deeds y)
    (h : x.account.book.Spent) (hnone : ∀ envelope, .received envelope ∉ deeds) :
  y.account.book.Spent
  := by
  cases hstep with
  | accept => exact h
  | coalesce => exact h
  | @admitItem envelope tracked y hstep _ _ => exact (hnone envelope (by simp)).elim
  | dispatch hstep _ _ => exact hstep.spent h nofun
  | pass hstep _ _ => exact hstep.spent h nofun
  | shed hstep _ _ => exact hstep.spent h nofun
  | flush haccount _ _ =>
    rw [haccount]
    apply h
  | evict hkind hstep _ _ =>
    apply hstep.spent h
    rintro item rfl
    obtain ⟨now, pushed, hevict | hevict⟩ := hkind
    · cases hevict
    · cases hevict
  | poll _ _ haccount _ _ =>
    rw [haccount]
    apply h
  | ran _ hstep _ _ => exact hstep.spent h nofun
  | flushed _ hstep _ _ => exact hstep.spent h nofun

omit [DecidableEq I] in
theorem Desk.spent_of_trail {cfg : Config CLASSES} {y : Desk K I W S CLASSES}
    {trace : List (List (Deed K I W S))} (htrail : Trail (Desk.Step cfg) x trace y)
    (h : x.account.book.Spent) (hnone : ∀ envelope, .received envelope ∉ trace.flatten) :
  y.account.book.Spent
  := by
  apply htrail.invariant fun trace (y : Desk K I W S CLASSES) =>
    (∀ envelope, .received envelope ∉ trace.flatten) → y.account.book.Spent
  · intro _
    apply h
  · rintro trace y₁ deeds y₂ - ih hstep hnone
    simp only [List.flatten_append, List.flatten_singleton, List.mem_append, not_or] at hnone
    apply hstep.spent (ih fun envelope => (hnone envelope).1) fun envelope => (hnone envelope).2
  · apply hnone

omit [DecidableEq I] in
/-- Handing out every resident state leaves nothing but flushes. -/
theorem Sits.spent_evictAll (h : s.Sits x) (hnil : s.outstanding = []) (hstaged : s.staged = [])
    (hready : s.NoneReady) {book : Scheduler K (Stamped I W) S CLASSES} {staged : List (K × S)}
    (hevict : s.book.evictAll s.staged = .ok (book, staged)) :
  ∀ k p, book.presence k = some p → p = .evicting ∧ book.contents k = []
  := by
  obtain ⟨a, hstep, ⟨own, free, hr⟩, -⟩ := h.call (.evictAll s.staged) True.intro
    (by rw [Scheduler.perform, hevict, ok_bind])
  obtain ⟨⟨hbook, -⟩, -⟩ := hstep
  have hspent : a.book.Spent := by
    rw [hbook]
    apply Book.spent_evict x.account.good ?_ (h.running_nil hnil) (h.flushing_nil hnil hstaged)
    intro k c
    rw [← h.presence]
    apply hready
  intro k p hp
  rw [hr.presence] at hp
  rw [hr.contents]
  apply hspent k p hp

/-- What holds of a shard on its way out. -/
structure Orderly (s : Shard K I W S CLASSES) : Prop where
  draining : ∀ n, s.phase = .draining n → s.isOpen = true
  closed : s.isOpen = false → s.connected = false ∧ s.inbox = []
  swept : s.isOpen = false → s.Swept
  spent : s.finalFlush = false → s.isOpen = false ∧ s.Spent
  returned : s.phase = .returned → s.finalFlush = false ∧ s.outstanding = [] ∧ s.staged = []

omit [DecidableEq K] [DecidableEq I] in
/-- A shard that is done has closed its mailbox and has nothing in flight. -/
theorem isDone_iff :
  s.isDone = true ↔ s.isOpen = false ∧ s.outstanding = [] ∧ s.staged = []
  := by
  simp [isDone, and_assoc]

/-- A shard that has closed stays given up. -/
theorem Orderly.spent_step (h : s.Orderly) (hsits : s.Sits x) (hstep : Step s deeds s')
    (hfinal : s.finalFlush = false) :
  s'.Spent
  := by
  obtain ⟨hclosed, hspent⟩ := h.spent hfinal
  obtain ⟨trace, y, htrail, hdeeds, hsits'⟩ := hsits.step hstep
  rw [hsits'.spent_iff]
  rw [hsits.spent_iff] at hspent
  apply Desk.spent_of_trail htrail hspent
  rw [hdeeds]
  intro envelope hmem
  cases hstep.gate with
  | send envelope' _ => simp at hmem
  | disconnect => simp at hmem
  | receive hphase =>
    rw [h.draining _ hphase] at hclosed
    cases hclosed
  | closed now time hphase _ _ => simp at hmem
  | evictAll => simp at hmem
  | inside hinside => exact hinside _ hmem

/-- Every step keeps the order of the way out, when the pass of a turn that begins with the
mailbox closed and nothing outstanding leaves no ready key behind. -/
theorem Orderly.step (h : s.Orderly) (hsits : s.Sits x) (hpassable : s.isOpen = false → s.Passable)
    (hstep : Step s deeds s') :
  s'.Orderly
  := by
  have hswept : s.isOpen = false → s'.Swept := by
    intro hclosed
    apply (h.swept hclosed).step hsits (hpassable hclosed) hstep
  have hspent : s.finalFlush = false → s'.Spent := h.spent_step hsits hstep
  cases hstep.gate with
  | send envelope hconnected =>
    refine ⟨h.draining, ?_, hswept, fun hfinal => ⟨(h.spent hfinal).1, hspent hfinal⟩, h.returned⟩
    intro hclosed
    rw [(h.closed hclosed).1] at hconnected
    cases hconnected
  | disconnect =>
    refine ⟨h.draining, ?_, hswept, fun hfinal => ⟨(h.spent hfinal).1, hspent hfinal⟩, h.returned⟩
    intro hclosed
    exact ⟨rfl, (h.closed hclosed).2⟩
  | @receive n envelope rest deeds _ hphase hinbox _ hinbox' hconnected' hopen' hfinal' hphase' =>
    have hopen := h.draining _ hphase
    have hopened : s'.isOpen = true := hopen'.trans hopen
    constructor
    · intro _ _
      apply hopened
    · simp [hopened]
    · simp [hopened]
    · intro hfinal
      rw [hfinal'] at hfinal
      rw [(h.spent hfinal).1] at hopen
      cases hopen
    · simp [hphase']
  | @closed n now time hphase hinbox hconnected =>
    constructor
    · simp [endDrain]
    · intro _
      exact ⟨hconnected, hinbox⟩
    · intro _
      apply Swept.trivial
      · simp [endDrain]
      · simp [endDrain, Phase.passed, Phase.settled]
    · intro hfinal
      exact ⟨by simp [endDrain], hspent hfinal⟩
    · simp [endDrain]
  | @evictAll book staged hphase hdone hfinal hevict =>
    obtain ⟨hclosed, hnil, hstaged⟩ := isDone_iff.mp hdone
    constructor
    · intro n
      split <;> simp
    · intro _
      apply h.closed hclosed
    · intro _
      apply hswept hclosed
    · intro _
      refine ⟨hclosed, ?_⟩
      have hready := (h.swept hclosed).passed (by rw [hphase]; rfl) hnil
      apply hsits.spent_evictAll hnil hstaged hready hevict
    · intro hreturned
      refine ⟨rfl, hnil, ?_⟩
      by_cases hempty : staged.isEmpty = true
      · simpa using hempty
      · simp [hempty] at hreturned
  | inside _ hinbox hconnected hopen hfinal hdraining hreturned =>
    constructor
    · rw [hopen]
      apply hdraining
    · rw [hopen, hinbox, hconnected]
      apply h.closed
    · rw [hopen]
      apply hswept
    · intro hfinal'
      rw [hfinal] at hfinal'
      rw [hopen]
      exact ⟨(h.spent hfinal').1, hspent hfinal'⟩
    · intro hphase
      obtain ⟨hdone, hfinal', hjobs, hstaged⟩ := hreturned hphase
      obtain ⟨-, hnil, hnil'⟩ := isDone_iff.mp hdone
      rw [hfinal, hjobs, hstaged]
      exact ⟨hfinal', hnil, hnil'⟩

/-! ### The return -/

omit [DecidableEq I] in
/-- When a turn begins with the mailbox closed and nothing outstanding, its pass discards no
item in front of one of a lower class. -/
def Ascending (s : Shard K I W S CLASSES) : Prop :=
  s.isOpen = false → s.phase = .dispatching 0 → s.outstanding = [] →
    ∀ k c, s.book.presence k = some (.ready c) →
      Item.ascending s.now none (s.book.contents k) = true

omit [DecidableEq I] in
/-- When every class has a budget, such a pass leaves no ready key behind. -/
theorem Sits.passable (h : s.Sits x) (hbudgets : ∀ i, 1 ≤ s.cfg.scheduler.maxInflight i)
    (hascending : s.Ascending) (hclosed : s.isOpen = false) :
  s.Passable
  := by
  intro hphase hnil k c hk
  apply Config.passable_of_ascending hbudgets ?_ (hascending hclosed hphase hnil k c hk)
  rw [h.contents, Book.queue]
  cases hpage : x.account.book.page k with
  | none => simp
  | some page => exact x.account.good.classes k page hpage

/-- What a shard has done when it returns, in a run with these deeds. -/
structure Concluded (log : List (Deed K I W S)) (s : Shard K I W S CLASSES) : Prop where
  /-- Every work that was accepted was coalesced, has expired or was processed. -/
  works : ∀ k, (log.flatMap (Deed.coalesces k) ++
    (log.flatMap (Deed.expires k) ++ log.flatMap (Deed.processes k))).Perm
      (log.flatMap (Deed.accepts k))
  /-- Every `process` has finished. -/
  finished : ∀ k t₁ t₂ state work, log = t₁ ++ .process k state work :: t₂ →
    ∃ outcome, .processed k outcome ∈ t₂
  keys : s.book.keys = ∅
  pending : s.book.pending = 0
  /-- The states that were kept are those that were passed on, in order. -/
  states : ∀ k, log.flatMap (Deed.keeps k) = log.flatMap (Deed.passes k)
  /-- Each of them went to the next `process` of its key, or to a flush that finished. -/
  handedOn : ∀ k t₁ t₂ state, log = t₁ ++ .processed k (.ok (.keep state)) :: t₂ →
    HandedOn k state t₂

/-- What holds along a run in which no pass discards an item in front of one of a lower class
once the mailbox is closed. -/
theorem orderly_of_trail {cfg : ShardConfig CLASSES} {now : Duration} {wheelId : ℕ}
    {s₀ : Shard K I W S CLASSES} {trace : List (List (Deed K I W S))}
    (hstart : start cfg now wheelId = .ok s₀)
    (hbudgets : ∀ i, 1 ≤ cfg.scheduler.maxInflight i)
    (hrun : Trail (fun s deeds s' => Step s deeds s' ∧ s.Ascending) s₀ trace s) :
  s.Orderly ∧
    ∀ k, trace.flatten.flatMap (Deed.accepts k) = trace.flatten.flatMap (Deed.receives k) ++ s.mail k
  := by
  have hinv : s.cfg = cfg ∧ (∃ x, s.Sits x) ∧ s.Orderly ∧ ∀ k,
      trace.flatten.flatMap (Deed.accepts k) =
        trace.flatten.flatMap (Deed.receives k) ++ s.mail k := by
    apply hrun.invariant fun trace (s : Shard K I W S CLASSES) =>
      s.cfg = cfg ∧ (∃ x, s.Sits x) ∧ s.Orderly ∧ ∀ k,
        trace.flatten.flatMap (Deed.accepts k) =
          trace.flatten.flatMap (Deed.receives k) ++ s.mail k
    · obtain ⟨hcfg, hinbox, -, -, -, -, hopen, hfinal, -, hphase⟩ := start_eq_ok hstart
      refine ⟨hcfg, ⟨_, Sits.start hstart⟩, ?_, ?_⟩
      · constructor <;> simp [hphase, hopen, hfinal]
      · simp [mail, hinbox]
    · rintro trace s₁ deeds s₂ - ⟨hcfg, ⟨x, hsits⟩, horderly, hmail⟩ ⟨hstep, hascending⟩
      obtain ⟨trace', y, -, -, hsits'⟩ := hsits.step hstep
      refine ⟨hstep.cfg_eq.trans hcfg, ⟨y, hsits'⟩, ?_, ?_⟩
      · apply horderly.step hsits (hsits.passable ?_ hascending) hstep
        rw [hcfg]
        apply hbudgets
      · intro k
        simp only [List.flatten_append, List.flatten_singleton, List.flatMap_append, hmail k,
          List.append_assoc]
        rw [hstep.gate.mail k]
  exact hinv.2.2

omit [DecidableEq I] in
/-- A scheduler that is given up, with nothing left to flush, has no keys. -/
theorem Sits.keys_empty (h : s.Sits x) (hspent : s.Spent) (hnil : s.outstanding = [])
    (hstaged : s.staged = []) :
  s.book.keys = ∅
  := by
  apply AList.eq_empty_of_lookup
  intro k
  cases hlookup : s.book.keys.lookup k with
  | none => rfl
  | some slot =>
    have hpresence : s.book.presence k = some slot.presence := by
      rw [Scheduler.presence, hlookup]
      rfl
    obtain ⟨hevicting, -⟩ := hspent k _ hpresence
    rw [hevicting] at hpresence
    exact (h.not_evicting hnil hstaged k hpresence).elim

omit [DecidableEq I] in
/-- A scheduler without keys and without dispatches has nothing pending. -/
theorem Sits.pending_eq (h : s.Sits x) (hkeys : s.book.keys = ∅) (hnil : s.outstanding = []) :
  s.book.pending = 0
  := by
  obtain ⟨own, free, hr⟩ := h.represents
  rw [hr.pending, hr.sum_inflight x.account.good, h.running_nil hnil, Scheduler.queued, hkeys]
  rfl

/-- When every class has a budget, a shard that returns has dropped nothing, in every run in
which the pass of a turn that begins with the mailbox closed and nothing outstanding discards no
item in front of one of a lower class. -/
theorem returned_shard_dropped_nothing {cfg : ShardConfig CLASSES} {now : Duration} {wheelId : ℕ}
    {s₀ : Shard K I W S CLASSES} {trace : List (List (Deed K I W S))}
    (hstart : start cfg now wheelId = .ok s₀)
    (hbudgets : ∀ i, 1 ≤ cfg.scheduler.maxInflight i)
    (hrun : Trail (fun s deeds s' => Step s deeds s' ∧ s.Ascending) s₀ trace s)
    (hreturned : s.phase = .returned) :
  Concluded trace.flatten s
  := by
  obtain ⟨trace', x, htrail, hdeeds, hsits, -⟩ :=
    sits_of_trail (hrun.mono fun _ _ _ h => h.1) (Sits.start hstart)
  obtain ⟨horderly, hmail⟩ := orderly_of_trail hstart hbudgets hrun
  obtain ⟨hfinal, hnil, hstaged⟩ := horderly.returned hreturned
  obtain ⟨hclosed, hspent⟩ := horderly.spent hfinal
  obtain ⟨-, hinbox⟩ := horderly.closed hclosed
  have hkeys := hsits.keys_empty hspent hnil hstaged
  have habsent : ∀ k, x.account.book.page k = none := by
    intro k
    have hpresence := hsits.presence k
    rw [Scheduler.presence, hkeys, AList.lookup_empty] at hpresence
    cases hpage : x.account.book.page k with
    | none => rfl
    | some page =>
      rw [Book.presence, hpage] at hpresence
      cases hpresence
  -- No key is held any more, and none has a state.
  have hdesk : ∀ k, Trail (Custody k) (.desk none) trace.flatten (.desk none) := by
    intro k
    obtain ⟨h, hcustody, hhas⟩ := Desk.custody_of_trail htrail k
    have hfree : k ∉ x.held := by
      rw [Desk.held, ← hsits.jobs, hnil, ← hsits.staged, hstaged]
      simp
    rw [hhas.eq_of_notMem hfree, Book.resident, habsent, hdeeds] at hcustody
    apply hcustody
  have hworks := Desk.works_of_trail htrail
  rw [hdeeds] at hworks
  constructor
  · intro k
    obtain ⟨-, hperm⟩ := hworks k
    have hcontents : s.book.contents k = [] := by
      rw [hsits.contents, Book.queue, habsent]
      rfl
    rw [hsits.waiting_nil hnil (by rw [hreturned]; rfl) hcontents, List.append_nil] at hperm
    rw [hmail k, mail, hinbox, List.flatMap_nil, List.append_nil]
    apply ((serves_perm trace.flatten k).append_left _).trans hperm
  · intro k t₁ t₂ state work hlog
    have hk := hdesk k
    rw [hlog] at hk
    obtain ⟨h₁, -, hk⟩ := hk.split
    obtain ⟨h₂, hstep, hk⟩ := hk.first
    cases hstep with
    | other hother => exact (hother rfl).elim
    | process =>
      rcases processing_of_custody hk with houtcome | hholder
      · apply houtcome
      · cases hholder
  · apply hkeys
  · apply hsits.pending_eq hkeys hnil
  · intro k
    rw [kept_of_custody (hdesk k)]
    simp [Holder.state]
  · intro k t₁ t₂ state hlog
    have hk := hdesk k
    rw [hlog] at hk
    obtain ⟨h₁, -, hk⟩ := hk.split
    obtain ⟨h₂, hstep, hk⟩ := hk.first
    cases hstep with
    | other hother => exact (hother rfl).elim
    | processed => exact handedOn_of_custody hk

/-- A shard that returned after it had kept, handed on and flushed states. -/
theorem returned_shard_dropped_nothing_flushed :
  ∃ s : Shard Bool Unit ℕ ℕ 1, s.phase = .returned ∧ Concluded concludedLog s
  := by
  obtain ⟨s₀, s, trace, hstart, hrun, hphase, -, hlog⟩ := concluded_run
  refine ⟨s, hphase, ?_⟩
  rw [← hlog]
  refine returned_shard_dropped_nothing hstart (by decide) (hrun.mono ?_) hphase
  rintro s₁ deeds s₂ ⟨hstep, hpassable, -⟩
  refine ⟨hstep, ?_⟩
  intro _ hphase hnil k c hk
  apply Config.ascending_of_passable (hpassable hphase hnil k c hk)

/-- A shard can return with an item pending. -/
theorem returned_shard_leaves_item_pending :
  ¬ ∀ (cfg : ShardConfig 2) (now : Duration) (wheelId : ℕ) (s₀ s : Shard ℕ Unit ℕ ℕ 2)
      (trace : List (List (Deed ℕ Unit ℕ ℕ))),
    (∀ i, 1 ≤ cfg.scheduler.maxInflight i) → start cfg now wheelId = .ok s₀ →
    Trail Step s₀ trace s → s.phase = .returned → Concluded trace.flatten s
  := by
  intro h
  obtain ⟨s₀, s, trace, hstart, hrun, hphase, -, hpending, -⟩ := abandoned_run
  have hzero := (h _ _ _ _ _ _ (by decide) hstart hrun hphase).pending
  rw [hpending] at hzero
  cases hzero

end Shard

end Grommet
