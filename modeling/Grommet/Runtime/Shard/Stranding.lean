import Grommet.Core.Scheduler.Spent
import Grommet.Runtime.Shard.Reactor

/-!
# A shard does not strand work

A shard that is about to wait or to return has moved nothing since it dispatched and began
flushes in this turn.  If no future is outstanding then, no key is ready and no candidate is
staged, so that there is no work that only another turn could move.

Two branches go wrong.  A pass of the dispatcher can leave a ready key behind: in the ring of a
class without a budget, or in the ring of a class that it has visited before the items in front
of the key expired.  And without a flush slot no candidate goes into flight.  `Passable` and
`Flushable` say of a state that these branches are not taken from it.
-/

open Checked

namespace Grommet

namespace Shard

variable {K I W S : Type} [DecidableEq K] {CLASSES : ℕ}

/-- When a turn begins with nothing outstanding, its pass leaves no ready key behind. -/
def Passable (s : Shard K I W S CLASSES) : Prop :=
  s.phase = .dispatching 0 → s.outstanding = [] → ∀ k c, s.book.presence k = some (.ready c) →
    s.cfg.scheduler.passable s.now none (s.book.contents k) = true

/-- When flushes are to begin with nothing outstanding, there is a slot for them. -/
def Flushable (s : Shard K I W S CLASSES) : Prop :=
  s.phase = .flushing → s.outstanding = [] → s.staged = [] ∨ 0 < s.cfg.flushSlots

/-- Nothing has moved since the flush stage of the turn. -/
def Phase.settled : Phase → Bool
  | .exiting => true
  | .draining count => count == 0
  | .harvesting _ admitted report _ => admitted == 0 && report.finished == 0
  | .servicing admitted report => admitted == 0 && report.finished == 0
  | .waiting => true
  | .returned => true
  | _ => false

/-- Nothing has moved since the pass of the turn. -/
def Phase.passed : Phase → Bool
  | .shedding => true
  | .flushing => true
  | phase => phase.settled

/-- No key is ready. -/
def NoneReady (s : Shard K I W S CLASSES) : Prop :=
  ∀ k c, s.book.presence k ≠ some (.ready c)

/-- The pass has left no ready key behind, unless something is outstanding. -/
structure Swept (s : Shard K I W S CLASSES) : Prop where
  passing : ∀ n, s.phase = .dispatching (n + 1) → s.outstanding = [] →
    ∀ k c, s.book.presence k = some (.ready c) →
      n + 1 ≤ c.toNat ∧ s.cfg.scheduler.passable s.now none (s.book.contents k) = true
  passed : s.phase.passed = true → s.outstanding = [] → s.NoneReady

variable {s s' : Shard K I W S CLASSES} {x : Desk K I W S CLASSES}

/-- A shard that begins a turn, or whose turn moved something, has nothing to show. -/
theorem Swept.trivial (hphase : ∀ n, s.phase ≠ .dispatching (n + 1))
    (hpassed : s.phase.passed = false) :
  s.Swept
  := by
  constructor
  · intro n hn
    exact (hphase n hn).elim
  · intro h
    rw [hpassed] at h
    cases h

/-- What the pass left behind does not change with anything else. -/
theorem Swept.same (h : s.Swept) (hphase : ∀ n, s'.phase ≠ .dispatching (n + 1))
    (hpassed : s'.phase.passed = true → s.phase.passed = true)
    (hjobs : s'.outstanding = [] → s.outstanding = [])
    (hpresence : ∀ k, s'.book.presence k = s.book.presence k) :
  s'.Swept
  := by
  constructor
  · intro n hn
    exact (hphase n hn).elim
  · intro hp hnil k c hk
    rw [hpresence] at hk
    apply h.passed (hpassed hp) (hjobs hnil) k c hk

/-- The book of a shard is what its account says. -/
theorem Sits.represents (h : s.Sits x) :
  ∃ own free, s.book.Represents s.cfg.scheduler x.account.book own free
  := h.holds.1

theorem Sits.presence (h : s.Sits x) (k : K) :
  s.book.presence k = x.account.book.presence k
  := by
  obtain ⟨own, free, hr⟩ := h.represents
  apply hr.presence

theorem Sits.contents (h : s.Sits x) (k : K) :
  s.book.contents k = x.account.book.queue k
  := by
  obtain ⟨own, free, hr⟩ := h.represents
  apply hr.contents

/-- Nothing is in flight when nothing is outstanding. -/
theorem Sits.running_nil (h : s.Sits x) (hnil : s.outstanding = []) :
  x.account.ledger.running = []
  := by
  have hperm := x.running
  rw [← h.jobs, hnil] at hperm
  apply hperm.eq_nil

/-- Nothing is being flushed when nothing is outstanding and nothing is staged. -/
theorem Sits.flushing_nil (h : s.Sits x) (hnil : s.outstanding = []) (hstaged : s.staged = []) :
  x.account.ledger.flushing = []
  := by
  have hperm := x.flushing
  rw [← h.jobs, hnil, ← h.staged, hstaged] at hperm
  apply hperm.eq_nil

/-- A class that is visited leaves no key behind. -/
theorem Sits.clear_next (h : s.Sits x) {n : ℕ} {book : Scheduler K (Stamped I W) S CLASSES}
    (hn : n < CLASSES) (hnil : s.outstanding = [])
    (hclear : ∀ k c, s.book.presence k = some (.ready c) →
      n ≤ c.toNat ∧ s.cfg.scheduler.passable s.now none (s.book.contents k) = true)
    (hnext : s.book.next (UInt8.ofNat n) s.now = .ok (book, none)) :
  ∀ k c, book.presence k = some (.ready c) →
    n + 1 ≤ c.toNat ∧ s.cfg.scheduler.passable s.now none (book.contents k) = true
  := by
  obtain ⟨discarded, a, hstep, ⟨own, free, hr⟩, -⟩ := h.next hnext
  obtain ⟨⟨-, hbook, -, hdispatched⟩, -⟩ := hstep
  have hnone : (x.account.book.turn s.cfg.scheduler (UInt8.ofNat n) s.now).dispatched = none := by
    simpa using hdispatched.symm
  have hbefore : x.account.book.Clear s.cfg.scheduler s.now n := by
    intro k c hk
    rw [← h.presence] at hk
    rw [← h.contents]
    apply hclear k c hk
  have hafter := hbefore.turn x.account.good (h.running_nil hnil) hn hnone
  rw [← hbook] at hafter
  intro k c hk
  rw [hr.presence] at hk
  rw [hr.contents]
  apply hafter k c hk

/-- A pass over all classes leaves no ready key. -/
theorem Sits.noneReady (h : s.Sits x) {n : ℕ} (hn : CLASSES ≤ n)
    (hclear : ∀ k c, s.book.presence k = some (.ready c) → n ≤ c.toNat) :
  s.NoneReady
  := by
  intro k c hk
  have hle := hclear k c hk
  rw [h.presence, Book.presence, Option.map_eq_some_iff] at hk
  obtain ⟨page, hpage, hpresence⟩ := hk
  have hok := x.account.good.page k page id hpage
  simp only [Book.PageOk, hpresence] at hok
  obtain ⟨item, hitem, rfl⟩ := Option.map_eq_some_iff.mp hok
  have hlt := x.account.good.classes k page hpage item (List.mem_of_mem_head? hitem)
  omega

/-- Handing out states makes no key ready. -/
theorem Sits.noneReady_evictAll (h : s.Sits x) {book : Scheduler K (Stamped I W) S CLASSES}
    {out staged : List (K × S)} (hready : s.NoneReady)
    (hevict : s.book.evictAll out = .ok (book, staged)) (k : K) (c : ClassId) :
  book.presence k ≠ some (.ready c)
  := by
  obtain ⟨a, hstep, ⟨own, free, hr⟩, -⟩ := h.call (.evictAll out) True.intro
    (by rw [Scheduler.perform, hevict, ok_bind])
  obtain ⟨⟨hbook, -⟩, -⟩ := hstep
  intro hk
  rw [hr.presence] at hk
  have hmem := (a.good.mem (.ready c) k).mpr ⟨id, hk⟩
  rw [Book.standing, hbook, (Book.evict_frame _ _).1] at hmem
  apply hready k c
  rw [h.presence]
  apply ((x.account.good.mem (.ready c) k).mp hmem).2

variable [DecidableEq I]

/-- A pass that meets its condition leaves no ready key behind. -/
theorem Swept.step {deeds : List (Deed K I W S)} (h : s.Swept) (hsits : s.Sits x)
    (hpassable : s.Passable) (hstep : Step s deeds s') :
  s'.Swept
  := by
  have hclear : ∀ n, s.phase = .dispatching n → s.outstanding = [] →
      ∀ k c, s.book.presence k = some (.ready c) →
        n ≤ c.toNat ∧ s.cfg.scheduler.passable s.now none (s.book.contents k) = true := by
    intro n hphase hnil k c hk
    cases n with
    | zero => exact ⟨Nat.zero_le _, hpassable hphase hnil k c hk⟩
    | succ n => exact h.passing n hphase hnil k c hk
  cases hstep with
  | send envelope _ => exact ⟨h.passing, h.passed⟩
  | disconnect => exact ⟨h.passing, h.passed⟩
  | wake now hphase => exact .trivial (by simp) rfl
  | dispatch hphase _ hnext hpush =>
    rw [push_eq_ok hpush]
    constructor
    · intro n _ hnil
      simp at hnil
    · intro _ hnil
      simp at hnil
  | @nextClass n book hphase hn hnext =>
    constructor
    · rintro m hm hnil
      cases hm
      apply hsits.clear_next hn hnil (hclear n hphase hnil) hnext
    · intro hp
      cases hp
  | @dispatched n hphase hn =>
    constructor
    · intro m hm
      cases hm
    · intro _ hnil
      apply hsits.noneReady hn
      intro k c hk
      apply (hclear n hphase hnil k c hk).1
  | shed hphase hpop =>
    apply h.same
    · simp [hphase]
    · simp [hphase, Phase.passed]
    · exact id
    · intro k
      rfl
  | shedAll hphase hpop =>
    apply h.same
    · simp
    · simp [hphase, Phase.passed]
    · exact id
    · intro k
      rfl
  | flush hphase hbegin _ =>
    rw [beginFlushes_eq_ok hbegin]
    apply h.same
    · simp
    · simp [hphase, Phase.passed]
    · simp only [List.append_eq_nil_iff]
      exact And.left
    · intro k
      rfl
  | @evictAll book staged hphase hdone hfinal hevict =>
    by_cases hempty : staged.isEmpty = true
    · constructor
      · intro n hn
        simp [hempty] at hn
      · intro _ hnil k c
        apply hsits.noneReady_evictAll (h.passed (by rw [hphase]; rfl) hnil) hevict
    · apply Swept.trivial
      · simp [hempty]
      · simp [hempty, Phase.passed, Phase.settled]
  | exit hphase _ _ =>
    exact h.same (by simp) (by simp [hphase, Phase.passed, Phase.settled]) id fun _ => rfl
  | drain hphase _ _ =>
    exact h.same (by simp) (by simp [hphase, Phase.passed, Phase.settled]) id fun _ => rfl
  | skipDrain time hphase _ _ =>
    exact h.same (by simp) (by simp [hphase, Phase.passed, Phase.settled]) id fun _ => rfl
  | receive hphase _ _ hadmitted => exact .trivial (by simp) rfl
  | closed now time hphase _ _ _ =>
    exact .trivial (by simp [endDrain]) (by simp [endDrain, Phase.passed, Phase.settled])
  | pending now time hphase _ =>
    exact h.same (by simp [endDrain]) (by simp [endDrain, hphase, Phase.passed, Phase.settled]) id
      fun _ => rfl
  | full now time hphase _ =>
    exact h.same (by simp [endDrain]) (by simp [endDrain, hphase, Phase.passed, Phase.settled]) id
      fun _ => rfl
  | poll before hphase _ hjobs =>
    constructor
    · intro n hn
      cases hn
    · intro _ hnil
      simp at hnil
  | ran before outcome hphase _ hjobs hfinish =>
    exact .trivial (by simp) (by simp [Phase.passed, Phase.settled])
  | flushed before hphase _ hjobs hfinish =>
    exact .trivial (by simp) (by simp [Phase.passed, Phase.settled])
  | harvested moreReady now hphase =>
    exact h.same (by simp [endHarvest]) (by simp [endHarvest, hphase, Phase.passed, Phase.settled])
      id fun _ => rfl
  | abort hphase => exact .trivial (by simp) rfl
  | @service admitted report fired s' hphase hservice =>
    by_cases hcontinues : continues admitted report fired = true
    · apply Swept.trivial
      · simp [hcontinues]
      · simp [hcontinues, Phase.passed, Phase.settled]
    · simp only [continues, Bool.or_eq_true, decide_eq_true_eq, not_or, not_lt, Nat.le_zero]
        at hcontinues
      rcases serviceTimers_eq_ok hservice with ⟨rfl, -⟩ | ⟨timers, due, -, rfl⟩
      · apply h.same
        · intro n
          split <;> simp
        · intro _
          simp [hphase, Phase.passed, Phase.settled, hcontinues]
        · exact id
        · intro k
          rfl
      · simp at hcontinues
  | suspend hphase => exact .trivial (by simp) rfl
  | resume now hphase => exact .trivial (by simp) rfl

/-- No candidate is staged, unless something is outstanding. -/
def Emptied (s : Shard K I W S CLASSES) : Prop :=
  s.phase.settled = true → s.outstanding = [] → s.staged = []

omit [DecidableEq I] in
/-- Flushes that find a slot take a candidate. -/
theorem Sits.emptied (h : s.Sits x) (hphase : s.phase = .flushing) (hflushable : s.Flushable)
    (hbegin : s.beginFlushes = .ok s') :
  s'.outstanding = [] → s'.staged = []
  := by
  rw [beginFlushes_eq_ok hbegin]
  simp only [List.append_eq_nil_iff]
  rintro ⟨hnil, htaken⟩
  rcases hflushable hphase hnil with hstaged | hslots
  · rw [hstaged, List.drop_nil]
  · have hflushes : s.flushes = 0 := by
      rw [h.flushes, ← h.jobs, hnil]
      rfl
    have hlength := congrArg List.length htaken
    simp only [flushJobs, List.length_map, List.length_take, List.length_nil, room, hflushes] at hlength
    have hstaged : s.staged = [] := by
      apply List.eq_nil_of_length_eq_zero
      omega
    rw [hstaged, List.drop_nil]

/-- A flush stage that meets its condition leaves nothing staged. -/
theorem Emptied.step {deeds : List (Deed K I W S)} (h : s.Emptied) (hsits : s.Sits x)
    (hflushable : s.Flushable) (hstep : Step s deeds s') :
  s'.Emptied
  := by
  intro hsettled hnil
  cases hstep with
  | send envelope _ => exact h hsettled hnil
  | disconnect => exact h hsettled hnil
  | wake now hphase => cases hsettled
  | dispatch hphase _ hnext hpush =>
    rw [push_eq_ok hpush] at hnil
    simp at hnil
  | nextClass hphase _ hnext => cases hsettled
  | dispatched hphase _ => cases hsettled
  | shed hphase hpop =>
    rw [hphase] at hsettled
    cases hsettled
  | shedAll hphase hpop => cases hsettled
  | flush hphase hbegin _ =>
    have hempty := hsits.emptied hphase hflushable hbegin
    exact hempty hnil
  | @evictAll book staged hphase hdone hfinal hevict =>
    by_cases hempty : staged.isEmpty = true
    · apply List.isEmpty_iff.mp hempty
    · simp [hempty, Phase.settled] at hsettled
  | exit hphase _ _ => exact h (by rw [hphase]; rfl) hnil
  | drain hphase _ _ => exact h (by rw [hphase]; rfl) hnil
  | skipDrain time hphase _ _ => exact h (by rw [hphase]; rfl) hnil
  | receive hphase _ _ hadmitted => simp [Phase.settled] at hsettled
  | closed now time hphase _ _ _ => simp [endDrain, Phase.settled] at hsettled
  | pending now time hphase _ =>
    apply h ?_ hnil
    simpa [endDrain, hphase, Phase.settled] using hsettled
  | full now time hphase _ =>
    apply h ?_ hnil
    simpa [endDrain, hphase, Phase.settled] using hsettled
  | poll before hphase _ hjobs => simp at hnil
  | ran before outcome hphase _ hjobs hfinish => simp [Phase.settled] at hsettled
  | flushed before hphase _ hjobs hfinish => simp [Phase.settled] at hsettled
  | harvested moreReady now hphase =>
    apply h ?_ hnil
    simpa [endHarvest, hphase, Phase.settled] using hsettled
  | abort hphase => cases hsettled
  | @service admitted report fired s' hphase hservice =>
    by_cases hcontinues : continues admitted report fired = true
    · simp [hcontinues, Phase.settled] at hsettled
    · simp only [continues, Bool.or_eq_true, decide_eq_true_eq, not_or, not_lt, Nat.le_zero]
        at hcontinues
      rcases serviceTimers_eq_ok hservice with ⟨rfl, -⟩ | ⟨timers, due, -, rfl⟩
      · apply h ?_ hnil
        simp [hphase, Phase.settled, hcontinues]
      · simp at hcontinues
  | suspend hphase => cases hsettled
  | resume now hphase => cases hsettled

omit [DecidableEq I] in
/-- A key with a queue stands in a ring, is in flight or is being flushed. -/
theorem Sits.contents_nil (h : s.Sits x) (hnil : s.outstanding = []) (hstaged : s.staged = [])
    (hready : s.NoneReady) (k : K) :
  s.book.contents k = []
  := by
  rw [h.contents]
  apply x.account.good.queue_nil ?_ (h.running_nil hnil) (h.flushing_nil hnil hstaged)
  intro k c
  rw [← h.presence]
  apply hready

omit [DecidableEq I] in
/-- A quiesced key is staged, or its flush is outstanding. -/
theorem Sits.not_evicting (h : s.Sits x) (hnil : s.outstanding = []) (hstaged : s.staged = [])
    (k : K) :
  s.book.presence k ≠ some .evicting
  := by
  rw [h.presence]
  intro hk
  have hmem := (x.account.good.mem .evicting k).mpr ⟨id, hk⟩
  simp [Book.standing, h.flushing_nil hnil hstaged] at hmem

/-- The shard is about to wait or has returned. -/
def Rests (s : Shard K I W S CLASSES) : Prop :=
  s.phase = .waiting ∨ s.phase = .returned

/-- Some item is queued, some key is quiesced or some candidate is staged. -/
def HasWork (s : Shard K I W S CLASSES) : Prop :=
  (∃ k, s.book.contents k ≠ []) ∨ (∃ k, s.book.presence k = some .evicting) ∨ s.staged ≠ []

/-- A pass and a flush stage that meet their conditions leave nothing behind for a shard that
rests with nothing outstanding. -/
theorem rests_of_trail {cfg : ShardConfig CLASSES} {now : Duration} {wheelId : ℕ}
    {s₀ : Shard K I W S CLASSES} {trace : List (List (Deed K I W S))}
    (hstart : start cfg now wheelId = .ok s₀)
    (hrun : Trail (fun s deeds s' => Step s deeds s' ∧ s.Passable ∧ s.Flushable) s₀ trace s)
    (hrests : s.Rests) (hnil : s.outstanding = []) :
  s.staged = [] ∧ s.NoneReady
  := by
  have hinv : (∃ x, s.Sits x) ∧ s.Swept ∧ s.Emptied := by
    apply hrun.invariant fun _ (s : Shard K I W S CLASSES) => (∃ x, s.Sits x) ∧ s.Swept ∧ s.Emptied
    · obtain ⟨-, -, -, -, -, hstaged, -, -, -, hphase⟩ := start_eq_ok hstart
      refine ⟨⟨_, Sits.start hstart⟩, .trivial (by simp [hphase]) (by rw [hphase]; rfl), ?_⟩
      intro _ _
      apply hstaged
    · rintro _ s₁ deeds s₂ - ⟨⟨x, hsits⟩, hswept, hemptied⟩ ⟨hstep, hpassable, hflushable⟩
      obtain ⟨trace', y, -, -, hsits'⟩ := hsits.step hstep
      exact ⟨⟨y, hsits'⟩, hswept.step hsits hpassable hstep, hemptied.step hsits hflushable hstep⟩
  obtain ⟨-, hswept, hemptied⟩ := hinv
  have hsettled : s.phase.settled = true ∧ s.phase.passed = true := by
    rcases hrests with hphase | hphase
    · rw [hphase]
      exact ⟨rfl, rfl⟩
    · rw [hphase]
      exact ⟨rfl, rfl⟩
  exact ⟨hemptied hsettled.1 hnil, hswept.passed hsettled.2 hnil⟩

/-- In every run in which the pass of a turn that begins with nothing outstanding leaves no
ready key behind, and flushes that begin with nothing outstanding have a slot, a shard that
waits or returns with work has a future outstanding. -/
theorem resting_shard_has_no_stranded_work {cfg : ShardConfig CLASSES} {now : Duration}
    {wheelId : ℕ} {s₀ : Shard K I W S CLASSES} {trace : List (List (Deed K I W S))}
    (hstart : start cfg now wheelId = .ok s₀)
    (hrun : Trail (fun s deeds s' => Step s deeds s' ∧ s.Passable ∧ s.Flushable) s₀ trace s)
    (hrests : s.Rests) (hwork : s.HasWork) :
  s.outstanding ≠ []
  := by
  obtain ⟨-, x, -, -, hsits, -⟩ :=
    sits_of_trail (hrun.mono fun _ _ _ h => h.1) (Sits.start hstart)
  intro hnil
  obtain ⟨hstaged, hready⟩ := rests_of_trail hstart hrun hrests hnil
  rcases hwork with ⟨k, hk⟩ | ⟨k, hk⟩ | hne
  · apply hk (hsits.contents_nil hnil hstaged hready k)
  · apply hsits.not_evicting hnil hstaged k hk
  · apply hne hstaged

/-- A shard that waits with an item queued behind one that is processed. -/
theorem resting_shard_has_no_stranded_work_queued :
  ∃ (s₀ s : Shard Unit Unit ℕ ℕ 1) (trace : List (List (Deed Unit Unit ℕ ℕ))),
    start (.new fun _ => 1) 0 1 = .ok s₀ ∧
    Trail (fun s deeds s' => Step s deeds s' ∧ s.Passable ∧ s.Flushable) s₀ trace s ∧
    s.Rests ∧ s.HasWork ∧ s.outstanding ≠ []
  := by
  have h₀ : Trail (fun s deeds s' => Step s deeds s' ∧ s.Passable ∧ s.Flushable)
      ((start (.new fun _ => 1) 0 1 : Checked (Shard Unit Unit ℕ ℕ 1)).toOption.get rfl) [] _ := .nil
  have h₁ := h₀.snoc ⟨.send ⟨(), 0, none, none, 0, 40⟩ rfl, nofun, nofun⟩
  have h₂ := h₁.snoc ⟨.send ⟨(), 0, none, none, 0, 41⟩ rfl, nofun, nofun⟩
  have h₃ := h₂.snoc ⟨.wake 1 rfl, nofun, nofun⟩
  have h₄ := h₃.snoc ⟨.nextClass rfl (by decide) rfl, by rintro _ _ ⟨⟩ c ⟨⟩, nofun⟩
  have h₅ := h₄.snoc ⟨.dispatched rfl (by decide), nofun, nofun⟩
  have h₆ := h₅.snoc ⟨.shedAll rfl rfl, nofun, nofun⟩
  have h₇ := h₆.snoc ⟨.flush rfl rfl rfl, nofun, fun _ _ => .inl rfl⟩
  have h₈ := h₇.snoc ⟨.drain rfl rfl rfl, nofun, nofun⟩
  have h₉ := h₈.snoc ⟨.receive rfl rfl rfl rfl, nofun, nofun⟩
  have h₁₀ := h₉.snoc ⟨.receive rfl rfl rfl rfl, nofun, nofun⟩
  have h₁₁ := h₁₀.snoc ⟨.pending 2 2 rfl rfl, nofun, nofun⟩
  have h₁₂ := h₁₁.snoc ⟨.harvested false 2 rfl, nofun, nofun⟩
  have h₁₃ := h₁₂.snoc ⟨.service rfl rfl, nofun, nofun⟩
  have h₁₄ := h₁₃.snoc ⟨.dispatch rfl (by decide) rfl rfl, by rintro _ _ ⟨⟩ c _; rfl, nofun⟩
  have h₁₅ := h₁₄.snoc ⟨.nextClass rfl (by decide) rfl, nofun, nofun⟩
  have h₁₆ := h₁₅.snoc ⟨.dispatched rfl (by decide), nofun, nofun⟩
  have h₁₇ := h₁₆.snoc ⟨.shedAll rfl rfl, nofun, nofun⟩
  have h₁₈ := h₁₇.snoc ⟨.flush rfl rfl rfl, nofun, nofun⟩
  have h₁₉ := h₁₈.snoc ⟨.drain rfl rfl rfl, nofun, nofun⟩
  have h₂₀ := h₁₉.snoc ⟨.pending 3 3 rfl rfl, nofun, nofun⟩
  have h₂₁ := h₂₀.snoc ⟨.poll [] rfl (by decide) rfl, nofun, nofun⟩
  have h₂₂ := h₂₁.snoc ⟨.harvested false 3 rfl, nofun, nofun⟩
  have h₂₃ := h₂₂.snoc ⟨.service rfl rfl, nofun, nofun⟩
  have hstart : start (.new fun _ => 1) 0 1 = .ok ((start (.new fun _ => 1) 0 1 :
      Checked (Shard Unit Unit ℕ ℕ 1)).toOption.get rfl) := rfl
  refine ⟨_, _, _, hstart, h₂₃, .inl rfl, .inl ⟨(), nofun⟩, ?_⟩
  apply resting_shard_has_no_stranded_work hstart h₂₃ (.inl rfl) (.inl ⟨(), nofun⟩)

/-- Without flush slots a shard that closes waits for ever on the state that it handed out. -/
theorem shard_without_flush_slots_waits :
  ¬ ∀ (cfg : ShardConfig 1) (now : Duration) (wheelId : ℕ) (s₀ s : Shard Unit Unit ℕ ℕ 1)
      (trace : List (List (Deed Unit Unit ℕ ℕ))),
    start cfg now wheelId = .ok s₀ → Trail Step s₀ trace s → s.Rests → s.HasWork →
    s.outstanding ≠ []
  := by
  intro h
  have hstart : start { ShardConfig.new fun _ => 1 with flushSlots := 0 } 0 1 =
      .ok ((start { ShardConfig.new fun _ => 1 with flushSlots := 0 } 0 1 :
        Checked (Shard Unit Unit ℕ ℕ 1)).toOption.get rfl) := rfl
  have h₀ : Trail Step ((start { ShardConfig.new fun _ => 1 with flushSlots := 0 } 0 1 :
      Checked (Shard Unit Unit ℕ ℕ 1)).toOption.get rfl) [] _ := .nil
  -- The shard receives one item, after the last handle of its mailbox was dropped.
  have h₁ := h₀.snoc (.send ⟨(), 0, none, none, 0, 40⟩ rfl)
  have h₂ := h₁.snoc .disconnect
  have h₃ := h₂.snoc (.wake 1 rfl)
  have h₄ := h₃.snoc (.nextClass rfl (by decide) rfl)
  have h₅ := h₄.snoc (.dispatched rfl (by decide))
  have h₆ := h₅.snoc (.shedAll rfl rfl)
  have h₇ := h₆.snoc (.flush rfl rfl rfl)
  have h₈ := h₇.snoc (.drain rfl rfl rfl)
  have h₉ := h₈.snoc (.receive rfl rfl rfl rfl)
  have h₁₀ := h₉.snoc (.closed 2 2 rfl rfl rfl rfl)
  have h₁₁ := h₁₀.snoc (.harvested false 2 rfl)
  have h₁₂ := h₁₁.snoc (.service rfl rfl)
  -- It is processed, and its state is kept.
  have h₁₃ := h₁₂.snoc (.dispatch rfl (by decide) rfl rfl)
  have h₁₄ := h₁₃.snoc (.nextClass rfl (by decide) rfl)
  have h₁₅ := h₁₄.snoc (.dispatched rfl (by decide))
  have h₁₆ := h₁₅.snoc (.shedAll rfl rfl)
  have h₁₇ := h₁₆.snoc (.flush rfl rfl rfl)
  have h₁₈ := h₁₇.snoc (.skipDrain 3 rfl rfl rfl)
  have h₁₉ := h₁₈.snoc (.ran [] (.ok (.keep 3)) rfl (by decide) rfl rfl)
  have h₂₀ := h₁₉.snoc (.harvested false 3 rfl)
  have h₂₁ := h₂₀.snoc (.service rfl rfl)
  -- The last turn before the exit stages it, and it stays there.
  have h₂₂ := h₂₁.snoc (.nextClass rfl (by decide) rfl)
  have h₂₃ := h₂₂.snoc (.dispatched rfl (by decide))
  have h₂₄ := h₂₃.snoc (.shedAll rfl rfl)
  have h₂₅ := h₂₄.snoc (.flush rfl rfl rfl)
  have h₂₆ := h₂₅.snoc (.evictAll rfl rfl rfl rfl)
  have h₂₇ := h₂₆.snoc (.nextClass rfl (by decide) rfl)
  have h₂₈ := h₂₇.snoc (.dispatched rfl (by decide))
  have h₂₉ := h₂₈.snoc (.shedAll rfl rfl)
  have h₃₀ := h₂₉.snoc (.flush rfl rfl rfl)
  have h₃₁ := h₃₀.snoc (.skipDrain 4 rfl rfl rfl)
  have h₃₂ := h₃₁.snoc (.harvested false 4 rfl)
  have h₃₃ := h₃₂.snoc (.service rfl rfl)
  apply h _ _ _ _ _ _ hstart h₃₃ (.inl rfl) (.inr (.inr nofun)) rfl

end Shard

end Grommet
