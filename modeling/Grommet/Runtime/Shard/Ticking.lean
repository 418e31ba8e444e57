import Grommet.Core.Timer.Single
import Grommet.Runtime.Shard.Reactor

/-!
# The tick of a shard

The wheel of a shard holds the tick and nothing else.  Whether the tick can be armed depends on
the tick that its time is rounded up to: that one has to exist and to be within the reach of the
wheel.  After the tick has fired the wheel is due again at the same reading of the clock unless
the new tick is after the reading.
-/

open Checked
open Grommet.Timer (SHIFT MAX_TICK MAX_DELAY_TICKS NEXT_WHEEL_ID allocateWheelId Wheel
  durationToTickCeil durationToTickFloor)

namespace Grommet

variable {K I W S : Type} {CLASSES : ℕ}

/-- The tick for which the tick timer is armed at a reading of the clock. -/
def ShardConfig.nextTick (cfg : ShardConfig CLASSES) (now : Duration) : Option ℕ :=
  durationToTickCeil SHIFT (saturatingAdd now cfg.tick)

namespace Shard

/-- The wheel holds the tick and nothing else. -/
def Armed (s : Shard K I W S CLASSES) : Prop :=
  s.timers.Good ∧ ∃ d, s.timers.Sole d

/-! ### Arming -/

section

variable {w w' : Wheel Timer} {deadline : Duration} {message : String}

/-- The tick that was armed is the only timer. -/
theorem insertTick_eq_ok (h : w.Good) (hbare : w.Bare)
    (hinsert : insertTick w deadline message = .ok w') :
  ∃ d, durationToTickCeil SHIFT deadline = some d ∧ w'.Good ∧ w'.cursor = w.cursor ∧ w'.Sole d
  := by
  rw [insertTick, bind_eq_ok] at hinsert
  obtain ⟨⟨w₁, inserted⟩, hinsert, hexpect⟩ := hinsert
  simp only [bind_eq_ok] at hexpect
  obtain ⟨id, hid, hexpect⟩ := hexpect
  cases hexpect
  rw [expect_eq_ok] at hid
  cases inserted with
  | error e => cases hid
  | ok id' =>
    rw [Wheel.tryInsertDuration] at hinsert
    cases hceil : durationToTickCeil SHIFT deadline with
    | none =>
      rw [hceil] at hinsert
      cases hinsert
    | some d =>
      rw [hceil] at hinsert
      exact ⟨d, rfl, h.insert_sole hbare hinsert⟩

/-- The tick can be armed exactly for a time within the reach of the wheel. -/
theorem insertTick_iff (h : w.Good) (hbare : w.Bare) (deadline : Duration) (message : String) :
  (∃ w', insertTick w deadline message = .ok w') ↔
    w.Spare ∧ ∃ d, durationToTickCeil SHIFT deadline = some d ∧ d ≤ w.cursor + MAX_DELAY_TICKS
  := by
  cases hceil : durationToTickCeil SHIFT deadline with
  | none =>
    constructor
    · rintro ⟨w', hinsert⟩
      obtain ⟨d, hd, -⟩ := insertTick_eq_ok h hbare hinsert
      rw [hceil] at hd
      cases hd
    · rintro ⟨-, d, hd, -⟩
      cases hd
  | some d =>
    have hmax : d ≤ MAX_TICK := (Grommet.Timer.ceil_bounds hceil).2.2
    have hiff := h.insert_iff hbare (t := Timer.tick) (d := d)
    constructor
    · rintro ⟨w', hinsert⟩
      rw [insertTick, Wheel.tryInsertDuration, hceil, bind_eq_ok] at hinsert
      obtain ⟨⟨w₁, inserted⟩, hinsert, hexpect⟩ := hinsert
      simp only [bind_eq_ok] at hexpect
      obtain ⟨id, hid, -⟩ := hexpect
      rw [expect_eq_ok] at hid
      cases inserted with
      | error e => cases hid
      | ok id' =>
        obtain ⟨-, hreach, hspare⟩ := hiff.mp ⟨w₁, id', hinsert⟩
        exact ⟨hspare, d, rfl, hreach⟩
    · rintro ⟨hspare, d', hd', hreach⟩
      cases hd'
      obtain ⟨w', id, hinsert⟩ := hiff.mpr ⟨hmax, hreach, hspare⟩
      refine ⟨w', ?_⟩
      rw [insertTick, Wheel.tryInsertDuration, hceil]
      simp only [hinsert, ok_bind, Except.toOption, expect_some]

end

/-! ### Service -/

section

variable [DecidableEq K] {s s' : Shard K I W S CLASSES} {d n : ℕ}

/-- The wheel is due at a reading of the clock when its next event is. -/
theorem isDue_iff (w : Wheel Timer) {now : Duration} (hn : durationToTickFloor SHIFT now = some n) :
  w.isDueDuration SHIFT now = true ↔ w.nextEvent ≤ n
  := by
  rw [Wheel.isDueDuration, hn]
  apply decide_eq_true_iff

/-- A service before the tick only moves the wheel. -/
theorem serviceTimers_early (h : s.timers.Good) (hsole : s.timers.Sole d)
    (hn : durationToTickFloor SHIFT s.now = some n)
    (hdue : s.timers.isDueDuration SHIFT s.now = true) (hearly : n < d) :
  ∃ timers, s.serviceTimers = .ok ({ s with timers := timers }, true) ∧ timers.Good ∧
    timers.cursor = n ∧ timers.Sole d
  := by
  have hmax := (Grommet.Timer.durationToTickFloor_eq_some.mp hn).2
  have hcursor := h.cursor_le_event.trans ((isDue_iff _ hn).mp hdue)
  obtain ⟨timers, tokens, hadvance, hgood, hcursor', -, hcase⟩ := h.advance_sole hsole hcursor hmax
  rcases hcase with ⟨hle, -⟩ | ⟨-, hsole', rfl⟩
  · omega
  · refine ⟨timers, ?_, hgood, hcursor', hsole'⟩
    rw [serviceTimers, if_pos hdue, Wheel.advanceDuration, hn, Option.map_some, expect_some,
      ok_bind, hadvance, ok_bind]
    rfl

/-- A service at the tick runs it on the wheel without it. -/
theorem serviceTimers_fires (h : s.timers.Good) (hsole : s.timers.Sole d)
    (hn : durationToTickFloor SHIFT s.now = some n)
    (hdue : s.timers.isDueDuration SHIFT s.now = true) (hfires : d ≤ n) :
  ∃ timers, timers.Good ∧ timers.cursor = n ∧ timers.Bare ∧ (timers.Spare ↔ s.timers.Spare) ∧
    s.serviceTimers =
      (serviceTimer { s with timers := timers } .tick >>= fun s' => .ok (s', true))
  := by
  have hmax := (Grommet.Timer.durationToTickFloor_eq_some.mp hn).2
  have hcursor := h.cursor_le_event.trans ((isDue_iff _ hn).mp hdue)
  obtain ⟨timers, tokens, hadvance, hgood, hcursor', hspare, hcase⟩ :=
    h.advance_sole hsole hcursor hmax
  rcases hcase with ⟨-, hbare, ⟨t, rfl⟩⟩ | ⟨hlt, -⟩
  · refine ⟨timers, hgood, hcursor', hbare, hspare, ?_⟩
    cases t with
    | tick =>
      rw [serviceTimers, if_pos hdue, Wheel.advanceDuration, hn, Option.map_some, expect_some,
        ok_bind, hadvance, ok_bind]
      simp only [List.foldlM_cons, List.foldlM_nil]
      cases serviceTimer { s with timers := timers } Timer.tick with
      | ok s' => rfl
      | error e => rfl
  · omega

/-- The sweep of a tick returns. -/
theorem Sits.sweeps {x : Desk K I W S CLASSES} (h : s.Sits x) :
  ∃ book staged, s.sweep = .ok (book, staged)
  := by
  rw [sweep]
  split
  · obtain ⟨⟨own, free, hr⟩, -⟩ := h.holds
    obtain ⟨m, book, hevict, -⟩ := hr.evictLoop x.account.good s.now s.book.cfg.evictIters s.staged
    exact ⟨book, _, hevict⟩
  · exact ⟨_, _, rfl⟩

/-- The tick runs exactly when it can be armed again. -/
theorem Sits.tick_iff {x : Desk K I W S CLASSES} (h : s.Sits x) (hgood : s.timers.Good)
    (hbare : s.timers.Bare) :
  (∃ s', s.serviceTimer .tick = .ok s') ↔
    s.timers.Spare ∧ ∃ d, s.cfg.nextTick s.now = some d ∧ d ≤ s.timers.cursor + MAX_DELAY_TICKS
  := by
  obtain ⟨book, staged, hsweep⟩ := h.sweeps
  have hiff := insertTick_iff hgood hbare (saturatingAdd s.now s.cfg.tick)
    "the tick is the only timer, so its slot is free"
  rw [ShardConfig.nextTick, ← hiff, Shard.serviceTimer, hsweep, ok_bind]
  constructor
  · rintro ⟨s', hservice⟩
    simp only [bind_eq_ok] at hservice
    obtain ⟨timers, hinsert, -⟩ := hservice
    exact ⟨timers, hinsert⟩
  · rintro ⟨timers, hinsert⟩
    simp only [hinsert, ok_bind]
    exact ⟨_, rfl⟩

/-- A tick that ran is armed again. -/
theorem tick_sole (hgood : s.timers.Good) (hbare : s.timers.Bare)
    (hservice : s.serviceTimer .tick = .ok s') :
  ∃ d, s.cfg.nextTick s.now = some d ∧ s'.timers.Good ∧ s'.timers.cursor = s.timers.cursor ∧
    s'.timers.Sole d
  := by
  rw [serviceTimer, bind_eq_ok] at hservice
  obtain ⟨⟨book, staged⟩, -, hservice⟩ := hservice
  simp only [bind_eq_ok] at hservice
  obtain ⟨timers, hinsert, hservice⟩ := hservice
  cases hservice
  apply insertTick_eq_ok hgood hbare hinsert

/-- A service keeps the tick on the wheel. -/
theorem Armed.service {fired : Bool} (h : s.Armed) (hservice : s.serviceTimers = .ok (s', fired)) :
  s'.Armed
  := by
  obtain ⟨hgood, d, hsole⟩ := h
  by_cases hdue : s.timers.isDueDuration SHIFT s.now = true
  swap
  · rw [serviceTimers, if_neg hdue] at hservice
    cases hservice
    exact ⟨hgood, d, hsole⟩
  cases hn : durationToTickFloor SHIFT s.now with
  | none =>
    rw [serviceTimers, if_pos hdue, Wheel.advanceDuration, hn] at hservice
    cases hservice
  | some n =>
    by_cases hfires : d ≤ n
    · obtain ⟨timers, hgood', -, hbare, -, heq⟩ := serviceTimers_fires hgood hsole hn hdue hfires
      rw [heq, bind_eq_ok] at hservice
      obtain ⟨s₁, hservice, hs₁⟩ := hservice
      cases hs₁
      obtain ⟨d', -, hgood₁, -, hsole₁⟩ :=
        tick_sole (s := { s with timers := timers }) hgood' hbare hservice
      exact ⟨hgood₁, d', hsole₁⟩
    · obtain ⟨timers, heq, hgood', -, hsole'⟩ :=
        serviceTimers_early hgood hsole hn hdue (Nat.not_le.mp hfires)
      rw [heq] at hservice
      cases hservice
      exact ⟨hgood', d, hsole'⟩

end

/-! ### The loop -/

section

variable [DecidableEq K] [DecidableEq I] {s s' : Shard K I W S CLASSES} {n : ℕ}

/-- Only the service of timers changes the wheel. -/
theorem Step.timers_eq {deeds : List (Deed K I W S)} (hstep : Step s deeds s')
    (hphase : ∀ admitted report, s.phase ≠ .servicing admitted report) :
  s'.timers = s.timers
  := by
  apply hstep.frame.2.resolve_right
  rintro ⟨admitted, report, hservicing⟩
  exact hphase admitted report hservicing

/-- Every step keeps the tick on the wheel. -/
theorem Armed.step {deeds : List (Deed K I W S)} (h : s.Armed) (hstep : Step s deeds s') :
  s'.Armed
  := by
  by_cases hphase : ∀ admitted report, s.phase ≠ .servicing admitted report
  · rw [Armed, hstep.timers_eq hphase]
    apply h
  · simp only [not_forall, not_not] at hphase
    obtain ⟨admitted, report, hphase⟩ := hphase
    cases hstep with
    | service _ hservice =>
      have harmed := h.service hservice
      exact harmed
    | send _ _ => exact h
    | disconnect => exact h
    | _ => simp_all

omit [DecidableEq K] [DecidableEq I] in
/-- A shard starts exactly when its futures fit and its tick can be armed. -/
theorem start_iff {cfg : ShardConfig CLASSES} {now : Duration} {wheelId : ℕ}
    (hid : wheelId ≠ 0 ∧ wheelId < 2 ^ 32) :
  (∃ s : Shard K I W S CLASSES, start cfg now wheelId = .ok s) ↔
    cfg.capacity ≤ Outstanding.MAX_CAPACITY ∧ ∃ d, cfg.nextTick now = some d ∧ d ≤ MAX_DELAY_TICKS
  := by
  obtain ⟨w, hw, hspare⟩ : ∃ w : Wheel Timer,
      Wheel.withCapacityAtTick TIMERS 0 wheelId = .ok w ∧ w.Spare :=
    ⟨_, rfl, ⟨0, 0, none⟩, List.mem_of_getElem? (i := 0) rfl, by decide⟩
  obtain ⟨hgood, hcursor, hnone, -⟩ := Grommet.Timer.good_new hid hw
  have hbare : w.Bare := by
    intro c hc
    obtain ⟨core, hcore, rfl⟩ := List.mem_map.mp hc
    apply hnone core hcore
  have hiff := insertTick_iff hgood hbare (saturatingAdd now cfg.tick)
    "a fresh wheel has room for the tick"
  rw [hcursor, Nat.zero_add] at hiff
  simp only [start, bind_eq_ok, assert_eq_ok, decide_eq_true_eq]
  constructor
  · rintro ⟨s, u, hfits, w', hw', timers, hinsert, -⟩
    rw [hw] at hw'
    cases hw'
    exact ⟨hfits, (hiff.mp ⟨timers, hinsert⟩).2⟩
  · rintro ⟨hfits, hreach⟩
    obtain ⟨timers, hinsert⟩ := hiff.mpr ⟨hspare, hreach⟩
    exact ⟨_, (), hfits, w, hw, timers, hinsert, rfl⟩

omit [DecidableEq K] [DecidableEq I] in
/-- A shard starts with its tick armed. -/
theorem Armed.start {cfg : ShardConfig CLASSES} {now : Duration} {wheelId : ℕ}
    (hid : wheelId ≠ 0 ∧ wheelId < 2 ^ 32) (h : Shard.start cfg now wheelId = .ok s) :
  s.Armed
  := by
  simp only [Shard.start, bind_eq_ok] at h
  obtain ⟨-, -, w, hw, timers, hinsert, h⟩ := h
  cases h
  obtain ⟨hgood, -, hnone, -⟩ := Grommet.Timer.good_new hid hw
  have hbare : w.Bare := by
    intro c hc
    obtain ⟨core, hcore, rfl⟩ := List.mem_map.mp hc
    apply hnone core hcore
  obtain ⟨d, -, hgood', -, hsole⟩ := insertTick_eq_ok hgood hbare hinsert
  exact ⟨hgood', d, hsole⟩

/-- A step that leaves the clock alone and does not service the timers. -/
def Quiet (s : Shard K I W S CLASSES) (deeds : List (Deed K I W S)) (s' : Shard K I W S CLASSES) :
    Prop :=
  Step s deeds s' ∧ s'.now = s.now ∧ ∀ admitted report, s.phase ≠ .servicing admitted report

/-- The wheel stays due, or not, until its next service. -/
theorem Quiet.isDue_eq {trace : List (List (Deed K I W S))} (h : Trail Quiet s trace s') :
  s'.timers.isDueDuration SHIFT s'.now = s.timers.isDueDuration SHIFT s.now
  := by
  apply h.invariant fun _ (s' : Shard K I W S CLASSES) =>
    s'.timers.isDueDuration SHIFT s'.now = s.timers.isDueDuration SHIFT s.now
  · rfl
  · rintro _ s₁ deeds s₂ - ih ⟨hstep, hnow, hphase⟩
    rw [hnow, hstep.timers_eq hphase]
    apply ih

/-- The timers run, the wheel is not due again at the same reading of the clock, and the next
turn that neither moves anything nor reads the clock ends in a wait. -/
def Settles (s : Shard K I W S CLASSES) : Prop :=
  ∃ s', s.serviceTimers = .ok (s', true) ∧ s'.timers.isDueDuration SHIFT s.now = false ∧
    ∀ trace s₂ polled, Trail Quiet { s' with phase := .dispatching 0 } trace s₂ →
      s₂.phase = .servicing 0 ⟨polled, 0, false⟩ → Step s₂ [] { s₂ with phase := .waiting }

/-- A service that leaves the wheel not due settles. -/
theorem settles_iff :
  s.Settles ↔ ∃ s', s.serviceTimers = .ok (s', true) ∧ s'.timers.isDueDuration SHIFT s.now = false
  := by
  constructor
  · rintro ⟨s', hservice, hdue, -⟩
    exact ⟨s', hservice, hdue⟩
  · rintro ⟨s', hservice, hdue⟩
    refine ⟨s', hservice, hdue, ?_⟩
    intro trace s₂ polled htrail hphase
    have hsame := Quiet.isDue_eq htrail
    have hnow : s'.now = s.now := by
      obtain ⟨book, staged, timers, rfl⟩ := serviceTimers_frame hservice
      rfl
    simp only [hnow, hdue] at hsame
    have hidle : s₂.serviceTimers = .ok (s₂, false) := by
      rw [serviceTimers, hsame]
      rfl
    apply Step.service hphase hidle

/-- A service of a due wheel settles exactly when the tick, if it fires, can be armed again for a
tick after the reading of the clock. -/
theorem Sits.settles_iff {x : Desk K I W S CLASSES} (h : s.Sits x) (harmed : s.Armed)
    (hn : durationToTickFloor SHIFT s.now = some n)
    (hdue : s.timers.isDueDuration SHIFT s.now = true) :
  s.Settles ↔ ∀ d, s.timers.Sole d → d ≤ n →
    s.timers.Spare ∧ ∃ d', s.cfg.nextTick s.now = some d' ∧ n < d' ∧ d' ≤ n + MAX_DELAY_TICKS
  := by
  rw [Shard.settles_iff]
  obtain ⟨hgood, d, hsole⟩ := harmed
  by_cases hfires : d ≤ n
  · obtain ⟨timers, hgood', hcursor, hbare, hspare, heq⟩ :=
      serviceTimers_fires hgood hsole hn hdue hfires
    have hsits : ({ s with timers := timers } : Shard K I W S CLASSES).Sits x :=
      h.same rfl rfl rfl rfl rfl id
    have hiff := hsits.tick_iff hgood' hbare
    simp only [hspare, hcursor] at hiff
    have hagain : ∀ {s' : Shard K I W S CLASSES},
        Shard.serviceTimer { s with timers := timers } .tick = .ok s' →
        ∃ d', s.cfg.nextTick s.now = some d' ∧
          (s'.timers.isDueDuration SHIFT s.now = false ↔ n < d') := by
      intro s' hservice
      obtain ⟨d', hd', hgood₁, hcursor₁, hsole₁⟩ :=
        tick_sole (s := { s with timers := timers }) hgood' hbare hservice
      refine ⟨d', hd', ?_⟩
      have hdue₁ := hgood₁.due_sole hsole₁
      rw [hcursor₁, hcursor, ← isDue_iff _ hn] at hdue₁
      rw [← Bool.not_eq_true, hdue₁, Nat.not_le]
    constructor
    · rintro ⟨s', hservice, hlater⟩ _ - -
      rw [heq, bind_eq_ok] at hservice
      obtain ⟨s₁, hservice, hs₁⟩ := hservice
      cases hs₁
      obtain ⟨hfree, d', hd', hreach⟩ := hiff.mp ⟨_, hservice⟩
      obtain ⟨d'', hd'', hlt⟩ := hagain hservice
      rw [hd', Option.some.injEq] at hd''
      subst hd''
      exact ⟨hfree, d', hd', hlt.mp hlater, hreach⟩
    · intro hall
      obtain ⟨hfree, d', hd', hlt, hreach⟩ := hall d hsole hfires
      obtain ⟨s', hservice⟩ := hiff.mpr ⟨hfree, d', hd', hreach⟩
      obtain ⟨d'', hd'', hiff'⟩ := hagain hservice
      rw [hd', Option.some.injEq] at hd''
      subst hd''
      refine ⟨s', ?_, hiff'.mpr hlt⟩
      rw [heq, hservice, ok_bind]
  · obtain ⟨timers, heq, hgood', hcursor, hsole'⟩ :=
      serviceTimers_early hgood hsole hn hdue (Nat.not_le.mp hfires)
    constructor
    · intro _ d' hsole₁ hle
      exfalso
      apply hfires
      rwa [hsole.unique hsole₁]
    · intro _
      refine ⟨_, heq, ?_⟩
      have hdue₁ := hgood'.due_sole hsole'
      rw [hcursor, ← isDue_iff _ hn] at hdue₁
      rw [← Bool.not_eq_true, hdue₁]
      apply hfires

/-- A shard can arm its tick at the start exactly when the time of the tick is rounded up to a
tick within the reach of the wheel.  In every run, a service of a due wheel settles exactly when
the tick does not fire or can be armed again for a tick after the reading of the clock. -/
theorem tick_is_armed_again {cfg : ShardConfig CLASSES} {next wheelId after : ℕ}
    (hnext : NEXT_WHEEL_ID ≤ next) (hid : allocateWheelId next = .ok (wheelId, after)) :
  (∀ now, (∃ s₀ : Shard K I W S CLASSES, start cfg now wheelId = .ok s₀) ↔
    cfg.capacity ≤ Outstanding.MAX_CAPACITY ∧
      ∃ d, cfg.nextTick now = some d ∧ d ≤ MAX_DELAY_TICKS) ∧
  ∀ (now : Duration) (s₀ s : Shard K I W S CLASSES) (trace : List (List (Deed K I W S))) (n : ℕ),
    start cfg now wheelId = .ok s₀ → Trail Step s₀ trace s →
    durationToTickFloor SHIFT s.now = some n → s.timers.isDueDuration SHIFT s.now = true →
    (s.Settles ↔ ∀ d, s.timers.Sole d → d ≤ n →
      s.timers.Spare ∧ ∃ d', cfg.nextTick s.now = some d' ∧ n < d' ∧ d' ≤ n + MAX_DELAY_TICKS)
  := by
  have hwheel := Grommet.Timer.allocateWheelId_spec hnext hid
  refine ⟨fun now => start_iff hwheel, ?_⟩
  intro now s₀ s trace n hstart hrun hn hdue
  obtain ⟨-, x, -, -, hsits, hcfg⟩ := sits_of_trail hrun (Sits.start hstart)
  have harmed : s.Armed := by
    apply hrun.invariant fun _ (s : Shard K I W S CLASSES) => s.Armed
    · apply Armed.start hwheel hstart
    · intro _ _ _ _ _ harmed hstep
      apply harmed.step hstep
  rw [← (start_eq_ok hstart).1, ← hcfg]
  apply hsits.settles_iff harmed hn hdue

/-- A tick of `1024` nanoseconds that fires at `2048` is armed again. -/
theorem tick_is_armed_again_later :
  ∃ (s₀ s : Shard Unit Unit ℕ ℕ 1) (trace : List (List (Deed Unit Unit ℕ ℕ))),
    start { ShardConfig.new fun _ => 1 with tick := 1024 } 0 1 = .ok s₀ ∧ Trail Step s₀ trace s ∧
    s.phase = .servicing 0 ⟨0, 0, false⟩ ∧ s.now = 2048 ∧
    s.timers.isDueDuration SHIFT s.now = true ∧ s.Settles
  := by
  have hstart : start { ShardConfig.new fun _ => 1 with tick := 1024 } 0 1 =
      .ok ((start { ShardConfig.new fun _ => 1 with tick := 1024 } 0 1 :
        Checked (Shard Unit Unit ℕ ℕ 1)).toOption.get rfl) := rfl
  have h₀ : Trail Step ((start { ShardConfig.new fun _ => 1 with tick := 1024 } 0 1 :
      Checked (Shard Unit Unit ℕ ℕ 1)).toOption.get rfl) [] _ := .nil
  have h₁ := h₀.snoc (.wake 2048 rfl)
  have h₂ := h₁.snoc (.nextClass rfl (by decide) rfl)
  have h₃ := h₂.snoc (.dispatched rfl (by decide))
  have h₄ := h₃.snoc (.shedAll rfl rfl)
  have h₅ := h₄.snoc (.flush rfl rfl rfl)
  have h₆ := h₅.snoc (.drain rfl rfl rfl)
  have h₇ := h₆.snoc (.pending 2048 2048 rfl rfl)
  have h₈ := h₇.snoc (.harvested false 2048 rfl)
  have hid : allocateWheelId 1 = .ok (1, 2) := rfl
  have hagain : ({ ShardConfig.new fun _ => 1 with tick := 1024 } : ShardConfig 1).nextTick 2048 =
      some 3 := by decide
  refine ⟨_, _, _, hstart, h₈, rfl, rfl, rfl, ?_⟩
  rw [(tick_is_armed_again le_rfl hid).2 _ _ _ _ 2 hstart h₈ rfl rfl]
  intro _ _ _
  exact ⟨⟨⟨0, 0, none⟩, List.mem_of_getElem? (i := 1) rfl, by decide⟩, 3, hagain, by decide,
    by decide⟩

/-- The longest tick cannot be armed at all, and a tick of no length is due again at once. -/
theorem tick_is_not_armed_again :
  (start { ShardConfig.new fun _ => 1 with tick := DURATION_MAX } 0 1 :
      Checked (Shard Unit Unit ℕ ℕ 1)) = .error (.expect "a fresh wheel has room for the tick") ∧
  ∃ s₀ s : Shard Unit Unit ℕ ℕ 1,
    start { ShardConfig.new fun _ => 1 with tick := 0 } 0 1 = .ok s₀ ∧
    s₀.serviceTimers = .ok (s, true) ∧ s.timers.isDueDuration SHIFT s₀.now = true
  := ⟨rfl, _, _, rfl, rfl, rfl⟩

end

end Shard

end Grommet
