import Grommet.Core.Timer.Diagnostics

/-!
# Durations and ticks

The clock of a wheel is a `Duration`, whole seconds and nanoseconds.  A deadline is rounded up
to a tick of `2 ^ shift` nanoseconds and a reading of the clock is rounded down, both in words of
128 bits, and a tick is converted back.  `Elapsed` has the machine words, so that a conversion
that overflows or loses a bit shows; the conversions of the wheel are those of the number of
nanoseconds, and none of them does.
-/

open Checked

namespace Grommet.Timer

/-- The largest supported logarithm of a tick. -/
def MAX_SHIFT : ℕ := 29

def NANOS_PER_SEC : ℕ := 1000000000

/-- A `Duration`. -/
structure Elapsed where
  secs : UInt64
  subsecNanos : UInt32
  bound : subsecNanos.toNat < NANOS_PER_SEC
  deriving DecidableEq

/-- Addition of words of 128 bits. -/
def add128 (a b : ℕ) : Checked ℕ := do
  assert (a + b < 2 ^ 128) "attempt to add with overflow"
  .ok (a + b)

/-- Multiplication of words of 128 bits. -/
def mul128 (a b : ℕ) : Checked ℕ := do
  assert (a * b < 2 ^ 128) "attempt to multiply with overflow"
  .ok (a * b)

/-- Left shift of a word of 128 bits, which drops the bits that leave the word. -/
def shl128 (a shift : ℕ) : Checked ℕ := do
  assert (shift < 128) "attempt to shift left with overflow"
  .ok ((a <<< shift) % 2 ^ 128)

namespace Elapsed

/-- The number of nanoseconds. -/
def total (d : Elapsed) : ℕ := d.secs.toNat * NANOS_PER_SEC + d.subsecNanos.toNat

/-- The number of nanoseconds, in a word of 128 bits. -/
def asNanos (d : Elapsed) : Checked ℕ := do
  let whole ← mul128 d.secs.toNat NANOS_PER_SEC
  add128 whole d.subsecNanos.toNat

/-- A duration of seconds and nanoseconds, which are carried over. -/
def new (secs : UInt64) (nanos : UInt32) : Checked Elapsed :=
  if h : nanos.toNat < NANOS_PER_SEC then
    .ok ⟨secs, nanos, h⟩
  else do
    let sum := secs.toNat + nanos.toNat / NANOS_PER_SEC
    let secs ← expect (if sum < 2 ^ 64 then some (UInt64.ofNat sum) else none)
      "overflow in Duration::new"
    .ok ⟨secs, UInt32.ofNat (nanos.toNat % NANOS_PER_SEC), by
      have hlt : nanos.toNat % NANOS_PER_SEC < NANOS_PER_SEC := Nat.mod_lt _ (by decide)
      rw [UInt32.toNat_ofNat_of_lt' (hlt.trans (by decide))]
      exact hlt⟩

/-- The duration of a number of nanoseconds in a word of 128 bits, whose seconds and
nanoseconds are truncated to 64 and 32 bits. -/
def ofNanos (nanos : ℕ) : Checked Elapsed :=
  new (UInt64.ofNat (nanos / NANOS_PER_SEC)) (UInt32.ofNat (nanos % NANOS_PER_SEC))

end Elapsed

/-- The supported shifts. -/
def validShift (shift : ℕ) : Checked Unit :=
  assert (shift ≤ MAX_SHIFT) "timer-wheel SHIFT must be in 0..=29"

/-- One wheel tick. -/
def granularity (shift : ℕ) : Checked Elapsed := do
  validShift shift
  Elapsed.ofNanos ((1 <<< shift) % 2 ^ 64)

/-- The maximum forward interval accepted by the wheel. -/
def maxDelay (shift : ℕ) : Checked Elapsed := do
  validShift shift
  let nanos ← shl128 MAX_DELAY_TICKS shift
  Elapsed.ofNanos nanos

/-- Convert current time to ticks by rounding down, in machine words. -/
def elapsedToTickFloor (shift : ℕ) (time : Elapsed) : Checked (Option UInt64) := do
  validShift shift
  let nanos ← time.asNanos
  let ticks := nanos >>> shift
  .ok (if ticks ≤ MAX_TICK then some (UInt64.ofNat ticks) else none)

/-- Convert a deadline to ticks by rounding up, in machine words. -/
def elapsedToTickCeil (shift : ℕ) (time : Elapsed) : Checked (Option UInt64) := do
  validShift shift
  let nanos ← time.asNanos
  let unit ← shl128 1 shift
  let mask ← sub unit 1
  let ticks ← add128 (nanos >>> shift) (if nanos &&& mask = 0 then 0 else 1)
  .ok (if ticks ≤ MAX_TICK then some (UInt64.ofNat ticks) else none)

/-- Convert an absolute tick to a duration. -/
def tickToElapsed (shift : ℕ) (tick : ℕ) : Checked Elapsed := do
  validShift shift
  assert (tick ≤ MAX_TICK) "u64::MAX is not a representable timer tick"
  let nanos ← shl128 tick shift
  Elapsed.ofNanos nanos

/-- Duration form of the next wakeup. -/
def Wheel.nextWakeupDuration {T : Type} (w : Wheel T) (shift : ℕ) : Checked (Option Elapsed) :=
  match w.nextWakeupTick with
  | some tick => do
      let wakeup ← tickToElapsed shift tick
      .ok (some wakeup)
  | none => .ok none

/-! ### The conversions are exact -/

section Conversions

variable {shift : ℕ}

theorem Elapsed.total_lt (d : Elapsed) :
  d.total < 2 ^ 64 * NANOS_PER_SEC
  := by
  have hsecs := d.secs.toNat_lt
  have hnanos := d.bound
  rw [Elapsed.total]
  have hle : d.secs.toNat * NANOS_PER_SEC ≤ (2 ^ 64 - 1) * NANOS_PER_SEC :=
    Nat.mul_le_mul_right _ (by omega)
  have hpos : NANOS_PER_SEC ≤ 2 ^ 64 * NANOS_PER_SEC := by decide
  rw [Nat.sub_mul] at hle
  omega

/-- The nanoseconds of a duration fit into 128 bits. -/
theorem Elapsed.asNanos_eq (d : Elapsed) :
  d.asNanos = .ok d.total
  := by
  have htotal := d.total_lt
  have hbound : 2 ^ 64 * NANOS_PER_SEC < 2 ^ 128 := by decide
  have hsum : d.secs.toNat * NANOS_PER_SEC + d.subsecNanos.toNat < 2 ^ 128 := by
    change d.total < _
    omega
  rw [asNanos, mul128, assert_of (by rw [decide_eq_true_eq]; omega), ok_bind, ok_bind, add128,
    assert_of (by simpa using hsum), ok_bind, total]

/-- Nanoseconds of less than `2 ^ 64` seconds are a duration, without any loss. -/
theorem Elapsed.ofNanos_eq {nanos : ℕ} (h : nanos < 2 ^ 64 * NANOS_PER_SEC) :
  ∃ d, ofNanos nanos = .ok d ∧ d.total = nanos
  := by
  have hsecs : nanos / NANOS_PER_SEC < 2 ^ 64 := by
    rw [Nat.div_lt_iff_lt_mul (by decide)]
    apply h
  have hmod : nanos % NANOS_PER_SEC < NANOS_PER_SEC := Nat.mod_lt _ (by decide)
  have hnanos : (UInt32.ofNat (nanos % NANOS_PER_SEC)).toNat = nanos % NANOS_PER_SEC :=
    UInt32.toNat_ofNat_of_lt' (hmod.trans (by decide))
  refine ⟨⟨_, _, by rw [hnanos]; exact hmod⟩, dif_pos (by rw [hnanos]; exact hmod), ?_⟩
  rw [total]
  simp only
  rw [hnanos, UInt64.toNat_ofNat_of_lt' hsecs, Nat.mul_comm]
  apply Nat.div_add_mod

theorem validShift_of (h : shift ≤ MAX_SHIFT) :
  validShift shift = .ok ()
  := assert_of (by simpa using h) _

theorem two_pow_le (h : shift ≤ MAX_SHIFT) :
  2 ^ shift ≤ 2 ^ MAX_SHIFT
  := Nat.pow_le_pow_right (by decide) h

/-- Words of 64 bits are shifted without loss. -/
theorem shl128_eq {a : ℕ} (h : shift ≤ MAX_SHIFT) (ha : a < 2 ^ 64) :
  shl128 a shift = .ok (a * 2 ^ shift)
  := by
  have hshift : shift < 128 := lt_of_le_of_lt h (by decide)
  have hlt : a * 2 ^ shift < 2 ^ 128 := by
    calc
      a * 2 ^ shift ≤ a * 2 ^ MAX_SHIFT := Nat.mul_le_mul_left _ (two_pow_le h)
      _ < 2 ^ 64 * 2 ^ MAX_SHIFT := by
        apply Nat.mul_lt_mul_of_pos_right ha (by decide)
      _ ≤ 2 ^ 128 := by decide
  rw [shl128, assert_of (by simpa using hshift), ok_bind, Nat.shiftLeft_eq, Nat.mod_eq_of_lt hlt]

/-- A tick that is small enough keeps its value in 64 bits. -/
theorem toNat_of_le_max {tick : ℕ} :
  (if tick ≤ MAX_TICK then some (UInt64.ofNat tick) else none).map UInt64.toNat =
    if tick ≤ MAX_TICK then some tick else none
  := by
  split
  · rename_i h
    have hlt : tick < 2 ^ 64 := lt_of_le_of_lt h (by decide)
    rw [Option.map_some, UInt64.toNat_ofNat_of_lt' hlt]
  · rfl

theorem elapsedToTickFloor_eq (h : shift ≤ MAX_SHIFT) (d : Elapsed) :
  ∃ r, elapsedToTickFloor shift d = .ok r ∧ r.map UInt64.toNat = durationToTickFloor shift d.total
  := by
  refine ⟨_, ?_, toNat_of_le_max⟩
  rw [elapsedToTickFloor, validShift_of h, ok_bind, d.asNanos_eq, ok_bind]

theorem elapsedToTickCeil_eq (h : shift ≤ MAX_SHIFT) (d : Elapsed) :
  ∃ r, elapsedToTickCeil shift d = .ok r ∧ r.map UInt64.toNat = durationToTickCeil shift d.total
  := by
  refine ⟨_, ?_, toNat_of_le_max⟩
  have hone : 1 ≤ 1 * 2 ^ shift := by
    rw [one_mul]
    apply Nat.one_le_two_pow
  have hle : d.total >>> shift ≤ d.total := Nat.shiftRight_le _ _
  have htotal := d.total_lt
  have hbound : 2 ^ 64 * NANOS_PER_SEC + 1 < 2 ^ 128 := by decide
  have hcarry : (if d.total &&& (1 <<< shift - 1) = 0 then 0 else 1) ≤ 1 := by
    split <;> simp
  rw [elapsedToTickCeil, validShift_of h, ok_bind, d.asNanos_eq, ok_bind,
    shl128_eq h (by decide), ok_bind, sub_of_le hone, ok_bind, ← Nat.shiftLeft_eq, add128,
    assert_of (by rw [decide_eq_true_eq]; omega), ok_bind, ok_bind]

/-- A tick is converted back without loss. -/
theorem tickToElapsed_eq (h : shift ≤ MAX_SHIFT) {tick : ℕ} (ht : tick ≤ MAX_TICK) :
  ∃ d, tickToElapsed shift tick = .ok d ∧ d.total = tick * 2 ^ shift
  := by
  have hlt : tick < 2 ^ 64 := lt_of_le_of_lt ht (by decide)
  have hnanos : tick * 2 ^ shift < 2 ^ 64 * NANOS_PER_SEC := by
    calc
      tick * 2 ^ shift ≤ tick * 2 ^ MAX_SHIFT := Nat.mul_le_mul_left _ (two_pow_le h)
      _ < 2 ^ 64 * 2 ^ MAX_SHIFT := by
        apply Nat.mul_lt_mul_of_pos_right hlt (by decide)
      _ ≤ 2 ^ 64 * NANOS_PER_SEC := by decide
  obtain ⟨d, hd, htotal⟩ := Elapsed.ofNanos_eq hnanos
  refine ⟨d, ?_, htotal⟩
  rw [tickToElapsed, validShift_of h, ok_bind, assert_of (by simpa using ht), ok_bind,
    shl128_eq h hlt, ok_bind, hd]

theorem granularity_eq (h : shift ≤ MAX_SHIFT) :
  ∃ d, granularity shift = .ok d ∧ d.total = 2 ^ shift
  := by
  have hpow := two_pow_le h
  have hmax : 2 ^ MAX_SHIFT < 2 ^ 64 := by decide
  have hnanos : 2 ^ MAX_SHIFT < 2 ^ 64 * NANOS_PER_SEC := by decide
  obtain ⟨d, hd, htotal⟩ := Elapsed.ofNanos_eq (lt_of_le_of_lt hpow hnanos)
  refine ⟨d, ?_, htotal⟩
  rw [granularity, validShift_of h, ok_bind, Nat.one_shiftLeft,
    Nat.mod_eq_of_lt (lt_of_le_of_lt hpow hmax), hd]

theorem maxDelay_eq (h : shift ≤ MAX_SHIFT) :
  ∃ d, maxDelay shift = .ok d ∧ d.total = MAX_DELAY_TICKS * 2 ^ shift
  := by
  have hnanos : MAX_DELAY_TICKS * 2 ^ shift < 2 ^ 64 * NANOS_PER_SEC := by
    calc
      MAX_DELAY_TICKS * 2 ^ shift ≤ MAX_DELAY_TICKS * 2 ^ MAX_SHIFT :=
        Nat.mul_le_mul_left _ (two_pow_le h)
      _ < 2 ^ 64 * NANOS_PER_SEC := by decide
  obtain ⟨d, hd, htotal⟩ := Elapsed.ofNanos_eq hnanos
  refine ⟨d, ?_, htotal⟩
  rw [maxDelay, validShift_of h, ok_bind, shl128_eq h (by decide), ok_bind, hd]

end Conversions

/-! ### Rounding -/

section Rounding

variable {shift time tick : ℕ}

theorem durationToTickFloor_eq_some :
  durationToTickFloor shift time = some tick ↔ tick = time / 2 ^ shift ∧ tick ≤ MAX_TICK
  := by
  rw [durationToTickFloor, Nat.shiftRight_eq_div_pow]
  simp only [Option.ite_none_right_eq_some, Option.some.injEq]
  constructor
  · rintro ⟨hmax, rfl⟩
    exact ⟨rfl, hmax⟩
  · rintro ⟨rfl, hmax⟩
    exact ⟨hmax, rfl⟩

/-- A reading is in the tick that it is rounded down to. -/
theorem floor_bounds (h : durationToTickFloor shift time = some tick) :
  tick * 2 ^ shift ≤ time ∧ time < (tick + 1) * 2 ^ shift
  := by
  obtain ⟨rfl, -⟩ := durationToTickFloor_eq_some.mp h
  have hpos : 0 < 2 ^ shift := Nat.two_pow_pos shift
  refine ⟨Nat.div_mul_le_self _ _, ?_⟩
  rw [Nat.add_mul, one_mul]
  apply Nat.lt_div_mul_add hpos

/-- A deadline is in the tick before the one that it is rounded up to, or at its start. -/
theorem ceil_bounds (h : durationToTickCeil shift time = some tick) :
  time ≤ tick * 2 ^ shift ∧ tick * 2 ^ shift < time + 2 ^ shift ∧ tick ≤ MAX_TICK
  := by
  rw [durationToTickCeil, Nat.shiftRight_eq_div_pow, Nat.one_shiftLeft,
    Nat.and_two_pow_sub_one_eq_mod] at h
  simp only [Option.ite_none_right_eq_some, Option.some.injEq] at h
  obtain ⟨hmax, rfl⟩ := h
  have hpos : 0 < 2 ^ shift := Nat.two_pow_pos shift
  have hdiv := Nat.div_add_mod' time (2 ^ shift)
  have hmod := Nat.mod_lt time hpos
  by_cases hzero : time % 2 ^ shift = 0
  · rw [if_pos hzero, Nat.add_zero] at hmax ⊢
    exact ⟨by omega, by omega, hmax⟩
  · rw [if_neg hzero] at hmax ⊢
    rw [Nat.add_mul, one_mul]
    exact ⟨by omega, by omega, hmax⟩

/-- A time at the start of a tick is rounded to it. -/
theorem floor_of_tick (h : tick ≤ MAX_TICK) :
  durationToTickFloor shift (tick * 2 ^ shift) = some tick
  := by
  rw [durationToTickFloor_eq_some]
  exact ⟨(Nat.mul_div_cancel _ (Nat.two_pow_pos shift)).symm, h⟩

theorem ceil_of_tick (h : tick ≤ MAX_TICK) :
  durationToTickCeil shift (tick * 2 ^ shift) = some tick
  := by
  rw [durationToTickCeil, Nat.shiftRight_eq_div_pow, Nat.one_shiftLeft,
    Nat.and_two_pow_sub_one_eq_mod, Nat.mul_mod_left, Nat.mul_div_cancel _ (Nat.two_pow_pos shift)]
  simp [h]

/-- A deadline that was reached in ticks was reached. -/
theorem le_of_ticks {deadline now d n : ℕ} (hd : durationToTickCeil shift deadline = some d)
    (hn : durationToTickFloor shift now = some n) (h : d ≤ n) :
  deadline ≤ now
  := by
  calc
    deadline ≤ d * 2 ^ shift := (ceil_bounds hd).1
    _ ≤ n * 2 ^ shift := Nat.mul_le_mul_right _ h
    _ ≤ now := (floor_bounds hn).1

/-- A deadline that was passed by a tick was reached in ticks. -/
theorem ticks_of_le {deadline now d n : ℕ} (hd : durationToTickCeil shift deadline = some d)
    (hn : durationToTickFloor shift now = some n) (h : deadline + 2 ^ shift ≤ now) :
  d ≤ n
  := by
  have hlt : d * 2 ^ shift < (n + 1) * 2 ^ shift := by
    calc
      d * 2 ^ shift < deadline + 2 ^ shift := (ceil_bounds hd).2.1
      _ ≤ now := h
      _ < (n + 1) * 2 ^ shift := (floor_bounds hn).2
  have hsucc := Nat.lt_of_mul_lt_mul_right hlt
  omega

/-- A wakeup is due exactly from the time of its tick on. -/
theorem le_floor_iff (ht : tick ≤ MAX_TICK) :
  (∀ n, durationToTickFloor shift time = some n → tick ≤ n) ↔ tick * 2 ^ shift ≤ time
  := by
  rw [← Nat.le_div_iff_mul_le (Nat.two_pow_pos shift)]
  constructor
  · intro h
    by_cases hmax : time / 2 ^ shift ≤ MAX_TICK
    · apply h _ (durationToTickFloor_eq_some.mpr ⟨rfl, hmax⟩)
    · omega
  · intro h n hn
    obtain ⟨rfl, -⟩ := durationToTickFloor_eq_some.mp hn
    apply h

end Rounding

/-! ### Waking and firing -/

variable {T : Type} {w w' : Wheel T} {shift : ℕ} {id : TimerId} {d : ℕ} {t : T}

/-- What the conversions do to every input that they take. -/
structure Conversions (shift : ℕ) : Prop where
  floor : ∀ time : Elapsed, ∃ r, elapsedToTickFloor shift time = .ok r ∧
    r.map UInt64.toNat = durationToTickFloor shift time.total
  ceil : ∀ time : Elapsed, ∃ r, elapsedToTickCeil shift time = .ok r ∧
    r.map UInt64.toNat = durationToTickCeil shift time.total
  /-- Both roundings take the time of a tick back to it. -/
  back : ∀ tick ≤ MAX_TICK, ∃ time, tickToElapsed shift tick = .ok time ∧
    time.total = tick * 2 ^ shift ∧ durationToTickFloor shift time.total = some tick ∧
    durationToTickCeil shift time.total = some tick
  granularity : ∃ time, granularity shift = .ok time ∧ time.total = 2 ^ shift
  maxDelay : ∃ time, maxDelay shift = .ok time ∧ time.total = MAX_DELAY_TICKS * 2 ^ shift

theorem conversions_of (h : shift ≤ MAX_SHIFT) :
  Conversions shift
  := by
  constructor
  · apply elapsedToTickFloor_eq h
  · apply elapsedToTickCeil_eq h
  · intro tick ht
    obtain ⟨time, htime, htotal⟩ := tickToElapsed_eq h ht
    refine ⟨time, htime, htotal, ?_, ?_⟩
    · rw [htotal, floor_of_tick ht]
    · rw [htotal, ceil_of_tick ht]
  · apply granularity_eq h
  · apply maxDelay_eq h

/-- A good wheel holds a timer exactly when it has an event. -/
theorem Wheel.Good.live_ne_zero_iff (h : w.Good) :
  w.live ≠ 0 ↔ w.nextEvent ≠ U64_MAX
  := by
  obtain ⟨lists, free, hlinks⟩ := h.links
  constructor
  · intro hlive hevent
    apply hlive
    rw [hlinks.count]
    apply List.sum_eq_zero
    intro n hn
    obtain ⟨c, hc, rfl⟩ := List.mem_map.mp hn
    rw [Core.load]
    split
    · rename_i htoken
      have hfiled := h.filed c hc htoken
      have hle := (h.event_le hc htoken).trans hfiled.wakeup_bounds.2
      have hdeadline := hfiled.deadline
      have hcursor := h.cursor
      have hmax : MAX_TICK < U64_MAX := by decide
      omega
    · rfl
  · intro hevent hlive
    obtain ⟨c, hc, htoken, -⟩ := h.exists_event hevent
    rw [hlinks.count] at hlive
    have hzero := List.sum_eq_zero_iff.mp hlive _ (List.mem_map_of_mem hc)
    rw [Core.load, if_pos htoken] at hzero
    cases hzero

/-- A wheel is due exactly from its next wakeup on. -/
theorem Wheel.Good.due_iff (h : w.Good) (hshift : shift ≤ MAX_SHIFT) :
  ∃ wakeup, w.nextWakeupDuration shift = .ok wakeup ∧
    ∀ now, w.isDueDuration shift now = true ↔ ∃ d ∈ wakeup, d.total ≤ now
  := by
  by_cases hevent : w.nextEvent = U64_MAX
  · refine ⟨none, ?_, ?_⟩
    · rw [nextWakeupDuration, nextWakeupTick, if_neg (by simpa using hevent)]
    · intro now
      have hlive : w.live = 0 := by
        by_contra hlive
        apply h.live_ne_zero_iff.mp hlive hevent
      rw [isDueDuration]
      cases hfloor : durationToTickFloor shift now with
      | none => simp [hlive]
      | some n =>
        have hmax := (durationToTickFloor_eq_some.mp hfloor).2
        have hlt : MAX_TICK < U64_MAX := by decide
        simp [isDueAt, hevent]
        omega
  · have htick := h.event_le_max hevent
    obtain ⟨wakeup, hwakeup, htotal⟩ := tickToElapsed_eq hshift htick
    refine ⟨some wakeup, ?_, ?_⟩
    · rw [nextWakeupDuration, nextWakeupTick, if_pos hevent]
      simp only [hwakeup, ok_bind]
    · intro now
      have hdue : w.isDueDuration shift now = true ↔
          ∀ n, durationToTickFloor shift now = some n → w.nextEvent ≤ n := by
        rw [isDueDuration]
        cases hfloor : durationToTickFloor shift now with
        | none => simpa using h.live_ne_zero_iff.mpr hevent
        | some n => simp [isDueAt]
      rw [hdue, le_floor_iff htick]
      simp [htotal]

/-- The advance to a time takes the timer out of the wheel and hands out its token, with the
tokens of the other timers that it takes out. -/
def Wheel.Emits (w : Wheel T) (shift now : ℕ) (id : TimerId) : Prop :=
  ∃ (w' : Wheel T) (tokens : List T) (order : List TimerId),
    w.advanceDuration shift now = some (.ok (w', tokens)) ∧ order.Nodup ∧
    tokens.map some = order.map (fun id => (w.timer id).map Prod.snd) ∧
    (∀ id, id ∈ order ↔ (w.timer id).isSome ∧ w'.timer id = none) ∧ id ∈ order

/-- A call that leaves a timer with this deadline in its wheel. -/
def Op.Leaves (id : TimerId) (deadline : ℕ) : Op T → Prop
  | .tryInsertAt _ _ => True
  | .cancel id' => id' ≠ id
  | .rescheduleAt id' _ => id' ≠ id
  | .advanceTo target => target < deadline

/-- A timer that is not behind the cursor is emitted by an advance exactly when its deadline is
not after the target. -/
theorem Wheel.Good.emits_iff (h : w.Good) (htimer : w.timer id = some (d, t))
    (hcursor : w.cursor ≤ d) (now : ℕ) :
  w.Emits shift now id ↔ ∃ n, durationToTickFloor shift now = some n ∧ d ≤ n
  := by
  cases hfloor : durationToTickFloor shift now with
  | none =>
    constructor
    · rintro ⟨w', tokens, order, hadvance, -⟩
      rw [advanceDuration, hfloor] at hadvance
      cases hadvance
    · rintro ⟨n, hn, -⟩
      cases hn
  | some n =>
    have hmax := (durationToTickFloor_eq_some.mp hfloor).2
    have hwhen : (∃ m, some n = some m ∧ d ≤ m) ↔ d ≤ n := by simp
    rw [hwhen]
    obtain ⟨w', answer, hperform, -, hstep, -⟩ :=
      h.perform (show (Op.advanceTo n : Op T).Admissible from hmax)
    rw [Wheel.perform, bind_eq_ok] at hperform
    obtain ⟨⟨w₁, tokens⟩, hadvance, hperform⟩ := hperform
    cases hperform
    have hcall : w.advanceDuration shift now = some (.ok (w', tokens)) := by
      rw [advanceDuration, hfloor, Option.map_some, hadvance]
    generalize hagenda : w'.agenda = a at hstep
    have htimers : w'.timer = a.timers := congrArg Agenda.timers hagenda
    constructor
    · rintro ⟨w₂, tokens₂, order, hcall₂, -, -, hiff, hmem⟩
      rw [hcall] at hcall₂
      cases hcall₂
      have hgone := ((hiff id).mp hmem).2
      rw [htimers] at hgone
      cases hstep with
      | advanced _ _ =>
        change ((w.timer id).filter fun timer => n < timer.1) = none at hgone
        rw [htimer] at hgone
        simpa [Option.filter] using hgone
      | backwards _ =>
        change w.timer id = none at hgone
        rw [htimer] at hgone
        cases hgone
    · intro hdue
      cases hstep with
      | backwards hback =>
        change n < w.cursor at hback
        omega
      | @advanced _ order _ hforward hfires =>
        have hdueIff := hfires.due
        refine ⟨w', tokens, order, hcall, hfires.nodup, hfires.tokens_eq, ?_, ?_⟩
        · intro j
          rw [hdueIff, htimers]
          change (∃ d t, w.timer j = some (d, t) ∧ d ≤ n) ↔
            (w.timer j).isSome ∧ ((w.timer j).filter fun timer => n < timer.1) = none
          cases w.timer j with
          | none => simp
          | some timer => simp [Option.filter, Prod.ext_iff]
        · rw [hdueIff]
          exact ⟨d, t, htimer, hdue⟩

/-- A call that leaves a timer leaves it. -/
theorem Agenda.Step.leaves {a a' : Agenda T} {call : Op T × Answer T} (hstep : a.Step call a')
    (htimer : a.timers id = some (d, t)) (hcursor : a.cursor ≤ d) (hleaves : call.1.Leaves id d) :
  a'.timers id = some (d, t) ∧ a'.cursor ≤ d
  := by
  cases hstep with
  | @inserted d' t' id' hfree =>
    have hne : id ≠ id' := by
      rintro rfl
      rw [htimer] at hfree
      cases hfree
    exact ⟨by simp only [Function.update_of_ne hne, htimer], hcursor⟩
  | insertRefused _ => exact ⟨htimer, hcursor⟩
  | @cancelled d' t' id' _ =>
    have hne : id ≠ id' := fun heq => hleaves heq.symm
    exact ⟨by simp only [Function.update_of_ne hne, htimer], hcursor⟩
  | cancelRefused _ => exact ⟨htimer, hcursor⟩
  | @rescheduled d' d'' t' id' _ =>
    have hne : id ≠ id' := fun heq => hleaves heq.symm
    exact ⟨by simp only [Function.update_of_ne hne, htimer], hcursor⟩
  | rescheduleRefused _ => exact ⟨htimer, hcursor⟩
  | @advanced target order tokens _ _ =>
    have hlater : target < d := hleaves
    simp [htimer, Option.filter, hlater, hlater.le]
  | backwards _ => exact ⟨htimer, hcursor⟩

/-- A timer stays in its wheel until a call takes it out. -/
theorem Wheel.Good.leaves {trace : List (Op T × Answer T)} (h : w.Good)
    (htimer : w.timer id = some (d, t)) (hcursor : w.cursor ≤ d)
    (hrun : Trail Wheel.Step w trace w') (hleaves : ∀ call ∈ trace, call.1.Leaves id d) :
  w'.Good ∧ w'.timer id = some (d, t) ∧ w'.cursor ≤ d
  := by
  induction hrun with
  | nil => exact ⟨h, htimer, hcursor⟩
  | snoc _ hstep ih =>
    obtain ⟨hgood, htimer', hcursor'⟩ := ih fun call hcall => hleaves call (by simp [hcall])
    obtain ⟨hgood', hagenda⟩ := hgood.step hstep
    refine ⟨hgood', ?_⟩
    apply hagenda.leaves htimer' hcursor'
    apply hleaves
    simp

/-- For every shift and in every run, the conversions are exact, a deadline that is reached in
ticks was reached and one that was passed by a tick is reached in ticks, the wheel is due
exactly from its next wakeup on, and a timer that was accepted for a deadline not behind the
cursor is emitted exactly by an advance to a time that is rounded down to no less than what the
deadline is rounded up to. -/
theorem duration_timers_are_punctual {next wheelId after capacity start : ℕ} {w₀ : Wheel T}
    {trace : List (Op T × Answer T)} (hshift : shift ≤ MAX_SHIFT) (hnext : NEXT_WHEEL_ID ≤ next)
    (hid : allocateWheelId next = .ok (wheelId, after))
    (hstart : Wheel.withCapacityAtTick capacity start wheelId = .ok w₀)
    (hrun : Trail Wheel.Step w₀ trace w) :
  Conversions shift ∧
  (∀ (deadline now : Elapsed) (d n : ℕ), durationToTickCeil shift deadline.total = some d →
    durationToTickFloor shift now.total = some n →
    (d ≤ n → deadline.total ≤ now.total) ∧ (deadline.total + 2 ^ shift ≤ now.total → d ≤ n)) ∧
  (∃ wakeup, w.nextWakeupDuration shift = .ok wakeup ∧ ∀ now : Elapsed,
    w.isDueDuration shift now.total = true ↔ ∃ time ∈ wakeup, time.total ≤ now.total) ∧
  ∀ (deadline : Elapsed) (t : T) (w₁ : Wheel T) (id : TimerId) (d : ℕ),
    w.tryInsertDuration shift deadline.total t = .ok (w₁, .ok id) →
    durationToTickCeil shift deadline.total = some d → w.cursor ≤ d →
    ∀ later w₂, Trail Wheel.Step w₁ later w₂ → (∀ call ∈ later, call.1.Leaves id d) →
    ∀ now : Elapsed, w₂.Emits shift now.total id ↔
      ∃ n, durationToTickFloor shift now.total = some n ∧ d ≤ n
  := by
  have hgood := good_of_run hnext hid hstart hrun
  refine ⟨conversions_of hshift, ?_, ?_, ?_⟩
  · intro deadline now d n hd hn
    exact ⟨le_of_ticks hd hn, ticks_of_le hd hn⟩
  · obtain ⟨wakeup, hwakeup, hdue⟩ := hgood.due_iff hshift
    exact ⟨wakeup, hwakeup, fun now => hdue now.total⟩
  · intro deadline t w₁ id d hinsert hceil hcursor later w₂ hlater hleaves now
    rw [Wheel.tryInsertDuration, hceil] at hinsert
    have hstep : w.Step (.tryInsertAt d t, .inserted (.ok id)) w₁ := by
      simp only [Wheel.Step, Wheel.perform, hinsert, ok_bind]
    obtain ⟨hgood₁, hagenda⟩ := hgood.step hstep
    generalize ha : w₁.agenda = a at hagenda
    have htimer : w₁.timer id = some (d, t) ∧ w₁.cursor = w.cursor := by
      cases hagenda with
      | inserted _ =>
        have htimers : w₁.timer = Function.update w.timer id (some (d, t)) :=
          congrArg Agenda.timers ha
        have hsame : w₁.cursor = w.cursor := congrArg Agenda.cursor ha
        rw [htimers, Function.update_self]
        exact ⟨rfl, hsame⟩
    obtain ⟨hgood₂, htimer₂, hcursor₂⟩ :=
      hgood₁.leaves htimer.1 (by rw [htimer.2]; exact hcursor) hlater hleaves
    apply hgood₂.emits_iff htimer₂ hcursor₂

/-- A timer for fifteen hundred nanoseconds of a wheel with ticks of `2 ^ 10` nanoseconds is
emitted at the start of the second tick. -/
theorem duration_timers_are_punctual_rounded :
  ∃ w₀ w : Wheel ℕ, ∃ id, Wheel.withCapacityAtTick 1 0 1 = .ok w₀ ∧
    w₀.tryInsertDuration 10 1500 7 = .ok (w, .ok id) ∧ ¬ w.Emits 10 2047 id ∧ w.Emits 10 2048 id
  := by
  have hrun : ∃ w₀ w : Wheel ℕ, ∃ id, Wheel.withCapacityAtTick 1 0 1 = .ok w₀ ∧
      w₀.tryInsertDuration 10 1500 7 = .ok (w, .ok id) ∧ w₀.cursor = 0 :=
    ⟨_, _, _, rfl, rfl, rfl⟩
  obtain ⟨w₀, w, id, hstart, hinsert, hcursor⟩ := hrun
  have hid : allocateWheelId 1 = .ok (1, 2) := rfl
  obtain ⟨-, -, -, hemits⟩ :=
    duration_timers_are_punctual (by decide : 10 ≤ MAX_SHIFT) le_rfl hid hstart .nil
  obtain ⟨deadline, -, hdeadline⟩ := Elapsed.ofNanos_eq (by decide : 1500 < 2 ^ 64 * NANOS_PER_SEC)
  obtain ⟨early, -, hearly⟩ := Elapsed.ofNanos_eq (by decide : 2047 < 2 ^ 64 * NANOS_PER_SEC)
  obtain ⟨late, -, hlate⟩ := Elapsed.ofNanos_eq (by decide : 2048 < 2 ^ 64 * NANOS_PER_SEC)
  have hiff := hemits deadline 7 w id 2 (by rw [hdeadline]; exact hinsert)
    (by rw [hdeadline]; rfl) (by omega) [] w .nil (by simp)
  refine ⟨w₀, w, id, hstart, hinsert, ?_, ?_⟩
  · rw [← hearly, hiff early, hearly]
    rintro ⟨n, hn, hle⟩
    have hone : durationToTickFloor 10 2047 = some 1 := rfl
    rw [hone] at hn
    cases hn
    omega
  · rw [← hlate, hiff late, hlate]
    exact ⟨2, rfl, le_rfl⟩

end Grommet.Timer
