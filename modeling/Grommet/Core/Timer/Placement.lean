import Grommet.Core.Timer.Model
import Grommet.Library.Windows

/-!
# Where a deadline is filed

`Near c d level slot` says that the cursor `c` has not passed the window of the deadline
`d` at a level, so that the slot comes up next exactly at the start of that window.
`Filed` adds that the cursor has not reached the window yet.  Placing a deadline files it,
moving the cursor up to the next wakeup keeps it near, and a near deadline whose slot is
under the cursor is placed on a lower level.
-/

open Checked

namespace Grommet.Timer

/-- The width of a slot of a level, in ticks. -/
def width (level : ℕ) : ℕ := 2 ^ (level * SLOT_BITS)

/-- The slot of a tick on a level. -/
def digit (level tick : ℕ) : ℕ := tick / width level % SLOTS

theorem width_pos (level : ℕ) :
  0 < width level
  := Nat.two_pow_pos _

@[simp]
theorem width_zero :
  width 0 = 1
  := rfl

theorem width_succ (level : ℕ) :
  width (level + 1) = SLOTS * width level
  := by
  rw [width, width, SLOT_BITS, SLOTS, Nat.succ_mul, Nat.pow_add]
  omega

theorem digit_lt (level tick : ℕ) :
  digit level tick < SLOTS
  := Nat.mod_lt _ (by decide)

theorem digit_zero (tick : ℕ) :
  digit 0 tick = tick % SLOTS
  := by
  rw [digit, width_zero, Nat.div_one]

@[simp]
theorem and_slotMask (x : ℕ) :
  x &&& SLOT_MASK = x % SLOTS
  := Nat.and_two_pow_sub_one_eq_mod x 6

theorem shiftRight_and_slotMask (tick level : ℕ) :
  (tick >>> (level * SLOT_BITS)) &&& SLOT_MASK = digit level tick
  := by
  rw [and_slotMask, Nat.shiftRight_eq_div_pow, digit, width]

/-- The next wakeup of a slot, in terms of windows. -/
theorem slotWakeup_eq (cursor level slot : ℕ) :
  slotWakeup cursor level slot =
    min (cursor + if cursor % (SLOTS * width level) ≤ slot * width level then
        slot * width level - cursor % (SLOTS * width level)
      else SLOTS * width level - cursor % (SLOTS * width level) + slot * width level) U64_MAX
  := by
  have hwidth : 1 <<< (level * SLOT_BITS) = width level := Nat.one_shiftLeft _
  have hrotation : width level <<< SLOT_BITS = SLOTS * width level := by
    rw [Nat.shiftLeft_eq, Nat.mul_comm]
    rfl
  have hmask : cursor &&& (SLOTS * width level - 1) = cursor % (SLOTS * width level) := by
    rw [← width_succ, width]
    apply Nat.and_two_pow_sub_one_eq_mod
  simp only [slotWakeup, hwidth, hrotation, hmask]

/-- The wakeup of the slot of a tick within one rotation is the start of its window. -/
theorem slotWakeup_digit {c d level : ℕ} (hstart : c ≤ windowStart (width level) d)
    (hnear : windowStart (width level) d < c + SLOTS * width level) (hd : d ≤ U64_MAX) :
  slotWakeup c level (digit level d) = windowStart (width level) d
  := by
  have hnext := next_occurrence hstart hnear
  rw [windowStart_mod] at hnext
  rw [slotWakeup_eq, digit, ← hnext]
  apply Nat.min_eq_left
  apply windowStart_le.trans hd

/-- The wakeup of the slot of the cursor on the lowest level is the cursor. -/
theorem slotWakeup_cursor {c : ℕ} (hc : c ≤ U64_MAX) :
  slotWakeup c 0 (c % SLOTS) = c
  := by
  rw [slotWakeup_eq, width_zero, Nat.mul_one, Nat.mul_one, if_pos le_rfl, Nat.sub_self,
    Nat.add_zero]
  apply Nat.min_eq_left hc

/-! ### Deadlines near the cursor -/

/-- The deadline `d` is in a slot that comes up no later than it is due. -/
structure Near (c d level slot : ℕ) : Prop where
  depth : level < LEVELS
  cursor : c ≤ MAX_TICK
  deadline : d ≤ MAX_TICK
  fits : d ≤ c + MAX_DELAY_TICKS
  position : (level = 0 ∧ d ≤ c ∧ slot = c % SLOTS) ∨
    (slot = digit level d ∧ c ≤ windowStart (width level) d ∧
      (level + 1 < LEVELS → c / (SLOTS * width level) = d / (SLOTS * width level)))

/-- The deadline `d` is in a slot whose window the cursor has not reached. -/
structure Filed (c d level slot : ℕ) : Prop extends Near c d level slot where
  ahead : 0 < level → c < windowStart (width level) d

namespace Near

variable {c c' d level slot : ℕ}

theorem slot_lt (h : Near c d level slot) :
  slot < SLOTS
  := by
  rcases h.position with ⟨-, -, rfl⟩ | ⟨rfl, -⟩
  · apply Nat.mod_lt _ (by decide)
  · apply digit_lt

/-- A window within the reach of the wheel starts within one rotation. -/
theorem start_lt (h : Near c d level slot) (hstart : c ≤ windowStart (width level) d)
    (hrot : level + 1 < LEVELS → c / (SLOTS * width level) = d / (SLOTS * width level)) :
  windowStart (width level) d < c + SLOTS * width level
  := by
  have hle : windowStart (width level) d ≤ d := windowStart_le
  have hlevel := h.depth
  by_cases htop : level + 1 < LEVELS
  · have hpos : 0 < SLOTS * width level := Nat.mul_pos (by decide) (width_pos level)
    have hd := Nat.lt_div_mul_add (a := d) hpos
    rw [← hrot htop] at hd
    have hc := Nat.div_mul_le_self c (SLOTS * width level)
    omega
  · have hseven : level = 7 := by
      rw [LEVELS] at hlevel htop
      omega
    subst hseven
    have hfits := h.fits
    have hspan : SLOTS * width 7 = MAX_DELAY_TICKS + 1 := by decide
    omega

/-- When a near slot comes up: at once for an overdue deadline, else at the start of the
window of the deadline. -/
theorem wakeup (h : Near c d level slot) :
  (level = 0 ∧ d ≤ c ∧ slot = c % SLOTS ∧ slotWakeup c level slot = c) ∨
    (slot = digit level d ∧ c ≤ windowStart (width level) d ∧
      slotWakeup c level slot = windowStart (width level) d)
  := by
  have hcursor := h.cursor
  have hdeadline := h.deadline
  have hmax : MAX_TICK ≤ U64_MAX := by decide
  rcases h.position with ⟨rfl, hd, rfl⟩ | ⟨rfl, hstart, hrot⟩
  · left
    exact ⟨rfl, hd, rfl, slotWakeup_cursor (hcursor.trans hmax)⟩
  · right
    exact ⟨rfl, hstart, slotWakeup_digit hstart (h.start_lt hstart hrot) (hdeadline.trans hmax)⟩

/-- A near slot comes up no earlier than the cursor and no later than its deadline. -/
theorem wakeup_bounds (h : Near c d level slot) :
  c ≤ slotWakeup c level slot ∧ slotWakeup c level slot ≤ max d c
  := by
  rcases h.wakeup with ⟨-, -, -, heq⟩ | ⟨-, hstart, heq⟩
  · rw [heq]
    exact ⟨le_rfl, le_max_right d c⟩
  · rw [heq]
    exact ⟨hstart, windowStart_le.trans (le_max_left d c)⟩

/-- A near slot stays near while the cursor moves up to its wakeup. -/
theorem advance (h : Near c d level slot) (hc : c ≤ c') (hc' : c' ≤ slotWakeup c level slot) :
  Near c' d level slot
  := by
  have hfits := h.fits
  have hmax : c' ≤ MAX_TICK := by
    have hbound := h.wakeup_bounds.2
    have hcursor := h.cursor
    have hdeadline := h.deadline
    omega
  refine ⟨h.depth, hmax, h.deadline, by omega, ?_⟩
  rcases h.wakeup with ⟨hlevel, hd, hslot, heq⟩ | ⟨hslot, hstart, heq⟩
  · left
    have heq' : c' = c := by omega
    rw [heq']
    exact ⟨hlevel, hd, hslot⟩
  · right
    rw [heq] at hc'
    refine ⟨hslot, hc', ?_⟩
    intro htop
    rcases h.position with ⟨hlevel, hd, -⟩ | ⟨-, -, hrot⟩
    · have hle : windowStart (width level) d ≤ d := windowStart_le
      have heq' : c' = d := by omega
      rw [heq']
    · apply div_eq_of_between hc (hc'.trans windowStart_le) (hrot htop)

/-- Before its wakeup a near slot is ahead of the cursor. -/
theorem filed (h : Near c d level slot) (hc : c < slotWakeup c level slot ∨ level = 0) :
  Filed c d level slot
  := by
  refine ⟨h, ?_⟩
  intro hpos
  rcases h.wakeup with ⟨hlevel, -⟩ | ⟨-, -, heq⟩
  · omega
  · rw [← heq]
    apply hc.resolve_right
    omega

/-- A near slot above the lowest level that is not under the cursor is ahead of it. -/
theorem filed_of_ne (h : Near c d level slot) (hne : slot ≠ digit level c) :
  Filed c d level slot
  := by
  refine ⟨h, ?_⟩
  intro hpos
  rcases h.position with ⟨hlevel, -⟩ | ⟨hslot, hstart, -⟩
  · omega
  · apply lt_of_le_of_ne hstart
    intro heq
    apply hne
    rw [hslot, digit, digit, heq, windowStart, Nat.mul_div_cancel _ (width_pos level)]

/-- A near slot under the cursor has been reached, except on the highest level. -/
theorem start_eq (h : Near c d level slot) (hslot : slot = digit level c) (hpos : 0 < level)
    (htop : level + 1 < LEVELS) :
  windowStart (width level) d = c
  := by
  rcases h.position with ⟨hlevel, -⟩ | ⟨hslot', hstart, hrot⟩
  · omega
  · have hdiv : c / width level = d / width level := by
      apply div_eq_of_rotation (hrot htop)
      rw [← digit, ← digit, ← hslot', hslot]
    apply Nat.le_antisymm _ hstart
    rw [windowStart, ← hdiv]
    apply Nat.div_mul_le_self

end Near

/-- A filed slot is the one under the cursor exactly for the deadlines that have passed. -/
theorem Filed.due_iff {c d level slot : ℕ} (h : Filed c d level slot) :
  (level = 0 ∧ slot = c % SLOTS) ↔ d ≤ c
  := by
  rcases h.position with ⟨hlevel, hd, hslot⟩ | ⟨hslot, hstart, hrot⟩
  · simp [hlevel, hd, hslot]
  · constructor
    · rintro ⟨rfl, hslot'⟩
      have hrot := hrot (by decide)
      have hdiv : c / width 0 = d / width 0 := by
        apply div_eq_of_rotation hrot
        rw [← digit, ← digit, ← hslot, digit_zero, hslot']
      rw [width_zero, Nat.div_one, Nat.div_one] at hdiv
      omega
    · intro hd
      have hle : windowStart (width level) d ≤ d := windowStart_le
      by_cases hpos : 0 < level
      · have hahead := h.ahead hpos
        omega
      · have hzero : level = 0 := by omega
        subst hzero
        have heq : d = c := by
          rw [windowStart, width_zero, Nat.div_one, Nat.mul_one] at hstart
          omega
        rw [hslot, heq, digit_zero]
        exact ⟨rfl, rfl⟩

/-! ### Placing a deadline -/

/-- The position that `placement` gives a deadline. -/
def place (cursor deadline : ℕ) : ℕ × ℕ :=
  if deadline ≤ cursor then
    (0, cursor % SLOTS)
  else
    let level := min ((cursor ^^^ deadline).log2 / SLOT_BITS) (LEVELS - 1)
    (level, digit level deadline)

theorem deadlineFits_iff {cursor deadline : ℕ} :
  deadlineFits cursor deadline = true ↔ deadline ≤ cursor + MAX_DELAY_TICKS
  := by
  simp only [deadlineFits, Bool.or_eq_true, decide_eq_true_eq]
  omega

/-- The level of a later deadline is the lowest on which it shares its rotation with the
cursor, or the highest there is. -/
theorem level_spec {c d level : ℕ} (hd : c < d)
    (hlevel : level = min ((c ^^^ d).log2 / SLOT_BITS) (LEVELS - 1)) :
  c < windowStart (width level) d ∧
    (level + 1 < LEVELS → c / (SLOTS * width level) = d / (SLOTS * width level))
  := by
  have hne : c ^^^ d ≠ 0 := by
    rw [ne_eq, xor_eq_zero_iff_eq]
    omega
  have hlow : 2 ^ (level * SLOT_BITS) ≤ c ^^^ d := by
    apply le_trans _ (Nat.log2_self_le hne)
    apply Nat.pow_le_pow_right (by decide)
    rw [hlevel, SLOT_BITS]
    omega
  constructor
  · rw [lt_windowStart_iff (width_pos level)]
    apply lt_of_le_of_ne (Nat.div_le_div_right hd.le)
    apply div_two_pow_ne_of_le_xor hlow
  · intro htop
    rw [← width_succ]
    apply div_two_pow_eq_of_xor_lt
    apply lt_of_lt_of_le Nat.lt_log2_self
    apply Nat.pow_le_pow_right (by decide)
    rw [hlevel, LEVELS, SLOT_BITS] at htop
    rw [hlevel, LEVELS, SLOT_BITS]
    omega

/-- A deadline within the reach of the wheel is filed where it is placed. -/
theorem filed_place {c d : ℕ} (hc : c ≤ MAX_TICK) (hd : d ≤ MAX_TICK)
    (hfits : d ≤ c + MAX_DELAY_TICKS) :
  Filed c d (place c d).1 (place c d).2
  := by
  rw [place]
  split
  · rename_i hle
    refine ⟨⟨by simp [LEVELS], hc, hd, hfits, Or.inl ⟨rfl, hle, rfl⟩⟩, ?_⟩
    intro hpos
    simp at hpos
  · rename_i hlt
    obtain ⟨hstart, hrot⟩ := level_spec (by omega : c < d) rfl
    refine ⟨⟨?_, hc, hd, hfits, Or.inr ⟨rfl, hstart.le, hrot⟩⟩, fun _ => hstart⟩
    simp only [LEVELS]
    omega

/-- Placing a deadline within the reach of the wheel passes its checks. -/
theorem placement_eq {c d : ℕ} (hc : c ≤ MAX_TICK) (hd : d ≤ MAX_TICK)
    (hfits : d ≤ c + MAX_DELAY_TICKS) :
  placement c d = .ok (place c d)
  := by
  have hfiled := filed_place hc hd hfits
  rw [placement]
  by_cases hle : d ≤ c
  · simp [hle, place]
  · have hne : c ^^^ d ≠ 0 := by
      rw [ne_eq, xor_eq_zero_iff_eq]
      omega
    have hlog : (c ^^^ d).log2 ≤ 63 := by
      apply Nat.le_of_lt_succ
      apply (Nat.log2_lt hne).mpr
      apply Nat.xor_lt_two_pow
      · apply lt_of_le_of_lt hc (by decide)
      · apply lt_of_le_of_lt hd (by decide)
    have hdiffer : 63 - leadingZeros (c ^^^ d) = (c ^^^ d).log2 := by
      rw [leadingZeros, if_neg hne]
      omega
    have hplace : place c d =
        (min ((c ^^^ d).log2 / SLOT_BITS) (LEVELS - 1),
          digit (min ((c ^^^ d).log2 / SLOT_BITS) (LEVELS - 1)) d) := by
      rw [place, if_neg hle]
    rw [if_neg hle, assert_of (deadlineFits_iff.mpr hfits), ok_bind]
    simp only [hdiffer, shiftRight_and_slotMask]
    rw [hplace] at hfiled ⊢
    have hwake := hfiled.wakeup_bounds.2
    rw [max_eq_left (by omega)] at hwake
    rw [assert_of (by simpa using hwake), ok_bind]

/-- A near slot under the cursor is placed on a lower level once its window is reached, and
on no higher level before. -/
theorem Near.place_level {c d level slot : ℕ} (h : Near c d level slot)
    (hslot : slot = digit level c) (hpos : 0 < level) :
  (place c d).1 ≤ level ∧ (windowStart (width level) d = c → (place c d).1 < level)
  := by
  have hreached : windowStart (width level) d = c → (place c d).1 < level := by
    intro hstart
    rw [place]
    split
    · apply hpos
    · rename_i hlt
      by_contra hge
      have hlevel := h.depth
      have hlow : level ≤ (c ^^^ d).log2 / SLOT_BITS := by
        simp only [not_lt] at hge
        omega
      have hne : c ^^^ d ≠ 0 := by
        rw [ne_eq, xor_eq_zero_iff_eq]
        omega
      have hle : 2 ^ (level * SLOT_BITS) ≤ c ^^^ d := by
        apply le_trans _ (Nat.log2_self_le hne)
        apply Nat.pow_le_pow_right (by decide)
        rw [SLOT_BITS] at hlow ⊢
        omega
      apply div_two_pow_ne_of_le_xor hle
      rw [← width, ← hstart, windowStart, Nat.mul_div_cancel _ (width_pos level)]
  refine ⟨?_, hreached⟩
  by_cases htop : level + 1 < LEVELS
  · apply (hreached (h.start_eq hslot hpos htop)).le
  · have hbound : (place c d).1 ≤ LEVELS - 1 := by
      rw [place]
      split
      · simp
      · simp only
        omega
    have hlevel := h.depth
    omega

end Grommet.Timer
