import Grommet.Core.Timer.Placement
import Grommet.Library.Mask
import Mathlib.Order.MinMax

/-!
# The next event

The wheel caches the earliest wakeup of its occupied slots.  On one level the slots come up
in circular order from the one after the cursor's own, so the first occupied slot in that
order is the earliest, and only the cursor's own slot is looked at besides.
-/

namespace Grommet.Timer

variable {T : Type} {w : Wheel T} {c level slot : ℕ}

/-- The wakeup of the slot that is `a` slots after the one under the cursor. -/
theorem slotWakeup_ahead {a : ℕ} (hpos : 0 < a) (ha : a < SLOTS) :
  slotWakeup c level ((digit level c + a) % SLOTS) =
    min (windowStart (width level) c + a * width level) U64_MAX
  := by
  have hwidth := width_pos level
  have hstart : windowStart (width level) c + a * width level =
      (c / width level + a) * width level := by
    rw [windowStart, Nat.add_mul]
  have hmod : (c / width level + a) * width level % (SLOTS * width level) =
      (digit level c + a) % SLOTS * width level := by
    rw [Nat.mul_mod_mul_right, digit, Nat.mod_add_mod]
  have hle : c ≤ (c / width level + a) * width level := by
    have hlt := Nat.lt_div_mul_add (a := c) hwidth
    have hone : 1 * width level ≤ a * width level := Nat.mul_le_mul_right _ hpos
    rw [Nat.add_mul]
    omega
  have hlt : (c / width level + a) * width level < c + SLOTS * width level := by
    have hdiv := Nat.div_mul_le_self c (width level)
    have hmul : a * width level < SLOTS * width level := Nat.mul_lt_mul_of_pos_right ha hwidth
    rw [Nat.add_mul]
    omega
  have hnext := next_occurrence hle hlt
  rw [hmod] at hnext
  rw [slotWakeup_eq, ← hnext, hstart]

/-- Every slot but the cursor's own is some way after it. -/
theorem exists_ahead (hslot : slot < SLOTS) (hne : slot ≠ digit level c) :
  ∃ a, 0 < a ∧ a < SLOTS ∧ slot = (digit level c + a) % SLOTS
  := by
  have hdigit := digit_lt level c
  rw [SLOTS] at hslot hdigit ⊢
  rcases Nat.lt_or_gt_of_ne hne with hlt | hgt
  · refine ⟨slot + 64 - digit level c, by omega, by omega, ?_⟩
    have heq : digit level c + (slot + 64 - digit level c) = slot + 64 := by omega
    rw [heq, Nat.add_mod_right, Nat.mod_eq_of_lt hslot]
  · refine ⟨slot - digit level c, by omega, by omega, ?_⟩
    have heq : digit level c + (slot - digit level c) = slot := by omega
    rw [heq, Nat.mod_eq_of_lt hslot]

/-- A slot of a level holds entries, as far as the occupancy masks say. -/
def Wheel.Occupied (w : Wheel T) (p : ℕ × ℕ) : Prop :=
  (w.occupied p.1).getLsbD p.2 = true

theorem isOccupied_iff (hslot : slot < SLOTS) :
  w.isOccupied level slot = true ↔ w.Occupied (level, slot)
  := by
  have hbound : slot < 64 := hslot
  rw [Wheel.isOccupied, BitVec.and_one_shiftLeft_ne_zero hbound, Wheel.Occupied]

theorem Wheel.Occupied.slot_lt {p : ℕ × ℕ} (h : w.Occupied p) :
  p.2 < SLOTS
  := by
  by_contra hge
  rw [Wheel.Occupied, BitVec.getLsbD_of_ge _ _ (by rw [SLOTS] at hge; omega)] at h
  cases h

/-- What the search for the earliest wakeup returns after the levels below `n`, when it
starts from `bound`. -/
structure Soonest (w : Wheel T) (n bound result : ℕ) : Prop where
  le_bound : result ≤ bound
  le_wakeup : ∀ p, p.1 < n → w.Occupied p → result ≤ slotWakeup w.cursor p.1 p.2
  attained : result = bound ∨
    ∃ p, p.1 < n ∧ w.Occupied p ∧ result = slotWakeup w.cursor p.1 p.2

/-- The first slot after the cursor's own is the earliest of the other slots. -/
theorem soonest_other
    (hother : w.occupied level &&& ~~~(1#64 <<< digit level w.cursor) ≠ 0#64) :
  ∃ s, s = (digit level w.cursor +
      ((w.occupied level &&& ~~~(1#64 <<< digit level w.cursor)).rotateRight
        (digit level w.cursor)).ctz.toNat) % SLOTS ∧
    w.Occupied (level, s) ∧
    ∀ slot, w.Occupied (level, slot) → slot ≠ digit level w.cursor →
      slotWakeup w.cursor level s ≤ slotWakeup w.cursor level slot
  := by
  have hdigit : digit level w.cursor < 64 := digit_lt level w.cursor
  generalize hhere : digit level w.cursor = here at hother hdigit
  generalize hmask : w.occupied level &&& ~~~(1#64 <<< here) = other at hother
  have hbit : ∀ i < 64, other.getLsbD i = ((w.occupied level).getLsbD i && !decide (i = here)) := by
    intro i hi
    rw [← hmask, BitVec.getLsbD_clear hi]
  obtain ⟨hlt, hset, hmin⟩ := BitVec.first_set hother hdigit
  generalize hahead : (other.rotateRight here).ctz.toNat = ahead at hlt hset hmin
  have hbound : (here + ahead) % 64 < 64 := Nat.mod_lt _ (by decide)
  rw [hbit _ hbound, Bool.and_eq_true] at hset
  obtain ⟨hocc, hself⟩ := hset
  have hpos : 0 < ahead := by
    apply Nat.pos_of_ne_zero
    rintro rfl
    rw [Nat.add_zero, Nat.mod_eq_of_lt hdigit] at hself
    simp at hself
  refine ⟨_, rfl, hocc, ?_⟩
  intro slot hslot hne
  obtain ⟨a, ha, haSlots, rfl⟩ := exists_ahead hslot.slot_lt (hhere ▸ hne)
  rw [hhere] at hslot hne ⊢
  have hle : ahead ≤ a := by
    by_contra hgt
    have hclear := hmin a (by omega)
    rw [hbit _ (Nat.mod_lt _ (by decide))] at hclear
    rw [Wheel.Occupied, SLOTS] at hslot
    rw [hslot, Bool.true_and, Bool.not_eq_false', decide_eq_true_eq] at hclear
    apply hne hclear
  rw [← hhere, slotWakeup_ahead hpos hlt, slotWakeup_ahead ha haSlots]
  have hmul : ahead * width level ≤ a * width level := Nat.mul_le_mul_right _ hle
  omega

/-- When no other slot is occupied, only the cursor's own can be. -/
theorem eq_digit_of_other
    (hother : w.occupied level &&& ~~~(1#64 <<< digit level w.cursor) = 0#64)
    (hslot : w.Occupied (level, slot)) :
  slot = digit level w.cursor
  := by
  have hbound : slot < 64 := hslot.slot_lt
  have hclear := BitVec.getLsbD_clear (m := w.occupied level) (s := digit level w.cursor) hbound
  rw [Wheel.Occupied] at hslot
  rw [hother, BitVec.getLsbD_zero, hslot, Bool.true_and] at hclear
  simpa using hclear.symm

/-- The earliest wakeup of one level, or the given one. -/
theorem soonestOfLevel_spec (w : Wheel T) (b level : ℕ) :
  w.soonestOfLevel b level ≤ b ∧
    (∀ slot, w.Occupied (level, slot) →
      w.soonestOfLevel b level ≤ slotWakeup w.cursor level slot) ∧
    (w.soonestOfLevel b level = b ∨ ∃ slot, w.Occupied (level, slot) ∧
      w.soonestOfLevel b level = slotWakeup w.cursor level slot)
  := by
  have hmask : ∀ x, x &&& (SLOTS - 1) = x % SLOTS := and_slotMask
  have hiff : w.isOccupied level (digit level w.cursor) = true ↔
      w.Occupied (level, digit level w.cursor) := isOccupied_iff (digit_lt level w.cursor)
  simp only [Wheel.soonestOfLevel, shiftRight_and_slotMask, hmask]
  by_cases hzero : w.occupied level = 0#64
  · simp [hzero, Wheel.Occupied]
  rw [if_neg hzero]
  by_cases hother : w.occupied level &&& ~~~(1#64 <<< digit level w.cursor) = 0#64
  · have hhere : w.Occupied (level, digit level w.cursor) := by
      by_contra hfree
      apply hzero
      apply BitVec.eq_of_getLsbD_eq
      intro i _
      rw [BitVec.getLsbD_zero]
      by_contra hbit
      have hocc : w.Occupied (level, i) := by simpa [Wheel.Occupied] using hbit
      apply hfree
      rwa [← eq_digit_of_other hother hocc]
    simp only [hother, ne_eq, not_true_eq_false, if_false, if_pos (hiff.mpr hhere)]
    refine ⟨min_le_left _ _, ?_, ?_⟩
    · intro slot hslot
      rw [eq_digit_of_other hother hslot]
      apply min_le_right
    · rcases min_choice b (slotWakeup w.cursor level (digit level w.cursor)) with heq | heq
      · exact Or.inl heq
      · exact Or.inr ⟨_, hhere, heq⟩
  · obtain ⟨s, hs, hocc, hfirst⟩ := soonest_other hother
    simp only [← hs, ne_eq, hother, not_false_eq_true, if_true]
    by_cases hhere : w.Occupied (level, digit level w.cursor)
    · rw [if_pos (hiff.mpr hhere)]
      refine ⟨by omega, ?_, ?_⟩
      · intro slot hslot
        by_cases heq : slot = digit level w.cursor
        · rw [heq]
          apply min_le_right
        · have hle := hfirst slot hslot heq
          omega
      · rcases min_choice (min b (slotWakeup w.cursor level s))
          (slotWakeup w.cursor level (digit level w.cursor)) with heq | heq
        · rw [heq]
          rcases min_choice b (slotWakeup w.cursor level s) with heq | heq
          · exact Or.inl heq
          · exact Or.inr ⟨_, hocc, heq⟩
        · exact Or.inr ⟨_, hhere, heq⟩
    · rw [if_neg (mt hiff.mp hhere)]
      refine ⟨min_le_left _ _, ?_, ?_⟩
      · intro slot hslot
        have hne : slot ≠ digit level w.cursor := by
          rintro rfl
          apply hhere hslot
        apply (min_le_right _ _).trans (hfirst slot hslot hne)
      · rcases min_choice b (slotWakeup w.cursor level s) with heq | heq
        · exact Or.inl heq
        · exact Or.inr ⟨_, hocc, heq⟩

/-- Searching one more level. -/
theorem Soonest.succ {bound b : ℕ} (h : Soonest w level bound b) :
  Soonest w (level + 1) bound (w.soonestOfLevel b level)
  := by
  have hlevel : ∀ p : ℕ × ℕ, p.1 < level + 1 → p.1 < level ∨ p = (level, p.2) := by
    intro p hp
    rcases Nat.lt_succ_iff_lt_or_eq.mp hp with hlt | heq
    · exact Or.inl hlt
    · exact Or.inr (Prod.ext heq rfl)
  obtain ⟨hle, hwakeup, hattained⟩ := soonestOfLevel_spec w b level
  refine ⟨hle.trans h.le_bound, ?_, ?_⟩
  · intro p hp hocc
    rcases hlevel p hp with hlt | heq
    · apply hle.trans (h.le_wakeup p hlt hocc)
    · rw [heq] at hocc ⊢
      apply hwakeup p.2 hocc
  · rcases hattained with heq | ⟨slot, hocc, heq⟩
    · rw [heq]
      apply h.attained.imp_right
      rintro ⟨p, hp, hocc, heq⟩
      exact ⟨p, by omega, hocc, heq⟩
    · exact Or.inr ⟨(level, slot), by simp, hocc, heq⟩

/-- Searching the lowest `n` levels. -/
theorem soonest_foldl (w : Wheel T) (n bound : ℕ) :
  Soonest w n bound ((List.range n).foldl w.soonestOfLevel bound)
  := by
  induction n with
  | zero => exact ⟨le_rfl, fun p hp => (Nat.not_lt_zero _ hp).elim, Or.inl rfl⟩
  | succ n ih =>
    rw [List.range_succ, List.foldl_append, List.foldl_cons, List.foldl_nil]
    apply ih.succ

/-! ### The cached event -/

/-- The cached event is the earliest wakeup of the occupied slots, and the largest word when
there are none. -/
abbrev Wheel.Exact (w : Wheel T) : Prop :=
  Soonest w LEVELS U64_MAX w.nextEvent

theorem exact_refresh (w : Wheel T) :
  w.refresh.Exact
  := by
  have hspec := soonest_foldl w LEVELS U64_MAX
  have hnext : w.refresh.nextEvent = (List.range LEVELS).foldl w.soonestOfLevel U64_MAX := by
    simp only [Wheel.refresh, Wheel.computeNextEvent]
    split
    · rfl
    · simp_all
  rw [Wheel.Exact, hnext]
  exact ⟨hspec.le_bound, hspec.le_wakeup, hspec.attained⟩

end Grommet.Timer
