import Mathlib.Data.Nat.Log
import Mathlib.Data.Nat.Bitwise

/-!
# Windows of time

Time is cut into windows of width `W`, and `n` windows in a row make a rotation.  A time is
found by its rotation, the number of its window in it, and its offset in the window.
-/

/-- The start of the window of width `W` that holds `d`. -/
def windowStart (W d : ℕ) : ℕ := d / W * W

section Windows

variable {W n R c d t : ℕ}

theorem windowStart_le :
  windowStart W d ≤ d
  := Nat.div_mul_le_self d W

/-- The start of a window within a rotation of `n` windows. -/
theorem windowStart_mod :
  windowStart W d % (n * W) = d / W % n * W
  := by
  rw [windowStart, Nat.mul_mod_mul_right]

/-- An earlier time is before the window when it lies in another one. -/
theorem lt_windowStart_iff (hW : 0 < W) :
  c < windowStart W d ↔ c / W < d / W
  := by
  rw [windowStart, Nat.div_lt_iff_lt_mul hW]

/-- The time at most one rotation ahead with a given place in its rotation. -/
theorem next_occurrence (hct : c ≤ t) (htR : t < c + R) :
  t = c + if c % R ≤ t % R then t % R - c % R else R - c % R + t % R
  := by
  have hR : 0 < R := by omega
  have hcR := Nat.mod_lt c hR
  have hc := Nat.div_add_mod c R
  have ht := Nat.div_add_mod t R
  have hle : c / R ≤ t / R := Nat.div_le_div_right hct
  have hlt : t / R ≤ c / R + 1 := by
    rw [← Nat.lt_succ_iff, Nat.div_lt_iff_lt_mul hR]
    rw [Nat.succ_mul, Nat.succ_mul, Nat.mul_comm]
    omega
  rcases Nat.lt_or_ge (c / R) (t / R) with hnext | hsame
  · have heq : t / R = c / R + 1 := by omega
    rw [heq, Nat.mul_add, Nat.mul_one] at ht
    split <;> omega
  · have heq : t / R = c / R := by omega
    rw [heq] at ht
    split <;> omega

/-- The windows of two times in one rotation are told apart by their numbers in it. -/
theorem div_eq_of_rotation (hrot : c / (n * W) = d / (n * W)) (hdigit : c / W % n = d / W % n) :
  c / W = d / W
  := by
  rw [Nat.mul_comm n W, ← Nat.div_div_eq_div_mul, ← Nat.div_div_eq_div_mul] at hrot
  rw [← Nat.div_add_mod (c / W) n, ← Nat.div_add_mod (d / W) n, hrot, hdigit]

/-- A time between two times of one rotation is in that rotation. -/
theorem div_eq_of_between (hct : c ≤ t) (htd : t ≤ d) (h : c / R = d / R) :
  t / R = d / R
  := by
  apply Nat.le_antisymm (Nat.div_le_div_right htd)
  rw [← h]
  apply Nat.div_le_div_right hct

/-! ### The highest bit in which two numbers differ -/

theorem xor_eq_zero_iff_eq :
  c ^^^ d = 0 ↔ c = d
  := by
  constructor
  · intro h
    rw [← Nat.xor_zero c, ← Nat.xor_self d, ← Nat.xor_assoc, h, Nat.zero_xor]
  · rintro rfl
    apply Nat.xor_self

/-- Two numbers agree above every bit that is higher than the highest in which they
differ. -/
theorem div_two_pow_eq_of_xor_lt (h : c ^^^ d < 2 ^ n) :
  c / 2 ^ n = d / 2 ^ n
  := by
  rw [← Nat.shiftRight_eq_div_pow, ← Nat.shiftRight_eq_div_pow, ← xor_eq_zero_iff_eq,
    ← Nat.shiftRight_xor_distrib, Nat.shiftRight_eq_div_pow, Nat.div_eq_of_lt h]

/-- Two numbers differ above every bit that is not higher than the highest in which they
differ. -/
theorem div_two_pow_ne_of_le_xor (h : 2 ^ n ≤ c ^^^ d) :
  c / 2 ^ n ≠ d / 2 ^ n
  := by
  rw [← Nat.shiftRight_eq_div_pow, ← Nat.shiftRight_eq_div_pow, ne_eq, ← xor_eq_zero_iff_eq,
    ← Nat.shiftRight_xor_distrib, Nat.shiftRight_eq_div_pow]
  have hpos := Nat.div_pos h (Nat.two_pow_pos n)
  omega

end Windows
