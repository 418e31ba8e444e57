import Mathlib.Algebra.Order.Group.Nat
import Mathlib.Data.Nat.ModEq
import Mathlib.Tactic.Ring

/-!
# Positions that carry a lap

Positions are numbered in order, and a word holds the lap of a position above its index in
the lap.  A lap has more room than there are indices, and the laps start over when they have
filled the word.  Positions less than one such period apart have different words.
-/

/-- Laps of `capacity` positions each, `lap` apart, that start over after `laps` laps. -/
structure Laps where
  capacity : ℕ
  lap : ℕ
  laps : ℕ
  pos : 0 < capacity
  room : capacity < lap
  two : 2 ≤ laps

namespace Laps

variable (L : Laps) {m n : ℕ}

/-- The number of words that positions are taken from. -/
def size : ℕ := L.lap * L.laps

/-- The number of positions after which the words start over. -/
def period : ℕ := L.capacity * L.laps

/-- The word of a position. -/
def position (n : ℕ) : ℕ := n / L.capacity % L.laps * L.lap + n % L.capacity

theorem index_lt (n : ℕ) :
  n % L.capacity < L.lap
  := (Nat.mod_lt n L.pos).trans L.room

theorem lap_pos :
  0 < L.lap
  := (Nat.zero_le _).trans_lt L.room

theorem position_mod (n : ℕ) :
  L.position n % L.lap = n % L.capacity
  := by
  rw [position, Nat.mul_add_mod', Nat.mod_eq_of_lt (L.index_lt n)]

theorem position_div (n : ℕ) :
  L.position n / L.lap = n / L.capacity % L.laps
  := by
  rw [position, add_comm, Nat.add_mul_div_right _ _ L.lap_pos, Nat.div_eq_of_lt (L.index_lt n),
    zero_add]

/-- A word of a lap and an index, when the lap may be out of range. -/
theorem mod_size (q r : ℕ) (hr : r < L.lap) :
  (q * L.lap + r) % L.size = q % L.laps * L.lap + r
  := by
  rw [size, Nat.mod_mul, Nat.mul_add_mod', Nat.mod_eq_of_lt hr, add_comm (q * L.lap),
    Nat.add_mul_div_right _ _ L.lap_pos, Nat.div_eq_of_lt hr, zero_add]
  ring

/-- The next position of the same lap. -/
theorem position_succ_of_lt (h : n % L.capacity + 1 < L.capacity) :
  L.position (n + 1) = L.position n + 1
  := by
  have hdiv : (n + 1) / L.capacity = n / L.capacity := by
    apply Nat.div_eq_of_lt_le
    · have := Nat.div_mul_le_self n L.capacity
      omega
    · have := Nat.div_add_mod' n L.capacity
      rw [Nat.succ_mul]
      omega
  have hmod : (n + 1) % L.capacity = n % L.capacity + 1 := by
    rw [Nat.add_mod_eq_ite, Nat.mod_eq_of_lt (show 1 < L.capacity by omega), if_neg (by omega)]
  rw [position, position, hdiv, hmod, add_assoc]

/-- The position after a whole lap. -/
theorem position_add_capacity (n : ℕ) :
  L.position (n + L.capacity) = (L.position n + L.lap) % L.size
  := by
  have hsum : L.position n + L.lap = (n / L.capacity % L.laps + 1) * L.lap + n % L.capacity := by
    rw [position]
    ring
  rw [hsum, L.mod_size _ _ (L.index_lt n), Nat.mod_add_mod, position, Nat.add_mod_right,
    Nat.add_div_right _ L.pos]

/-- The first position of the next lap. -/
theorem position_succ_of_not_lt (h : ¬ n % L.capacity + 1 < L.capacity) :
  L.position (n + 1) = (L.position n - n % L.capacity + L.lap) % L.size
  := by
  have hlt := Nat.mod_lt n L.pos
  have hlast : n % L.capacity + 1 = L.capacity := by omega
  have hfirst : n + 1 = n - n % L.capacity + L.capacity := by
    have := Nat.mod_le n L.capacity
    omega
  have hmod : (n - n % L.capacity) % L.capacity = 0 := Nat.sub_mod_eq_zero_of_mod_eq (by simp)
  have hdiv : (n - n % L.capacity) / L.capacity = n / L.capacity := by
    have := Nat.div_add_mod' n L.capacity
    rw [show n - n % L.capacity = n / L.capacity * L.capacity by omega,
      Nat.mul_div_cancel _ L.pos]
  have hposition : L.position (n - n % L.capacity) = L.position n - n % L.capacity := by
    rw [position, position, hmod, hdiv, Nat.add_sub_cancel, add_zero]
  rw [hfirst, position_add_capacity, hposition]

/-- Positions less than a period apart have different words. -/
theorem position_inj (h : L.position m = L.position n) (hle : m ≤ n) (hlt : n < m + L.period) :
  m = n
  := by
  have hmod : m % L.capacity = n % L.capacity := by
    rw [← L.position_mod, ← L.position_mod, h]
  have hdiv : m / L.capacity % L.laps = n / L.capacity % L.laps := by
    rw [← L.position_div, ← L.position_div, h]
  have hm := Nat.div_add_mod' m L.capacity
  have hn := Nat.div_add_mod' n L.capacity
  have hlaps : n / L.capacity < m / L.capacity + L.laps := by
    apply Nat.lt_of_mul_lt_mul_right (a := L.capacity)
    rw [add_mul, mul_comm L.laps]
    unfold period at hlt
    omega
  have hquot : m / L.capacity = n / L.capacity := by
    have hdvd := (Nat.modEq_iff_dvd' (Nat.div_le_div_right hle)).mp hdiv
    have htwo := L.two
    have hzero := Nat.eq_zero_of_dvd_of_lt hdvd (by omega)
    have := Nat.div_le_div_right (c := L.capacity) hle
    omega
  rw [← hm, ← hn, hquot, hmod]

/-- There is room for one more word in every lap. -/
theorem position_add_one_lt (n : ℕ) :
  L.position n + 1 < L.size
  := by
  have hlt := Nat.mod_lt n L.pos
  have hroom := L.room
  have hword : L.position n + 1 = n / L.capacity % L.laps * L.lap + (n % L.capacity + 1) := by
    rw [position, add_assoc]
  rw [hword, ← Nat.mod_mod (n / L.capacity) L.laps, ← L.mod_size _ _ (by omega)]
  apply Nat.mod_lt
  apply Nat.mul_pos L.lap_pos
  have := L.two
  omega

/-- A window of one lap has a position of every index. -/
theorem exists_index (a : ℕ) {k : ℕ} (hk : k < L.capacity) :
  ∃ n, a ≤ n ∧ n < a + L.capacity ∧ n % L.capacity = k
  := by
  have hlt := Nat.mod_lt a L.pos
  refine ⟨a + (k + (L.capacity - a % L.capacity)) % L.capacity, Nat.le_add_right _ _, ?_, ?_⟩
  · have := Nat.mod_lt (k + (L.capacity - a % L.capacity)) L.pos
    omega
  · rw [Nat.add_mod_mod, ← Nat.mod_add_mod,
      show a % L.capacity + (k + (L.capacity - a % L.capacity)) = k + L.capacity by omega,
      Nat.add_mod_right, Nat.mod_eq_of_lt hk]

/-- Positions of a window of one lap have different indices. -/
theorem index_inj {a : ℕ} (hm : a ≤ m) (hm' : m < a + L.capacity) (hn : a ≤ n)
    (hn' : n < a + L.capacity) (h : m % L.capacity = n % L.capacity) :
  m = n
  := by
  have hdiff : ∀ {b c : ℕ}, a ≤ b → c < a + L.capacity → b ≤ c →
      b % L.capacity = c % L.capacity → b = c := by
    intro b c hb hc hle hmod
    have hdvd := (Nat.modEq_iff_dvd' hle).mp hmod
    have hzero := Nat.eq_zero_of_dvd_of_lt hdvd (by omega)
    omega
  rcases Nat.le_total m n with hle | hle
  · exact hdiff hm hn' hle h
  · exact (hdiff hn hm' hle h.symm).symm

/-- The words of positions of one index are not next to each other. -/
theorem position_ne_add_one (h : m % L.capacity = n % L.capacity) :
  L.position m ≠ L.position n + 1
  := by
  intro heq
  have hposition := L.position_mod m
  have hroom := L.room
  have hindex := Nat.mod_lt n L.pos
  rw [heq, Nat.add_mod, L.position_mod, h, Nat.mod_eq_of_lt (show 1 < L.lap by omega),
    Nat.mod_eq_of_lt (by omega)] at hposition
  omega

/-- The word of a position a lap later is neither the word of the position nor the next word. -/
theorem position_add_capacity_ne (n : ℕ) :
  L.position (n + L.capacity) ≠ L.position n ∧
    L.position (n + L.capacity) ≠ L.position n + 1
  := by
  refine ⟨?_, L.position_ne_add_one (Nat.add_mod_right _ _)⟩
  intro h
  have hlt : n + L.capacity < n + L.period := by
    have := Nat.mul_le_mul_left L.capacity L.two
    have := L.pos
    unfold period
    omega
  have := L.position_inj h.symm (Nat.le_add_right _ _) hlt
  have := L.pos
  omega

/-- The next word of a position a lap later. -/
theorem position_add_one_add_lap (n : ℕ) :
  (L.position n + 1 + L.lap) % L.size = L.position (n + L.capacity) + 1
  := by
  have hlt := L.position_add_one_lt (n + L.capacity)
  have hone : 1 < L.size := by omega
  rw [Nat.add_right_comm, Nat.add_mod, ← L.position_add_capacity, Nat.mod_eq_of_lt hone,
    Nat.mod_eq_of_lt hlt]

end Laps
