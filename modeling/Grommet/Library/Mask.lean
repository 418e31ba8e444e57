import Mathlib.Data.Nat.Basic

/-!
# Words as sets of bits

A word of `w` bits is a set of numbers below `w`: setting, clearing and testing one bit,
clearing the lowest one, and finding the first bit in circular order from a given one.
-/

namespace BitVec

variable {w : ℕ} {m : BitVec w} {s i here : ℕ}

theorem getLsbD_one_shiftLeft (hi : i < w) :
  (1#w <<< s).getLsbD i = decide (i = s)
  := by
  rw [getLsbD_shiftLeft, getLsbD_one]
  by_cases h : i = s
  · subst h
    simp [hi]
    omega
  · by_cases hlt : i < s
    · simp [hlt, h]
    · have hne : i - s ≠ 0 := by omega
      simp [hne, h]

/-- A bit is set when the word meets the word of that bit. -/
theorem and_one_shiftLeft_ne_zero (hs : s < w) :
  (m &&& (1#w <<< s) != 0#w) = m.getLsbD s
  := by
  cases hbit : m.getLsbD s with
  | true =>
    rw [bne_iff_ne]
    intro hzero
    have hget := congrArg (fun x => x.getLsbD s) hzero
    simp [getLsbD_one_shiftLeft hs, hbit] at hget
  | false =>
    rw [bne_eq_false_iff_eq]
    apply eq_of_getLsbD_eq
    intro j hj
    rw [getLsbD_and, getLsbD_one_shiftLeft hj, getLsbD_zero]
    by_cases h : j = s
    · rw [h, hbit, Bool.false_and]
    · simp [h]

/-- The bits after one was set. -/
theorem getLsbD_set (hi : i < w) :
  (m ||| (1#w <<< s)).getLsbD i = (m.getLsbD i || decide (i = s))
  := by
  rw [getLsbD_or, getLsbD_one_shiftLeft hi]

/-- The bits after one was cleared. -/
theorem getLsbD_clear (hi : i < w) :
  (m &&& ~~~(1#w <<< s)).getLsbD i = (m.getLsbD i && !decide (i = s))
  := by
  rw [getLsbD_and, getLsbD_not, getLsbD_one_shiftLeft hi]
  simp [hi]

/-- The bits of a word turned to the right. -/
theorem getLsbD_rotateRight_mod (hh : here < w) (hi : i < w) :
  (m.rotateRight here).getLsbD i = m.getLsbD ((here + i) % w)
  := by
  rw [getLsbD_rotateRight_of_lt hh]
  by_cases hlt : i < w - here
  · rw [Nat.mod_eq_of_lt (by omega)]
    simp [hlt]
  · have hmod : (here + i) % w = i - (w - here) := by
      rw [Nat.mod_eq_sub_mod (by omega), Nat.mod_eq_of_lt (by omega)]
      omega
    rw [hmod]
    simp [hlt, hi]

/-- The trailing zeros of a word turned to the right are the way to its first bit in
circular order. -/
theorem first_set (hm : m ≠ 0#w) (hh : here < w) :
  (m.rotateRight here).ctz.toNat < w ∧
    m.getLsbD ((here + (m.rotateRight here).ctz.toNat) % w) = true ∧
    ∀ a < (m.rotateRight here).ctz.toNat, m.getLsbD ((here + a) % w) = false
  := by
  have hrotate : m.rotateRight here ≠ 0#w := by
    intro hzero
    apply hm
    apply eq_of_getLsbD_eq
    intro i hi
    have hback : (here + (i + (w - here)) % w) % w = i := by
      rw [Nat.add_mod_mod]
      have heq : here + (i + (w - here)) = i + w := by omega
      rw [heq, Nat.add_mod_right, Nat.mod_eq_of_lt hi]
    have hget := getLsbD_rotateRight_mod (m := m) hh (Nat.mod_lt (i + (w - here)) (by omega))
    rw [hback, hzero] at hget
    rw [← hget, getLsbD_zero, getLsbD_zero]
  have hset := getLsbD_true_ctz_of_ne_zero hrotate
  have hlt : (m.rotateRight here).ctz.toNat < w := by
    by_contra hge
    rw [getLsbD_of_ge _ _ (by omega)] at hset
    cases hset
  refine ⟨hlt, ?_, ?_⟩
  · rw [← getLsbD_rotateRight_mod hh hlt, hset]
  · intro a ha
    rw [← getLsbD_rotateRight_mod hh (by omega)]
    apply getLsbD_false_of_lt_ctz ha

/-- A word other than zero has a bit. -/
theorem exists_getLsbD (hm : m ≠ 0#w) :
  ∃ i < w, m.getLsbD i = true
  := by
  refine ⟨m.ctz.toNat, ?_, getLsbD_true_ctz_of_ne_zero hm⟩
  exact lt_of_getLsbD (getLsbD_true_ctz_of_ne_zero hm)

theorem toNat_sub_one (hbit : m.getLsbD s = true) :
  (m - 1#w).toNat = m.toNat - 1
  := by
  have hlt : s < w := lt_of_getLsbD hbit
  have hpos : 2 ^ s ≤ m.toNat := Nat.ge_two_pow_of_testBit hbit
  have hnonzero : 1 ≤ m.toNat := Nat.le_trans Nat.one_le_two_pow hpos
  have hw : 1 < 2 ^ w := Nat.one_lt_two_pow (by omega)
  rw [BitVec.toNat_sub_of_le]
  · simp [Nat.mod_eq_of_lt hw]
  · rw [BitVec.le_def]
    simp [Nat.mod_eq_of_lt hw]
    omega

/-- Taking one away from a word keeps the bits above the lowest one. -/
theorem getLsbD_sub_one (hlow : m.getLsbD s = true) (hi : s < i) (hbit : m.getLsbD i = true) :
  (m - 1#w).getLsbD i = true
  := by
  have hlt : i < w := lt_of_getLsbD hbit
  have hpos : 2 ^ s ≤ m.toNat := Nat.ge_two_pow_of_testBit hlow
  rw [getLsbD, toNat_sub_one hlow]
  have hmod : 2 ^ s ≤ m.toNat % 2 ^ i := by
    apply Nat.ge_two_pow_of_testBit
    rw [Nat.testBit_mod_two_pow]
    simp [hi]
    exact hlow
  have hsplit := Nat.div_add_mod m.toNat (2 ^ i)
  have hdiv : (m.toNat - 1) / 2 ^ i = m.toNat / 2 ^ i := by
    have hspos : 0 < 2 ^ s := Nat.two_pow_pos s
    have hipos : 0 < 2 ^ i := Nat.two_pow_pos i
    have hrest := Nat.mod_lt m.toNat hipos
    have heq : m.toNat - 1 = (m.toNat % 2 ^ i - 1) + 2 ^ i * (m.toNat / 2 ^ i) := by omega
    rw [heq, Nat.add_mul_div_left _ _ hipos, Nat.div_eq_of_lt (by omega), Nat.zero_add]
  rw [Nat.testBit_eq_decide_div_mod_eq, hdiv, ← Nat.testBit_eq_decide_div_mod_eq]
  exact hbit

/-- The lowest bit is cleared and the others are kept. -/
theorem getLsbD_and_sub_one (hbit : m.getLsbD i = true) (hi : i ≠ m.ctz.toNat) :
  (m &&& (m - 1#w)).getLsbD i = true
  := by
  have hm : m ≠ 0#w := by
    rintro rfl
    rw [getLsbD_zero] at hbit
    cases hbit
  have hlow := getLsbD_true_ctz_of_ne_zero hm
  have hlt : m.ctz.toNat < i := by
    by_contra hge
    have hfalse := getLsbD_false_of_lt_ctz (x := m) (i := i) (by omega)
    rw [hbit] at hfalse
    cases hfalse
  rw [getLsbD_and, hbit, getLsbD_sub_one hlow hlt hbit]
  rfl

/-- Clearing the lowest bit clears no other. -/
theorem getLsbD_and_sub_one_iff :
  (m &&& (m - 1#w)).getLsbD i = true ↔ m.getLsbD i = true ∧ i ≠ m.ctz.toNat
  := by
  constructor
  · intro hbit
    rw [getLsbD_and, Bool.and_eq_true] at hbit
    refine ⟨hbit.1, ?_⟩
    rintro rfl
    generalize hs : m.ctz.toNat = s at hbit
    have hlow : m.toNat % 2 ^ s = 0 := by
      apply Nat.eq_of_testBit_eq
      intro j
      rw [Nat.testBit_mod_two_pow, Nat.zero_testBit]
      by_cases hj : j < s
      · have hfalse := getLsbD_false_of_lt_ctz (x := m) (i := j) (by omega)
        rw [getLsbD] at hfalse
        rw [hfalse, Bool.and_false]
      · simp [hj]
    have hspos : 0 < 2 ^ s := Nat.two_pow_pos s
    have hpos : 2 ^ s ≤ m.toNat := Nat.ge_two_pow_of_testBit hbit.1
    have hone := toNat_sub_one hbit.1
    have hsplit := Nat.div_add_mod m.toNat (2 ^ s)
    have hquotient : 0 < m.toNat / 2 ^ s := Nat.div_pos hpos hspos
    have hdiv : (m.toNat - 1) / 2 ^ s = m.toNat / 2 ^ s - 1 := by
      have heq : m.toNat - 1 = (2 ^ s - 1) + 2 ^ s * (m.toNat / 2 ^ s - 1) := by
        rw [Nat.mul_sub_one]
        have hle : 2 ^ s ≤ 2 ^ s * (m.toNat / 2 ^ s) := Nat.le_mul_of_pos_right _ hquotient
        omega
      rw [heq, Nat.add_mul_div_left _ _ hspos, Nat.div_eq_of_lt (by omega), Nat.zero_add]
    rw [getLsbD, getLsbD, hone, Nat.testBit_eq_decide_div_mod_eq, Nat.testBit_eq_decide_div_mod_eq,
      hdiv, decide_eq_true_eq, decide_eq_true_eq] at hbit
    omega
  · rintro ⟨hbit, hne⟩
    exact getLsbD_and_sub_one hbit hne

end BitVec
