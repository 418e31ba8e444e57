import Mathlib.Data.BitVec
import Mathlib.Data.Int.CardIntervalMod

/-!
# Mixing words

The steps of which finalizers of hashes are made are bijections of the words of one width:
to add the upper half of the bits to the lower half, and to multiply by a word that has an
inverse.  A bijection keeps the number of words with a property, and so a property of the
residue of a word holds of as many words as the residues say.
-/

namespace Mixing

variable {w : ℕ}

/-- Add to each bit the one that stands `k` places above it. -/
def xorShift (k : ℕ) (x : BitVec w) : BitVec w := x ^^^ (x >>> k)

/-- The bits that are added are not changed when the shift spans half of the word. -/
theorem xorShift_xorShift {k : ℕ} (h : w ≤ 2 * k) (x : BitVec w) :
  xorShift k (xorShift k x) = x
  := by
  apply BitVec.eq_of_getLsbD_eq
  intro i hi
  have hover : x.getLsbD (k + (k + i)) = false := BitVec.getLsbD_of_ge _ _ (by omega)
  simp only [xorShift, BitVec.getLsbD_xor, BitVec.getLsbD_ushiftRight, hover]
  cases x.getLsbD i <;> cases x.getLsbD (k + i) <;> rfl

theorem xorShift_bijective {k : ℕ} (h : w ≤ 2 * k) :
  Function.Bijective (xorShift (w := w) k)
  := Function.Involutive.bijective (xorShift_xorShift h)

theorem mul_bijective (c c' : BitVec w) (h : c * c' = 1) :
  Function.Bijective fun x => x * c
  := by
  have hback : ∀ x, x * c * c' = x := by
    intro x
    rw [mul_assoc, h, mul_one]
  refine ⟨fun x y hxy => ?_, fun y => ⟨y * c', ?_⟩⟩
  · rw [← hback x, ← hback y]
    exact congrArg (· * c') hxy
  · show y * c' * c = y
    rw [mul_assoc, mul_comm c', h, mul_one]

/-- A bijection of the words keeps the number of words with a property. -/
theorem count_bijective {f : BitVec w → BitVec w} (hf : Function.Bijective f) (p : ℕ → Prop)
    [DecidablePred p] :
  (2 ^ w).count (fun x => p (f (BitVec.ofNat w x)).toNat) = (2 ^ w).count p
  := by
  rw [Nat.count_eq_card_filter_range, Nat.count_eq_card_filter_range]
  apply Finset.card_bij fun x _ => (f (BitVec.ofNat w x)).toNat
  · intro x hx
    rw [Finset.mem_filter] at hx ⊢
    exact ⟨Finset.mem_range.mpr (BitVec.isLt _), hx.2⟩
  · intro x hx y hy hxy
    have hword := hf.1 (BitVec.eq_of_toNat_eq hxy)
    rw [← BitVec.toNat_inj, BitVec.toNat_ofNat, BitVec.toNat_ofNat] at hword
    rwa [Nat.mod_eq_of_lt (Finset.mem_range.mp (Finset.mem_filter.mp hx).1),
      Nat.mod_eq_of_lt (Finset.mem_range.mp (Finset.mem_filter.mp hy).1)] at hword
  · intro y hy
    rw [Finset.mem_filter, Finset.mem_range] at hy
    obtain ⟨x, hx⟩ := hf.2 (BitVec.ofNat w y)
    have hvalue : (f (BitVec.ofNat w x.toNat)).toNat = y := by
      rw [BitVec.ofNat_toNat, BitVec.setWidth_eq, hx, BitVec.toNat_ofNat, Nat.mod_eq_of_lt hy.1]
    refine ⟨x.toNat, ?_, hvalue⟩
    rw [Finset.mem_filter, hvalue]
    exact ⟨Finset.mem_range.mpr x.isLt, hy.2⟩

/-- A property of the residue holds as often in each period. -/
theorem count_mod (c q : ℕ) (p : ℕ → Prop) [DecidablePred p] :
  (c * q).count (fun x => p (x % c)) = q * c.count p
  := by
  induction q with
  | zero => simp
  | succ q ih =>
    have hperiod : c.count (fun x => p ((c * q + x) % c)) = c.count p := by
      rw [Nat.count_eq_card_filter_range, Nat.count_eq_card_filter_range]
      congr 1
      apply Finset.filter_congr
      intro x hx
      rw [Nat.mul_add_mod, Nat.mod_eq_of_lt (Finset.mem_range.mp hx)]
    rw [Nat.mul_succ, Nat.count_add, ih, hperiod, Nat.succ_mul]

theorem countP_range (p : ℕ → Prop) [DecidablePred p] (n : ℕ) :
  (List.range n).countP (fun x => decide (p x)) = n.count p
  := by
  induction n with
  | zero => rfl
  | succ n ih =>
    rw [List.range_succ, List.countP_append, ih, Nat.count_succ, List.countP_singleton]
    simp only [decide_eq_true_eq]

end Mixing
