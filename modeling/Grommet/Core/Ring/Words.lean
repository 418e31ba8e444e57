import Grommet.Core.Ring.Marks
import Mathlib.Data.Nat.Bitwise

/-!
# Words of positions and stamps

The operations on positions once more, with each addition and subtraction that a debug build
checks, and with the masks that the code applies.  Nothing overflows, at any capacity that
`bounded` accepts: the operations are those of the ring, and the positions that `advance` leads
to walk through the slots in order.

At a position, its slot carries one of four stamps.  The stamps are different words even when a
word has room for no more than two laps, so that each comparison of a stamp singles out one.
-/

open Checked

namespace Grommet.Ring

variable {T : Type}

/-- Addition that goes around at the end of the word. -/
def wrappingAdd (m n : ℕ) : ℕ := (m + n) % wordSize

namespace Debug

/-- Addition that must not go around. -/
def add (m n : ℕ) : Checked ℕ := do
  assert (m + n < wordSize) "attempt to add with overflow"
  .ok (m + n)

/-- The smallest power of two that is not less, which must be a word. -/
def nextPowerOfTwo (n : ℕ) : Checked ℕ := do
  assert (Ring.nextPowerOfTwo n < wordSize) "attempt to add with overflow"
  .ok (Ring.nextPowerOfTwo n)

/-- Create a ring of exactly `capacity` slots. -/
def bounded (capacity : ℕ) : Checked (Inner T) := do
  assert (0 < capacity) "a ring needs capacity"
  assert (capacity ≤ MAX_CAPACITY) "a ring holds at most 9223372036854775807 items"
  let next ← add capacity 1
  let oneLap ← nextPowerOfTwo next
  .ok {
    tail := 0
    slots := (List.range capacity).map fun index => ⟨index, none⟩
    capacity := capacity
    oneLap := oneLap }

/-- The slot of a position. -/
def index (ring : Inner T) (position : ℕ) : Checked ℕ := do
  let mask ← sub ring.oneLap 1
  .ok (position &&& mask)

/-- The position after another one, carrying the lap. -/
def advance (ring : Inner T) (position : ℕ) : Checked ℕ := do
  let index ← index ring position
  let next ← add index 1
  if next < ring.capacity then
    add position 1
  else do
    let mask ← sub ring.oneLap 1
    .ok (wrappingAdd (position &&& (mask ^^^ (wordSize - 1))) ring.oneLap)

/-- The position after a number of steps from zero. -/
def position (ring : Inner T) : ℕ → Checked ℕ
  | 0 => .ok 0
  | n + 1 => do
    let position ← position ring n
    advance ring position

end Debug

/-! ### Nothing overflows -/

/-- Masking the low bits away takes the remainder off. -/
theorem and_not_mask {p k : ℕ} (hp : p < wordSize) (hk : k ≤ 64) :
  p &&& ((2 ^ k - 1) ^^^ (wordSize - 1)) = p - p % 2 ^ k
  := by
  have hsplit : p - p % 2 ^ k = 2 ^ k * (p / 2 ^ k) := by
    have hdiv := Nat.div_add_mod p (2 ^ k)
    omega
  rw [hsplit, wordSize]
  apply Nat.eq_of_testBit_eq
  intro i
  rw [Nat.testBit_and, Nat.testBit_xor, Nat.testBit_two_pow_sub_one, Nat.testBit_two_pow_sub_one,
    Nat.testBit_two_pow_mul, Nat.testBit_div_two_pow]
  by_cases hi : i < 64
  · by_cases hik : i < k
    · simp [hi, hik]
    · simp [hi, hik, Nat.le_of_not_lt hik, Nat.sub_add_cancel (Nat.le_of_not_lt hik)]
  · have hbit : p.testBit i = false := by
      apply Nat.testBit_lt_two_pow
      apply hp.trans_le
      rw [wordSize]
      exact Nat.pow_le_pow_right (by decide) (Nat.le_of_not_lt hi)
    have hik : k ≤ i := by omega
    simp [hbit, hik]

variable {L : Laps} {ring : Inner T} {m n p : ℕ}

theorem add_eq_ok (h : m + n < wordSize) :
  Debug.add m n = .ok (m + n)
  := by
  simp [Debug.add, assert, h]

/-- A lap takes up no more than half of the word, and has room for two positions. -/
theorem Inner.Fits.lap (h : ring.Fits L) :
  2 ≤ ring.oneLap ∧ 2 * ring.oneLap ≤ wordSize ∧ wordSize % ring.oneLap = 0
  := by
  have hsize := h.size
  have htwo := Nat.mul_le_mul_left L.lap L.two
  have hpos := L.pos
  have hroom := L.room
  unfold Laps.size at hsize
  rw [h.oneLap]
  refine ⟨by omega, by omega, ?_⟩
  rw [← hsize, Nat.mul_mod_right]

/-- Creating a ring overflows at no capacity. -/
theorem debug_bounded (capacity : ℕ) :
  (Debug.bounded capacity : Checked (Inner T)) = bounded capacity
  := by
  rw [Debug.bounded, bounded]
  by_cases hpos : 0 < capacity
  · by_cases hmax : capacity ≤ MAX_CAPACITY
    · have hword : capacity + 1 < wordSize := by
        apply (Nat.succ_le_succ hmax).trans_lt
        decide
      obtain ⟨ring, hring⟩ : ∃ ring : Inner T, bounded capacity = .ok ring := by
        simp [bounded, assert, hpos, hmax]
      obtain ⟨L, hcapacity, hfits, -⟩ := bounded_fits hring
      have hlap : ring.oneLap = nextPowerOfTwo (capacity + 1) := by
        simp only [bounded, assert, hpos, hmax, decide_true, if_true, ok_bind] at hring
        cases hring
        rfl
      have hhalf := hfits.lap
      have hfew : nextPowerOfTwo (capacity + 1) < wordSize := by
        rw [← hlap]
        omega
      simp [assert, hpos, hmax, add_eq_ok hword, Debug.nextPowerOfTwo, hfew]
    · simp [assert, hpos, hmax]
  · simp [assert, hpos]

/-- Finding the slot of a position never overflows. -/
theorem Inner.Fits.debug_index (h : ring.Fits L) (p : ℕ) :
  Debug.index ring p = .ok (ring.index p)
  := by
  have hlap := h.lap
  rw [Debug.index, sub_of_le (by omega)]
  rfl

/-- The step from one position to the next never overflows. -/
theorem Inner.Fits.debug_advance (h : ring.Fits L) (n : ℕ) :
  Debug.advance ring (L.position n) = .ok (L.position (n + 1))
  := by
  have hlap := h.lap
  have hindex := L.index_lt n
  have hword := L.position_add_one_lt n
  rw [h.size] at hword
  rw [← h.oneLap] at hindex
  obtain ⟨k, hk⟩ := h.power
  have hfew : k ≤ 64 := by
    apply (Nat.pow_le_pow_iff_right (show 1 < 2 by decide)).mp
    rw [← hk, ← h.oneLap]
    unfold wordSize at hlap
    omega
  rw [Debug.advance, h.debug_index, ok_bind, h.index, add_eq_ok (by omega), ok_bind,
    ← h.advance, Inner.advance, h.index]
  split
  · exact add_eq_ok hword
  · rw [sub_of_le (by omega), ok_bind, h.oneLap, hk,
      and_not_mask (by omega) hfew, ← hk, L.position_mod]
    rfl

/-- The positions reached from zero, whose indices go around the slots. -/
theorem Inner.Fits.debug_position (h : ring.Fits L) (n : ℕ) :
  Debug.position ring n = .ok (L.position n)
  := by
  induction n with
  | zero => simp [Debug.position, Laps.position]
  | succ n ih => rw [Debug.position, ih, ok_bind, h.debug_advance]

/-! ### Four stamps -/

/-- What the slot of a position may be stamped with. -/
inductive Stamp where
  /-- Free for the position one lap earlier. -/
  | freeBefore
  /-- Published at the position one lap earlier. -/
  | publishedBefore
  | free
  | published
  deriving DecidableEq

/-- The word of a stamp of the slot of the position `p`. -/
def Stamp.word (ring : Inner T) (p : ℕ) : Stamp → ℕ
  | freeBefore => wrappingAdd p (wordSize - ring.oneLap)
  | publishedBefore => wrappingAdd (wrappingAdd p (wordSize - ring.oneLap)) 1
  | free => p
  | published => wrappingAdd p 1

/-- How far the word of a stamp is past the position. -/
def Stamp.offset (ring : Inner T) : Stamp → ℕ
  | freeBefore => wordSize - ring.oneLap
  | publishedBefore => wordSize - ring.oneLap + 1
  | free => 0
  | published => 1

theorem Stamp.word_eq (s : Stamp) (hp : p < wordSize) :
  s.word ring p = wrappingAdd p (s.offset ring)
  := by
  cases s with
  | freeBefore => rfl
  | publishedBefore => exact Nat.mod_add_mod _ _ _
  | free => exact (Nat.mod_eq_of_lt hp).symm
  | published => rfl

/-- The offsets differ by less than a word. -/
theorem Inner.Fits.offset_inj (h : ring.Fits L) {s t : Stamp}
    (heq : s.offset ring = t.offset ring) :
  s = t
  := by
  obtain ⟨htwo, hhalf, -⟩ := h.lap
  cases s <;> cases t <;> simp only [Stamp.offset] at heq <;> first | rfl | omega

theorem Inner.Fits.offset_lt (h : ring.Fits L) (s : Stamp) :
  s.offset ring < wordSize
  := by
  obtain ⟨htwo, hhalf, -⟩ := h.lap
  cases s <;> simp only [Stamp.offset] <;> omega

/-- The four stamps are different words. -/
theorem Inner.Fits.word_inj (h : ring.Fits L) (hp : p < wordSize) {s t : Stamp}
    (heq : s.word ring p = t.word ring p) :
  s = t
  := by
  rw [s.word_eq hp, t.word_eq hp] at heq
  have hoffset : s.offset ring ≡ t.offset ring [MOD wordSize] :=
    Nat.ModEq.add_left_cancel' p heq
  exact h.offset_inj (hoffset.eq_of_lt_of_lt (h.offset_lt s) (h.offset_lt t))

/-- A lap after the previous lap. -/
theorem Inner.Fits.word_add_lap (h : ring.Fits L) (hp : p < wordSize) (s : Stamp) :
  wrappingAdd (s.word ring p) ring.oneLap = wrappingAdd p 1 ↔ s = .publishedBefore
  := by
  obtain ⟨htwo, hhalf, -⟩ := h.lap
  have hback : wrappingAdd p 1 = wrappingAdd (Stamp.word ring p .publishedBefore) ring.oneLap := by
    rw [Stamp.word_eq _ hp, wrappingAdd, wrappingAdd, wrappingAdd, Nat.mod_add_mod, Stamp.offset,
      show p + (wordSize - ring.oneLap + 1) + ring.oneLap = p + 1 + wordSize by omega,
      Nat.add_mod_right]
  rw [hback]
  constructor
  · intro heq
    apply h.word_inj hp
    have hword : ∀ t : Stamp, t.word ring p < wordSize := by
      intro t
      rw [t.word_eq hp]
      exact Nat.mod_lt _ (by omega)
    exact (Nat.ModEq.add_right_cancel' ring.oneLap heq).eq_of_lt_of_lt (hword _) (hword _)
  · intro heq
    rw [heq]

/-- The slot is free for the position one lap earlier when its stamp is that position. -/
theorem Inner.Fits.word_freeBefore (h : ring.Fits L) (n : ℕ) :
  Stamp.word ring (L.position (n + L.capacity)) .freeBefore = L.position n
  := by
  obtain ⟨htwo, hhalf, -⟩ := h.lap
  have hword := L.position_add_one_lt n
  rw [h.size] at hword
  rw [Stamp.word, L.position_add_capacity, h.size, wrappingAdd, Nat.mod_add_mod, ← h.oneLap,
    show L.position n + ring.oneLap + (wordSize - ring.oneLap) = L.position n + wordSize by omega,
    Nat.add_mod_right]
  exact Nat.mod_eq_of_lt (by omega)

/-- The word `p` is the position after `n` steps in a ring of `capacity` slots: it names its
slot, leads to the next position, and tells the four stamps of its slot apart. -/
structure Encodes (ring : Inner T) (capacity n p : ℕ) : Prop where
  position : Debug.position ring n = .ok p
  word : p < wordSize
  advance : Debug.advance ring p = .ok (ring.advance p)
  index : Debug.index ring p = .ok (n % capacity)
  bound : n % capacity < capacity
  before : ∀ m, m + capacity = n → Debug.position ring m = .ok (Stamp.word ring p .freeBefore)
  distinct : ∀ s t : Stamp, s.word ring p = t.word ring p → s = t
  isFree : ∀ s : Stamp, s.word ring p = p ↔ s = .free
  isFull : ∀ s : Stamp,
    wrappingAdd (s.word ring p) ring.oneLap = wrappingAdd p 1 ↔ s = .publishedBefore
  isPublished : ∀ s : Stamp, s.word ring p = wrappingAdd p 1 ↔ s = .published

/-- Positions encode laps in one word, at every capacity that fits. -/
theorem positions_encode_laps (capacity : ℕ) (hpos : 0 < capacity)
    (hmax : capacity ≤ MAX_CAPACITY) :
  ∃ ring : Inner T, Debug.bounded capacity = .ok ring ∧ bounded capacity = .ok ring ∧
    ∀ n, ∃ p, Encodes ring capacity n p
  := by
  obtain ⟨ring, hring⟩ : ∃ ring : Inner T, bounded capacity = .ok ring := by
    simp [bounded, assert, hpos, hmax]
  obtain ⟨L, rfl, hfits, -⟩ := bounded_fits hring
  refine ⟨ring, (debug_bounded _).trans hring, hring, fun n => ⟨L.position n, ?_⟩⟩
  have hword : L.position n < wordSize := by
    have hlt := L.position_add_one_lt n
    rw [hfits.size] at hlt
    omega
  constructor
  · exact hfits.debug_position n
  · exact hword
  · rw [hfits.debug_advance, hfits.advance]
  · rw [hfits.debug_index, hfits.index]
  · exact Nat.mod_lt n hpos
  · rintro m rfl
    rw [hfits.word_freeBefore, hfits.debug_position]
  · intro s t
    exact hfits.word_inj hword
  · intro s
    exact ⟨fun heq => hfits.word_inj hword (t := .free) heq, fun heq => by rw [heq, Stamp.word]⟩
  · exact hfits.word_add_lap hword
  · intro s
    exact ⟨fun heq => hfits.word_inj hword (t := .published) heq,
      fun heq => by rw [heq, Stamp.word]⟩

/-- The largest ring, whose word holds two laps. -/
theorem largest_ring_encodes_laps :
  ∃ ring : Inner ℕ, Debug.bounded (2 ^ 63 - 1) = .ok ring ∧ bounded (2 ^ 63 - 1) = .ok ring ∧
    ∀ n, ∃ p, Encodes ring (2 ^ 63 - 1) n p
  := positions_encode_laps (2 ^ 63 - 1) (by decide) (by decide)

end Grommet.Ring
