import Grommet.Core.Ring
import Grommet.Library.Mixing

/-!
# Placement of keys

The router mixes the hash of a key and looks its low bits up in a table of slots that deals
the slots out to the shards in turn.  The table has a power of two of entries, at least
sixty-four for each shard, so that the shards own as many slots as each other but for one, and
as the mixer is a bijection the hashes are spread as evenly as the slots.
-/

open Checked Mixing

namespace Grommet.Router

/-- What work is made affine to. -/
class ShardKey (K : Type) where
  shardHash : K → BitVec 64

/-- An integer of 64 bits is its own hash. -/
instance : ShardKey (BitVec 64) := ⟨id⟩

/-- The finalizer of the placement hash. -/
def mix (hash : BitVec 64) : BitVec 64 :=
  let hash := hash ^^^ (hash >>> 33)
  let hash := hash * 0xff51afd7ed558ccd#64
  let hash := hash ^^^ (hash >>> 33)
  let hash := hash * 0xc4ceb9fe1a85ec53#64
  hash ^^^ (hash >>> 33)

def SLOTS_PER_SHARD : ℕ := 64

/-- The table of slots, and the bits of a hash that it is indexed by. -/
structure Placement where
  slots : List (BitVec 16)
  mask : BitVec 64
  deriving DecidableEq

/-- The table for a number of shards. -/
def place (shards : ℕ) : Checked Placement := do
  assert (shards ≠ 0) "a router needs at least one shard"
  assert (shards ≤ 65535 + 1) "a router supports at most 65536 shards"
  let count := Ring.nextPowerOfTwo (shards * SLOTS_PER_SHARD)
  .ok {
    slots := (List.range count).map fun slot => BitVec.ofNat 16 (slot % shards)
    mask := BitVec.ofNat 64 count - 1 }

/-- The shard that owns a hash. -/
def Placement.shardOf (p : Placement) (hash : BitVec 64) : Checked ℕ :=
  match p.slots[(mix hash &&& p.mask).toNat]? with
  | some shard => .ok shard.toNat
  | none => .error .bounds

/-- The shard that owns a key. -/
def Placement.shardIndex {K : Type} [ShardKey K] (p : Placement) (key : K) : Checked ℕ :=
  p.shardOf (ShardKey.shardHash key)

/-- The number of slots that a shard owns. -/
def Placement.owned (p : Placement) (shard : ℕ) : ℕ :=
  p.slots.countP fun s => s.toNat = shard

/-- The number of hashes that a shard owns. -/
def Placement.routed (p : Placement) (shard : ℕ) : ℕ :=
  (2 ^ 64).count fun hash => p.shardOf (BitVec.ofNat 64 hash) = Except.ok shard

/-! ### The mixer -/

theorem mix_bijective :
  Function.Bijective mix
  := by
  have hshift := xorShift_bijective (w := 64) (k := 33) (by decide)
  have hfirst := mul_bijective 0xff51afd7ed558ccd#64 0x4f74430c22a54005#64 (by decide)
  have hsecond := mul_bijective 0xc4ceb9fe1a85ec53#64 0x9cb4b2f8129337db#64 (by decide)
  exact (((hshift.comp hsecond).comp hshift).comp hfirst).comp hshift

/-! ### The table -/

variable {n k shard : ℕ} {hash : BitVec 64}

/-- The table of `n` shards with `2 ^ k` slots. -/
def table (n k : ℕ) : Placement where
  slots := (List.range (2 ^ k)).map fun slot => BitVec.ofNat 16 (slot % n)
  mask := BitVec.ofNat 64 (2 ^ k) - 1

theorem place_eq (hpos : 1 ≤ n) (hmax : n ≤ 65536) :
  ∃ k, place n = .ok (table n k) ∧ n * 64 ≤ 2 ^ k ∧ k ≤ 22
  := by
  refine ⟨Nat.log2 (n * 64 - 1) + 1, ?_, ?_, ?_⟩
  · have hpower : Ring.nextPowerOfTwo (n * SLOTS_PER_SHARD) = 2 ^ (Nat.log2 (n * 64 - 1) + 1) :=
      if_neg (show ¬ n * 64 ≤ 1 by omega)
    rw [place, assert_of (decide_eq_true (by omega)), assert_of (decide_eq_true (by omega))]
    simp only [ok_bind]
    rw [hpower, table]
  · have hlt := Nat.lt_log2_self (n := n * 64 - 1)
    omega
  · have hlt : Nat.log2 (n * 64 - 1) < 22 := (Nat.log2_lt (by omega)).mpr (by omega)
    exact hlt

/-- No entry of the table is truncated. -/
theorem slot_toNat (hpos : 1 ≤ n) (hmax : n ≤ 65536) (slot : ℕ) :
  (BitVec.ofNat 16 (slot % n)).toNat = slot % n
  := by
  have hlt := Nat.mod_lt slot hpos
  rw [BitVec.toNat_ofNat, Nat.mod_eq_of_lt (by omega)]

theorem mask_toNat (hk : k ≤ 22) :
  (BitVec.ofNat 64 (2 ^ k) - 1).toNat = 2 ^ k - 1
  := by
  have hle : 2 ^ k ≤ 2 ^ 22 := Nat.pow_le_pow_right (by decide) hk
  have hpos : 0 < 2 ^ k := Nat.two_pow_pos k
  have hone : (1 : BitVec 64).toNat = 1 := rfl
  rw [BitVec.toNat_sub, BitVec.toNat_ofNat, hone]
  omega

/-- A hash is owned by the shard of the residue of its mixed word. -/
theorem shardOf_eq (hpos : 1 ≤ n) (hmax : n ≤ 65536) (hk : k ≤ 22) :
  (table n k).shardOf hash = .ok ((mix hash).toNat % 2 ^ k % n)
  := by
  have hindex : (mix hash &&& (table n k).mask).toNat = (mix hash).toNat % 2 ^ k := by
    rw [BitVec.toNat_and, table, mask_toNat hk, Nat.and_two_pow_sub_one_eq_mod]
  have hlt := Nat.mod_lt (mix hash).toNat (Nat.two_pow_pos k)
  rw [Placement.shardOf, hindex, table, List.getElem?_map, List.getElem?_range hlt]
  simp only [Option.map_some]
  rw [slot_toNat hpos hmax]

theorem owned_count (hpos : 1 ≤ n) (hmax : n ≤ 65536) :
  (table n k).owned shard = (2 ^ k).count fun slot => slot % n = shard
  := by
  rw [← countP_range, Placement.owned, table, List.countP_map]
  apply List.countP_congr
  intro slot hslot
  rw [Function.comp_apply, slot_toNat hpos hmax]

/-- The slots are dealt out in turn. -/
theorem owned_eq (hpos : 1 ≤ n) (hmax : n ≤ 65536) (hshard : shard < n) :
  (table n k).owned shard = 2 ^ k / n + if shard < 2 ^ k % n then 1 else 0
  := by
  have hcount := Nat.count_modEq_card (b := 2 ^ k) hpos shard
  simp only [Nat.ModEq, Nat.mod_eq_of_lt hshard] at hcount
  rw [owned_count hpos hmax, hcount]

/-- The hashes of a shard are those of its slots, and every slot has as many. -/
theorem routed_eq (hpos : 1 ≤ n) (hmax : n ≤ 65536) (hk : k ≤ 22) :
  (table n k).routed shard = 2 ^ (64 - k) * (table n k).owned shard
  := by
  have hsplit : 2 ^ 64 = 2 ^ k * 2 ^ (64 - k) := by
    rw [← Nat.pow_add, Nat.add_sub_cancel' (by omega)]
  calc (table n k).routed shard
      = (2 ^ 64).count (fun x => (mix (BitVec.ofNat 64 x)).toNat % 2 ^ k % n = shard) := by
        simp only [Placement.routed, shardOf_eq hpos hmax hk, Except.ok.injEq]
    _ = (2 ^ 64).count (fun x => x % 2 ^ k % n = shard) :=
        count_bijective mix_bijective fun x => x % 2 ^ k % n = shard
    _ = 2 ^ (64 - k) * (2 ^ k).count (fun x => x % n = shard) := by
        rw [hsplit, count_mod (2 ^ k) _ fun x => x % n = shard]
    _ = 2 ^ (64 - k) * (table n k).owned shard := by
        rw [owned_count hpos hmax]

/-- For every number of shards that is supported every key has a shard, the shards own the
slots in shares that differ by one at most, and the hashes in shares that differ by the hashes
of one slot at most, which is a sixty-fourth of an even share or less. -/
theorem placement_is_even (hpos : 1 ≤ n) (hmax : n ≤ 65536) :
  ∃ p, place n = .ok p ∧
    (∀ (K : Type) [ShardKey K] (key : K), ∃ shard < n, p.shardIndex key = .ok shard) ∧
    (∀ shard < n, (p.owned shard = p.slots.length / n ∨
      p.owned shard = (p.slots.length + n - 1) / n) ∧ 64 ≤ p.owned shard) ∧
    Function.Bijective mix ∧
    (∀ a < n, ∀ b < n, p.routed a ≤ p.routed b + 2 ^ 64 / p.slots.length) ∧
    p.slots.length ∣ 2 ^ 64 ∧ 64 * n * (2 ^ 64 / p.slots.length) ≤ 2 ^ 64
  := by
  obtain ⟨k, hplace, hroom, hk⟩ := place_eq hpos hmax
  have hlength : (table n k).slots.length = 2 ^ k := by
    rw [table, List.length_map, List.length_range]
  have hsplit : 2 ^ 64 = 2 ^ k * 2 ^ (64 - k) := by
    rw [← Nat.pow_add, Nat.add_sub_cancel' (by omega)]
  have hshare : 2 ^ 64 / 2 ^ k = 2 ^ (64 - k) := by
    rw [hsplit, Nat.mul_div_cancel_left _ (Nat.two_pow_pos k)]
  refine ⟨table n k, hplace, ?_, ?_, mix_bijective, ?_, ?_, ?_⟩
  · intro K _ key
    exact ⟨_, Nat.mod_lt _ hpos, shardOf_eq hpos hmax hk⟩
  · intro shard hshard
    have howned := owned_eq (k := k) hpos hmax hshard
    have hfloor : 64 ≤ 2 ^ k / n := (Nat.le_div_iff_mul_le hpos).mpr (by omega)
    rw [hlength, howned]
    refine ⟨?_, Nat.le_add_right_of_le hfloor⟩
    split
    · right
      rename_i hless
      have hdivision := Nat.div_add_mod (2 ^ k) n
      symm
      apply Nat.div_eq_of_lt_le
      · rw [Nat.succ_mul, Nat.mul_comm]
        omega
      · rw [Nat.succ_mul, Nat.succ_mul, Nat.mul_comm]
        have hmod := Nat.mod_lt (2 ^ k) hpos
        omega
    · exact Or.inl rfl
  · intro a ha b hb
    rw [hlength, hshare, routed_eq hpos hmax hk, routed_eq hpos hmax hk, ← Nat.mul_succ]
    apply Nat.mul_le_mul_left
    rw [owned_eq hpos hmax ha, owned_eq hpos hmax hb]
    split <;> split <;> omega
  · rw [hlength, hsplit]
    exact Nat.dvd_mul_right _ _
  · rw [hlength, hshare, hsplit]
    apply Nat.mul_le_mul_right
    omega

/-- Three shards. -/
theorem placement_is_even_three :
  ∃ p, place 3 = .ok p ∧ p.routed 0 ≤ p.routed 2 + 2 ^ 64 / p.slots.length
  := by
  obtain ⟨p, hplace, -, -, -, hrouted, -⟩ := placement_is_even (n := 3) (by decide) (by decide)
  exact ⟨p, hplace, hrouted 0 (by decide) 2 (by decide)⟩

end Grommet.Router
