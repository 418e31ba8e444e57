import Mathlib.Data.Nat.Digits.Lemmas

/-!
# Numbers of a fixed width as bytes

The bytes of a number of `w` bytes are its digits to the base 256, with the least significant
one first or last.  They determine the number, and every list of `w` bytes is one of a number.
-/

namespace Bytes

/-- The `w` bytes of a number, with the least significant one first. -/
def le (w n : ℕ) : List UInt8 := (Nat.digitsAppend 256 w n).map UInt8.ofNat

/-- The number with these bytes, with the least significant one first. -/
def ofLe (bytes : List UInt8) : ℕ := Nat.ofDigits 256 (bytes.map UInt8.toNat)

/-- The `w` bytes of a number, with the most significant one first. -/
def be (w n : ℕ) : List UInt8 := (le w n).reverse

variable {w n m : ℕ} {bytes : List UInt8}

theorem length_le (h : n < 256 ^ w) :
  (le w n).length = w
  := by
  rw [le, List.length_map, Nat.length_digitsAppend (by decide) w h]

theorem map_toNat_le :
  (le w n).map UInt8.toNat = Nat.digitsAppend 256 w n
  := by
  rw [le, List.map_map, List.map_congr_left, List.map_id]
  intro digit hdigit
  have hlt := Nat.lt_of_mem_digitsAppend (by decide) w digit hdigit
  exact (UInt8.toNat_ofNat').trans (Nat.mod_eq_of_lt hlt)

theorem ofLe_le (h : n < 256 ^ w) :
  ofLe (le w n) = n
  := by
  rw [ofLe, map_toNat_le]
  exact (Nat.setInvOn_digitsAppend_ofDigits (by decide) w).2 h

theorem map_toNat_mem (bytes : List UInt8) :
  bytes.map UInt8.toNat ∈ {L : List ℕ | L.length = bytes.length ∧ ∀ digit ∈ L, digit < 256}
  := by
  refine ⟨List.length_map .., fun digit hdigit => ?_⟩
  obtain ⟨byte, -, rfl⟩ := List.mem_map.mp hdigit
  exact byte.toNat_lt

theorem ofLe_lt (bytes : List UInt8) :
  ofLe bytes < 256 ^ bytes.length
  := Nat.mapsTo_ofDigits (by decide) bytes.length (map_toNat_mem bytes)

theorem le_ofLe (bytes : List UInt8) :
  le bytes.length (ofLe bytes) = bytes
  := by
  have hdigits := (Nat.setInvOn_digitsAppend_ofDigits (by decide) bytes.length).1
    (map_toNat_mem bytes)
  rw [le, ofLe, hdigits, List.map_map, List.map_congr_left, List.map_id]
  intro byte _
  exact UInt8.ofNat_toNat

/-- The bytes determine the number. -/
theorem be_inj (hn : n < 256 ^ w) (hm : m < 256 ^ w) :
  be w n = be w m ↔ n = m
  := by
  refine ⟨fun h => ?_, fun h => by rw [h]⟩
  rw [← ofLe_le hn, List.reverse_injective h, ofLe_le hm]

end Bytes
