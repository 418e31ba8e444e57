import Mathlib.Data.List.Range
import Mathlib.Data.Nat.Basic

/-!
# Circular order

The positions of a circle of `n` are the numbers below `n`.  From a position `c` the others
come in circular order: by how far they are from `c`, or by the number at which a count from
`c` that goes on beyond the end of the circle comes to them.
-/

namespace Circle

variable {n N c i j l : ℕ}

/-- How far it is from one position forward to another. -/
def dist (n c i : ℕ) : ℕ := (i + n - c) % n

/-- The position after another. -/
def next (n i : ℕ) : ℕ := if i + 1 = n then 0 else i + 1

/-- Where a count from `c` that starts over after `N` comes to a position. -/
def place (c N i : ℕ) : ℕ := if c ≤ i then i else i + N

theorem next_lt (hi : i < n) :
  next n i < n
  := by
  rw [next]
  split <;> omega

theorem dist_of_le (hle : c ≤ i) (hi : i < n) :
  dist n c i = i - c
  := by
  have heq : i + n - c = (i - c) + n := by omega
  rw [dist, heq, Nat.add_mod_right, Nat.mod_eq_of_lt (by omega)]

theorem dist_of_lt (hlt : i < c) (hc : c < n) :
  dist n c i = i + n - c
  := by
  rw [dist, Nat.mod_eq_of_lt (by omega)]

theorem dist_lt (hc : c < n) :
  dist n c i < n
  := Nat.mod_lt _ (by omega)

theorem place_eq {x : ℕ} (hle : c ≤ x) (hlt : x < c + N) (h : x = i ∨ x = i + N) :
  place c N i = x
  := by
  rw [place]
  split <;> omega

theorem place_spec (hi : i < N) (hc : c < N) :
  c ≤ place c N i ∧ place c N i < c + N ∧ (place c N i = i ∨ place c N i = i + N)
  := by
  rw [place]
  split <;> omega

theorem place_inj (hi : i < N) (hj : j < N) (h : place c N i = place c N j) :
  i = j
  := by
  rw [place, place] at h
  split at h <;> split at h <;> omega

/-- Circular order told by distances and by places. -/
theorem dist_lt_dist_iff (hc : c < n) (hi : i < n) (hj : j < n) (hN : n ≤ N) :
  dist n c i < dist n c j ↔ place c N i < place c N j
  := by
  rw [place, place]
  by_cases hci : c ≤ i
  · rw [dist_of_le hci hi, if_pos hci]
    by_cases hcj : c ≤ j
    · rw [dist_of_le hcj hj, if_pos hcj]
      omega
    · rw [dist_of_lt (by omega) hc, if_neg hcj]
      omega
  · rw [dist_of_lt (by omega) hc, if_neg hci]
    by_cases hcj : c ≤ j
    · rw [dist_of_le hcj hj, if_pos hcj]
      omega
    · rw [dist_of_lt (by omega) hc, if_neg hcj]
      omega

/-- Behind a position the way to a later one is shorter by the way to that position and one. -/
theorem dist_next (hc : c < n) (hi : i < n) (hj : j < n) (h : dist n c i < dist n c j) :
  dist n (next n i) j + dist n c i + 1 = dist n c j
  := by
  have hnext := next_lt hi
  rw [next] at hnext ⊢
  by_cases hci : c ≤ i
  · rw [dist_of_le hci hi] at h ⊢
    by_cases hcj : c ≤ j
    · rw [dist_of_le hcj hj] at h ⊢
      rw [if_neg (by omega), dist_of_le (by omega) hj]
      omega
    · rw [dist_of_lt (by omega) hc] at h ⊢
      split
      · rw [dist_of_le (by omega) hj]
        omega
      · rw [dist_of_lt (by omega) (by omega)]
        omega
  · rw [dist_of_lt (by omega) hc] at h ⊢
    by_cases hcj : c ≤ j
    · rw [dist_of_le hcj hj] at h
      omega
    · rw [dist_of_lt (by omega) hc] at h ⊢
      rw [if_neg (by omega), dist_of_le (by omega) hj]
      omega

/-- The positions of a circle in order from one of them. -/
def positions (n c : ℕ) : List ℕ := (List.range n).map fun k => (c + k) % n

theorem dist_add_mod {k : ℕ} (hc : c < n) (hk : k < n) :
  dist n c ((c + k) % n) = k
  := by
  by_cases hlt : c + k < n
  · rw [Nat.mod_eq_of_lt hlt, dist_of_le (by omega) hlt]
    omega
  · have hmod : (c + k) % n = c + k - n := by
      rw [Nat.mod_eq_sub_mod (by omega), Nat.mod_eq_of_lt (by omega)]
    rw [hmod, dist_of_lt (by omega) hc]
    omega

theorem add_dist_mod (hc : c < n) (hi : i < n) :
  (c + dist n c i) % n = i
  := by
  by_cases hle : c ≤ i
  · rw [dist_of_le hle hi, Nat.add_sub_cancel' hle, Nat.mod_eq_of_lt hi]
  · have hsum : c + (i + n - c) = i + n := by omega
    rw [dist_of_lt (by omega) hc, hsum, Nat.add_mod_right, Nat.mod_eq_of_lt hi]

theorem mem_positions (hc : c < n) :
  i ∈ positions n c ↔ i < n
  := by
  rw [positions, List.mem_map]
  constructor
  · rintro ⟨k, -, rfl⟩
    exact Nat.mod_lt _ (by omega)
  · intro hi
    exact ⟨dist n c i, List.mem_range.mpr (dist_lt hc), add_dist_mod hc hi⟩

theorem positions_pairwise (hc : c < n) :
  (positions n c).Pairwise fun i j => dist n c i < dist n c j
  := by
  rw [positions, List.pairwise_map]
  apply List.pairwise_lt_range.imp_of_mem
  intro a b ha hb hlt
  rw [dist_add_mod hc (List.mem_range.mp ha), dist_add_mod hc (List.mem_range.mp hb)]
  exact hlt

/-- The next element of a list in order, behind the first ones. -/
theorem prefix_snoc {α : Type} {f : α → ℕ} {as bs : List α} {x : α}
    (hbs : bs.Pairwise fun a b => f a < f b) (has : as <+: bs) (hx : x ∈ bs) (hnew : x ∉ as)
    (hleast : ∀ y ∈ bs, y ∉ as → y ≠ x → f x < f y) :
  as ++ [x] <+: bs
  := by
  obtain ⟨rest, rfl⟩ := has
  rw [List.prefix_append_right_inj]
  obtain ⟨-, hrest, hlater⟩ := List.pairwise_append.mp hbs
  have hmem : x ∈ rest := (List.mem_append.mp hx).resolve_left hnew
  cases rest with
  | nil => cases hmem
  | cons y rest =>
    have heq : y = x := by
      by_contra hne
      have hold : y ∉ as := by
        intro hy
        exact lt_irrefl _ (hlater y hy y List.mem_cons_self)
      have hlt := hleast y (List.mem_append_right _ List.mem_cons_self) hold hne
      have hgt := (List.pairwise_cons.mp hrest).1 x
        ((List.mem_cons.mp hmem).resolve_left (Ne.symm hne))
      omega
    rw [heq]
    exact ⟨rest, rfl⟩

end Circle
