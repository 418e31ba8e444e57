import Mathlib.Algebra.Ring.Nat
import Mathlib.Data.List.Nodup

/-!
# Lists of keyed entries

Removing an entry from a list whose keys are distinct removes its key.
-/

universe u v

variable {α : Type u} {β : Type v} [DecidableEq α] [DecidableEq β]

/-- In a list with distinct keys, removing an entry removes its key. -/
theorem List.map_fst_erase {l : List (α × β)} {e : α × β} (hnd : (l.map Prod.fst).Nodup)
    (he : e ∈ l) :
  (l.erase e).map Prod.fst = (l.map Prod.fst).erase e.1
  := by
  induction l with
  | nil => cases he
  | cons x l ih =>
    rw [List.map_cons, List.nodup_cons] at hnd
    by_cases hx : x = e
    · subst hx
      simp
    · have hel : e ∈ l := by
        rcases List.mem_cons.mp he with rfl | hel
        · exact (hx rfl).elim
        · exact hel
      have hne : x.1 ≠ e.1 := by
        intro heq
        apply hnd.1
        rw [heq]
        apply List.mem_map_of_mem hel
      rw [List.erase_cons_tail (by simpa using hx), List.map_cons, List.map_cons,
        List.erase_cons_tail (by simpa using hne), ih hnd.2 hel]

/-! ### Updates of one position -/

section Update

variable {γ : Type u} {l : List γ} {a b : γ} {i : ℕ}

theorem List.set_eq_self (h : l[i]? = some a) :
  l.set i a = l
  := by
  obtain ⟨hi, rfl⟩ := List.getElem?_eq_some_iff.mp h
  apply List.set_getElem_self

/-- The sum of a measure after one position was replaced. -/
theorem List.sum_map_set (f : γ → ℕ) (h : l[i]? = some a) :
  ((l.set i b).map f).sum + f a = (l.map f).sum + f b
  := by
  induction l generalizing i with
  | nil => simp at h
  | cons x l ih =>
    cases i with
    | zero =>
      have hx : x = a := by simpa using h
      simp only [List.set_cons_zero, List.map_cons, List.sum_cons, hx]
      omega
    | succ i =>
      have hl := ih (by simpa using h)
      simp only [List.set_cons_succ, List.map_cons, List.sum_cons]
      omega

end Update

/-! ### Counting positions -/

section Count

variable {γ : Type u} {l : List γ} {p q r : γ → Bool}

/-- A list of the positions of the entries with a property has their number as its length. -/
theorem List.length_eq_countP {indices : List ℕ} (hnodup : indices.Nodup)
    (hmem : ∀ i, i ∈ indices ↔ ∃ x, l[i]? = some x ∧ p x = true) :
  indices.length = l.countP p
  := by
  have hperm : indices.Perm ((List.range l.length).filter fun i => l[i]?.any p) := by
    rw [List.perm_ext_iff_of_nodup hnodup (List.nodup_range.filter _)]
    intro i
    rw [hmem, List.mem_filter, List.mem_range, Option.any_eq_true]
    constructor
    · rintro ⟨x, hx, hp⟩
      exact ⟨(List.getElem?_eq_some_iff.mp hx).1, x, hx, hp⟩
    · rintro ⟨-, x, hx, hp⟩
      exact ⟨x, hx, hp⟩
  have hget : (List.range l.length).map (fun i => l[i]?) = l.map some := by
    apply List.ext_getElem?
    intro i
    rw [List.getElem?_map, List.getElem?_map]
    by_cases hi : i < l.length
    · rw [List.getElem?_range hi, List.getElem?_eq_getElem hi]
      simp [hi]
    · rw [List.getElem?_eq_none (by simpa using hi), List.getElem?_eq_none (by simpa using hi)]
      rfl
  calc indices.length
      = (List.range l.length).countP (fun i => l[i]?.any p) := by
        rw [hperm.length_eq, List.countP_eq_length_filter]
    _ = ((List.range l.length).map fun i => l[i]?).countP (Option.any p) := by
        rw [List.countP_map]
        rfl
    _ = l.countP p := by
        rw [hget, List.countP_map]
        rfl

/-- The number of entries with a property after one position was replaced. -/
theorem List.countP_set_add {a b : γ} {i : ℕ} (p : γ → Bool) (h : l[i]? = some a) :
  (l.set i b).countP p + (p a).toNat = l.countP p + (p b).toNat
  := by
  have hone : ∀ b : Bool, (if b = true then 1 else 0) = b.toNat := by
    intro b
    cases b <;> rfl
  induction l generalizing i with
  | nil => cases h
  | cons x l ih =>
    cases i with
    | zero =>
      have hx : x = a := by simpa using h
      rw [List.set_cons_zero, List.countP_cons, List.countP_cons, hx, hone, hone]
      omega
    | succ i =>
      have hl := ih (by simpa using h)
      rw [List.set_cons_succ, List.countP_cons, List.countP_cons]
      omega

/-- The numbers of the entries of three kinds, when each entry is of one kind. -/
theorem List.countP_of_kinds (h : ∀ x ∈ l, (p x).toNat + (q x).toNat + (r x).toNat = 1) :
  l.countP p + l.countP q + l.countP r = l.length
  := by
  induction l with
  | nil => rfl
  | cons x l ih =>
    have hx := h x (by simp)
    have hl := ih fun y hy => h y (by simp [hy])
    have hone : ∀ b : Bool, (if b = true then 1 else 0) = b.toNat := by
      intro b
      cases b <;> rfl
    rw [List.countP_cons, List.countP_cons, List.countP_cons, List.length_cons, hone, hone, hone]
    omega

end Count
