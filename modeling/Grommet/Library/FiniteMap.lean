import Mathlib.Algebra.BigOperators.Group.Finset.Piecewise
import Mathlib.Algebra.Order.BigOperators.Group.Finset
import Mathlib.Algebra.Ring.Nat
import Mathlib.Data.List.AList

/-!
# Finite maps and totals over them

Lookups after one entry of a finite map changes, and the total of a weight over its
values.  Counting the entries with a property is the total of its indicator.
-/

universe u v

namespace AList

variable {α : Type u} {β : Type v} [DecidableEq α]

/-- The values of a finite map, in the order of its entries. -/
def values (m : AList fun _ : α => β) : List β :=
  m.entries.map Sigma.snd

/-- The total of the weight `w` over the values of a finite map. -/
def total (w : β → ℕ) (m : AList fun _ : α => β) : ℕ :=
  (m.values.map w).sum

variable {w : β → ℕ} {m : AList fun _ : α => β} {a : α} {b b' : β}

/-- A finite map without a value is empty. -/
theorem eq_empty_of_lookup (h : ∀ a, m.lookup a = none) :
  m = ∅
  := by
  apply AList.ext
  rw [AList.empty_entries, List.eq_nil_iff_forall_not_mem]
  rintro ⟨a, b⟩ hmem
  have hlookup := AList.mem_lookup_iff.mpr hmem
  rw [h] at hlookup
  cases hlookup

/-- An inserted entry counts beside the other ones. -/
theorem total_insert_eq :
  total w (m.insert a b) = w b + total w (m.erase a)
  := rfl

/-- An absent entry adds its own weight. -/
theorem total_insert_of_notMem (h : a ∉ m) :
  total w (m.insert a b) = w b + total w m
  := by
  rw [total, values, entries_insert_of_notMem h]
  rfl

/-- Removing an entry takes its weight away. -/
theorem total_erase (h : m.lookup a = some b) :
  w b + total w (m.erase a) = total w m
  := by
  have hmem : a ∈ m.entries.keys := by
    rw [← AList.keys, ← mem_keys, ← lookup_isSome, h]
    rfl
  obtain ⟨b', l₁, l₂, -, hl, hk⟩ := List.exists_of_kerase hmem
  have hb : b' = b := by
    have hl' : (⟨a, b'⟩ : Sigma fun _ : α => β) ∈ m.entries := by
      rw [hl]
      simp
    have hlook := mem_lookup_iff.mpr hl'
    rw [h] at hlook
    simpa using hlook.symm
  subst hb
  have herase : (m.erase a).entries = l₁ ++ l₂ := hk
  rw [total, total, values, values, herase, hl]
  simp only [List.map_append, List.map_cons, List.sum_append, List.sum_cons]
  omega

/-- Replacing a value trades its weight for the weight of the new one. -/
theorem total_insert (h : m.lookup a = some b) :
  total w (m.insert a b') + w b = total w m + w b'
  := by
  rw [total_insert_eq, ← total_erase (w := w) h]
  omega

/-- A weight is at most the total. -/
theorem le_total (h : m.lookup a = some b) :
  w b ≤ total w m
  := by
  rw [← total_erase (w := w) h]
  omega

/-- The lookups after an entry is written. -/
theorem lookup_insert_eq (m : AList fun _ : α => β) (a a' : α) (b : β) :
  (m.insert a b).lookup a' = Function.update m.lookup a (some b) a'
  := by
  by_cases h : a' = a
  · subst h
    rw [lookup_insert, Function.update_self]
  · rw [lookup_insert_ne h, Function.update_of_ne h]

/-- The lookups after an entry is removed. -/
theorem lookup_erase_eq (m : AList fun _ : α => β) (a a' : α) :
  (m.erase a).lookup a' = Function.update m.lookup a none a'
  := by
  by_cases h : a' = a
  · subst h
    rw [lookup_erase, Function.update_self]
  · rw [lookup_erase_ne h, Function.update_of_ne h]

/-- The keys of the entries whose value has the property `p`. -/
def having (p : β → Bool) (m : AList fun _ : α => β) : List α :=
  (m.entries.filter fun e => p e.2).map Sigma.fst

variable {p : β → Bool} {l : List α}

theorem mem_having :
  a ∈ m.having p ↔ ∃ b, m.lookup a = some b ∧ p b = true
  := by
  constructor
  · intro ha
    obtain ⟨⟨a', b⟩, he, rfl⟩ := List.mem_map.mp ha
    obtain ⟨he, hp⟩ := List.mem_filter.mp he
    exact ⟨b, mem_lookup_iff.mpr he, hp⟩
  · rintro ⟨b, hb, hp⟩
    apply List.mem_map.mpr
    refine ⟨⟨a, b⟩, ?_, rfl⟩
    apply List.mem_filter.mpr
    exact ⟨mem_lookup_iff.mp hb, hp⟩

omit [DecidableEq α] in
theorem nodup_having :
  (m.having p).Nodup
  := by
  apply List.Nodup.sublist _ m.keys_nodup
  apply List.filter_sublist.map

omit [DecidableEq α] in
/-- The number of entries with a property. -/
theorem total_eq_length_having :
  total (fun b => if p b then 1 else 0) m = (m.having p).length
  := by
  rw [having, List.length_map, total, values, ← List.countP_eq_length_filter, List.map_map]
  induction m.entries with
  | nil => rfl
  | cons e l ih =>
    rw [List.map_cons, List.sum_cons, ih, List.countP_cons]
    simp only [Function.comp]
    omega

/-- The number of entries with a property is the length of any list of distinct keys that
lists them. -/
theorem total_eq_length (hnd : l.Nodup)
    (hl : ∀ a, a ∈ l ↔ ∃ b, m.lookup a = some b ∧ p b = true) :
  total (fun b => if p b then 1 else 0) m = l.length
  := by
  rw [total_eq_length_having]
  apply List.Perm.length_eq
  apply (List.perm_ext_iff_of_nodup nodup_having hnd).mpr
  intro a
  rw [mem_having, hl]

/-- Distinct keys of entries with a property, as many as there are, are all of them. -/
theorem mem_of_total_le (hnd : l.Nodup)
    (hl : ∀ a ∈ l, ∃ b, m.lookup a = some b ∧ p b = true)
    (hle : total (fun b => if p b then 1 else 0) m ≤ l.length)
    (h : m.lookup a = some b) (hp : p b = true) :
  a ∈ l
  := by
  have hsub : l ⊆ m.having p := by
    intro a' ha'
    exact mem_having.mpr (hl a' ha')
  rw [total_eq_length_having] at hle
  have hperm := (hnd.subperm hsub).perm_of_length_le hle
  exact hperm.mem_iff.mpr (mem_having.mpr ⟨b, h, hp⟩)

end AList

/-- The sum of a family after one of its members changes. -/
theorem sum_update_add {ι : Type u} [Fintype ι] [DecidableEq ι] (f : ι → ℕ) (i : ι) (v : ℕ) :
  ∑ j, Function.update f i v j + f i = ∑ j, f j + v
  := by
  rw [Finset.sum_update_of_mem (Finset.mem_univ i),
    ← Finset.add_sum_erase Finset.univ f (Finset.mem_univ i), Finset.sdiff_singleton_eq_erase]
  omega
