import Mathlib.Data.List.Nodup
import Mathlib.Logic.Function.Basic

/-!
# Keys with values, in an order

A list of keys and a partial map from keys to values give the list of the keys that have a
value, in the order of the list.  A key whose value was taken away drops out of it without
being taken off the list of keys.
-/

universe u v

variable {κ : Type u} {ν : Type v} {order order' : List κ} {value : κ → Option ν} {k : κ} {v : ν}

/-- The keys that have a value, with their values. -/
def List.valued (order : List κ) (value : κ → Option ν) : List (κ × ν) :=
  order.filterMap fun k => (value k).map (k, ·)

namespace List

@[simp]
theorem valued_nil :
  [].valued value = []
  := rfl

theorem valued_append :
  (order ++ order').valued value = order.valued value ++ order'.valued value
  := List.filterMap_append

theorem valued_cons_none (h : value k = none) :
  (k :: order).valued value = order.valued value
  := by
  rw [valued, filterMap_cons_none, valued]
  rw [h]
  rfl

theorem valued_cons_some (h : value k = some v) :
  (k :: order).valued value = (k, v) :: order.valued value
  := by
  rw [valued, filterMap_cons_some (b := (k, v)), valued]
  rw [h]
  rfl

theorem mem_valued {e : κ × ν} :
  e ∈ order.valued value ↔ e.1 ∈ order ∧ value e.1 = some e.2
  := by
  obtain ⟨k, v⟩ := e
  rw [valued, mem_filterMap]
  constructor
  · rintro ⟨k', hk', heq⟩
    obtain ⟨v', hv', heq⟩ := Option.map_eq_some_iff.mp heq
    cases heq
    exact ⟨hk', hv'⟩
  · rintro ⟨hk, hv⟩
    refine ⟨k, hk, ?_⟩
    rw [hv]
    rfl

theorem mem_map_fst_valued :
  k ∈ (order.valued value).map Prod.fst ↔ k ∈ order ∧ ∃ v, value k = some v
  := by
  rw [mem_map]
  constructor
  · rintro ⟨⟨k', v⟩, he, rfl⟩
    obtain ⟨hk, hv⟩ := mem_valued.mp he
    exact ⟨hk, v, hv⟩
  · rintro ⟨hk, v, hv⟩
    exact ⟨(k, v), mem_valued.mpr ⟨hk, hv⟩, rfl⟩

theorem nodup_valued (h : order.Nodup) :
  (order.valued value).Nodup
  := by
  apply h.filterMap
  intro k k' e hk hk'
  obtain ⟨v, -, rfl⟩ := Option.map_eq_some_iff.mp hk
  obtain ⟨v', -, heq⟩ := Option.map_eq_some_iff.mp hk'
  exact (Prod.mk.inj heq).1.symm

theorem length_valued :
  (order.valued value).length = order.countP fun k => (value k).isSome
  := by
  induction order with
  | nil => rfl
  | cons k order ih =>
    cases h : value k with
    | none => rw [valued_cons_none h, ih, countP_cons_of_neg (by simp [h])]
    | some v => rw [valued_cons_some h, length_cons, ih, countP_cons_of_pos (by simp [h])]

/-- Dropping keys without a value does not matter. -/
theorem valued_filter {p : κ → Bool} (h : ∀ k v, value k = some v → p k = true) :
  (order.filter p).valued value = order.valued value
  := by
  induction order with
  | nil => rfl
  | cons k order ih =>
    cases hk : value k with
    | none =>
      rw [valued_cons_none hk, filter_cons]
      split
      · rw [valued_cons_none hk, ih]
      · exact ih
    | some v =>
      rw [filter_cons_of_pos (h k v hk), valued_cons_some hk, valued_cons_some hk, ih]

variable [DecidableEq κ]

theorem valued_update_of_not_mem {o : Option ν} (h : k ∉ order) :
  order.valued (Function.update value k o) = order.valued value
  := by
  rw [valued, valued]
  apply filterMap_congr
  intro k' hk'
  rw [Function.update_of_ne]
  rintro rfl
  exact h hk'

/-- A key that loses its value drops out. -/
theorem valued_update_none :
  order.valued (Function.update value k none) = (order.valued value).filter fun e => e.1 ≠ k
  := by
  induction order with
  | nil => rfl
  | cons k' order ih =>
    by_cases hk : k' = k
    · subst hk
      rw [valued_cons_none (Function.update_self ..), ih]
      cases hv : value k' with
      | none => rw [valued_cons_none hv]
      | some v => rw [valued_cons_some hv, filter_cons_of_neg (by simp)]
    · have hupdate : Function.update value k none k' = value k' := Function.update_of_ne hk ..
      cases hv : value k' with
      | none => rw [valued_cons_none (hupdate.trans hv), valued_cons_none hv, ih]
      | some v =>
        rw [valued_cons_some (hupdate.trans hv), valued_cons_some hv,
          filter_cons_of_pos (by simpa using hk), ih]

/-- A key that has a value keeps its place when the value changes. -/
theorem valued_update_some {u : ν} (h : value k = some u) :
  order.valued (Function.update value k (some v))
    = (order.valued value).map fun e => if e.1 = k then (k, v) else e
  := by
  induction order with
  | nil => rfl
  | cons k' order ih =>
    by_cases hk : k' = k
    · subst hk
      rw [valued_cons_some (Function.update_self ..), valued_cons_some h, map_cons, if_pos rfl, ih]
    · have hupdate : Function.update value k (some v) k' = value k' := Function.update_of_ne hk ..
      cases hv : value k' with
      | none => rw [valued_cons_none (hupdate.trans hv), valued_cons_none hv, ih]
      | some w =>
        rw [valued_cons_some (hupdate.trans hv), valued_cons_some hv, map_cons, if_neg hk, ih]

end List
