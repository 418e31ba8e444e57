import Grommet.Library.Chain

/-!
# Buckets of linked lists

A family of disjoint doubly linked lists that share one pair of link maps, as the buckets
of a hash table or the slots of a wheel do.  Links of members of no list are not looked at.
-/

universe u v

variable {κ : Type u} {ι : Type v}

/-- The links and the heads describe a family of disjoint lists. -/
structure Buckets (next prev : ι → Option ι) (head : κ → Option ι) (lists : κ → List ι) :
    Prop where
  threads : ∀ p, Threads next prev (lists p)
  nodup : ∀ p, (lists p).Nodup
  head_eq : ∀ p, head p = (lists p).head?
  apart : ∀ p q i, i ∈ lists p → i ∈ lists q → p = q

namespace Buckets

variable {next prev next' prev' : ι → Option ι} {head : κ → Option ι} {lists : κ → List ι}
  {p : κ} {i : ι}

/-- Only the links of members matter. -/
theorem congr (h : Buckets next prev head lists) (hn : ∀ p, ∀ x ∈ lists p, next' x = next x)
    (hp : ∀ p, ∀ x ∈ lists p, prev' x = prev x) :
  Buckets next' prev' head lists
  := ⟨fun p => (h.threads p).congr (hn p) (hp p), h.nodup, h.head_eq, h.apart⟩

/-- A member stands between its neighbours. -/
theorem neighbours (h : Buckets next prev head lists) (hi : i ∈ lists p) :
  ∃ a b, lists p = a ++ i :: b ∧ i ∉ a ∧ prev i = a.getLast? ∧ next i = b.head?
  := by
  obtain ⟨a, b, hab⟩ := List.append_of_mem hi
  have hthreads := h.threads p
  have hnodup := h.nodup p
  rw [hab] at hthreads hnodup
  refine ⟨a, b, hab, ?_, hthreads.prev_eq, hthreads.next_eq⟩
  intro hmem
  apply (List.nodup_append.mp hnodup).2.2 i hmem i (by simp) rfl

theorem mem_of_prev (h : Buckets next prev head lists) (hi : i ∈ lists p) {x : ι}
    (hx : prev i = some x) :
  x ∈ lists p
  := by
  obtain ⟨a, b, hab, -, hprev, -⟩ := h.neighbours hi
  rw [hprev] at hx
  simp [hab, List.mem_of_getLast? hx]

theorem mem_of_next (h : Buckets next prev head lists) (hi : i ∈ lists p) {x : ι}
    (hx : next i = some x) :
  x ∈ lists p
  := by
  obtain ⟨a, b, hab, -, -, hnext⟩ := h.neighbours hi
  rw [hnext] at hx
  simp [hab, List.mem_of_head? hx]

/-- A member without neighbours is alone on its list. -/
theorem alone_iff (h : Buckets next prev head lists) (hi : i ∈ lists p) :
  (prev i = none ∧ next i = none) ↔ lists p = [i]
  := by
  obtain ⟨a, b, hab, -, hprev, hnext⟩ := h.neighbours hi
  rw [hprev, hnext, hab, List.getLast?_eq_none_iff, List.head?_eq_none_iff]
  constructor
  · rintro ⟨rfl, rfl⟩
    rfl
  · intro heq
    have hlength := congrArg List.length heq
    rw [List.length_append, List.length_cons, List.length_singleton] at hlength
    exact ⟨List.eq_nil_of_length_eq_zero (by omega), List.eq_nil_of_length_eq_zero (by omega)⟩

variable [DecidableEq κ]

/-- The members of the lists after one of them grew or shrank. -/
theorem mem_update {l : List ι} {q : κ} :
  i ∈ Function.update lists p l q ↔ (q = p ∧ i ∈ l) ∨ (q ≠ p ∧ i ∈ lists q)
  := by
  by_cases hq : q = p
  · subst hq
    simp
  · simp [hq]

variable [DecidableEq ι]

/-- A member of no list joins at the front of one. -/
theorem push (h : Buckets next prev head lists) (hi : ∀ q, i ∉ lists q) :
  Buckets (Function.update next i (head p))
    (fun j => if head p = some j then some i else Function.update prev i none j)
    (Function.update head p (some i)) (Function.update lists p (i :: lists p))
  := by
  have hne : ∀ q, ∀ x ∈ lists q, x ≠ i := by
    rintro q x hx rfl
    apply hi q hx
  have hmember : ∀ q x, head q = some x → x ∈ lists q := by
    intro q x hx
    rw [h.head_eq] at hx
    apply List.mem_of_head? hx
  constructor
  · intro q
    by_cases hq : q = p
    · subst hq
      rw [Function.update_self]
      apply (h.threads q).cons (h.nodup q)
      · rw [Function.update_self, h.head_eq]
      · rw [if_neg, Function.update_self]
        intro hhead
        apply hi q (hmember q i hhead)
      · intro x hx
        rw [if_pos]
        rw [h.head_eq, hx]
      · intro x hx
        apply Function.update_of_ne (hne q x hx)
      · intro x hx hhead
        rw [if_neg, Function.update_of_ne (hne q x hx)]
        rw [h.head_eq]
        apply hhead
    · rw [Function.update_of_ne hq]
      apply (h.threads q).congr
      · intro x hx
        apply Function.update_of_ne (hne q x hx)
      · intro x hx
        rw [if_neg, Function.update_of_ne (hne q x hx)]
        intro hhead
        apply hq (h.apart q p x hx (hmember p x hhead))
  · intro q
    by_cases hq : q = p
    · subst hq
      rw [Function.update_self, List.nodup_cons]
      exact ⟨hi q, h.nodup q⟩
    · rw [Function.update_of_ne hq]
      apply h.nodup
  · intro q
    by_cases hq : q = p
    · subst hq
      rw [Function.update_self, Function.update_self, List.head?_cons]
    · rw [Function.update_of_ne hq, Function.update_of_ne hq, h.head_eq]
  · intro q r x hq hr
    rw [mem_update, List.mem_cons] at hq hr
    rcases hq with ⟨rfl, rfl | hq⟩ | ⟨-, hq⟩
    · rcases hr with ⟨rfl, -⟩ | ⟨-, hr⟩
      · rfl
      · exact (hi r hr).elim
    · rcases hr with ⟨rfl, -⟩ | ⟨-, hr⟩
      · rfl
      · apply h.apart q r x hq hr
    · rcases hr with ⟨rfl, rfl | hr⟩ | ⟨-, hr⟩
      · exact (hi q hq).elim
      · apply h.apart q r x hq hr
      · apply h.apart q r x hq hr

/-- A member leaves its list, and its neighbours are joined. -/
theorem remove (h : Buckets next prev head lists) (hi : i ∈ lists p) :
  Buckets (fun j => if prev i = some j then next i else next j)
    (fun j => if next i = some j then prev i else prev j)
    (if (prev i).isNone then Function.update head p (next i) else head)
    (Function.update lists p ((lists p).erase i))
  := by
  obtain ⟨a, b, hab, hia, hprev, hnext⟩ := h.neighbours hi
  have hthreads := h.threads p
  have hnodup := h.nodup p
  rw [hab] at hthreads hnodup
  have herase : (lists p).erase i = a ++ b := by
    rw [hab, List.erase_append_right _ hia, List.erase_cons_head]
  constructor
  · intro q
    by_cases hq : q = p
    · subst hq
      rw [Function.update_self, herase]
      apply hthreads.remove hnodup
      · intro x hx
        rw [if_pos (by rw [hprev, hx]), hnext]
      · intro x hx
        rw [if_pos (by rw [hnext, hx]), hprev]
      · intro x _ hx
        rw [if_neg]
        rw [hprev]
        apply hx
      · intro x _ hx
        rw [if_neg]
        rw [hnext]
        apply hx
    · rw [Function.update_of_ne hq]
      apply (h.threads q).congr
      · intro x hx
        rw [if_neg]
        intro heq
        apply hq (h.apart q p x hx (h.mem_of_prev hi heq))
      · intro x hx
        rw [if_neg]
        intro heq
        apply hq (h.apart q p x hx (h.mem_of_next hi heq))
  · intro q
    by_cases hq : q = p
    · subst hq
      rw [Function.update_self]
      apply (h.nodup q).erase
    · rw [Function.update_of_ne hq]
      apply h.nodup
  · intro q
    by_cases hq : q = p
    · subst hq
      rw [Function.update_self, herase, hprev]
      cases a with
      | nil =>
        rw [List.getLast?_nil, Option.isNone_none, if_pos rfl, Function.update_self, hnext,
          List.nil_append]
      | cons x a =>
        rw [List.getLast?_cons, Option.isNone_some, if_neg (by simp), h.head_eq, hab]
        rfl
    · rw [Function.update_of_ne hq]
      split
      · rw [Function.update_of_ne hq, h.head_eq]
      · rw [h.head_eq]
  · intro q r x hq hr
    rw [mem_update] at hq hr
    apply h.apart q r x
    · rcases hq with ⟨rfl, hq⟩ | ⟨-, hq⟩
      · apply List.mem_of_mem_erase hq
      · apply hq
    · rcases hr with ⟨rfl, hr⟩ | ⟨-, hr⟩
      · apply List.mem_of_mem_erase hr
      · apply hr

omit [DecidableEq ι] in
/-- A whole list is detached. -/
theorem take (h : Buckets next prev head lists) (p : κ) :
  Buckets next prev (Function.update head p none) (Function.update lists p [])
  := by
  constructor
  · intro q
    by_cases hq : q = p
    · subst hq
      rw [Function.update_self]
      apply Threads.nil
    · rw [Function.update_of_ne hq]
      apply h.threads
  · intro q
    by_cases hq : q = p
    · subst hq
      simp
    · rw [Function.update_of_ne hq]
      apply h.nodup
  · intro q
    by_cases hq : q = p
    · subst hq
      simp
    · rw [Function.update_of_ne hq, Function.update_of_ne hq, h.head_eq]
  · intro q r x hq hr
    rw [mem_update] at hq hr
    apply h.apart q r x
    · simpa using (hq.resolve_left (by simp)).2
    · simpa using (hr.resolve_left (by simp)).2

end Buckets
