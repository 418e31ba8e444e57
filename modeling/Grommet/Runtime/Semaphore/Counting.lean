import Grommet.Runtime.Semaphore.Model

/-!
# Permits are conserved

Every permit is free, held, or on its way to a caller whose wait is over.
-/

namespace Grommet.Semaphore

open Waiters (Ticket Waker CallStep)

variable {ι : Type} [DecidableEq ι] {s s' : System ι} {i : ι} {d : Deed} {place : Place} {n : ℕ}

/-- Whether a caller in this place has a permit. -/
def Place.holds : Place → Bool
  | holding => true
  | finishing _ granted => granted
  | _ => false

/-- The callers with a permit, and the permits that are free, are `n` together. -/
def Counts (n : ℕ) (s : System ι) : Prop :=
  ∃ holders : List ι, holders.Nodup ∧ (∀ j, j ∈ holders ↔ (s.place j).holds = true) ∧
    s.semaphore.permits + holders.length = n

omit [DecidableEq ι] in
theorem counts_start (n : ℕ) :
  Counts n (System.start n : System ι)
  := by
  refine ⟨[], List.nodup_nil, fun j => ?_, rfl⟩
  constructor
  · intro hj
    cases hj
  · intro hj
    cases hj

/-- The holders change with the place of one caller. -/
theorem move_holds (j : ι) :
  ((s.move i place).place j).holds = if j = i then place.holds else (s.place j).holds
  := by
  split
  · rename_i h
    rw [h, move_self]
  · rename_i h
    rw [move_of_ne h]

theorem Counts.same (h : Counts n s) (s' : System ι)
    (hpermits : s'.semaphore.permits = s.semaphore.permits)
    (hplace : s'.place = s.place) (hholds : place.holds = (s.place i).holds) :
  Counts n (s'.move i place)
  := by
  obtain ⟨holders, hnodup, hmem, hcount⟩ := h
  refine ⟨holders, hnodup, fun j => ?_, ?_⟩
  · rw [hmem, move_holds, hplace]
    split
    · rename_i hj
      rw [hj, hholds]
    · rfl
  · rw [← hcount, ← hpermits]
    rfl

/-- A caller that takes a permit holds it, and one that finds none does not. -/
theorem Counts.take {without granted : Place} (h : Counts n s) (hplace : (s.place i).holds = false)
    (hwithout : without.holds = false) (hgranted : granted.holds = true) :
  Counts n (s.take.move i (if s.semaphore.take.1 then granted else without))
  := by
  by_cases hzero : s.semaphore.permits = 0
  · have htake : s.semaphore.take = (false, s.semaphore) := take_of_zero hzero
    refine h.same _ ?_ rfl ?_
    · show s.semaphore.take.2.permits = _
      rw [htake]
    · rw [htake, hplace]
      exact hwithout
  · obtain ⟨holders, hnodup, hmem, hcount⟩ := h
    have htake : s.semaphore.take
        = (true, { s.semaphore with permits := s.semaphore.permits - 1 }) := if_neg hzero
    have hout : i ∉ holders := by
      rw [hmem, hplace]
      exact Bool.false_ne_true
    refine ⟨i :: holders, List.nodup_cons.mpr ⟨hout, hnodup⟩, fun j => ?_, ?_⟩
    · rw [List.mem_cons, move_holds, htake]
      split
      · rename_i hj
        exact ⟨fun _ => hgranted, fun _ => Or.inl hj⟩
      · rename_i hj
        rw [hmem, or_iff_right hj]
        rfl
    · show s.semaphore.take.2.permits + (holders.length + 1) = n
      rw [htake]
      show s.semaphore.permits - 1 + (holders.length + 1) = n
      omega

/-- A permit that is given back is free. -/
theorem Counts.give (h : Counts n s) (hplace : s.place i = .holding) :
  Counts n (s.give.move i .returning)
  := by
  obtain ⟨holders, hnodup, hmem, hcount⟩ := h
  have hin : i ∈ holders := by
    rw [hmem, hplace]
    rfl
  refine ⟨holders.erase i, hnodup.erase i, fun j => ?_, ?_⟩
  · rw [hnodup.mem_erase_iff, hmem, move_holds]
    split
    · rename_i hj
      exact ⟨fun h => absurd hj h.1, fun h => (Bool.false_ne_true h).elim⟩
    · rename_i hj
      exact ⟨fun h => h.2, fun h => ⟨hj, h⟩⟩
  · have hlength := List.length_erase_of_mem hin
    have hpos := List.length_pos_of_mem hin
    show s.semaphore.permits + 1 + (holders.erase i).length = n
    omega

theorem Counts.step (h : Counts n s) (hstep : Step s (i, d) s') :
  Counts n s'
  := by
  cases hstep with
  | tryAcquire hplace | take hplace | takeAgain hplace =>
    exact h.take (by rw [hplace]; rfl) rfl rfl
  | release hplace => exact h.give hplace
  | finish hplace hcall =>
    refine h.same { s with waiters := _ } rfl rfl ?_
    rw [hplace]
    split <;> simp_all [Place.holds]
  | check hplace | checkAgain hplace | look hplace =>
    refine h.same _ rfl rfl ?_
    rw [hplace]
    split <;> rfl
  | drop hplace hcall =>
    refine h.same { s with waiters := _ } rfl rfl ?_
    rw [hplace]
    split <;> rfl
  | dropIdle hplace =>
    refine h.same _ rfl rfl ?_
    rw [hplace]
    rfl
  | begin hplace | resume hplace =>
    refine h.same (s.polled i _) rfl rfl ?_
    rw [hplace]
    rfl
  | flag hplace =>
    refine h.same { s with semaphore := _ } rfl rfl ?_
    rw [hplace]
    rfl
  | wake hplace =>
    refine h.same { s with returned := true } rfl rfl ?_
    rw [hplace]
    rfl
  | park hplace | parkClosed hplace | parkPanics hplace | refresh hplace | pass hplace | hand hplace
  | shut hplace =>
    refine h.same { s with waiters := _ } rfl rfl ?_
    rw [hplace]
    rfl

end Grommet.Semaphore
