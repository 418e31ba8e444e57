import Grommet.Runtime.Waiters.Fifo
import Mathlib.Data.List.Dedup

/-!
# The memory of cancelled callers

A registration that is cancelled leaves its entry in the order of arrival, and compaction is
to remove the entries whose registrations are over when they come to outnumber the others.
Whether it runs is decided by the number of free slots: the order is left alone as long as it
has fewer than two entries for each free slot.  Between twice the occupied slots and twice the
free ones the entries that are over outnumber the others, and they are kept.
-/

open Checked

namespace Grommet.Waiters

variable {inner : Inner} {w w' : Waiters} {order : List Ticket}

/-- There are few entries, or those whose registrations are over do not outnumber the others. -/
def Inner.GivenBack (inner : Inner) : Prop :=
  inner.order.length ≤ 8 ∨
    inner.order.countP (fun t => !inner.live t) ≤ inner.order.countP inner.live

instance : Decidable inner.GivenBack :=
  inferInstanceAs (Decidable (_ ∨ _))

/-- The numbers of entries, occupied slots and free slots with which nothing is held back. -/
def Spared (entries occupied free : ℕ) : Prop :=
  entries ≤ 8 ∨ free * 2 ≤ entries ∨ entries ≤ occupied * 2

/-- The state before a call of `park` or `cancel` from which the call gives back what it
should. -/
def Sheds (w : Waiters) : Call → Prop
  | .park _ => w.inner.closed = true ∨
      Spared (w.inner.order.length + 1) (w.waiting + 1) (w.inner.free.length - 1)
  | .cancel ticket =>
      if w.inner.live ticket then
        Spared w.inner.order.length (w.waiting - 1) (w.inner.free.length + 1)
      else
        w.inner.order.length ≤ 8 ∨ w.inner.order.length ≤ w.waiting * 2
  | _ => True

/-- A call with the states around it. -/
structure Passage where
  before : Waiters
  event : Call × Reply
  after : Waiters

/-- The states around a call are those of the run. -/
def Passes (w : Waiters) (p : Passage) (w' : Waiters) : Prop :=
  p.before = w ∧ p.after = w' ∧ CallStep w p.event w'

/-- A call of `park` or `cancel` that returns gives back what it should. -/
def Passage.GivesBack (p : Passage) : Prop :=
  match p.event with
  | (.park _, .panicked) => True
  | (.park _, _) => p.after.inner.GivenBack
  | (.cancel _, _) => p.after.inner.GivenBack
  | _ => True

/-! ### Entries and slots -/

theorem countP_live :
  order.countP inner.live = (order.valued inner.waker).length
  := by
  rw [List.length_valued]
  apply List.countP_congr
  intro t ht
  rw [live_iff, Option.isSome_iff_exists]

/-- Every occupied slot has an entry. -/
theorem Inner.Keeps.occupied_le (h : inner.Keeps order) :
  inner.occupied ≤ order.countP inner.live
  := by
  have hdedup : inner.Keeps order.dedup := by
    refine ⟨h.sound, fun t ht => h.range t (List.mem_dedup.mp ht), ?_, h.count, h.fits⟩
    intro t v hv
    exact List.mem_dedup.mpr (h.listed t v hv)
  rw [← hdedup.length_valued order.nodup_dedup, ← countP_live]
  exact (order.dedup_sublist).countP_le

theorem Inner.Keeps.occupied_eq (h : inner.Keeps order) (hnodup : order.Nodup) :
  order.countP inner.live = inner.occupied
  := by
  rw [countP_live, h.length_valued hnodup]

theorem countP_live_add (inner : Inner) :
  inner.order.countP inner.live + inner.order.countP (fun t => !inner.live t) = inner.order.length
  := by
  rw [List.length_eq_countP_add_countP inner.live, Nat.add_left_cancel_iff]
  apply List.countP_congr
  intro t ht
  rw [Bool.not_eq_true', decide_eq_true_eq, Bool.not_eq_true]

theorem givenBack_of_le (h : inner.Keeps inner.order)
    (hfew : inner.order.length ≤ 8 ∨ inner.order.length ≤ inner.occupied * 2) :
  inner.GivenBack
  := by
  rcases hfew with hfew | hfew
  · exact Or.inl hfew
  · right
    have hlive := h.occupied_le
    have hsum := countP_live_add inner
    omega

theorem le_of_givenBack (h : inner.Keeps inner.order) (hnodup : inner.order.Nodup)
    (hback : inner.GivenBack) :
  inner.order.length ≤ 8 ∨ inner.order.length ≤ inner.occupied * 2
  := by
  rcases hback with hfew | hback
  · exact Or.inl hfew
  · right
    have hlive := h.occupied_eq hnodup
    have hsum := countP_live_add inner
    omega

/-- Compaction leaves the entries of live registrations only, or as many as there were. -/
theorem givenBack_compacted (h : inner.Keeps inner.order)
    (hspared : Spared inner.order.length inner.occupied inner.free.length) :
  inner.compacted.GivenBack
  := by
  by_cases hearly : inner.order.length ≤ 8 ∨ inner.order.length < inner.free.length * 2
  · rw [Inner.compacted, if_pos hearly]
    apply givenBack_of_le h
    rcases hspared with hfew | hfree | hfew
    · exact Or.inl hfew
    · exact hearly.imp_right fun hless => absurd hless (Nat.not_lt_of_le hfree)
    · exact Or.inr hfew
  · rw [Inner.compacted, if_neg hearly]
    right
    have hnone : (inner.order.filter inner.live).countP (fun t => !inner.live t) = 0 := by
      rw [List.countP_eq_zero]
      intro t ht
      rw [(List.mem_filter.mp ht).2]
      exact Bool.false_ne_true
    exact hnone.trans_le (Nat.zero_le _)

theorem spared_of_givenBack (h : inner.Keeps inner.order) (hnodup : inner.order.Nodup)
    (hback : inner.compacted.GivenBack) :
  Spared inner.order.length inner.occupied inner.free.length
  := by
  by_cases hearly : inner.order.length ≤ 8 ∨ inner.order.length < inner.free.length * 2
  · rw [Inner.compacted, if_pos hearly] at hback
    rcases le_of_givenBack h hnodup hback with hfew | hfew
    · exact Or.inl hfew
    · exact Or.inr (Or.inr hfew)
  · right
    left
    omega

/-! ### Calls -/

theorem callStep_kept {e : Call × Reply} (h : w.Kept) (hsheds : Sheds w e.1)
    (hstep : CallStep w e w') :
  Passage.GivesBack ⟨w, e, w'⟩
  := by
  cases hstep with
  | @park w' v ticket hpark =>
    rcases h.park_cases v with ⟨-, hpark'⟩ | ⟨hopen, hfew, -⟩ | ⟨-, -, hpark'⟩
    · cases hpark.symm.trans hpark'
    · obtain ⟨inner, ticket', hpark', hkeeps, horder, -, -, -, -, -, hoccupied, hfree, -⟩ :=
        h.park hopen hfew v
      cases hpark.symm.trans hpark'
      apply givenBack_compacted hkeeps
      rw [horder, List.length_append, List.length_singleton, hoccupied, hfree]
      rcases hsheds with hclosed | hspared
      · cases hopen.symm.trans hclosed
      · exact hspared
    · cases hpark.symm.trans hpark'
  | @refused w' v e hpark =>
    rcases h.park_cases v with ⟨hclosed, hpark'⟩ | ⟨-, -, w₁, ticket, hpark'⟩ | ⟨-, -, hpark'⟩
    · cases hpark.symm.trans hpark'
      left
      show w.inner.order.length ≤ 8
      rw [h.ended hclosed]
      exact Nat.zero_le _
    · cases hpark.symm.trans hpark'
    · cases hpark.symm.trans hpark'
  | @cancel w' t live hcancel =>
    cases hlive : w.inner.waker t with
    | none =>
      rw [Sheds, if_neg (not_live hlive), h.published] at hsheds
      cases hcancel.symm.trans (cancel_over hlive)
      exact givenBack_of_le h.keeps hsheds
    | some v =>
      rw [Sheds, if_pos (live_iff.mpr ⟨v, hlive⟩)] at hsheds
      obtain ⟨inner, hcancel', hkeeps, horder, -, -, hoccupied, hfree⟩ := h.cancel hlive
      cases hcancel.symm.trans hcancel'
      apply givenBack_compacted hkeeps
      rw [horder, hfree]
      rw [← hoccupied, Nat.add_sub_cancel] at hsheds
      exact hsheds
  | _ => trivial

theorem callStep_sheds {e : Call × Reply} (h : w.Kept) (hnodup : w.inner.order.Nodup)
    (hnodup' : ∀ ticket, ticket.generation = w.inner.nextGeneration → ticket ∉ w.inner.order)
    (hstep : CallStep w e w') (hback : Passage.GivesBack ⟨w, e, w'⟩) :
  Sheds w e.1
  := by
  cases hstep with
  | @park w' v ticket hpark =>
    rcases h.park_cases v with ⟨-, hpark'⟩ | ⟨hopen, hfew, -⟩ | ⟨-, -, hpark'⟩
    · cases hpark.symm.trans hpark'
    · obtain ⟨inner, ticket', hpark', hkeeps, horder, hg, -, -, -, -, hoccupied, hfree, -⟩ :=
        h.park hopen hfew v
      cases hpark.symm.trans hpark'
      have hlonger : inner.order.Nodup := by
        rw [horder]
        exact List.nodup_append_comm.mp (List.nodup_cons.mpr ⟨hnodup' _ hg, hnodup⟩)
      have hspared := spared_of_givenBack hkeeps hlonger hback
      rw [horder, List.length_append, List.length_singleton, hoccupied, hfree] at hspared
      exact Or.inr hspared
    · cases hpark.symm.trans hpark'
  | @refused w' v e hpark =>
    rcases h.park_cases v with ⟨hclosed, -⟩ | ⟨-, -, w₁, ticket, hpark'⟩ | ⟨-, -, hpark'⟩
    · exact Or.inl hclosed
    · cases hpark.symm.trans hpark'
    · cases hpark.symm.trans hpark'
  | @overflow v hpark =>
    rcases h.park_cases v with ⟨-, hpark'⟩ | ⟨-, -, w₁, ticket, hpark'⟩ | ⟨-, hfull, -⟩
    · cases hpark.symm.trans hpark'
    · cases hpark.symm.trans hpark'
    · have hsum := h.keeps.count
      have hfits := h.keeps.fits
      have hpublished := h.published
      right
      right
      left
      omega
  | @cancel w' t live hcancel =>
    cases hlive : w.inner.waker t with
    | none =>
      rw [Sheds, if_neg (not_live hlive), h.published]
      cases hcancel.symm.trans (cancel_over hlive)
      exact le_of_givenBack h.keeps hnodup hback
    | some v =>
      rw [Sheds, if_pos (live_iff.mpr ⟨v, hlive⟩)]
      obtain ⟨inner, hcancel', hkeeps, horder, -, -, hoccupied, hfree⟩ := h.cancel hlive
      cases hcancel.symm.trans hcancel'
      have hsame : inner.order.Nodup := by
        rw [horder]
        exact hnodup
      have hspared := spared_of_givenBack hkeeps hsame hback
      rw [horder, hfree] at hspared
      rw [← hoccupied, Nat.add_sub_cancel]
      exact hspared
  | _ => trivial

/-! ### Runs -/

theorem trail_of_passes {passages : List Passage} (h : Trail Passes new passages w) :
  Trail CallStep new (passages.map Passage.event) w
  := by
  induction h with
  | nil => exact .nil
  | snoc htrail hpasses ih =>
    obtain ⟨rfl, rfl, hstep⟩ := hpasses
    rw [List.map_append]
    exact ih.snoc hstep

theorem kept_of_trail {trace : List (Call × Reply)} (h : Trail CallStep new trace w) :
  w.Kept
  := by
  induction h with
  | nil => exact kept_new
  | snoc htrail hstep ih => exact ih.step hstep

/-- The state before a call of a run is reached by the calls before it. -/
theorem reached_of_mem {passages : List Passage} {p : Passage} (h : Trail Passes new passages w)
    (hp : p ∈ passages) :
  ∃ trace, Trail CallStep new trace p.before ∧ trace.length < passages.length ∧
    CallStep p.before p.event p.after
  := by
  induction h with
  | nil => cases hp
  | @snoc passages w w' q htrail hpasses ih =>
    rw [List.length_append, List.length_singleton]
    rcases List.mem_append.mp hp with hp | hp
    · obtain ⟨trace, htrace, hlt, hstep⟩ := ih hp
      exact ⟨trace, htrace, Nat.lt_succ_of_lt hlt, hstep⟩
    · cases List.mem_singleton.mp hp
      obtain ⟨rfl, rfl, hstep⟩ := hpasses
      refine ⟨_, trail_of_passes htrail, ?_, hstep⟩
      rw [List.length_map]
      exact Nat.lt_succ_self _

/-- In every run whose calls of `park` and `cancel` all find the order outside of the gap, each
of them leaves few entries whose registrations are over.  Before the generations wrap there
are no other such runs. -/
theorem cancelled_waiters_given_back_iff {passages : List Passage}
    (h : Trail Passes new passages w) :
  ((∀ p ∈ passages, Sheds p.before p.event.1) → ∀ p ∈ passages, p.GivesBack) ∧
    (passages.length < 2 ^ 64 → (∀ p ∈ passages, p.GivesBack) →
      ∀ p ∈ passages, Sheds p.before p.event.1)
  := by
  constructor
  · intro hsheds p hp
    obtain ⟨trace, htrace, -, hstep⟩ := reached_of_mem h hp
    exact callStep_kept (kept_of_trail htrace) (hsheds p hp) hstep
  · intro hbound hback p hp
    obtain ⟨trace, htrace, hlt, hstep⟩ := reached_of_mem h hp
    obtain ⟨q, -, hfollows, -⟩ := follows_of_trail htrace (hlt.trans hbound)
    refine callStep_sheds hfollows.kept hfollows.nodup ?_ hstep (hback p hp)
    intro ticket hg hmem
    exact (hfollows.older ticket hmem).ne hg

instance (call : Call) : Decidable (Sheds w call) :=
  match call with
  | .park _ => inferInstanceAs (Decidable (_ ∨ (_ ∨ _ ∨ _)))
  | .cancel ticket =>
      inferInstanceAs (Decidable (if w.inner.live ticket then (_ ∨ _ ∨ _) else (_ ∨ _)))
  | .refresh _ _ => isTrue trivial
  | .wakeOne => isTrue trivial
  | .close => isTrue trivial

/-- Calls made one after the other, with the states between them. -/
def passages (w : Waiters) : List Call → Checked (Waiters × List Passage)
  | [] => .ok (w, [])
  | call :: calls => do
      let first ← w.perform [call]
      let rest ← passages first.1 calls
      .ok (rest.1, first.2.map (fun event => ⟨w, event, first.1⟩) ++ rest.2)

/-- A call that is made alone. -/
theorem callStep_of_perform {call : Call} {trace : List (Call × Reply)}
    (h : w.perform [call] = .ok (w', trace)) :
  ∃ event, trace = [event] ∧ CallStep w event w'
  := by
  obtain ⟨event, rfl⟩ : ∃ event, trace = [event] := by
    cases call with
    | refresh t v =>
      cases h
      exact ⟨_, rfl⟩
    | _ =>
      obtain ⟨x, -, h⟩ := bind_eq_ok.mp h
      cases h
      exact ⟨_, rfl⟩
  obtain ⟨w₁, htrail, hstep⟩ := Trail.last (t := []) (trail_of_perform h)
  cases Trail.eq_of_nil htrail
  exact ⟨event, rfl, hstep⟩

theorem trail_of_passages {calls : List Call} {ps : List Passage}
    (h : w.passages calls = .ok (w', ps)) :
  Trail Passes w ps w'
  := by
  induction calls generalizing w ps with
  | nil =>
    cases h
    exact .nil
  | cons call calls ih =>
    obtain ⟨⟨w₁, trace⟩, hfirst, h⟩ := bind_eq_ok.mp h
    obtain ⟨⟨w₂, rest⟩, hrest, h⟩ := bind_eq_ok.mp h
    cases h
    obtain ⟨event, rfl, hstep⟩ := callStep_of_perform hfirst
    exact .cons ⟨rfl, rfl, hstep⟩ (ih hrest)

/-- Ten callers park and three of them cancel: the order is compacted twice. -/
theorem cancelled_waiters_given_back_iff_single :
  ∃ ps w, Trail Passes new ps w ∧ ps.length = 13 ∧ w.inner.order.length = 8 ∧
    ∀ p ∈ ps, Passage.GivesBack p
  := by
  obtain ⟨w, ps, hrun, hlength, horder, hsheds⟩ : ∃ w ps,
      new.passages ((List.range 10).map Call.park ++ (List.range 3).map fun i => .cancel ⟨i, i⟩)
        = .ok (w, ps) ∧ ps.length = 13 ∧ w.inner.order.length = 8 ∧
      ∀ p ∈ ps, Sheds p.before p.event.1 :=
    ⟨_, _, rfl, by decide, by decide, by decide⟩
  have htrail := trail_of_passages hrun
  exact ⟨ps, w, htrail, hlength, horder, (cancelled_waiters_given_back_iff htrail).1 hsheds⟩

/-- Thirteen callers park and the first nine cancel: of the nine entries that are left five are
over, and nothing has been given back since the fifth cancellation. -/
theorem cancelled_waiters_held_back :
  ∃ trace w, Trail CallStep new (trace ++ [(.cancel ⟨8, 8⟩, .cancelled true)]) w ∧
    w.inner.order.length = 9 ∧ w.waiting = 4 ∧ ¬ w.inner.GivenBack
  := by
  obtain ⟨w, trace, hrun, horder, hwaiting, hback⟩ : ∃ w trace,
      new.perform ((List.range 13).map Call.park ++ (List.range 9).map fun i => .cancel ⟨i, i⟩)
        = .ok (w, trace ++ [(.cancel ⟨8, 8⟩, .cancelled true)]) ∧
      w.inner.order.length = 9 ∧ w.waiting = 4 ∧ ¬ w.inner.GivenBack :=
    ⟨_, (List.range 13).map (fun i => (.park i, .parked ⟨i, i⟩)) ++
      (List.range 8).map (fun i => (.cancel ⟨i, i⟩, .cancelled true)), rfl, by decide, by decide,
      by decide⟩
  exact ⟨trace, w, trail_of_perform hrun, horder, hwaiting, hback⟩

end Grommet.Waiters
