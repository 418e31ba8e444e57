import Grommet.Runtime.Waiters.Calls
import Mathlib.Algebra.Ring.Nat

/-!
# First come, first woken

What the queue of parked callers is for: the live registrations stand in a line in the order
of their arrival.  A call changes the line at the place its ticket names, at the head or at
the end.  The queue answers every call as the line does as long as generations do not wrap.
-/

open Checked

namespace Grommet.Waiters

/-- The live registrations in the order of their arrival. -/
structure Fifo where
  line : List (Ticket × Waker)
  /-- Every ticket that was ever given out. -/
  issued : List Ticket
  /-- The most registrations that were live at once. -/
  peak : ℕ
  closed : Bool

namespace Fifo

def empty : Fifo := ⟨[], [], 0, false⟩

/-- One call and its reply. -/
inductive Step (q : Fifo) : Call × Reply → Fifo → Prop
  | park {v : Waker} {ticket : Ticket} :
      q.closed = false → q.line.length < 2 ^ 32 → ticket ∉ q.issued →
      Step q (.park v, .parked ticket) { q with
        line := q.line ++ [(ticket, v)]
        issued := ticket :: q.issued
        peak := max q.peak (q.line.length + 1) }
  | refused {v : Waker} : q.closed = true → Step q (.park v, .refused) q
  | overflow {v : Waker} :
      q.closed = false → q.line.length = 2 ^ 32 → Step q (.park v, .panicked) q
  | refresh {t : Ticket} {v : Waker} :
      Step q (.refresh t v, .refreshed) { q with
        line := q.line.map fun e => if e.1 = t then (t, v) else e }
  | cancel {t : Ticket} :
      Step q (.cancel t, .cancelled (decide (t ∈ q.line.map Prod.fst))) { q with
        line := q.line.filter fun e => e.1 ≠ t }
  | wakeOne :
      Step q (.wakeOne, .woken (q.line.head?.map Prod.snd)) { q with line := q.line.tail }
  | close :
      Step q (.close, .closed (q.line.map Prod.snd)) { q with line := [], closed := true }

end Fifo

variable {w w' : Waiters} {q : Fifo} {inner : Inner} {order : List Ticket} {t : Ticket} {v : Waker}

/-- The queue holds the line, publishes its length and has no more slots than it ever needed. -/
structure Refines (w : Waiters) (q : Fifo) : Prop where
  line : w.inner.order.valued w.inner.waker = q.line
  waiting : w.waiting = q.line.length
  closed : w.inner.closed = q.closed
  slots : w.inner.slots.length ≤ q.peak

/-- Each registration has one entry, and each occupied slot one registration. -/
theorem Inner.Keeps.length_valued (h : inner.Keeps order) (hnodup : order.Nodup) :
  (order.valued inner.waker).length = inner.occupied
  := by
  have hslots : ((order.valued inner.waker).map fun e => e.1.slot).Nodup := by
    apply List.Nodup.map_on _ (List.nodup_valued hnodup)
    intro e he e' he' hslot
    obtain ⟨-, hv⟩ := List.mem_valued.mp he
    obtain ⟨-, hv'⟩ := List.mem_valued.mp he'
    obtain ⟨s, hs, hg, hw⟩ := slot_of_waker hv
    obtain ⟨s', hs', hg', hw'⟩ := slot_of_waker hv'
    rw [hslot, hs', Option.some_inj] at hs
    subst hs
    have hticket : e.1 = e'.1 := by
      rw [Ticket.mk.injEq]
      exact ⟨hslot, hg.symm.trans hg'⟩
    have hwaker : e.2 = e'.2 := Option.some_inj.mp (hw.symm.trans hw')
    exact Prod.ext hticket hwaker
  rw [← List.length_map (fun e : Ticket × Waker => e.1.slot), Inner.occupied]
  apply List.length_eq_countP hslots
  intro i
  rw [List.mem_map]
  constructor
  · rintro ⟨e, he, rfl⟩
    obtain ⟨s, hs, -, hw⟩ := slot_of_waker (List.mem_valued.mp he).2
    exact ⟨s, hs, by rw [hw]; rfl⟩
  · rintro ⟨s, hs, hsome⟩
    obtain ⟨v, hv⟩ := Option.isSome_iff_exists.mp hsome
    have hwaker : inner.waker ⟨i, s.generation⟩ = some v := by
      rw [waker_of_slot (show inner.slots[Ticket.slot ⟨i, s.generation⟩]? = some s from hs),
        if_pos rfl, hv]
    exact ⟨(⟨i, s.generation⟩, v), List.mem_valued.mpr ⟨h.listed _ _ hwaker, hwaker⟩, rfl⟩

/-- The queue refines the line, and every ticket that was given out is older than the next. -/
structure Follows (w : Waiters) (q : Fifo) : Prop extends Refines w q where
  kept : w.Kept
  sorted : w.inner.order.Pairwise fun t u => t.generation < u.generation
  older : ∀ t ∈ w.inner.order, t.generation < w.inner.nextGeneration
  issued : ∀ t ∈ q.issued, t.generation < w.inner.nextGeneration

theorem Follows.nodup (h : Follows w q) :
  w.inner.order.Nodup
  := by
  apply h.sorted.imp
  rintro t u hlt rfl
  exact lt_irrefl _ hlt

theorem follows_empty :
  Follows new Fifo.empty
  := by
  refine ⟨⟨rfl, rfl, rfl, Nat.le_refl _⟩, kept_new, List.Pairwise.nil, ?_, ?_⟩
  · intro t ht
    cases ht
  · intro t ht
    cases ht

/-- The length of the line is what the queue publishes. -/
theorem waiting_of_line (hkept : w.Kept) (hnodup : w.inner.order.Nodup)
    (hline : w.inner.order.valued w.inner.waker = q.line) :
  w.waiting = q.line.length
  := by
  rw [← hline, hkept.keeps.length_valued hnodup, hkept.published]

theorem Follows.mem_line (h : Follows w q) :
  t ∈ q.line.map Prod.fst ↔ ∃ v, w.inner.waker t = some v
  := by
  rw [← h.line, List.mem_map_fst_valued]
  constructor
  · rintro ⟨-, hv⟩
    exact hv
  · rintro ⟨v, hv⟩
    exact ⟨h.kept.keeps.listed t v hv, v, hv⟩

theorem Follows.park (h : Follows w q) (hroom : w.inner.nextGeneration + 1 < 2 ^ 64)
    {ticket : Ticket} (hpark : w.park v = .ok (w', .ok ticket)) :
  ∃ q', Fifo.Step q (.park v, .parked ticket) q' ∧ Follows w' q' ∧
    w'.inner.nextGeneration = w.inner.nextGeneration + 1
  := by
  obtain ⟨hopen, hfew⟩ : w.inner.closed = false ∧ w.waiting < 2 ^ 32 := by
    rcases h.kept.park_cases v with ⟨-, hpark'⟩ | ⟨hopen, hfew, -⟩ | ⟨-, -, hpark'⟩
    · cases hpark.symm.trans hpark'
    · exact ⟨hopen, hfew⟩
    · cases hpark.symm.trans hpark'
  obtain ⟨inner, ticket', hpark', hkeeps, horder, hg, hidle, hwaker, hnext, hclosed, hoccupied, -,
    hslots⟩ := h.kept.park hopen hfew v
  rw [hpark] at hpark'
  cases hpark'
  obtain ⟨hwaker', -, hslots', -, hnext', hclosed'⟩ := compacted_other inner
  rw [wrappingSucc, Nat.mod_eq_of_lt hroom] at hnext
  have hnew : ticket ∉ w.inner.order := fun hmem => (h.older ticket hmem).ne hg
  have hsorted : inner.order.Pairwise fun t u => t.generation < u.generation := by
    rw [horder, List.pairwise_append]
    refine ⟨h.sorted, List.pairwise_singleton _ _, ?_⟩
    intro t ht u hu
    rw [List.mem_singleton.mp hu, hg]
    exact h.older t ht
  have holder : ∀ t ∈ inner.order, t.generation < inner.nextGeneration := by
    intro t ht
    rw [horder, List.mem_append, List.mem_singleton] at ht
    rw [hnext]
    rcases ht with ht | rfl
    · exact Nat.lt_succ_of_lt (h.older t ht)
    · exact Nat.lt_succ_of_le hg.le
  have hline : inner.compacted.order.valued inner.compacted.waker = q.line ++ [(ticket, v)] := by
    calc inner.compacted.order.valued inner.compacted.waker
        = inner.order.valued inner.waker := by rw [hwaker', compacted_valued]
      _ = w.inner.order.valued inner.waker ++ [ticket].valued inner.waker := by
        rw [horder, List.valued_append]
      _ = q.line ++ [(ticket, v)] := by
        rw [hwaker, List.valued_update_of_not_mem hnew, h.line,
          List.valued_cons_some (Function.update_self ..), List.valued_nil]
  have hlength := h.waiting
  refine ⟨_, .park (h.closed.symm.trans hopen) (hlength.symm.trans_lt hfew) ?_,
    ⟨⟨hline, ?_, ?_, ?_⟩, h.kept.step (.park hpark), hsorted.sublist compacted_sublist, ?_, ?_⟩,
    hnext'.trans hnext⟩
  · intro hmem
    exact (h.issued ticket hmem).ne hg
  · show inner.occupied = _
    rw [hoccupied, hlength, List.length_append, List.length_singleton]
  · exact hclosed'.trans (hclosed.trans (hopen.symm.trans h.closed))
  · show inner.compacted.slots.length ≤ max q.peak (q.line.length + 1)
    have hold := h.slots
    rw [hslots']
    omega
  · intro t ht
    exact (holder t (compacted_sublist.subset ht)).trans_eq hnext'.symm
  · intro t ht
    show t.generation < inner.compacted.nextGeneration
    rw [hnext', hnext]
    rcases List.mem_cons.mp ht with rfl | ht
    · exact Nat.lt_succ_of_le hg.le
    · exact Nat.lt_succ_of_lt (h.issued t ht)

/-- Registrations that end or change leave the rest of the line in order. -/
theorem Follows.change {line : List (Ticket × Waker)} {closed : Bool} (h : Follows w q)
    (hkept : w'.Kept) (horder : w'.inner.order.Sublist w.inner.order)
    (hnext : w'.inner.nextGeneration = w.inner.nextGeneration)
    (hslots : w'.inner.slots.length = w.inner.slots.length) (hclosed : w'.inner.closed = closed)
    (hline : w'.inner.order.valued w'.inner.waker = line) :
  Follows w' { q with line := line, closed := closed }
  := by
  have hsorted := h.sorted.sublist horder
  have hnodup := h.nodup.sublist horder
  refine ⟨⟨hline, ?_, hclosed, hslots.trans_le h.slots⟩, hkept, hsorted, ?_, ?_⟩
  · exact waiting_of_line (q := { q with line := line, closed := closed }) hkept hnodup hline
  · intro t ht
    exact (h.older t (horder.subset ht)).trans_eq hnext.symm
  · intro t ht
    exact (h.issued t ht).trans_eq hnext.symm

theorem Follows.refresh (h : Follows w q) (t : Ticket) (v : Waker) :
  Follows (w.refresh t v) { q with line := q.line.map fun e => if e.1 = t then (t, v) else e }
  := by
  obtain ⟨hkept, horder, hends⟩ := h.kept.refresh t v
  refine h.change hkept ?_ hends.generation hends.slots (hends.closed.trans h.closed) ?_
  · rw [horder]
  · rw [horder, ← h.line]
    cases hlive : w.inner.waker t with
    | some u =>
      obtain ⟨-, -, hwaker⟩ := refresh_spec t v h.kept.keeps.sound
      rw [hwaker, if_pos (live_iff.mpr ⟨u, hlive⟩), List.valued_update_some hlive]
    | none =>
      rw [refresh_over hlive]
      symm
      apply (List.map_congr_left ?_).trans (List.map_id _)
      intro e he
      apply if_neg
      rintro rfl
      cases hlive.symm.trans (List.mem_valued.mp he).2

theorem Follows.cancel {live : Bool} (h : Follows w q) (hcancel : w.cancel t = .ok (w', live)) :
  live = decide (t ∈ q.line.map Prod.fst) ∧
    Follows w' { q with line := q.line.filter fun e => e.1 ≠ t }
  := by
  cases hlive : w.inner.waker t with
  | none =>
    rw [cancel_over hlive] at hcancel
    cases hcancel
    have hout : t ∉ q.line.map Prod.fst := by
      rw [h.mem_line, hlive]
      rintro ⟨v, hv⟩
      cases hv
    refine ⟨(decide_eq_false hout).symm, ?_⟩
    rw [List.filter_eq_self.mpr]
    · exact h
    · intro e he
      apply decide_eq_true
      rintro rfl
      exact hout (List.mem_map_of_mem he)
  | some v =>
    obtain ⟨inner, hcancel', -, horder, hwaker, hends, -⟩ := h.kept.cancel hlive
    have hkept := h.kept.step (.cancel hcancel)
    rw [hcancel] at hcancel'
    cases hcancel'
    obtain ⟨hwaker', -, hslots', -, hnext', hclosed'⟩ := compacted_other inner
    have hsublist : inner.compacted.order.Sublist w.inner.order := by
      rw [← horder]
      exact compacted_sublist
    refine ⟨(decide_eq_true (h.mem_line.mpr ⟨v, hlive⟩)).symm, ?_⟩
    refine h.change hkept hsublist (hnext'.trans hends.generation) ?_
      (hclosed'.trans (hends.closed.trans h.closed)) ?_
    · show inner.compacted.slots.length = _
      rw [hslots', hends.slots]
    · show inner.compacted.order.valued inner.compacted.waker = _
      rw [hwaker', compacted_valued, horder, hwaker, List.valued_update_none, h.line]

theorem Follows.wakeOne {woken : Option Waker} (h : Follows w q)
    (hwake : w.wakeOne = .ok (w', woken)) :
  woken = q.line.head?.map Prod.snd ∧ Follows w' { q with line := q.line.tail }
  := by
  have hkept := h.kept.step (.wakeOne hwake)
  rcases h.kept.wakeOne with ⟨hwake', hnone⟩ | ⟨dead, t, v, rest, inner, horder, hdead, hlive, hwake',
    -, hends, hwaker⟩
  · rw [hwake] at hwake'
    cases hwake'
    have hnil : q.line = [] := by
      rw [List.eq_nil_iff_forall_not_mem]
      intro e he
      obtain ⟨v, hv⟩ := h.mem_line.mp (List.mem_map_of_mem he)
      rw [hnone] at hv
      cases hv
    rw [hnil]
    exact ⟨rfl, h.change hkept (List.nil_sublist _) rfl rfl h.closed rfl⟩
  · rw [hwake] at hwake'
    cases hwake'
    have hsublist : rest.Sublist w.inner.order := by
      rw [horder]
      exact (List.sublist_cons_self t rest).trans (List.sublist_append_right _ _)
    have hnodup := h.nodup
    rw [horder, List.nodup_append] at hnodup
    have hout : t ∉ rest := (List.nodup_cons.mp hnodup.2.1).1
    have hline : q.line = (t, v) :: rest.valued w.inner.waker := by
      rw [← h.line, horder, List.valued_append, List.valued_cons_some hlive]
      have hgone : dead.valued w.inner.waker = [] := by
        rw [List.eq_nil_iff_forall_not_mem]
        intro e he
        obtain ⟨hmem, hv⟩ := List.mem_valued.mp he
        cases (hdead _ hmem).symm.trans hv
      rw [hgone, List.nil_append]
    rw [hline]
    refine ⟨rfl, h.change hkept hsublist hends.generation hends.slots
      (hends.closed.trans h.closed) ?_⟩
    · show rest.valued inner.waker = _
      rw [hwaker, List.valued_update_of_not_mem hout]
      rfl

theorem Follows.close {woken : List Waker} (h : Follows w q) (hclose : w.close = .ok (w', woken)) :
  woken = q.line.map Prod.snd ∧ Follows w' { q with line := [], closed := true }
  := by
  have hkept := h.kept.step (.close hclose)
  obtain ⟨inner, woken', hclose', -, horder, hclosed, hslots, hnext, hwoken⟩ := h.kept.close
  rw [hclose] at hclose'
  cases hclose'
  refine ⟨?_, h.change hkept ?_ hnext hslots hclosed ?_⟩
  · rw [hwoken h.nodup, h.line]
  · show inner.order.Sublist _
    rw [horder]
    exact List.nil_sublist _
  · show inner.order.valued inner.waker = _
    rw [horder, List.valued_nil]

/-! ### Runs -/

/-- The queue answers a call as the line does. -/
theorem Follows.step {e : Call × Reply} (h : Follows w q)
    (hroom : w.inner.nextGeneration + 1 < 2 ^ 64) (hstep : CallStep w e w') :
  ∃ q', Fifo.Step q e q' ∧ Follows w' q' ∧
    w'.inner.nextGeneration ≤ w.inner.nextGeneration + 1
  := by
  cases hstep with
  | park hpark =>
    obtain ⟨q', hq', hfollows, hnext⟩ := h.park hroom hpark
    exact ⟨q', hq', hfollows, hnext.le⟩
  | @refused w' v e hpark =>
    rcases h.kept.park_cases v with ⟨hclosed, hpark'⟩ | ⟨-, -, w₁, ticket, hpark'⟩ | ⟨-, -, hpark'⟩
    · cases hpark.symm.trans hpark'
      exact ⟨q, .refused (h.closed.symm.trans hclosed), h, Nat.le_succ _⟩
    · cases hpark.symm.trans hpark'
    · cases hpark.symm.trans hpark'
  | @overflow v hpark =>
    obtain ⟨hopen, hfull⟩ : w.inner.closed = false ∧ 2 ^ 32 ≤ w.waiting := by
      rcases h.kept.park_cases v with ⟨-, hpark'⟩ | ⟨-, -, w₁, ticket, hpark'⟩ | ⟨hopen, hfull, -⟩
      · cases hpark.symm.trans hpark'
      · cases hpark.symm.trans hpark'
      · exact ⟨hopen, hfull⟩
    have hlength : q.line.length = 2 ^ 32 := by
      have hcount := h.kept.keeps.count
      have hfits := h.kept.keeps.fits
      have hpublished := h.kept.published
      rw [← h.waiting]
      omega
    have hnext : wrappingSucc w.inner.nextGeneration = w.inner.nextGeneration + 1 :=
      Nat.mod_eq_of_lt hroom
    refine ⟨q, .overflow (h.closed.symm.trans hopen) hlength, ⟨⟨h.line, h.waiting, h.closed, h.slots⟩,
      h.kept.step (.overflow hpark), h.sorted, ?_, ?_⟩, hnext.le⟩
    · intro t ht
      exact (Nat.lt_succ_of_lt (h.older t ht)).trans_eq hnext.symm
    · intro t ht
      exact (Nat.lt_succ_of_lt (h.issued t ht)).trans_eq hnext.symm
  | @refresh t v =>
    refine ⟨_, .refresh, h.refresh t v, ?_⟩
    rw [(h.kept.refresh t v).2.2.generation]
    exact Nat.le_succ _
  | cancel hcancel =>
    obtain ⟨rfl, hfollows⟩ := h.cancel hcancel
    obtain ⟨-, hnext, -⟩ := cancel_spec h.kept.keeps.sound hcancel
    exact ⟨_, .cancel, hfollows, hnext.le.trans (Nat.le_succ _)⟩
  | wakeOne hwake =>
    obtain ⟨rfl, hfollows⟩ := h.wakeOne hwake
    have hnext := (wakeOne_wakes h.kept.keeps.sound hwake).generation
    exact ⟨_, .wakeOne, hfollows, hnext.le.trans (Nat.le_succ _)⟩
  | close hclose =>
    obtain ⟨rfl, hfollows⟩ := h.close hclose
    have hnext := (close_wakes h.kept.keeps.sound hclose).generation
    exact ⟨_, .close, hfollows, hnext.le.trans (Nat.le_succ _)⟩

/-- In a run of fewer calls than there are generations the queue follows a line. -/
theorem follows_of_trail {trace : List (Call × Reply)} (h : Trail CallStep new trace w)
    (hbound : trace.length < 2 ^ 64) :
  ∃ q, Trail Fifo.Step Fifo.empty trace q ∧ Follows w q ∧
    w.inner.nextGeneration ≤ trace.length
  := by
  induction h with
  | nil => exact ⟨_, .nil, follows_empty, Nat.le_refl _⟩
  | @snoc trace w w' e htrail hstep ih =>
    rw [List.length_append, List.length_singleton] at hbound ⊢
    obtain ⟨q, hq, hfollows, hnext⟩ := ih (Nat.lt_of_succ_lt hbound)
    obtain ⟨q', hstep', hfollows', hnext'⟩ := hfollows.step (by omega) hstep
    exact ⟨q', hq.snoc hstep', hfollows', by omega⟩

/-- In every run of fewer than `2^64` calls, with whatever tickets, the queue answers as a
line of live registrations does: the line is what the queue holds, its length what the queue
publishes, and its greatest length bounds the slots.  Every further call is answered, and one
with a ticket that is not in the line changes nothing. -/
theorem queue_refines_fifo {trace : List (Call × Reply)} (h : Trail CallStep new trace w)
    (hbound : trace.length < 2 ^ 64) :
  (∃ q, Trail Fifo.Step Fifo.empty trace q ∧ Refines w q ∧
    ∀ t, t ∉ q.line.map Prod.fst →
      (∀ v, w.refresh t v = w) ∧ w.cancel t = .ok (w, false)) ∧
    ∀ call, ∃ reply w', CallStep w (call, reply) w'
  := by
  obtain ⟨q, hq, hfollows, -⟩ := follows_of_trail h hbound
  refine ⟨⟨q, hq, hfollows.toRefines, ?_⟩, hfollows.kept.answers⟩
  intro t ht
  have hover : w.inner.waker t = none := by
    cases hlive : w.inner.waker t with
    | none => rfl
    | some v => exact (ht (hfollows.mem_line.mpr ⟨v, hlive⟩)).elim
  exact ⟨refresh_over hover, cancel_over hover⟩

/-- A ticket whose slot was given out again does not cancel its successor. -/
theorem queue_refines_fifo_recycled :
  ∃ w, Trail CallStep new [(.park 7, .parked ⟨0, 0⟩), (.cancel ⟨0, 0⟩, .cancelled true),
      (.park 8, .parked ⟨0, 1⟩), (.cancel ⟨0, 0⟩, .cancelled false), (.wakeOne, .woken (some 8))] w ∧
    ∃ q, Trail Fifo.Step Fifo.empty [(.park 7, .parked ⟨0, 0⟩), (.cancel ⟨0, 0⟩, .cancelled true),
      (.park 8, .parked ⟨0, 1⟩), (.cancel ⟨0, 0⟩, .cancelled false), (.wakeOne, .woken (some 8))] q ∧
      Refines w q
  := by
  have hfirst : Trail CallStep new [(.park 7, .parked ⟨0, 0⟩)] _ := Trail.nil.snoc (.park rfl)
  have hsecond := (hfirst.snoc (.cancel (t := ⟨0, 0⟩) rfl)).snoc (.park (v := 8) rfl)
  have htrail := (hsecond.snoc (.cancel (t := ⟨0, 0⟩) rfl)).snoc (.wakeOne rfl)
  obtain ⟨⟨q, hq, hrefines, -⟩, -⟩ := queue_refines_fifo htrail (by decide)
  exact ⟨_, htrail, q, hq, hrefines⟩

end Grommet.Waiters
