import Grommet.Runtime.Outstanding.Course
import Mathlib.Algebra.Ring.Nat
import Mathlib.Data.Prod.Lex
import Mathlib.Order.WellFounded

/-!
# Harvests return

What the owner does in a harvest is bounded by the turns of the rotation that are left, then by
the announcements in its hand, and then by the bits in its hand.  So a harvest comes to its end
whatever the futures answer, and unless one of them panics it returns.
-/

namespace Grommet.Outstanding

/-- How many turns a rotation still takes. -/
def Next.left (summaries : ℕ) : Next → ℕ
  | .single => 2
  | .rotate step => summaries - step + 3
  | .wrap => 2
  | .last => 1

/-- How much of a restoration is left. -/
def Restore.left : Restore → ℕ
  | .current => 7
  | .announceCurrent => 6
  | .deferred => 5
  | .announceDeferred => 4
  | .summary => 3
  | .deferredSummary => 2
  | .ring => 1

/-- How much the owner has still to do: the turns, and what is left of the current one. -/
def Phase.rank (summaries : ℕ) : Phase → ℕ ×ₗ ℕ
  | .idle => toLex (0, 0)
  | .marking _ => toLex (0, 2)
  | .announcing _ => toLex (0, 1)
  | .taking _ => toLex (3, 0)
  | .takingSummary _ step => toLex (summaries - step + 4, 0)
  | .takingStart pass =>
      toLex (summaries + 3, pass.guard.summary.toNat * 2 ^ 65 + 2 ^ 64 + 1)
  | .takingWord pass _ next =>
      toLex (next.left summaries, pass.guard.summary.toNat * 2 ^ 65 + 2 ^ 64 + 1)
  | .polling pass next =>
      toLex (next.left summaries,
        pass.guard.summary.toNat * 2 ^ 65 + pass.guard.currentBits.toNat + 1)
  | .restoring _ part _ _ => toLex (0, part.left)
  | .checking summary _ => toLex (0, summaries - summary + 1)
  | .gone => toLex (0, 0)

section Ranks

variable {p : Pass} {n a b c d : ℕ} {next : Next} {bits : Word}

theorem rank_left (h : a < c) :
  toLex (a, b) < toLex (c, d)
  := Prod.Lex.toLex_lt_toLex.mpr (Or.inl h)

theorem rank_right (h : b < d) :
  toLex (a, b) < toLex (a, d)
  := Prod.Lex.toLex_lt_toLex.mpr (Or.inr ⟨rfl, h⟩)

theorem Next.left_pos :
  0 < next.left n
  := by
  cases next <;> simp [Next.left]

/-- A word with fewer bits is less. -/
theorem and_lt {mask : Word} {b : ℕ} (hbit : bits.getLsbD b = true)
    (hclear : (bits &&& mask).getLsbD b = false) :
  (bits &&& mask).toNat < bits.toNat
  := by
  refine lt_of_le_of_ne ?_ ?_
  · rw [BitVec.toNat_and]
    exact Nat.and_le_left
  · intro heq
    rw [BitVec.eq_of_toNat_eq heq, hbit] at hclear
    cases hclear

theorem visited_rank (report : Harvest) (hbits : p.guard.currentBits ≠ 0#64) :
  (Phase.polling { p.visited with report := report } next).rank n < (Phase.polling p next).rank n
  := by
  have hset := (trailingZeros_spec hbits).1
  have hclear : p.visited.guard.currentBits.getLsbD (trailingZeros p.guard.currentBits) = false := by
    rw [← Bool.not_eq_true, visited_bit]
    exact fun h => h.2 rfl
  have hlt : p.visited.guard.currentBits.toNat < p.guard.currentBits.toNat := and_lt hset hclear
  apply rank_right
  show p.guard.summary.toNat * 2 ^ 65 + p.visited.guard.currentBits.toNat + 1 < _
  omega

/-- The next announced word is taken from those in hand. -/
theorem nextAnnounced_rank {g : Guard} {word : ℕ} (hnext : p.guard.nextAnnounced = some (word, g)) :
  (Phase.takingWord (p.setGuard g) word next).rank n <
    toLex (next.left n, p.guard.summary.toNat * 2 ^ 65 + 1)
  := by
  obtain ⟨hne, -, rfl⟩ := nextAnnounced_spec hnext
  have hset := (trailingZeros_spec hne).1
  have hclear : (p.guard.summary &&& (p.guard.summary - 1#64)).getLsbD
      (trailingZeros p.guard.summary) = false := by
    rw [← Bool.not_eq_true, BitVec.getLsbD_and_sub_one_iff]
    exact fun h => h.2 rfl
  have hlt := and_lt hset hclear
  apply rank_right
  show (p.guard.summary &&& (p.guard.summary - 1#64)).toNat * 2 ^ 65 + 2 ^ 64 + 1 < _
  omega

theorem wrapUp_rank (h : 2 < a) :
  p.wrapUp.rank n < toLex (a, b)
  := by
  rw [Pass.wrapUp]
  split
  · exact rank_left h
  · exact rank_left (show 1 < a by omega)

/-- The harvest goes on with what it has in hand, or with a later turn. -/
theorem resume_rank (p : Pass) (n : ℕ) (next : Next) :
  (p.resume n next).rank n < toLex (next.left n, p.guard.summary.toNat * 2 ^ 65 + 1)
  := by
  cases next with
  | single => exact rank_left (show 1 < 2 by omega)
  | rotate step =>
    rw [Pass.resume]
    cases hnext : p.guard.nextAnnounced with
    | some found => exact nextAnnounced_rank hnext
    | none =>
      simp only
      split
      · have hleft : n - (step + 1) + 4 = (Next.rotate step).left n := by
          rw [Next.left]
          omega
        rw [Phase.rank, hleft]
        exact rank_right (by omega)
      · exact wrapUp_rank (show 2 < n - step + 3 by omega)
  | wrap =>
    show p.wrapUp.rank n < _
    rw [Pass.wrapUp]
    cases hnext : p.guard.nextAnnounced with
    | some found => exact nextAnnounced_rank hnext
    | none => exact rank_left (show 1 < 2 by omega)
  | last => exact rank_left (show 0 < 1 by omega)

theorem polling_rank :
  toLex (next.left n, p.guard.summary.toNat * 2 ^ 65 + 1) ≤ (Phase.polling p next).rank n
  := by
  apply Prod.Lex.toLex_le_toLex.mpr
  exact Or.inr ⟨rfl, by omega⟩

end Ranks

variable {ν : Type} {s s' : System ν} {e : Event} {p : Pass} {next : Next} {n : ℕ}

theorem takeFirst_rank (hphase : s.phase = .takingSummary p 0) :
  (s.takeFirst p).phase.rank s.ready.summaries < s.phase.rank s.ready.summaries
  := by
  rw [hphase, System.takeFirst]
  simp only
  split
  · exact rank_left (show s.ready.summaries + 3 < s.ready.summaries - 0 + 4 by omega)
  · apply (resume_rank _ _ _).trans
    exact rank_left (show s.ready.summaries - 0 + 3 < s.ready.summaries - 0 + 4 by omega)

theorem takeSummary_rank {step : ℕ} (hphase : s.phase = .takingSummary p step) :
  (s.takeSummary p step).phase.rank s.ready.summaries < s.phase.rank s.ready.summaries
  := by
  rw [hphase, System.takeSummary]
  simp only
  apply (resume_rank _ _ _).trans
  exact rank_left (show s.ready.summaries - step + 3 < s.ready.summaries - step + 4 by omega)

theorem takeStart_rank {word : ℕ} (hphase : s.phase = .takingStart p) :
  (s.takeSplit p word (.rotate 0)).phase.rank s.ready.summaries < s.phase.rank s.ready.summaries
  := by
  rw [hphase]
  apply rank_right
  show p.guard.summary.toNat * 2 ^ 65 + BitVec.toNat _ + 1 <
    p.guard.summary.toNat * 2 ^ 65 + 2 ^ 64 + 1
  have hlt := BitVec.isLt ((s.ready.takeWord word).2 &&& ~~~lowMask p.startBit)
  omega

theorem takeWord_rank {word : ℕ} (hphase : s.phase = .takingWord p word next) :
  (s.takeWord p word next).phase.rank s.ready.summaries < s.phase.rank s.ready.summaries
  := by
  rw [hphase]
  apply rank_right
  show p.guard.summary.toNat * 2 ^ 65 + BitVec.toNat _ + 1 <
    p.guard.summary.toNat * 2 ^ 65 + 2 ^ 64 + 1
  have hlt := BitVec.isLt (s.ready.takeWord word).2
  omega

theorem restoreWord_rank {word a : ℕ} {bits : Word} {announce next : Phase}
    (hannounce : announce.rank a < s.phase.rank a) (hnext : next.rank a < s.phase.rank a) :
  (s.restoreWord word bits announce next).phase.rank a < s.phase.rank a
  := by
  rcases restoreWord_phase s word bits announce next with hphase | hphase <;> rw [hphase]
  · exact hannounce
  · exact hnext

theorem visits_rank (n : ℕ) (report : Harvest) (hphase : s.phase = .polling p next)
    (hbits : p.guard.currentBits ≠ 0#64) :
  (Phase.polling { p.visited with report := report } next).rank n < s.phase.rank n
  := by
  rw [hphase]
  exact visited_rank report hbits

theorem restores_rank {p' : Pass} {wakeOwner hadWork : Bool} (hphase : s.phase = .polling p next) :
  (Phase.restoring p' .current wakeOwner hadWork).rank n < s.phase.rank n
  := by
  rw [hphase]
  exact rank_left Next.left_pos

theorem part_rank {part part' : Restore} {wakeOwner hadWork : Bool}
    (hphase : s.phase = .restoring p part wakeOwner hadWork) (hlt : part'.left < part.left) :
  (Phase.restoring p part' wakeOwner hadWork).rank n < s.phase.rank n
  := by
  rw [hphase]
  exact rank_right hlt

theorem idle_rank {phase : Phase} {a : ℕ} (hphase : s.phase = phase)
    (hrank : phase.rank n = toLex (0, a + 1)) :
  Phase.idle.rank n < s.phase.rank n
  := by
  rw [hphase, hrank]
  exact rank_right (Nat.succ_pos a)

theorem resumes_rank (hphase : s.phase = .polling p next) :
  (p.resume n next).rank n < s.phase.rank n
  := by
  rw [hphase]
  exact (resume_rank _ _ _).trans_le polling_rank

theorem takeSingle_rank {word : ℕ} (hphase : s.phase = .taking p) :
  (s.takeSplit p word .single).phase.rank n < s.phase.rank n
  := by
  rw [hphase]
  exact rank_left (show 2 < 3 by omega)

theorem check_rank {i : ℕ} {report : Harvest} (hphase : s.phase = .checking i report)
    (hnone : s.ready.hasReady i = none) :
  (Phase.checking (i + 1) report).rank s.ready.summaries < s.phase.rank s.ready.summaries
  := by
  obtain ⟨-, -, hlt⟩ := hasReady_none hnone
  rw [hphase]
  exact rank_right (by omega)

theorem restored_rank {wakeOwner hadWork : Bool}
    (hphase : s.phase = .restoring p .deferredSummary wakeOwner hadWork) :
  (s.restored p wakeOwner hadWork).phase.rank n < s.phase.rank n
  := by
  show Phase.rank _ (if _ then _ else _) < _
  split
  · exact part_rank hphase (by decide)
  · exact idle_rank hphase rfl

/-- Every step of a busy owner leaves it less to do. -/
theorem rank_step [DecidableEq ν] (hbusy : s.phase ≠ .idle) (hstep : Step s e s') :
  s'.phase = s.phase ∨ s'.phase.rank s.ready.summaries < s.phase.rank s.ready.summaries
  := by
  cases hstep with
  | notifyClosed _ _ _ => exact Or.inl rfl
  | notify _ _ _ => exact Or.inl rfl
  | mark _ => exact Or.inl rfl
  | announce _ => exact Or.inl rfl
  | ring _ => exact Or.inl rfl
  | register hphase => exact (hbusy hphase).elim
  | push hphase _ => exact (hbusy hphase).elim
  | pushFull hphase _ => exact (hbusy hphase).elim
  | pushMark hphase =>
    right
    rw [hphase]
    show Phase.rank _ (if _ then _ else _) < _
    split
    · exact rank_right (Nat.lt_succ_self 1)
    · exact rank_right (Nat.succ_pos 1)
  | pushAnnounce hphase => exact Or.inr (idle_rank hphase rfl)
  | harvest hphase => exact (hbusy hphase).elim
  | takeSingle hphase => exact Or.inr (takeSingle_rank hphase)
  | takeFirst hphase => exact Or.inr (takeFirst_rank hphase)
  | takeStart hphase => exact Or.inr (takeStart_rank hphase)
  | takeSummary hphase => exact Or.inr (takeSummary_rank hphase)
  | takeWord hphase => exact Or.inr (takeWord_rank hphase)
  | resume hphase _ => exact Or.inr (resumes_rank hphase)
  | skip hphase hbits _ => exact Or.inr (visits_rank _ _ hphase hbits)
  | stale hphase hbits _ _ => exact Or.inr (visits_rank _ _ hphase hbits)
  | truncate hphase _ _ _ _ => exact Or.inr (restores_rank hphase)
  | @pending p next hphase hbits _ _ _ => exact Or.inr (visits_rank _ p.polled.report hphase hbits)
  | @finished p next hphase hbits _ _ _ =>
    have hlt := visits_rank s.ready.summaries p.polled.finished.report hphase hbits
    exact Or.inr hlt
  | pollPanics hphase _ _ _ _ => exact Or.inr (restores_rank hphase)
  | outPanics hphase _ _ _ _ => exact Or.inr (restores_rank hphase)
  | restoreCurrent hphase =>
    exact Or.inr (restoreWord_rank (part_rank hphase (by decide)) (part_rank hphase (by decide)))
  | announceCurrent hphase => exact Or.inr (part_rank hphase (by decide))
  | restoreDeferred hphase =>
    exact Or.inr (restoreWord_rank (part_rank hphase (by decide)) (part_rank hphase (by decide)))
  | announceDeferred hphase => exact Or.inr (part_rank hphase (by decide))
  | restoreSummary hphase => exact Or.inr (part_rank hphase (by decide))
  | restoreDeferredSummary hphase => exact Or.inr (restored_rank hphase)
  | restoreRing hphase => exact Or.inr (idle_rank hphase rfl)
  | check hphase hnone => exact Or.inr (check_rank hphase hnone)
  | report hphase _ => exact Or.inr (idle_rank hphase rfl)
  | close hphase => exact (hbusy hphase).elim

/-! ### Runs of the owner -/

variable [DecidableEq ν] {d : Deed} {deeds : List Deed}

/-- The owner takes a step, in a harvest or in a push. -/
def Owns (s : System ν) (d : Deed) (s' : System ν) : Prop :=
  s.phase ≠ .idle ∧ s'.phase ≠ s.phase ∧ ∃ e, Step s e s' ∧ deed s e s' = d

theorem Owns.rank (h : Owns s d s') :
  s'.phase.rank s'.ready.summaries < s.phase.rank s.ready.summaries
  := by
  obtain ⟨hbusy, hmoves, e, hstep, -⟩ := h
  have hsummaries : s'.ready.summaries = s.ready.summaries := by
    rw [ReadySet.summaries, ReadySet.summaries, ReadySet.wordCount, ReadySet.wordCount,
      slots_step hstep]
  rw [hsummaries]
  exact (rank_step hbusy hstep).resolve_left hmoves

/-- The owner cannot take steps for ever. -/
theorem no_endless_run (f : ℕ → System ν) :
  ¬ ∀ k, ∃ d, Owns (f k) d (f (k + 1))
  := by
  intro h
  have hwf : WellFounded fun a b : ℕ ×ₗ ℕ => a < b := wellFounded_lt
  apply (wellFounded_iff_isEmpty_descending_chain.mp hwf).false
  refine ⟨fun k => (f k).phase.rank (f k).ready.summaries, fun k => ?_⟩
  obtain ⟨d, howns⟩ := h k
  exact howns.rank

/-- The owner is in a harvest that does not unwind. -/
def Phase.Harvests : Phase → Prop
  | .taking _ => True
  | .takingSummary _ _ => True
  | .takingStart _ => True
  | .takingWord _ _ _ => True
  | .polling _ _ => True
  | .restoring _ part wakeOwner _ => wakeOwner = false ∧ part ≠ .ring
  | .checking _ _ => True
  | _ => False

theorem Phase.Scans.harvests {phase : Phase} (h : phase.Scans) :
  phase.Harvests
  := by
  cases phase with
  | idle => exact h.elim
  | marking slot => exact h.elim
  | announcing word => exact h.elim
  | restoring pass part wakeOwner hadWork => exact h.elim
  | gone => exact h.elim
  | _ => trivial

/-- Unless a future panics, a harvest goes on or returns. -/
theorem harvest_goes_on (h : s.phase.Harvests) :
  ∃ e s', Step s e s' ∧ s'.phase.rank s.ready.summaries < s.phase.rank s.ready.summaries ∧
    (s'.phase.Harvests ∨ ∃ report, e = .reported report)
  := by
  have hpart : ∀ {p part part' wakeOwner hadWork}, s.phase = .restoring p part wakeOwner hadWork →
      part' ≠ .ring → (Phase.restoring p part' wakeOwner hadWork).Harvests := by
    intro p part part' wakeOwner hadWork hphase hne
    rw [hphase] at h
    exact ⟨h.1, hne⟩
  have hword : ∀ {p part part₁ part₂ wakeOwner hadWork word bits},
      s.phase = .restoring p part wakeOwner hadWork → part₁ ≠ .ring → part₂ ≠ .ring →
      (s.restoreWord word bits (.restoring p part₁ wakeOwner hadWork)
        (.restoring p part₂ wakeOwner hadWork)).phase.Harvests := by
    intro p part part₁ part₂ wakeOwner hadWork word bits hphase h₁ h₂
    rcases restoreWord_phase s word bits _ _ with heq | heq <;> rw [heq]
    · exact hpart hphase h₁
    · exact hpart hphase h₂
  cases hphase : s.phase with
  | idle => rw [hphase] at h; exact h.elim
  | marking slot => rw [hphase] at h; exact h.elim
  | announcing word => rw [hphase] at h; exact h.elim
  | gone => rw [hphase] at h; exact h.elim
  | taking p =>
    rw [← hphase]
    exact ⟨_, _, .takeSingle hphase, takeSingle_rank hphase, Or.inl trivial⟩
  | takingSummary p step =>
    rw [← hphase]
    cases step with
    | zero =>
      exact ⟨_, _, .takeFirst hphase, takeFirst_rank hphase, Or.inl (takeFirst_scans s p).harvests⟩
    | succ step =>
      exact ⟨_, _, .takeSummary hphase, takeSummary_rank hphase,
        Or.inl (takeSummary_scans s p _).harvests⟩
  | takingStart p =>
    rw [← hphase]
    exact ⟨_, _, .takeStart hphase, takeStart_rank hphase, Or.inl trivial⟩
  | takingWord p word next =>
    rw [← hphase]
    exact ⟨_, _, .takeWord hphase, takeWord_rank hphase, Or.inl trivial⟩
  | polling p next =>
    rw [← hphase]
    by_cases hbits : p.guard.currentBits = 0#64
    · exact ⟨_, _, .resume hphase hbits, resumes_rank hphase, Or.inl (resume_scans _ _ _).harvests⟩
    by_cases hindex : p.index < s.capacity
    · cases hoccupied : s.occupied p.index with
      | false =>
        exact ⟨_, _, .stale hphase hbits hindex hoccupied, visits_rank _ _ hphase hbits,
          Or.inl trivial⟩
      | true =>
        by_cases hcap : p.report.polled = p.cap
        · exact ⟨_, _, .truncate hphase hbits hindex hoccupied hcap, restores_rank hphase,
            Or.inl ⟨rfl, nofun⟩⟩
        · exact ⟨_, _, .pending hphase hbits hindex hoccupied hcap,
            visits_rank _ p.polled.report hphase hbits, Or.inl trivial⟩
    · exact ⟨_, _, .skip hphase hbits (Nat.not_lt.mp hindex), visits_rank _ _ hphase hbits,
        Or.inl trivial⟩
  | restoring p part wakeOwner hadWork =>
    rw [← hphase]
    cases part with
    | current =>
      exact ⟨_, _, .restoreCurrent hphase,
        restoreWord_rank (part_rank hphase (by decide)) (part_rank hphase (by decide)),
        Or.inl (hword hphase nofun nofun)⟩
    | announceCurrent =>
      exact ⟨_, _, .announceCurrent hphase, part_rank hphase (by decide),
        Or.inl (hpart hphase nofun)⟩
    | deferred =>
      exact ⟨_, _, .restoreDeferred hphase,
        restoreWord_rank (part_rank hphase (by decide)) (part_rank hphase (by decide)),
        Or.inl (hword hphase nofun nofun)⟩
    | announceDeferred =>
      exact ⟨_, _, .announceDeferred hphase, part_rank hphase (by decide),
        Or.inl (hpart hphase nofun)⟩
    | summary =>
      exact ⟨_, _, .restoreSummary hphase, part_rank hphase (by decide),
        Or.inl (hpart hphase nofun)⟩
    | deferredSummary =>
      have hreturns : wakeOwner = false := by
        rw [hphase] at h
        exact h.1
      refine ⟨_, _, .restoreDeferredSummary hphase, restored_rank hphase, Or.inr ⟨p.report, ?_⟩⟩
      rw [hreturns]
      rfl
    | ring =>
      rw [hphase] at h
      exact absurd rfl h.2
  | checking i report =>
    rw [← hphase]
    cases hready : s.ready.hasReady i with
    | none => exact ⟨_, _, .check hphase hready, check_rank hphase hready, Or.inl trivial⟩
    | some more =>
      exact ⟨_, _, .report hphase hready, idle_rank hphase rfl, Or.inr ⟨_, rfl⟩⟩

/-- A harvest in which no future panics returns. -/
theorem harvest_returns (h : s.phase.Harvests) :
  ∃ deeds report s', Trail Owns s (deeds ++ [.returned report]) s'
  := by
  generalize hrank : s.phase.rank s.ready.summaries = rank
  induction rank using WellFoundedLT.induction generalizing s with
  | ind rank ih =>
    have hbusy : s.phase ≠ .idle := by
      intro hidle
      rw [hidle] at h
      exact h
    obtain ⟨e, s₁, hstep, hlt, hnext⟩ := harvest_goes_on h
    have howns : Owns s (deed s e s₁) s₁ := by
      refine ⟨hbusy, fun heq => ?_, e, hstep, rfl⟩
      rw [heq] at hlt
      exact lt_irrefl _ hlt
    rcases hnext with hharvests | ⟨report, rfl⟩
    · obtain ⟨deeds, report, s₂, htrail⟩ := ih _ (hrank ▸ howns.rank) hharvests rfl
      exact ⟨_ :: deeds, report, s₂, (Trail.nil.snoc howns).trans htrail⟩
    · exact ⟨[], report, s₁, Trail.nil.snoc howns⟩

end Grommet.Outstanding
