import Grommet.Runtime.Outstanding.Taken

/-!
# No readiness is lost

A harvest that ends with an empty summary has left only words that a notifier is about to
announce, and that notifier rings after the owner has registered.
-/

open Checked

namespace Grommet.Outstanding

variable {ν : Type} {s s' : System ν}

/-! ### A parked owner -/

/-- A notifier has made a word ready and has not rung. -/
def System.Pending (s : System ν) : Prop :=
  ∃ n, s.stage n = .ringing ∨ ∃ w, s.stage n = .announcing w

/-- What holds while the owner may rely on its registration, and after a harvest that reported
nothing more. -/
structure Watched (watch : Watch) (s : System ν) : Prop where
  closed : s.bell.closed = true → s.phase = .gone
  truncated : ∀ pass part hadWork, s.phase = .restoring pass part false hadWork →
    pass.report.moreReady = true
  owner : watch ≠ .none → s.bell.owner.isSome = true ∧ s.bell.closed = false
  checked : watch ≠ .none → ∀ i report, s.phase = .checking i report →
    ∀ w < s.ready.wordCount, w / WORD_BITS < i → s.ready.words w = 0#64 ∨ s.Pending
  settled : watch = .settled → s.Pending ∨
    (Carried (fun _ bits => bits = 0#64) s ∧ ∀ slot, s.phase ≠ .marking slot)

theorem note_other (watch : Watch) :
  watch.note .other = watch
  := by
  cases watch <;> rfl

theorem note_more {report : Harvest} (watch : Watch) (h : report.moreReady = true) :
  watch.note (.reported report) = watch
  := by
  cases watch with
  | none => rfl
  | registered => exact if_pos h
  | settled => rfl

theorem kept_zero :
  Kept fun _ (bits : Word) => bits = 0#64
  := by
  refine ⟨fun _ => rfl, ?_, ?_⟩
  · rintro w bits mask rfl
    exact BitVec.zero_and
  · rintro w bits bits' rfl rfl
    rfl

section Watching

variable [DecidableEq ν] {watch : Watch} {e : Event}

/-- A notifier that finds its bit clear rings. -/
theorem marked_pending {n : ν} {slot : ℕ}
    (hclear : (s.ready.words (slot / WORD_BITS)).getLsbD (slot % WORD_BITS) = false) :
  ((s.mark slot).setStage n (s.marked slot)).Pending
  := by
  have hlt : slot % WORD_BITS < 64 := Nat.mod_lt _ (by decide)
  have hself : ((s.mark slot).setStage n (s.marked slot)).stage n = s.marked slot :=
    Function.update_self _ _ _
  have hzero : s.ready.words (slot / WORD_BITS) &&& oneBit (slot % WORD_BITS) = 0#64 := by
    have hand := BitVec.and_one_shiftLeft_ne_zero (m := s.ready.words (slot / WORD_BITS)) hlt
    rw [hclear, bne_eq_false_iff_eq] at hand
    exact hand
  refine ⟨n, ?_⟩
  rw [hself, System.marked]
  by_cases hannounces : s.ready.announces (s.ready.words (slot / WORD_BITS)) = true
  · rw [if_pos hannounces]
    exact Or.inr ⟨_, rfl⟩
  · rw [if_neg hannounces, if_pos hzero]
    exact Or.inl rfl

/-- A mark keeps a notifier that has not rung. -/
theorem pending_mark {n : ν} {slot : ℕ} (hstage : s.stage n = .marking slot) (h : s.Pending) :
  ((s.mark slot).setStage n (s.marked slot)).Pending
  := by
  obtain ⟨n', hn'⟩ := h
  have hne : n' ≠ n := by
    rintro rfl
    rw [hstage] at hn'
    rcases hn' with heq | ⟨w, heq⟩ <;> cases heq
  have hsame : ((s.mark slot).setStage n (s.marked slot)).stage n' = s.stage n' :=
    Function.update_of_ne hne _ _
  exact ⟨n', by rw [hsame]; exact hn'⟩

/-- A mark leaves a word empty, or its notifier rings. -/
theorem mark_clear {n : ν} {slot w : ℕ} (hstage : s.stage n = .marking slot)
    (h : s.ready.words w = 0#64 ∨ s.Pending) :
  (s.mark slot).ready.words w = 0#64 ∨ ((s.mark slot).setStage n (s.marked slot)).Pending
  := by
  rcases h with hzero | hpending
  · by_cases heq : w = slot / WORD_BITS
    · right
      apply marked_pending
      rw [← heq, hzero, BitVec.getLsbD_zero]
    · left
      exact (fetchOr_words.trans (if_neg heq)).trans hzero
  · exact Or.inr (pending_mark hstage hpending)

/-- A check of a summary word behind the first one follows another check. -/
theorem checking_of_step {i : ℕ} {report : Harvest} (hstep : Step s e s')
    (hphase : s'.phase = .checking i report) :
  i = 0 ∨ ∃ j report', s.phase = .checking j report'
  := by
  have hscans : s'.phase.Scans → i = 0 ∨ ∃ j report', s.phase = .checking j report' := by
    intro hscans
    rw [hphase] at hscans
    exact Or.inl hscans
  cases hstep with
  | notifyClosed _ _ _ => exact Or.inr ⟨_, _, hphase⟩
  | notify _ _ _ => exact Or.inr ⟨_, _, hphase⟩
  | mark _ => exact Or.inr ⟨_, _, hphase⟩
  | announce _ => exact Or.inr ⟨_, _, hphase⟩
  | ring _ => exact Or.inr ⟨_, _, hphase⟩
  | register _ => exact Or.inr ⟨_, _, hphase⟩
  | pushFull _ _ => exact Or.inr ⟨_, _, hphase⟩
  | pushMark _ =>
    rw [System.setPhase] at hphase
    simp only at hphase
    split at hphase <;> cases hphase
  | @harvest cap _ => exact hscans (begin_scans s cap)
  | takeFirst _ => exact hscans (takeFirst_scans s _)
  | takeSummary _ => exact hscans (takeSummary_scans s _ _)
  | resume _ _ => exact hscans (resume_scans _ _ _)
  | restoreCurrent _ =>
    rcases restoreWord_other.2.2.2.2 with heq | heq <;> cases heq.symm.trans hphase
  | restoreDeferred _ =>
    rcases restoreWord_other.2.2.2.2 with heq | heq <;> cases heq.symm.trans hphase
  | restoreDeferredSummary _ =>
    rw [System.restored, System.setPhase] at hphase
    simp only at hphase
    split at hphase <;> cases hphase
  | check hold _ => exact Or.inr ⟨_, _, hold⟩
  | _ => cases hphase

/-- A step of the owner that the bell and the notifiers do not see. -/
theorem Watched.still {phase : Phase} (h : Watched watch s) (hstep : Step s e s')
    (hnote : watch.note e = watch) (hbell : s'.bell = s.bell) (hstage : s'.stage = s.stage)
    (hphase : s.phase = phase) (hopen : phase ≠ .gone)
    (hchecks : ∀ i report, phase ≠ .checking i report) :
  Watched (watch.note e) s'
  := by
  subst hphase
  have hpending : s.Pending → s'.Pending := by
    rintro ⟨n, hn⟩
    exact ⟨n, by rw [hstage]; exact hn⟩
  rw [hnote]
  refine ⟨?_, fun _ _ _ => truncated_step hstep h.truncated, ?_, ?_, ?_⟩
  · rw [hbell]
    exact fun hclosed => absurd (h.closed hclosed) hopen
  · rw [hbell]
    exact h.owner
  · intro _ i report hphase w _ hlt
    rcases checking_of_step hstep hphase with rfl | ⟨j, report', hold⟩
    · cases hlt
    · exact absurd hold (hchecks j report')
  · intro hsettled
    rcases h.settled hsettled with hwaits | ⟨hcarried, hmarking⟩
    · exact Or.inl (hpending hwaits)
    · right
      constructor
      · refine hcarried.step kept_zero hstep ?_
        rintro slot (⟨n, hn, rfl⟩ | hphase)
        · have hself : ((s.mark slot).setStage n (s.marked slot)).stage n = s.marked slot :=
            Function.update_self _ _ _
          rw [hstage, hn, System.marked] at hself
          split at hself
          · cases hself
          · split at hself <;> cases hself
        · exact absurd hphase (hmarking slot)
      · intro slot hphase
        rcases pushing_step hstep hphase with hold | ⟨rfl, -⟩
        · exact hmarking slot hold
        · rw [hsettled] at hnote
          cases hnote

/-- A notifier moves on without a mark. -/
theorem Watched.setStage {n : ν} {stage : Stage} (h : Watched watch s)
    (hpending : s.Pending → (s.setStage n stage).Pending) :
  Watched watch (s.setStage n stage)
  := by
  refine ⟨h.closed, h.truncated, h.owner, ?_, ?_⟩
  · intro hwatch i report hphase w hw hlt
    exact (h.checked hwatch i report hphase w hw hlt).imp_right hpending
  · intro hsettled
    apply (h.settled hsettled).imp hpending
    rintro ⟨hcarried, hmarking⟩
    exact ⟨⟨hcarried.words, hcarried.guard⟩, hmarking⟩

/-- A notifier finds the set open. -/
theorem Watched.notify {n : ν} {slot : ℕ} (h : Watched watch s) (hstage : s.stage n = .idle) :
  Watched watch (s.setStage n (.marking slot))
  := by
  apply h.setStage
  rintro ⟨n', hn'⟩
  have hne : n' ≠ n := by
    rintro rfl
    rw [hstage] at hn'
    rcases hn' with heq | ⟨w, heq⟩ <;> cases heq
  have hsame : (s.setStage n (.marking slot)).stage n' = s.stage n' :=
    Function.update_of_ne hne _ _
  exact ⟨n', by rw [hsame]; exact hn'⟩

/-- A notifier has announced its word, and will ring. -/
theorem Watched.announce {n : ν} {word : ℕ} (h : Watched watch s) :
  Watched watch ((s.announce word).setStage n .ringing)
  := by
  have hpending : ((s.announce word).setStage n .ringing).Pending :=
    ⟨n, Or.inl (Function.update_self _ _ _)⟩
  exact ⟨h.closed, h.truncated, h.owner, fun _ _ _ _ _ _ _ => Or.inr hpending,
    fun _ => Or.inl hpending⟩

theorem Watched.mark {n : ν} {slot : ℕ} (h : Watched watch s) (hstage : s.stage n = .marking slot) :
  Watched watch ((s.mark slot).setStage n (s.marked slot))
  := by
  refine ⟨h.closed, h.truncated, h.owner, ?_, ?_⟩
  · intro hwatch i report hphase w hw hlt
    exact mark_clear hstage (h.checked hwatch i report hphase w hw hlt)
  · intro hsettled
    left
    rcases h.settled hsettled with hpending | ⟨hcarried, -⟩
    · exact pending_mark hstage hpending
    · apply marked_pending
      rw [hcarried.words, BitVec.getLsbD_zero]

omit [DecidableEq ν] in
theorem ring_closed :
  s.ring.bell.closed = s.bell.closed
  := by
  rw [System.ring, Doorbell.ring]
  cases hclosed : s.bell.closed with
  | true => exact hclosed
  | false => rfl

omit [DecidableEq ν] in
/-- A ring ends what the owner may rely on. -/
theorem Watched.rung (h : Watched watch s) :
  watch.note s.rung = .none
  := by
  rw [System.rung]
  cases hwakes : s.bell.wakes with
  | true =>
    rw [if_pos rfl]
    cases watch <;> rfl
  | false =>
    rw [if_neg Bool.false_ne_true, note_other]
    by_contra hwatch
    obtain ⟨howner, hclosed⟩ := h.owner hwatch
    rw [Doorbell.wakes, howner, hclosed] at hwakes
    cases hwakes

omit [DecidableEq ν] in
/-- Nothing is relied on. -/
theorem watched_none (hclosed : s.bell.closed = true → s.phase = .gone)
    (htruncated : ∀ pass part hadWork, s.phase = .restoring pass part false hadWork →
      pass.report.moreReady = true) :
  Watched .none s
  := by
  refine ⟨hclosed, htruncated, ?_, ?_, ?_⟩
  · intro hnone
    exact absurd rfl hnone
  · intro hnone
    exact absurd rfl hnone
  · intro hsettled
    cases hsettled

omit [DecidableEq ν] in
/-- The bell is rung, by a notifier or by the owner. -/
theorem Watched.ring {t : System ν} (h : Watched watch s) (hbell : t.bell = s.ring.bell)
    (hclosed : s.bell.closed = true → t.phase = .gone)
    (htruncated : ∀ pass part hadWork, t.phase = .restoring pass part false hadWork →
      pass.report.moreReady = true) :
  Watched (watch.note s.rung) t
  := by
  rw [h.rung]
  refine watched_none ?_ htruncated
  rw [hbell, ring_closed]
  exact hclosed

omit [DecidableEq ν] in
/-- The set is dropped. -/
theorem Watched.close :
  Watched (watch.note .close) { s with bell := ⟨none, true⟩, phase := .gone }
  := by
  have hnone : watch.note .close = .none := by
    cases watch <;> rfl
  rw [hnone]
  refine watched_none (fun _ => rfl) ?_
  intro pass part hadWork heq
  cases heq

omit [DecidableEq ν] in
/-- A guard that has put everything back belongs to a panic, or to a harvest that reports more. -/
theorem Watched.restored {pass : Pass} {part : Restore} {wakeOwner hadWork : Bool}
    (h : Watched watch s) (hphase : s.phase = .restoring pass part wakeOwner hadWork) :
  watch.note (if wakeOwner then .other else .reported pass.report) = watch
  := by
  cases wakeOwner with
  | true => exact note_other watch
  | false => exact note_more watch (h.truncated _ _ _ hphase)

section HasReady

variable {r : ReadySet} {i : ℕ}

theorem hasReady_none (h : r.hasReady i = none) :
  1 < r.wordCount ∧ r.summary i &&& r.summaryMask i = 0#64 ∧ i + 1 < r.summaries
  := by
  rw [ReadySet.hasReady] at h
  split at h
  · cases h
  · cases h
  · rename_i _ hzero hone
    have hmany : 1 < r.wordCount := Nat.one_lt_iff_ne_zero_and_ne_one.mpr ⟨hzero, hone⟩
    by_cases hnonzero : r.summary i &&& r.summaryMask i ≠ 0#64
    · rw [if_pos hnonzero] at h
      cases h
    · rw [if_neg hnonzero] at h
      split at h
      · rename_i hlt
        exact ⟨hmany, Decidable.not_not.mp hnonzero, hlt⟩
      · cases h

theorem hasReady_false (h : r.hasReady i = some false) :
  r.wordCount = 0 ∨ (r.wordCount = 1 ∧ r.words 0 &&& r.validMask 0 = 0#64) ∨
    (1 < r.wordCount ∧ r.summary i &&& r.summaryMask i = 0#64 ∧ r.summaries ≤ i + 1)
  := by
  rw [ReadySet.hasReady] at h
  split at h
  · rename_i hcount
    exact Or.inl hcount
  · rename_i hcount
    rw [Option.some_inj, decide_eq_false_iff_not] at h
    exact Or.inr (Or.inl ⟨hcount, Decidable.not_not.mp h⟩)
  · rename_i _ hzero hone
    have hmany : 1 < r.wordCount := Nat.one_lt_iff_ne_zero_and_ne_one.mpr ⟨hzero, hone⟩
    by_cases hnonzero : r.summary i &&& r.summaryMask i ≠ 0#64
    · rw [if_pos hnonzero] at h
      cases h
    · rw [if_neg hnonzero] at h
      split at h
      · cases h
      · rename_i hlast
        exact Or.inr (Or.inr ⟨hmany, Decidable.not_not.mp hnonzero, Nat.not_lt.mp hlast⟩)

end HasReady

omit [DecidableEq ν] in
/-- A summary word without announcements leaves only words that a notifier will ring for. -/
theorem Announced.checked {i w : ℕ} {report : Harvest} (h : Announced s)
    (hphase : s.phase = .checking i report) (hmany : 1 < s.ready.wordCount)
    (hzero : s.ready.summary i &&& s.ready.summaryMask i = 0#64) (hw : w < s.ready.wordCount)
    (hdiv : w / WORD_BITS = i) :
  s.ready.words w = 0#64 ∨ s.Pending
  := by
  by_contra hnone
  obtain ⟨hnonzero, hquiet⟩ := not_or.mp hnone
  have hsummaries : s.ready.summaries ≠ 0 := by
    rw [ReadySet.summaries, if_pos hmany, divCeil, WORD_BITS]
    omega
  rcases h.covered hsummaries w hw hnonzero with hin | ⟨n, hn⟩ | hholds
  · have hbit := takeSummary_bit hw hin
    rw [hdiv, ReadySet.takeSummary, hzero, BitVec.getLsbD_zero] at hbit
    cases hbit
  · exact hquiet ⟨n, Or.inr ⟨w, hn⟩⟩
  · rw [hphase] at hholds
    exact hholds

omit [DecidableEq ν] in
/-- A harvest that reports nothing more leaves only words that a notifier will ring for. -/
theorem Watched.reported {i w : ℕ} {report : Harvest} (h : Watched watch s) (hannounced : Announced s)
    (haddressed : Addressed s) (hwatch : watch ≠ .none) (hphase : s.phase = .checking i report)
    (hready : s.ready.hasReady i = some false) :
  s.ready.words w = 0#64 ∨ s.Pending
  := by
  have hbit : ∀ {j}, (s.ready.words w).getLsbD j = true → w * WORD_BITS + j < s.ready.slots :=
    fun {j} => haddressed.carried.words w j
  by_cases hw : w < s.ready.wordCount
  · rcases hasReady_false hready with hcount | ⟨hcount, hzero⟩ | ⟨hmany, hzero, hlast⟩
    · omega
    · left
      obtain rfl : w = 0 := by omega
      by_contra hnonzero
      obtain ⟨j, hj, hset⟩ := BitVec.exists_getLsbD hnonzero
      have hvalid := getLsbD_validMask hj (hbit hset)
      have hboth := congrArg (fun word => BitVec.getLsbD word j) hzero
      simp only [BitVec.getLsbD_and, hset, hvalid, BitVec.getLsbD_zero] at hboth
      cases hboth
    · by_cases hdiv : w / WORD_BITS = i
      · exact hannounced.checked hphase hmany hzero hw hdiv
      · apply h.checked hwatch i report hphase w hw
        have hsummaries : s.ready.summaries = (s.ready.wordCount + 64 - 1) / 64 := by
          rw [ReadySet.summaries, if_pos hmany]
          rfl
        rw [WORD_BITS] at hdiv ⊢
        omega
  · left
    by_contra hnonzero
    obtain ⟨j, hj, hset⟩ := BitVec.exists_getLsbD hnonzero
    have hslot := hbit hset
    rw [ReadySet.wordCount, divCeil] at hw
    simp only [WORD_BITS] at hslot hw
    omega

omit [DecidableEq ν] in
/-- The owner loads the next summary word. -/
theorem Watched.check {i : ℕ} {report : Harvest} (h : Watched watch s) (hannounced : Announced s)
    (hphase : s.phase = .checking i report) (hready : s.ready.hasReady i = none) :
  Watched watch (s.setPhase (.checking (i + 1) report))
  := by
  obtain ⟨hmany, hzero, -⟩ := hasReady_none hready
  refine ⟨?_, ?_, h.owner, ?_, ?_⟩
  · intro hclosed
    cases hphase.symm.trans (h.closed hclosed)
  · intro pass part hadWork heq
    cases heq
  · intro hwatch j report' heq w hw hlt
    cases heq
    rcases Nat.lt_succ_iff_lt_or_eq.mp hlt with hlt | hdiv
    · exact h.checked hwatch i report hphase w hw hlt
    · exact hannounced.checked hphase hmany hzero hw hdiv
  · intro hsettled
    apply (h.settled hsettled).imp_right
    rintro ⟨hcarried, -⟩
    exact ⟨hcarried.still rfl (fun _ hg => by cases hg), fun _ => Phase.noConfusion⟩

omit [DecidableEq ν] in
/-- A harvest returns. -/
theorem Watched.report {i : ℕ} {report : Harvest} {more : Bool} (h : Watched watch s)
    (hannounced : Announced s) (haddressed : Addressed s) (hphase : s.phase = .checking i report)
    (hready : s.ready.hasReady i = some more) :
  Watched (watch.note (.reported { report with moreReady := more })) (s.setPhase .idle)
  := by
  have hnone : watch.note (.reported { report with moreReady := more }) ≠ .none → watch ≠ .none := by
    rintro hnote rfl
    exact hnote rfl
  refine ⟨?_, ?_, fun hwatch => h.owner (hnone hwatch), ?_, ?_⟩
  · intro hclosed
    cases hphase.symm.trans (h.closed hclosed)
  · intro pass part hadWork heq
    cases heq
  · intro _ j report' heq
    cases heq
  · intro hsettled
    have hwatch : watch ≠ .none := by
      rintro rfl
      cases hsettled
    by_cases hpending : s.Pending
    · exact Or.inl hpending
    · right
      refine ⟨⟨?_, ?_⟩, fun _ => Phase.noConfusion⟩
      · intro w
        cases more with
        | false =>
          exact (h.reported hannounced haddressed hwatch hphase hready).resolve_right hpending
        | true =>
          have hold : watch = .settled := by
            cases watch with
            | none => cases hsettled
            | registered => cases hsettled
            | settled => rfl
          exact ((h.settled hold).resolve_left hpending).1.words w
      · intro g hg
        cases hg

omit [DecidableEq ν] in
/-- The owner registers. -/
theorem Watched.register {waker : Waker} (h : Watched watch s) (hphase : s.phase = .idle) :
  Watched (watch.note (.register waker)) { s with bell := { s.bell with owner := some waker } }
  := by
  have hclosed : s.bell.closed = false := by
    rw [← Bool.not_eq_true]
    intro hclosed
    cases hphase.symm.trans (h.closed hclosed)
  refine ⟨h.closed, h.truncated, fun _ => ⟨rfl, hclosed⟩, ?_, ?_⟩
  · intro _ i report heq
    cases hphase.symm.trans heq
  · intro hsettled
    have hold : watch = .settled := by
      cases watch with
      | none => cases hsettled
      | registered => cases hsettled
      | settled => rfl
    apply (h.settled hold).imp_right
    rintro ⟨hcarried, hmarking⟩
    exact ⟨⟨hcarried.words, hcarried.guard⟩, hmarking⟩

omit [DecidableEq ν] in
/-- The owner stores a future. -/
theorem Watched.push {index : ℕ} {rest : List ℕ} (h : Watched watch s) (hphase : s.phase = .idle) :
  Watched (watch.note .push) (s.insert index rest)
  := by
  refine ⟨?_, ?_, ?_, ?_, ?_⟩
  · intro hclosed
    cases hphase.symm.trans (h.closed hclosed)
  · intro pass part hadWork heq
    cases heq
  · intro hwatch
    apply h.owner
    rintro rfl
    exact hwatch rfl
  · intro _ i report heq
    cases heq
  · intro hsettled
    cases watch <;> cases hsettled

/-- Every step keeps what the owner may rely on. -/
theorem Watched.step (h : Watched watch s) (hannounced : Announced s) (haddressed : Addressed s)
    (hstep : Step s e s') :
  Watched (watch.note e) s'
  := by
  have hstep' := hstep
  cases hstep with
  | notifyClosed _ _ _ =>
    rw [note_other]
    exact h
  | notify hstage _ _ =>
    rw [note_other]
    exact h.notify hstage
  | mark hstage =>
    rw [note_other]
    exact h.mark hstage
  | announce _ =>
    rw [note_other]
    exact h.announce
  | ring _ => exact h.ring rfl h.closed h.truncated
  | register hphase => exact h.register hphase
  | push hphase _ => exact h.push hphase
  | pushFull _ _ =>
    rw [note_other]
    exact h
  | pushMark hphase | pushAnnounce hphase | harvest hphase =>
    exact h.still hstep' (note_other _) rfl rfl hphase nofun nofun
  | takeSingle hphase | takeFirst hphase | takeStart hphase | takeSummary hphase
  | takeWord hphase =>
    exact h.still hstep' (note_other _) rfl rfl hphase nofun nofun
  | resume hphase _ => exact h.still hstep' (note_other _) rfl rfl hphase nofun nofun
  | skip hphase _ _ => exact h.still hstep' (note_other _) rfl rfl hphase nofun nofun
  | stale hphase _ _ _ => exact h.still hstep' (note_other _) rfl rfl hphase nofun nofun
  | truncate hphase _ _ _ _ | pending hphase _ _ _ _ | finished hphase _ _ _ _ =>
    exact h.still hstep' (note_other _) rfl rfl hphase nofun nofun
  | pollPanics hphase _ _ _ _ | outPanics hphase _ _ _ _ =>
    exact h.still hstep' (note_other _) rfl rfl hphase nofun nofun
  | restoreCurrent hphase | restoreDeferred hphase =>
    exact h.still hstep' (note_other _) restoreWord_other.2.2.2.1 restoreWord_other.2.2.1 hphase
      nofun nofun
  | announceCurrent hphase | announceDeferred hphase | restoreSummary hphase =>
    exact h.still hstep' (note_other _) rfl rfl hphase nofun nofun
  | restoreDeferredSummary hphase =>
    exact h.still hstep' (h.restored hphase) rfl rfl hphase nofun nofun
  | restoreRing hphase =>
    refine h.ring rfl (fun hclosed => ?_) (fun _ _ _ heq => nomatch heq)
    cases hphase.symm.trans (h.closed hclosed)
  | check hphase hready =>
    rw [note_other]
    exact h.check hannounced hphase hready
  | report hphase hready => exact h.report hannounced haddressed hphase hready
  | close _ => exact Watched.close

end Watching

/-! ### Runs -/

section Runs

variable [DecidableEq ν] {capacity : ℕ} {s₀ : System ν} {trace : List Event}

theorem watch_snoc {e : Event} :
  watch (trace ++ [e]) = (watch trace).note e
  := by
  rw [watch, List.foldl_append]
  rfl

omit [DecidableEq ν] in
theorem start_inv (hnew : System.withCapacity capacity = .ok s₀) :
  Announced s₀ ∧ Addressed s₀ ∧ Watched .none s₀
  := by
  rw [System.withCapacity, bind_eq_ok] at hnew
  obtain ⟨ready, hready, hnew⟩ := hnew
  rw [ReadySet.new, bind_eq_ok] at hready
  obtain ⟨-, -, hready⟩ := hready
  cases hready
  cases hnew
  refine ⟨⟨trivial, ?_⟩, ⟨⟨?_, ?_⟩, ?_, ?_, ?_⟩, watched_none ?_ ?_⟩
  · intro _ w _ hnonzero
    exact absurd rfl hnonzero
  · exact (kept_address capacity).zero
  · intro g hg
    cases hg
  · intro n slot hn
    cases hn
  · intro slot hphase
    cases hphase
  · intro i hi
    exact List.mem_range.mp hi
  · intro hclosed
    cases hclosed
  · intro pass part hadWork heq
    cases heq

/-- No readiness is lost: when the owner has registered and has not been woken since, a harvest
has then reported nothing more, with no push after it, and no notifier is at work, then every
ready word is empty. -/
theorem parked_owner_has_no_ready_word (hnew : System.withCapacity capacity = .ok s₀)
    (hrun : Trail Step s₀ trace s) (hwatch : watch trace = .settled)
    (hquiet : ∀ n, s.stage n = .idle) (w : ℕ) :
  s.ready.words w = 0#64
  := by
  have hstart : Announced s₀ ∧ Addressed s₀ ∧ Watched .none s₀ := start_inv hnew
  have hinv : Announced s ∧ Addressed s ∧ Watched (watch trace) s := by
    apply hrun.invariant (fun trace s => Announced s ∧ Addressed s ∧ Watched (watch trace) s) hstart
    rintro trace s₁ e s₂ _ ⟨hannounced, haddressed, hwatched⟩ hstep
    rw [watch_snoc]
    exact ⟨hannounced.step hstep, haddressed.step hstep, hwatched.step hannounced haddressed hstep⟩
  rcases hinv.2.2.settled hwatch with ⟨n, hn⟩ | ⟨hcarried, -⟩
  · rw [hquiet n] at hn
    rcases hn with heq | ⟨w, heq⟩ <;> cases heq
  · exact hcarried.words w

/-- Two words become ready: a future is pushed into the first, a slot waker marks it too, and
another one marks the second and wakes the owner.  The owner registers again, and the harvest
that follows visits both words. -/
theorem parked_owner_has_no_ready_word_harvested :
  ∃ (trace : List Event) (s₀ s : System Bool), System.withCapacity 70 = .ok s₀ ∧
    Trail Step s₀ trace s ∧ watch trace = .settled ∧ (∀ n, s.stage n = .idle) ∧
    .woken ∈ trace ∧ .reported ⟨1, 0, false⟩ ∈ trace ∧ s.cursor = 66 ∧ ∀ w, s.ready.words w = 0#64
  := by
  have hpush : Trail Step (⟨⟨fun _ => 0#64, fun _ => 0#64, 70⟩, ⟨none, false⟩, fun _ => false,
      List.range 70, 0, 0, .idle, fun _ => .idle⟩ : System Bool) _ _ :=
    Trail.nil.snoc (Step.push rfl rfl)
  have hpushMark := hpush.snoc (Step.pushMark rfl)
  have hpushed := hpushMark.snoc (Step.pushAnnounce rfl)
  have hnotify := hpushed.snoc (Step.notify (n := true) rfl (show 1 < 70 by decide) rfl)
  have hnotifyToo := hnotify.snoc (Step.notify (n := false) rfl (show 65 < 70 by decide) rfl)
  have hmark := hnotifyToo.snoc (Step.mark (n := true) rfl)
  have hmarkToo := hmark.snoc (Step.mark (n := false) rfl)
  have hring := hmarkToo.snoc (Step.ring (n := true) rfl)
  have hregister := hring.snoc (Step.register (show _ = Phase.idle from rfl) :
    Step _ (.register 7) _)
  have hannounce := hregister.snoc (Step.announce (n := false) rfl)
  have hwake := hannounce.snoc (Step.ring (n := false) rfl)
  have hagain := hwake.snoc (Step.register (show _ = Phase.idle from rfl) :
    Step _ (.register 8) _)
  have hharvest := hagain.snoc (Step.harvest (show _ = Phase.idle from rfl) :
    Step _ .other (System.setPhase _ (System.begin _ 4)))
  have htakeFirst := hharvest.snoc (Step.takeFirst rfl)
  have htakeStart := htakeFirst.snoc (Step.takeStart rfl)
  have hpending := htakeStart.snoc (Step.pending rfl (by decide +kernel) (by decide +kernel)
    (by decide +kernel) (by decide +kernel))
  have hstale := hpending.snoc (Step.stale rfl (by decide +kernel) (by decide +kernel)
    (by decide +kernel))
  have hresume := hstale.snoc (Step.resume rfl (by decide +kernel))
  have htakeWord := hresume.snoc (Step.takeWord rfl)
  have hstaleToo := htakeWord.snoc (Step.stale rfl (by decide +kernel) (by decide +kernel)
    (by decide +kernel))
  have hrotated := hstaleToo.snoc (Step.resume rfl (by decide +kernel))
  have hlast := hrotated.snoc (Step.resume rfl (by decide +kernel))
  have hreport := hlast.snoc (Step.report rfl rfl)
  have hnew : System.withCapacity 70 = .ok (⟨⟨fun _ => 0#64, fun _ => 0#64, 70⟩, ⟨none, false⟩,
      fun _ => false, List.range 70, 0, 0, .idle, fun _ => .idle⟩ : System Bool) := rfl
  exact ⟨_, _, _, hnew, hreport, rfl, fun n => by cases n <;> rfl, by decide +kernel, by decide +kernel,
    by decide +kernel,
    parked_owner_has_no_ready_word hnew hreport rfl (fun n => by cases n <;> rfl)⟩

end Runs

end Grommet.Outstanding
