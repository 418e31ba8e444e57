import Grommet.Runtime.Outstanding.Announced

/-!
# The bits that the owner has taken

A step moves bits between the words and the owner, and sets only those that it marks.  So a
property of the bits of a word that holds of no bits, of fewer bits and of both stays with them,
and every bit names a slot.
-/

open Checked

namespace Grommet.Outstanding

variable {ν : Type} {s s' : System ν}

/-! ### Taken bits -/

/-- The guard of a harvest under way. -/
def Phase.guard : Phase → Option Guard
  | .taking pass => some pass.guard
  | .takingSummary pass _ => some pass.guard
  | .takingStart pass => some pass.guard
  | .takingWord pass _ _ => some pass.guard
  | .polling pass _ => some pass.guard
  | .restoring pass _ _ _ => some pass.guard
  | _ => none

/-- A property of the bits of a word that holds of no bits, of fewer bits and of both. -/
structure Kept (Q : ℕ → Word → Prop) : Prop where
  zero : ∀ w, Q w 0#64
  and : ∀ w bits mask, Q w bits → Q w (bits &&& mask)
  or : ∀ w bits bits', Q w bits → Q w bits' → Q w (bits ||| bits')

def Guard.Carries (Q : ℕ → Word → Prop) (g : Guard) : Prop :=
  Q g.currentWord g.currentBits ∧ Q g.deferredWord g.deferredBits

/-- The property holds of the bits in the words, and of the bits that the owner has taken. -/
structure Carried (Q : ℕ → Word → Prop) (s : System ν) : Prop where
  words : ∀ w, Q w (s.ready.words w)
  guard : ∀ g, s.phase.guard = some g → g.Carries Q

section Carrying

variable {Q : ℕ → Word → Prop} {pass : Pass} {g g' : Guard} {n word : ℕ} {next : Next}

theorem nextAnnounced_carries (h : g.Carries Q) (hnext : g.nextAnnounced = some (word, g')) :
  g'.Carries Q
  := by
  rw [Guard.nextAnnounced] at hnext
  split at hnext
  · cases hnext
  · cases hnext
    exact h

theorem wrapUp_carries (hQ : Kept Q) (h : pass.guard.Carries Q) (hg : pass.wrapUp.guard = some g) :
  g.Carries Q
  := by
  rw [Pass.wrapUp] at hg
  cases hnext : pass.guard.nextAnnounced with
  | some next =>
    rw [hnext] at hg
    cases hg
    exact nextAnnounced_carries h hnext
  | none =>
    rw [hnext] at hg
    cases hg
    exact ⟨h.2, hQ.zero _⟩

theorem resume_carries (hQ : Kept Q) (h : pass.guard.Carries Q)
    (hg : (pass.resume n next).guard = some g) :
  g.Carries Q
  := by
  cases next with
  | single =>
    cases hg
    exact ⟨h.2, hQ.zero _⟩
  | rotate step =>
    rw [Pass.resume] at hg
    cases hnext : pass.guard.nextAnnounced with
    | some next =>
      rw [hnext] at hg
      cases hg
      exact nextAnnounced_carries h hnext
    | none =>
      rw [hnext] at hg
      simp only at hg
      split at hg
      · cases hg
        exact h
      · refine wrapUp_carries hQ ?_ hg
        exact h
  | wrap => exact wrapUp_carries hQ h hg
  | last => cases hg

/-- A step of the owner that leaves the words alone. -/
theorem Carried.still (h : Carried Q s) (hready : s'.ready.words = s.ready.words)
    (hguard : ∀ g, s'.phase.guard = some g → g.Carries Q) :
  Carried Q s'
  := by
  refine ⟨?_, hguard⟩
  rw [hready]
  exact h.words

theorem Carried.takeWord {word : ℕ} {phase : Phase} (hQ : Kept Q) (h : Carried Q s)
    (hguard : ∀ g, phase.guard = some g → g.Carries Q) :
  Carried Q { s with ready := (s.ready.takeWord word).1, phase := phase }
  := by
  refine ⟨?_, hguard⟩
  intro w
  show Q w ((s.ready.takeWord word).1.words w)
  rw [takeWord_words]
  split
  · exact hQ.zero w
  · exact h.words w

theorem Carried.fetchOr {word : ℕ} {bits : Word} {phase : Phase} (hQ : Kept Q) (h : Carried Q s)
    (hbits : Q word bits) (hguard : ∀ g, phase.guard = some g → g.Carries Q) :
  Carried Q { s with ready := s.ready.fetchOr word bits, phase := phase }
  := by
  refine ⟨?_, hguard⟩
  intro w
  show Q w ((s.ready.fetchOr word bits).words w)
  rw [fetchOr_words]
  split
  · rename_i heq
    subst heq
    exact hQ.or w _ _ (h.words w) hbits
  · exact h.words w

theorem Carried.restoreWord {word : ℕ} {bits : Word} {announce next : Phase} (hQ : Kept Q)
    (h : Carried Q s) (hbits : Q word bits)
    (hguard : ∀ g, announce.guard = some g ∨ next.guard = some g → g.Carries Q) :
  Carried Q (s.restoreWord word bits announce next)
  := by
  rw [System.restoreWord]
  split
  · exact h.still rfl fun g hg => hguard g (Or.inr hg)
  · refine h.fetchOr hQ (hQ.and _ _ _ hbits) ?_
    intro g hg
    split at hg
    · exact hguard g (Or.inl hg)
    · exact hguard g (Or.inr hg)

end Carrying

/-- The step sets the bit of a slot. -/
def Marks [DecidableEq ν] (s s' : System ν) (slot : ℕ) : Prop :=
  (∃ n, s.stage n = .marking slot ∧ s' = (s.mark slot).setStage n (s.marked slot)) ∨
    s.phase = .marking slot

/-- A step moves bits only between the words and the owner, and sets those that it marks. -/
theorem Carried.step [DecidableEq ν] {Q : ℕ → Word → Prop} {e : Event} (hQ : Kept Q)
    (h : Carried Q s) (hstep : Step s e s')
    (hmark : ∀ slot, Marks s s' slot → Q (slot / WORD_BITS) (oneBit (slot % WORD_BITS))) :
  Carried Q s'
  := by
  have hguard : ∀ {pass}, s.phase.guard = some (Pass.guard pass) → (Pass.guard pass).Carries Q :=
    fun hg => h.guard _ hg
  have hnone : ∀ {g : Guard}, none = some g → g.Carries Q := by
    intro g hg
    cases hg
  have hsame : ∀ {g g' : Guard}, g.Carries Q → some g = some g' → g'.Carries Q := by
    intro g g' hcarries heq
    cases heq
    exact hcarries
  cases hstep with
  | notifyClosed _ _ _ => exact h
  | notify _ _ _ => exact ⟨h.words, h.guard⟩
  | @mark n slot hstage =>
    have hmarked := h.fetchOr hQ (hmark slot (Or.inl ⟨n, hstage, rfl⟩)) h.guard
    exact ⟨hmarked.words, hmarked.guard⟩
  | announce _ => exact ⟨h.words, h.guard⟩
  | ring _ => exact ⟨h.words, h.guard⟩
  | register _ => exact ⟨h.words, h.guard⟩
  | push _ _ => exact h.still rfl fun _ => hnone
  | pushFull _ _ => exact h
  | @pushMark slot hphase =>
    refine h.fetchOr hQ (hmark slot (Or.inr hphase)) ?_
    intro g hg
    split at hg <;> exact hnone hg
  | pushAnnounce _ => exact h.still rfl fun _ => hnone
  | @harvest cap _ =>
    refine h.still rfl ?_
    intro g hg
    have hnew : Guard.new.Carries Q := ⟨hQ.zero _, hQ.zero _⟩
    have hbegin : (s.begin cap).guard = some g := hg
    rw [System.begin] at hbegin
    simp only at hbegin
    split at hbegin
    · exact hnone hbegin
    · split at hbegin <;> exact hsame hnew hbegin
  | takeSingle hphase =>
    refine h.takeWord hQ fun g => hsame ⟨?_, ?_⟩
    · exact hQ.and _ _ _ (hQ.and _ _ _ (h.words _))
    · exact hQ.and _ _ _ (hQ.and _ _ _ (h.words _))
  | @takeFirst pass hphase =>
    have hcarries : pass.guard.Carries Q := hguard (by rw [hphase]; rfl)
    refine h.still rfl ?_
    intro g hg
    rw [System.takeFirst] at hg
    simp only at hg
    split at hg
    · refine hsame ?_ hg
      exact hcarries
    · refine resume_carries hQ ?_ hg
      exact hcarries
  | takeStart hphase =>
    refine h.takeWord hQ fun g => hsame ⟨?_, ?_⟩
    · exact hQ.and _ _ _ (hQ.and _ _ _ (h.words _))
    · exact hQ.and _ _ _ (hQ.and _ _ _ (h.words _))
  | @takeSummary pass step hphase =>
    have hcarries : pass.guard.Carries Q := hguard (by rw [hphase]; rfl)
    refine h.still rfl ?_
    intro g hg
    rw [System.takeSummary] at hg
    simp only at hg
    refine resume_carries hQ ?_ hg
    exact hcarries
  | @takeWord pass word next hphase =>
    have hcarries : pass.guard.Carries Q := hguard (by rw [hphase]; rfl)
    refine h.takeWord hQ fun g => hsame ⟨?_, hcarries.2⟩
    exact hQ.and _ _ _ (h.words _)
  | @resume pass next hphase _ =>
    have hcarries : pass.guard.Carries Q := hguard (by rw [hphase]; rfl)
    exact h.still rfl fun g hg => resume_carries hQ hcarries hg
  | @skip pass next hphase _ _ =>
    have hcarries : pass.guard.Carries Q := hguard (by rw [hphase]; rfl)
    exact h.still rfl fun g => hsame ⟨hQ.and _ _ _ hcarries.1, hcarries.2⟩
  | @stale pass next hphase _ _ _ =>
    have hcarries : pass.guard.Carries Q := hguard (by rw [hphase]; rfl)
    exact h.still rfl fun g => hsame ⟨hQ.and _ _ _ hcarries.1, hcarries.2⟩
  | @truncate pass next hphase _ _ _ _ =>
    have hcarries : pass.guard.Carries Q := hguard (by rw [hphase]; rfl)
    exact h.still rfl fun g => hsame hcarries
  | @pending pass next hphase _ _ _ _ =>
    have hcarries : pass.guard.Carries Q := hguard (by rw [hphase]; rfl)
    exact h.still rfl fun g => hsame ⟨hQ.and _ _ _ hcarries.1, hcarries.2⟩
  | @finished pass next hphase _ _ _ _ =>
    have hcarries : pass.guard.Carries Q := hguard (by rw [hphase]; rfl)
    exact h.still rfl fun g => hsame ⟨hQ.and _ _ _ hcarries.1, hcarries.2⟩
  | @pollPanics pass next hphase _ _ _ _ =>
    have hcarries : pass.guard.Carries Q := hguard (by rw [hphase]; rfl)
    exact h.still rfl fun g => hsame hcarries
  | @outPanics pass next hphase _ _ _ _ =>
    have hcarries : pass.guard.Carries Q := hguard (by rw [hphase]; rfl)
    exact h.still rfl fun g => hsame hcarries
  | @restoreCurrent pass _ _ hphase =>
    have hcarries : pass.guard.Carries Q := hguard (by rw [hphase]; rfl)
    exact h.restoreWord hQ hcarries.1 fun g hg => hg.elim (hsame hcarries) (hsame hcarries)
  | @announceCurrent pass _ _ hphase =>
    have hcarries : pass.guard.Carries Q := hguard (by rw [hphase]; rfl)
    exact h.still rfl fun g => hsame hcarries
  | @restoreDeferred pass _ _ hphase =>
    have hcarries : pass.guard.Carries Q := hguard (by rw [hphase]; rfl)
    exact h.restoreWord hQ hcarries.2 fun g hg => hg.elim (hsame hcarries) (hsame hcarries)
  | @announceDeferred pass _ _ hphase =>
    have hcarries : pass.guard.Carries Q := hguard (by rw [hphase]; rfl)
    exact h.still rfl fun g => hsame hcarries
  | @restoreSummary pass _ _ hphase =>
    have hcarries : pass.guard.Carries Q := hguard (by rw [hphase]; rfl)
    exact h.still restoreSummary_words fun g => hsame hcarries
  | @restoreDeferredSummary pass wakeOwner hadWork hphase =>
    have hcarries : pass.guard.Carries Q := hguard (by rw [hphase]; rfl)
    refine h.still restoreSummary_words ?_
    intro g hg
    have hrestored : (if wakeOwner && hadWork then Phase.restoring pass .ring wakeOwner hadWork
        else .idle).guard = some g := hg
    split at hrestored
    · exact hsame hcarries hrestored
    · exact hnone hrestored
  | restoreRing _ => exact h.still rfl fun _ => hnone
  | check _ _ => exact h.still rfl fun _ => hnone
  | report _ _ => exact h.still rfl fun _ => hnone
  | close _ => exact h.still rfl fun _ => hnone

/-! ### Every bit names a slot -/

section Addresses

theorem restoreWord_other {word : ℕ} {bits : Word} {announce next : Phase} :
  (s.restoreWord word bits announce next).ready.slots = s.ready.slots ∧
    (s.restoreWord word bits announce next).free = s.free ∧
    (s.restoreWord word bits announce next).stage = s.stage ∧
    (s.restoreWord word bits announce next).bell = s.bell ∧
    ((s.restoreWord word bits announce next).phase = announce ∨
      (s.restoreWord word bits announce next).phase = next)
  := by
  rw [System.restoreWord]
  split
  · exact ⟨rfl, rfl, rfl, rfl, Or.inr rfl⟩
  · refine ⟨rfl, rfl, rfl, rfl, ?_⟩
    show (if _ then _ else _) = _ ∨ (if _ then _ else _) = _
    split
    · exact Or.inl rfl
    · exact Or.inr rfl

theorem restoreWord_phase (s : System ν) (word : ℕ) (bits : Word) (announce next : Phase) :
  (s.restoreWord word bits announce next).phase = announce ∨
    (s.restoreWord word bits announce next).phase = next
  := restoreWord_other.2.2.2.2

/-- The phase is one of a harvest that still takes, polls or begins to check. -/
def Phase.Scans : Phase → Prop
  | .taking _ => True
  | .takingSummary _ _ => True
  | .takingStart _ => True
  | .takingWord _ _ _ => True
  | .polling _ _ => True
  | .checking i _ => i = 0
  | _ => False

theorem wrapUp_scans (pass : Pass) :
  pass.wrapUp.Scans
  := by
  rw [Pass.wrapUp]
  split <;> trivial

theorem resume_scans (pass : Pass) (n : ℕ) (next : Next) :
  (pass.resume n next).Scans
  := by
  cases next with
  | single => trivial
  | rotate step =>
    rw [Pass.resume]
    split
    · trivial
    · split
      · trivial
      · exact wrapUp_scans _
  | wrap => exact wrapUp_scans pass
  | last => rfl

theorem begin_scans (s : System ν) (cap : ℕ) :
  (s.begin cap).Scans
  := by
  rw [System.begin]
  simp only
  split
  · rfl
  · split <;> trivial

theorem takeFirst_scans (s : System ν) (pass : Pass) :
  (s.takeFirst pass).phase.Scans
  := by
  rw [System.takeFirst]
  simp only
  split
  · trivial
  · exact resume_scans _ _ _

theorem takeSummary_scans (s : System ν) (pass : Pass) (step : ℕ) :
  (s.takeSummary pass step).phase.Scans
  := by
  rw [System.takeSummary]
  simp only
  exact resume_scans _ _ _

variable [DecidableEq ν] {e : Event}

/-- The owner marks a slot that was free. -/
theorem pushing_step {slot : ℕ} (hstep : Step s e s') (hphase : s'.phase = .marking slot) :
  s.phase = .marking slot ∨ (e = .push ∧ slot ∈ s.free)
  := by
  have hscans : s'.phase.Scans → s.phase = .marking slot ∨ (e = .push ∧ slot ∈ s.free) := by
    intro hscans
    rw [hphase] at hscans
    exact hscans.elim
  cases hstep with
  | notifyClosed _ _ _ => exact Or.inl hphase
  | notify _ _ _ => exact Or.inl hphase
  | mark _ => exact Or.inl hphase
  | announce _ => exact Or.inl hphase
  | ring _ => exact Or.inl hphase
  | register _ => exact Or.inl hphase
  | pushFull _ _ => exact Or.inl hphase
  | @push index rest _ hfree =>
    cases hphase
    rw [hfree]
    exact Or.inr ⟨rfl, List.mem_cons_self ..⟩
  | pushMark _ =>
    rw [System.setPhase] at hphase
    simp only at hphase
    split at hphase <;> cases hphase
  | @harvest cap _ => exact hscans (begin_scans s cap)
  | takeFirst _ => exact hscans (takeFirst_scans s _)
  | takeSummary _ => exact hscans (takeSummary_scans s _ _)
  | resume _ _ => exact hscans (resume_scans _ _ _)
  | restoreCurrent _ =>
    rcases restoreWord_other.2.2.2.2 with heq | heq <;> cases heq.symm.trans hphase
  | restoreDeferred _ =>
    rcases restoreWord_other.2.2.2.2 with heq | heq <;> cases heq.symm.trans hphase
  | restoreDeferredSummary _ =>
    rw [System.restored, System.setPhase] at hphase
    simp only at hphase
    split at hphase <;> cases hphase
  | _ => cases hphase

/-- A guard that restores without waking belongs to a harvest that was truncated. -/
theorem truncated_step {pass : Pass} {part : Restore} {hadWork : Bool} (hstep : Step s e s')
    (h : ∀ pass part hadWork, s.phase = .restoring pass part false hadWork →
      pass.report.moreReady = true)
    (hphase : s'.phase = .restoring pass part false hadWork) :
  pass.report.moreReady = true
  := by
  have hscans : s'.phase.Scans → pass.report.moreReady = true := by
    intro hscans
    rw [hphase] at hscans
    exact hscans.elim
  cases hstep with
  | notifyClosed _ _ _ => exact h _ _ _ hphase
  | notify _ _ _ => exact h _ _ _ hphase
  | mark _ => exact h _ _ _ hphase
  | announce _ => exact h _ _ _ hphase
  | ring _ => exact h _ _ _ hphase
  | register _ => exact h _ _ _ hphase
  | pushFull _ _ => exact h _ _ _ hphase
  | pushMark _ =>
    rw [System.setPhase] at hphase
    simp only at hphase
    split at hphase <;> cases hphase
  | @harvest cap _ => exact hscans (begin_scans s cap)
  | takeFirst _ => exact hscans (takeFirst_scans s _)
  | takeSummary _ => exact hscans (takeSummary_scans s _ _)
  | resume _ _ => exact hscans (resume_scans _ _ _)
  | truncate _ _ _ _ _ =>
    cases hphase
    rfl
  | restoreCurrent hold =>
    rcases restoreWord_other.2.2.2.2 with heq | heq <;> cases heq.symm.trans hphase <;>
      exact h _ _ _ hold
  | restoreDeferred hold =>
    rcases restoreWord_other.2.2.2.2 with heq | heq <;> cases heq.symm.trans hphase <;>
      exact h _ _ _ hold
  | announceCurrent hold =>
    cases hphase
    exact h _ _ _ hold
  | announceDeferred hold =>
    cases hphase
    exact h _ _ _ hold
  | restoreSummary hold =>
    cases hphase
    exact h _ _ _ hold
  | restoreDeferredSummary hold =>
    rw [System.restored, System.setPhase] at hphase
    simp only at hphase
    split at hphase
    · cases hphase
      exact h _ _ _ hold
    · cases hphase
  | _ => cases hphase

theorem slots_step (hstep : Step s e s') :
  s'.ready.slots = s.ready.slots
  := by
  cases hstep with
  | restoreCurrent _ => exact restoreWord_other.1
  | restoreDeferred _ => exact restoreWord_other.1
  | restoreSummary _ => exact restoreSummary_slots
  | restoreDeferredSummary _ => exact restoreSummary_slots
  | _ => rfl

theorem free_step {i : ℕ} (hstep : Step s e s') (hi : i ∈ s'.free) :
  i ∈ s.free ∨ i < s.ready.slots
  := by
  cases hstep with
  | restoreCurrent _ =>
    rw [restoreWord_other.2.1] at hi
    exact Or.inl hi
  | restoreDeferred _ =>
    rw [restoreWord_other.2.1] at hi
    exact Or.inl hi
  | push _ hfree =>
    rw [hfree]
    exact Or.inl (List.mem_cons_of_mem _ hi)
  | finished _ _ hindex _ _ =>
    rcases List.mem_cons.mp hi with rfl | hold
    · exact Or.inr hindex
    · exact Or.inl hold
  | outPanics _ _ hindex _ _ =>
    rcases List.mem_cons.mp hi with rfl | hold
    · exact Or.inr hindex
    · exact Or.inl hold
  | _ => exact Or.inl hi

/-- A notifier marks a slot of the set. -/
theorem marking_step {n : ν} {slot : ℕ} (hstep : Step s e s') (hn : s'.stage n = .marking slot) :
  s.stage n = .marking slot ∨ slot < s.ready.slots
  := by
  have hupdate : ∀ {n' : ν} {stage : Stage}, Function.update s.stage n' stage n = .marking slot →
      s.stage n = .marking slot ∨ stage = .marking slot := by
    intro n' stage heq
    rw [Function.update_apply] at heq
    split at heq
    · exact Or.inr heq
    · exact Or.inl heq
  cases hstep with
  | restoreCurrent _ =>
    rw [restoreWord_other.2.2.1] at hn
    exact Or.inl hn
  | restoreDeferred _ =>
    rw [restoreWord_other.2.2.1] at hn
    exact Or.inl hn
  | notify _ hslot _ =>
    apply (hupdate hn).imp_right
    intro heq
    cases heq
    exact hslot
  | @mark n' slot' _ =>
    apply (hupdate hn).imp_right
    intro heq
    rw [System.marked] at heq
    split at heq
    · cases heq
    · split at heq <;> cases heq
  | announce _ =>
    apply (hupdate hn).imp_right
    intro heq
    cases heq
  | ring _ =>
    apply (hupdate hn).imp_right
    intro heq
    cases heq
  | _ => exact Or.inl hn

/-- Every bit names a slot. -/
structure Addressed (s : System ν) : Prop where
  carried : Carried (fun w bits => ∀ i, bits.getLsbD i = true → w * WORD_BITS + i < s.ready.slots) s
  stage : ∀ n slot, s.stage n = .marking slot → slot < s.ready.slots
  phase : ∀ slot, s.phase = .marking slot → slot < s.ready.slots
  free : ∀ i ∈ s.free, i < s.ready.slots

theorem kept_address (slots : ℕ) :
  Kept fun w (bits : Word) => ∀ i, bits.getLsbD i = true → w * WORD_BITS + i < slots
  := by
  refine ⟨?_, ?_, ?_⟩
  · intro w i hbit
    rw [BitVec.getLsbD_zero] at hbit
    cases hbit
  · intro w bits mask h i hbit
    rw [BitVec.getLsbD_and, Bool.and_eq_true] at hbit
    exact h i hbit.1
  · intro w bits bits' h h' i hbit
    rw [BitVec.getLsbD_or, Bool.or_eq_true] at hbit
    exact hbit.elim (h i) (h' i)

theorem Addressed.step (h : Addressed s) (hstep : Step s e s') :
  Addressed s'
  := by
  have hslots := slots_step hstep
  refine ⟨?_, ?_, ?_, ?_⟩
  · rw [hslots]
    refine h.carried.step (kept_address _) hstep ?_
    intro slot hmarking i hbit
    have hslot : slot < s.ready.slots := by
      rcases hmarking with ⟨n, hn, -⟩ | hphase
      · exact h.stage n slot hn
      · exact h.phase slot hphase
    have hlt : i < 64 := BitVec.lt_of_getLsbD hbit
    rw [getLsbD_oneBit hlt, decide_eq_true_eq] at hbit
    rw [hbit]
    exact lt_of_eq_of_lt (Nat.div_add_mod' slot WORD_BITS) hslot
  · intro n slot hn
    rw [hslots]
    exact (marking_step hstep hn).elim (h.stage n slot) id
  · intro slot hphase
    rw [hslots]
    exact (pushing_step hstep hphase).elim (h.phase slot) fun hpush => h.free slot hpush.2
  · intro i hi
    rw [hslots]
    exact (free_step hstep hi).elim (h.free i) id

end Addresses

end Grommet.Outstanding
