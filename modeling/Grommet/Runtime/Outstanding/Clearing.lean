import Grommet.Runtime.Outstanding.Returning

/-!
# Taken words are empty

While the owner scans the bitmap and no wake comes between its steps, the words that it has taken
are empty, and so are the summary words of the turns that its rotation has taken.
-/

namespace Grommet.Outstanding

variable {ν : Type} {s s' : System ν} {start : ℕ}

/-- The summary words of the first turns of a rotation are empty. -/
def ReadySet.Emptied (r : ReadySet) (start turns : ℕ) : Prop :=
  ∀ k < turns, r.summary ((start + k) % r.summaries) = 0#64

/-- The summary words that a rotation has taken before it goes on are empty. -/
def Next.Swept (r : ReadySet) (start : ℕ) : Next → Prop
  | .single => r.summaries = 0
  | .rotate step => r.Emptied start (step + 1)
  | .wrap => r.Emptied start r.summaries
  | .last => r.Emptied start r.summaries

/-- The summary words that a harvest has taken are empty. -/
def Phase.Swept (r : ReadySet) : Phase → Prop
  | .taking _ => r.summaries = 0
  | .takingSummary pass step => r.Emptied (pass.startWord / WORD_BITS) step
  | .takingStart pass => r.Emptied (pass.startWord / WORD_BITS) 1
  | .takingWord pass _ next => next.Swept r (pass.startWord / WORD_BITS)
  | .polling pass next => next.Swept r (pass.startWord / WORD_BITS)
  | .checking _ _ => ∀ j < r.summaries, r.summary j = 0#64
  | _ => True

/-- A word is empty when bits of it are in hand. -/
def Vacated (r : ReadySet) (word : ℕ) (bits : Word) : Prop := bits = 0#64 ∨ r.words word = 0#64

/-- What a harvest has taken is empty. -/
structure Cleared (s : System ν) : Prop where
  words : ∀ g, s.phase.guard = some g → g.Carries (Vacated s.ready)
  summary : s.phase.Swept s.ready

section Clearing

variable {p : Pass} {next : Next} {r : ReadySet} {n k word : ℕ} {bits : Word}

theorem vacated_kept (r : ReadySet) :
  Kept (Vacated r)
  := by
  refine ⟨fun _ => Or.inl rfl, ?_, ?_⟩
  · rintro w bits mask (rfl | hword)
    · exact Or.inl BitVec.zero_and
    · exact Or.inr hword
  · rintro w bits bits' (rfl | hword) h
    · rw [BitVec.zero_or]
      exact h
    · exact Or.inr hword

theorem ReadySet.Emptied.mono (h : r.Emptied start n) (hle : k ≤ n) :
  r.Emptied start k
  := fun j hj => h j (hj.trans_le hle)

/-- When all turns are taken, all summary words are empty. -/
theorem ReadySet.Emptied.all (h : r.Emptied start r.summaries) {j : ℕ} (hj : j < r.summaries) :
  r.summary j = 0#64
  := by
  have hstart : start % r.summaries < r.summaries := Nat.mod_lt _ (by omega)
  have hplace := Circle.add_dist_mod hstart hj
  rw [Nat.mod_add_mod] at hplace
  rw [← hplace]
  exact h _ (Circle.dist_lt hstart)

theorem wrapUp_swept (h : r.Emptied (p.startWord / WORD_BITS) r.summaries) :
  p.wrapUp.Swept r
  := by
  rw [Pass.wrapUp]
  split
  · exact h
  · exact h

theorem resume_swept (h : next.Swept r (p.startWord / WORD_BITS)) :
  (p.resume r.summaries next).Swept r
  := by
  cases next with
  | single =>
    intro k hk
    rw [Next.Swept] at h
    omega
  | rotate step =>
    rw [Pass.resume]
    split
    · exact h
    · split
      · exact h
      · rename_i hlast
        exact wrapUp_swept (ReadySet.Emptied.mono h (Nat.not_lt.mp hlast))
  | wrap => exact wrapUp_swept h
  | last => exact fun j hj => ReadySet.Emptied.all h hj

/-- A word that is taken is empty, and those that were empty are still. -/
theorem Vacated.takeWord {w : ℕ} (h : Vacated r w bits) :
  Vacated (r.takeWord word).1 w bits
  := by
  rcases h with hzero | hempty
  · exact Or.inl hzero
  · right
    rw [takeWord_words, hempty, ite_self]

theorem vacated_takeWord :
  Vacated (r.takeWord word).1 word bits
  := by
  right
  rw [takeWord_words, if_pos rfl]

/-- A summary word that is taken is empty. -/
theorem ReadySet.Emptied.takeSummary (h : r.Emptied start k) :
  (r.takeSummary ((start + k) % r.summaries)).1.Emptied start (k + 1)
  := by
  intro j hj
  show Function.update r.summary ((start + k) % r.summaries) 0#64 ((start + j) % r.summaries) = 0#64
  rw [Function.update_apply]
  split
  · rfl
  · rename_i hne
    apply h j
    refine lt_of_le_of_ne (Nat.le_of_lt_succ hj) ?_
    rintro rfl
    exact hne rfl

theorem Cleared.takeFirst (h : Cleared s) (hsteered : Steered start s)
    (hphase : s.phase = .takingSummary p 0) :
  Cleared (s.takeFirst p)
  := by
  have hcarries : p.guard.Carries (Vacated s.ready) := h.words _ (by rw [hphase]; rfl)
  have hplaced := hsteered.placed
  rw [hphase] at hplaced
  have hword := hplaced.startWord
  have hturn : (p.startWord / WORD_BITS + 0) % s.ready.summaries = p.startWord / WORD_BITS := by
    rw [ReadySet.turns] at hword
    rw [WORD_BITS, Nat.add_zero]
    rcases Nat.eq_zero_or_pos s.ready.summaries with hnone | hpos
    · rw [hnone, Nat.mod_zero]
    · exact Nat.mod_eq_of_lt (by omega)
  have hempty : (s.ready.takeSummary (p.startWord / WORD_BITS)).1.Emptied
      (p.startWord / WORD_BITS) 1 := by
    have hnone : s.ready.Emptied (p.startWord / WORD_BITS) 0 := by
      intro k hk
      exact absurd hk (Nat.not_lt_zero k)
    have htaken := hnone.takeSummary
    rw [hturn] at htaken
    exact htaken
  refine ⟨?_, ?_⟩
  · intro g hg
    rw [System.takeFirst] at hg
    simp only at hg
    split at hg
    · cases hg
      exact hcarries
    · refine resume_carries (vacated_kept _) ?_ hg
      exact hcarries
  · rw [System.takeFirst]
    simp only
    split
    · exact hempty
    · exact resume_swept (show (Next.rotate 0).Swept _ _ from hempty)

theorem Cleared.takeSummary {step : ℕ} (h : Cleared s) (hphase : s.phase = .takingSummary p step) :
  Cleared (s.takeSummary p step)
  := by
  have hcarries : p.guard.Carries (Vacated s.ready) := h.words _ (by rw [hphase]; rfl)
  have hswept := h.summary
  rw [hphase] at hswept
  refine ⟨?_, ?_⟩
  · intro g hg
    rw [System.takeSummary] at hg
    simp only at hg
    refine resume_carries (vacated_kept _) ?_ hg
    exact hcarries
  · rw [System.takeSummary]
    simp only
    exact resume_swept (show (Next.rotate step).Swept _ _ from ReadySet.Emptied.takeSummary hswept)

variable [DecidableEq ν] {e : Event}

/-- While a harvest scans, what it takes stays empty. -/
theorem Cleared.step (h : Cleared s) (hsteered : Steered start s) (hstep : Step s e s')
    (hbusy : s.phase ≠ .idle) (hmoves : s'.phase ≠ s.phase) (hscans : s'.phase.Scans) :
  Cleared s'
  := by
  have hkept := vacated_kept s.ready
  have hbefore := scans_back hstep hbusy hscans
  have hnot : ∀ {phase : Phase}, s.phase = phase → ¬ phase.Scans → Cleared s' := by
    intro phase hphase hnone
    rw [hphase] at hbefore
    exact (hnone hbefore).elim
  have hpass : ∀ {phase : Phase} {p : Pass}, s.phase = phase → phase.guard = some p.guard →
      p.guard.Carries (Vacated s.ready) ∧ phase.Swept s.ready := by
    intro phase p hphase hguard
    refine ⟨h.words _ ?_, ?_⟩
    · rw [hphase]
      exact hguard
    · rw [← hphase]
      exact h.summary
  have hsome : ∀ {r : ReadySet} {g g' : Guard}, g.Carries (Vacated r) → some g = some g' →
      g'.Carries (Vacated r) := by
    intro r g g' hcarries heq
    cases heq
    exact hcarries
  have hvisit : ∀ {p p' : Pass} {next}, s.phase = .polling p next → p'.guard = p.visited.guard →
      p'.startWord = p.startWord → (∀ g, (Phase.polling p' next).guard = some g →
        g.Carries (Vacated s.ready)) ∧ (Phase.polling p' next).Swept s.ready := by
    intro p p' next hphase hguard hword
    obtain ⟨hcarries, hswept⟩ := hpass hphase rfl
    refine ⟨fun g => hsome ?_, ?_⟩
    · rw [hguard]
      exact ⟨hkept.and _ _ _ hcarries.1, hcarries.2⟩
    · show next.Swept s.ready (p'.startWord / WORD_BITS)
      rw [hword]
      exact hswept
  cases hstep with
  | notifyClosed _ _ _ => exact absurd rfl hmoves
  | notify _ _ _ => exact absurd rfl hmoves
  | mark _ => exact absurd rfl hmoves
  | announce _ => exact absurd rfl hmoves
  | ring _ => exact absurd rfl hmoves
  | register hphase => exact absurd hphase hbusy
  | push hphase _ => exact absurd hphase hbusy
  | pushFull hphase _ => exact absurd hphase hbusy
  | pushMark hphase => exact hnot hphase id
  | pushAnnounce hphase => exact hnot hphase id
  | harvest hphase => exact absurd hphase hbusy
  | takeSingle hphase =>
    obtain ⟨-, hswept⟩ := hpass hphase rfl
    exact ⟨fun g => hsome ⟨vacated_takeWord, vacated_takeWord⟩, hswept⟩
  | takeFirst hphase => exact h.takeFirst hsteered hphase
  | takeStart hphase =>
    obtain ⟨-, hswept⟩ := hpass hphase rfl
    exact ⟨fun g => hsome ⟨vacated_takeWord, vacated_takeWord⟩, hswept⟩
  | takeSummary hphase => exact h.takeSummary hphase
  | takeWord hphase =>
    obtain ⟨hcarries, hswept⟩ := hpass hphase rfl
    exact ⟨fun g => hsome ⟨vacated_takeWord, hcarries.2.takeWord⟩, hswept⟩
  | resume hphase _ =>
    obtain ⟨hcarries, hswept⟩ := hpass hphase rfl
    exact ⟨fun g hg => resume_carries hkept hcarries hg, resume_swept hswept⟩
  | skip hphase _ _ =>
    obtain ⟨hwords, hswept⟩ := hvisit hphase rfl rfl
    exact ⟨hwords, hswept⟩
  | stale hphase _ _ _ =>
    obtain ⟨hwords, hswept⟩ := hvisit hphase rfl rfl
    exact ⟨hwords, hswept⟩
  | truncate _ _ _ _ _ => exact hscans.elim
  | pending hphase _ _ _ _ =>
    obtain ⟨hwords, hswept⟩ := hvisit hphase rfl rfl
    exact ⟨hwords, hswept⟩
  | finished hphase _ _ _ _ =>
    obtain ⟨hwords, hswept⟩ := hvisit hphase rfl rfl
    exact ⟨hwords, hswept⟩
  | pollPanics _ _ _ _ _ => exact hscans.elim
  | outPanics _ _ _ _ _ => exact hscans.elim
  | restoreCurrent hphase => exact hnot hphase id
  | announceCurrent hphase => exact hnot hphase id
  | restoreDeferred hphase => exact hnot hphase id
  | announceDeferred hphase => exact hnot hphase id
  | restoreSummary hphase => exact hnot hphase id
  | restoreDeferredSummary hphase => exact hnot hphase id
  | restoreRing hphase => exact hnot hphase id
  | check _ _ => exact absurd hscans (Nat.succ_ne_zero _)
  | report _ _ => exact hscans.elim
  | close hphase => exact absurd hphase hbusy

end Clearing

end Grommet.Outstanding
