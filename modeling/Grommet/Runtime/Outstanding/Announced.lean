import Grommet.Library.Mask
import Grommet.Library.Trail
import Grommet.Runtime.Outstanding.Model

/-!
# Every ready word is announced

A ready word that is not empty is announced: in the summary, by a notifier that is about to
announce it, or by the owner, which has taken its announcement and has not come to it.
-/

open Checked

namespace Grommet.Outstanding

/-! ### Masks -/

section Masks

variable {r : ReadySet} {i j w : ℕ}

theorem getLsbD_lowMask (hi : i < 64) :
  (lowMask j).getLsbD i = decide (i < j)
  := by
  rw [lowMask]
  split
  · simp_all
  · split
    · simp only [BitVec.getLsbD_allOnes, hi]
      simp
      omega
    · rename_i hj
      have hpow : 2 ^ j < 2 ^ 64 := Nat.pow_lt_pow_right (by decide) (by omega)
      have hshift : (1#64 <<< j).toNat = 2 ^ j := by
        rw [BitVec.toNat_shiftLeft, BitVec.toNat_ofNat, Nat.shiftLeft_eq, Nat.one_mod_two_pow (by decide),
          Nat.one_mul, Nat.mod_eq_of_lt hpow]
      have hone : (1#64 <<< j - 1#64).toNat = 2 ^ j - 1 := by
        rw [BitVec.toNat_sub_of_le, hshift]
        · rfl
        · rw [BitVec.le_def, hshift]
          exact Nat.one_le_two_pow
      rw [BitVec.getLsbD, hone, Nat.testBit_two_pow_sub_one]

theorem getLsbD_oneBit (hi : i < 64) :
  (oneBit j).getLsbD i = decide (i = j)
  := BitVec.getLsbD_one_shiftLeft hi

/-- The bit of a word of the set is in the mask of its summary word. -/
theorem getLsbD_summaryMask (hw : w < r.wordCount) :
  (r.summaryMask (w / WORD_BITS)).getLsbD (w % WORD_BITS) = true
  := by
  have hlt : w % WORD_BITS < 64 := Nat.mod_lt _ (by decide)
  rw [ReadySet.summaryMask]
  by_cases hlast : w / WORD_BITS + 1 = r.summaries ∧ r.wordCount % WORD_BITS ≠ 0
  · rw [if_pos hlast, getLsbD_lowMask hlt, decide_eq_true_eq]
    rw [ReadySet.summaries, divCeil] at hlast
    simp only [WORD_BITS] at hlast hw ⊢
    split at hlast <;> omega
  · rw [if_neg hlast, BitVec.getLsbD_allOnes, decide_eq_true_eq]
    exact hlt

/-- The bit of a slot is in the mask of its word. -/
theorem getLsbD_validMask (hi : i < 64) (hw : w * WORD_BITS + i < r.slots) :
  (r.validMask w).getLsbD i = true
  := by
  rw [ReadySet.validMask]
  by_cases hlast : w + 1 = r.wordCount ∧ r.slots % WORD_BITS ≠ 0
  · rw [if_pos hlast, getLsbD_lowMask hi, decide_eq_true_eq]
    rw [ReadySet.wordCount, divCeil] at hlast
    simp only [WORD_BITS] at hlast hw ⊢
    omega
  · rw [if_neg hlast, BitVec.getLsbD_allOnes, decide_eq_true_eq]
    exact hi

end Masks

/-! ### Announcements -/

/-- The guard has taken the announcement of a word. -/
def Guard.Holds (g : Guard) (w : ℕ) : Prop :=
  (w / WORD_BITS = g.summaryIndex ∧ g.summary.getLsbD (w % WORD_BITS) = true) ∨
    (w / WORD_BITS = g.deferredSummaryIndex ∧ g.deferredSummary.getLsbD (w % WORD_BITS) = true)

/-- What the guard may still hold where the harvest goes on. -/
def Guard.Fits (g : Guard) : Next → Prop
  | .rotate _ => True
  | .wrap => g.deferredSummary = 0#64
  | _ => g.summary = 0#64 ∧ g.deferredSummary = 0#64

/-- The owner has an announcement of the word in hand. -/
def Phase.Holds (w : ℕ) : Phase → Prop
  | .announcing word => w = word
  | .taking pass => pass.guard.Holds w
  | .takingSummary pass _ => pass.guard.Holds w
  | .takingStart pass => w = pass.startWord ∨ pass.guard.Holds w
  | .takingWord pass word _ => w = word ∨ pass.guard.Holds w
  | .polling pass _ => pass.guard.Holds w
  | .restoring pass .announceCurrent _ _ => w = pass.guard.currentWord ∨ pass.guard.Holds w
  | .restoring pass .announceDeferred _ _ => w = pass.guard.deferredWord ∨ pass.guard.Holds w
  | .restoring pass .deferredSummary _ _ => w / WORD_BITS = pass.guard.deferredSummaryIndex ∧
      pass.guard.deferredSummary.getLsbD (w % WORD_BITS) = true
  | .restoring _ .ring _ _ => False
  | .restoring pass _ _ _ => pass.guard.Holds w
  | _ => False

/-- The guard holds nothing that the next access overwrites. -/
def Phase.Tidy : Phase → Prop
  | .taking pass => pass.guard.Fits .single
  | .takingSummary pass step =>
      pass.guard.summary = 0#64 ∧ (step = 0 → pass.guard.deferredSummary = 0#64)
  | .takingWord pass _ next => pass.guard.Fits next
  | .polling pass next => pass.guard.Fits next
  | _ => True

section Guards

variable {g g' : Guard} {pass : Pass} {w word n : ℕ} {next : Next}

theorem not_holds (hsummary : g.summary = 0#64) (hdeferred : g.deferredSummary = 0#64) :
  ¬ g.Holds w
  := by
  rintro (⟨-, hbit⟩ | ⟨-, hbit⟩)
  · rw [hsummary, BitVec.getLsbD_zero] at hbit
    cases hbit
  · rw [hdeferred, BitVec.getLsbD_zero] at hbit
    cases hbit

/-- The announcement of the next word is taken out of the guard. -/
theorem Guard.Holds.nextAnnounced (h : g.Holds w) (hnext : g.nextAnnounced = some (word, g')) :
  w = word ∨ g'.Holds w
  := by
  rw [Guard.nextAnnounced] at hnext
  split at hnext
  · cases hnext
  · cases hnext
    rcases h with ⟨hindex, hbit⟩ | hdeferred
    · by_cases hlow : w % WORD_BITS = trailingZeros g.summary
      · left
        rw [← hlow, ← hindex]
        exact (Nat.div_add_mod' w WORD_BITS).symm
      · exact Or.inr (Or.inl ⟨hindex, BitVec.getLsbD_and_sub_one hbit hlow⟩)
    · exact Or.inr (Or.inr hdeferred)

theorem nextAnnounced_deferred (hnext : g.nextAnnounced = some (word, g')) :
  g'.deferredSummary = g.deferredSummary
  := by
  rw [Guard.nextAnnounced] at hnext
  split at hnext
  · cases hnext
  · cases hnext
    rfl

theorem summary_eq_zero (hnext : g.nextAnnounced = none) :
  g.summary = 0#64
  := by
  rw [Guard.nextAnnounced] at hnext
  split at hnext
  · assumption
  · cases hnext

theorem wrapUp_spec (w : ℕ) (pass : Pass) (h : pass.guard.deferredSummary = 0#64) :
  pass.wrapUp.Tidy ∧ (pass.guard.Holds w → pass.wrapUp.Holds w)
  := by
  rw [Pass.wrapUp]
  cases hnext : pass.guard.nextAnnounced with
  | some next =>
    obtain ⟨word, g'⟩ := next
    refine ⟨?_, fun hholds => hholds.nextAnnounced hnext⟩
    exact (nextAnnounced_deferred hnext).trans h
  | none =>
    have hzero := summary_eq_zero hnext
    exact ⟨⟨hzero, h⟩, fun hholds => hholds⟩

/-- The owner goes on with every announcement that the guard holds. -/
theorem resume_spec (h : pass.guard.Fits next) :
  (pass.resume n next).Tidy ∧ (pass.guard.Holds w → (pass.resume n next).Holds w)
  := by
  cases next with
  | single => exact ⟨h, fun hholds => hholds⟩
  | rotate step =>
    rw [Pass.resume]
    cases hnext : pass.guard.nextAnnounced with
    | some next =>
      obtain ⟨word, g'⟩ := next
      exact ⟨trivial, fun hholds => hholds.nextAnnounced hnext⟩
    | none =>
      have hzero := summary_eq_zero hnext
      simp only
      split
      · exact ⟨⟨hzero, fun hstep => by cases hstep⟩, fun hholds => hholds⟩
      · obtain ⟨htidy, hholds⟩ :=
          wrapUp_spec w (pass.setGuard pass.guard.activateDeferredSummary) rfl
        refine ⟨htidy, fun hold => hholds ?_⟩
        rcases hold with ⟨-, hbit⟩ | hdeferred
        · rw [hzero, BitVec.getLsbD_zero] at hbit
          cases hbit
        · exact Or.inl hdeferred
  | wrap => exact wrapUp_spec w pass h
  | last => exact ⟨trivial, fun hholds => absurd hholds (not_holds h.1 h.2)⟩

theorem rotate_spec (pass : Pass) (n step w : ℕ) :
  (pass.resume n (.rotate step)).Tidy ∧
    (pass.guard.Holds w → (pass.resume n (.rotate step)).Holds w)
  := by
  apply resume_spec
  trivial

end Guards

/-- The word is announced in the summary. -/
def ReadySet.InSummary (r : ReadySet) (w : ℕ) : Prop :=
  (r.summary (w / WORD_BITS)).getLsbD (w % WORD_BITS) = true

section Summary

variable {r : ReadySet} {i w word : ℕ} {bits : Word}

theorem inSummary_fetchOr :
  (r.fetchOrSummary i bits).InSummary w ↔
    r.InSummary w ∨ (w / WORD_BITS = i ∧ bits.getLsbD (w % WORD_BITS) = true)
  := by
  rw [ReadySet.InSummary, ReadySet.InSummary, ReadySet.fetchOrSummary]
  simp only [Function.update_apply]
  split
  · rename_i heq
    rw [BitVec.getLsbD_or, Bool.or_eq_true, heq]
    simp
  · rename_i hne
    simp [hne]

theorem inSummary_announce :
  (r.announce word).InSummary w ↔ r.InSummary w ∨ w = word
  := by
  have hlt : w % WORD_BITS < 64 := Nat.mod_lt _ (by decide)
  rw [ReadySet.announce, inSummary_fetchOr, getLsbD_oneBit hlt, decide_eq_true_eq]
  apply or_congr_right
  constructor
  · rintro ⟨hdiv, hmod⟩
    rw [← Nat.div_add_mod w WORD_BITS, hdiv, hmod, Nat.div_add_mod]
  · rintro rfl
    exact ⟨rfl, rfl⟩

theorem inSummary_restore (hw : w < r.wordCount)
    (h : r.InSummary w ∨ (w / WORD_BITS = i ∧ bits.getLsbD (w % WORD_BITS) = true)) :
  (r.restoreSummary i bits).InSummary w
  := by
  have hmask := getLsbD_summaryMask hw
  rw [ReadySet.restoreSummary]
  by_cases hzero : bits &&& r.summaryMask i ≠ 0#64
  · rw [if_pos hzero, inSummary_fetchOr]
    apply h.imp_right
    rintro ⟨rfl, hbit⟩
    refine ⟨rfl, ?_⟩
    rw [BitVec.getLsbD_and, hbit, hmask]
    rfl
  · rw [if_neg hzero]
    rcases h with h | ⟨rfl, hbit⟩
    · exact h
    · have hget : (bits &&& r.summaryMask (w / WORD_BITS)).getLsbD (w % WORD_BITS) = true := by
        rw [BitVec.getLsbD_and, hbit, hmask]
        rfl
      rw [Decidable.not_not.mp hzero, BitVec.getLsbD_zero] at hget
      cases hget

theorem inSummary_take :
  (r.takeSummary i).1.InSummary w ↔ r.InSummary w ∧ w / WORD_BITS ≠ i
  := by
  rw [ReadySet.InSummary, ReadySet.InSummary, ReadySet.takeSummary]
  simp only [Function.update_apply]
  split
  · rename_i heq
    simp [heq]
  · rename_i hne
    simp [hne]

/-- What is announced in a summary word is in what is taken of it. -/
theorem takeSummary_bit (hw : w < r.wordCount) (h : r.InSummary w) :
  (r.takeSummary (w / WORD_BITS)).2.getLsbD (w % WORD_BITS) = true
  := by
  rw [ReadySet.takeSummary, BitVec.getLsbD_and, getLsbD_summaryMask hw]
  rw [ReadySet.InSummary] at h
  rw [h]
  rfl

theorem restoreSummary_words :
  (r.restoreSummary i bits).words = r.words
  := by
  rw [ReadySet.restoreSummary]
  by_cases hzero : bits &&& r.summaryMask i ≠ 0#64
  · rw [if_pos hzero]
    rfl
  · rw [if_neg hzero]

theorem restoreSummary_slots :
  (r.restoreSummary i bits).slots = r.slots
  := by
  rw [ReadySet.restoreSummary]
  by_cases hzero : bits &&& r.summaryMask i ≠ 0#64
  · rw [if_pos hzero]
    rfl
  · rw [if_neg hzero]

theorem fetchOr_words :
  (r.fetchOr word bits).words w = if w = word then r.words w ||| bits else r.words w
  := by
  show Function.update r.words word _ w = _
  rw [Function.update_apply]
  split
  · rename_i heq
    rw [heq]
  · rfl

theorem takeWord_words :
  (r.takeWord word).1.words w = if w = word then 0#64 else r.words w
  := Function.update_apply ..

end Summary

variable {ν : Type}

/-- A word that is not empty is announced. -/
structure Announced (s : System ν) : Prop where
  tidy : s.phase.Tidy
  covered : s.ready.summaries ≠ 0 → ∀ w < s.ready.wordCount, s.ready.words w ≠ 0#64 →
    s.ready.InSummary w ∨ (∃ n, s.stage n = .announcing w) ∨ s.phase.Holds w

variable {s s' : System ν}

/-- A step of the owner that leaves no word unannounced. -/
theorem Announced.move (h : Announced s) (hslots : s'.ready.slots = s.ready.slots)
    (hstage : s'.stage = s.stage) (htidy : s'.phase.Tidy)
    (hwords : s.ready.summaries ≠ 0 → ∀ w, s'.ready.words w ≠ 0#64 →
      s.ready.words w ≠ 0#64 ∨ s'.phase.Holds w)
    (hsummary : ∀ w < s.ready.wordCount, s.ready.InSummary w →
      s'.ready.InSummary w ∨ s'.phase.Holds w)
    (hholds : ∀ w < s.ready.wordCount, s.phase.Holds w → s'.ready.words w ≠ 0#64 →
      s'.ready.InSummary w ∨ s'.phase.Holds w) :
  Announced s'
  := by
  have hcount : s'.ready.wordCount = s.ready.wordCount := by
    rw [ReadySet.wordCount, ReadySet.wordCount, hslots]
  have hsummaries : s'.ready.summaries = s.ready.summaries := by
    rw [ReadySet.summaries, ReadySet.summaries, hcount]
  refine ⟨htidy, ?_⟩
  intro hmany w hw hword
  rw [hsummaries] at hmany
  rw [hcount] at hw
  rw [hstage]
  rcases hwords hmany w hword with hold | hphase
  · rcases h.covered hmany w hw hold with hin | hnotifier | hphase
    · rcases hsummary w hw hin with hin' | hphase'
      · exact Or.inl hin'
      · exact Or.inr (Or.inr hphase')
    · exact Or.inr (Or.inl hnotifier)
    · rcases hholds w hw hphase hword with hin' | hphase'
      · exact Or.inl hin'
      · exact Or.inr (Or.inr hphase')
  · exact Or.inr (Or.inr hphase)

/-- A step of the owner that touches no bitmap. -/
theorem Announced.still (h : Announced s) (hready : s'.ready = s.ready)
    (hstage : s'.stage = s.stage) (htidy : s'.phase.Tidy)
    (hholds : ∀ w, s.phase.Holds w → s'.phase.Holds w) :
  Announced s'
  := by
  refine h.move (by rw [hready]) hstage htidy ?_ ?_ ?_
  · intro _ w hword
    rw [hready] at hword
    exact Or.inl hword
  · intro w _ hin
    rw [hready]
    exact Or.inl hin
  · intro w _ hphase _
    exact Or.inr (hholds w hphase)

/-- The owner announces a word that it has in hand. -/
theorem Announced.announce {word : ℕ} {phase : Phase} (h : Announced s) (htidy : phase.Tidy)
    (hholds : ∀ w, s.phase.Holds w → w = word ∨ phase.Holds w) :
  Announced ((s.announce word).setPhase phase)
  := by
  refine h.move rfl rfl htidy (fun _ _ hword => Or.inl hword) ?_ ?_
  · intro w _ hin
    exact Or.inl (inSummary_announce.mpr (Or.inl hin))
  · intro w _ hphase _
    rcases hholds w hphase with rfl | hphase'
    · exact Or.inl (inSummary_announce.mpr (Or.inr rfl))
    · exact Or.inr hphase'

/-- The owner sets bits of a word, and goes on to announce it when it was empty. -/
theorem Announced.fetchOr {word : ℕ} {bits : Word} {announce next : Phase} (h : Announced s)
    (htidy : announce.Tidy ∧ next.Tidy) (hword : announce.Holds word)
    (hholds : ∀ w, s.phase.Holds w → announce.Holds w ∧ next.Holds w) :
  Announced { s with
    ready := s.ready.fetchOr word bits
    phase := if s.ready.announces (s.ready.words word) then announce else next }
  := by
  have hother : ∀ {w}, w ≠ word → (s.ready.fetchOr word bits).words w = s.ready.words w :=
    fun hne => fetchOr_words.trans (if_neg hne)
  refine h.move rfl rfl ?_ ?_ (fun _ _ hin => Or.inl hin) ?_
  · show (if _ then _ else _ : Phase).Tidy
    split
    · exact htidy.1
    · exact htidy.2
  · intro hmany w hnonzero
    by_cases heq : w = word
    · subst heq
      by_cases hzero : s.ready.words w = 0#64
      · have hempty : s.ready.announces (s.ready.words w) = true := by
          rw [ReadySet.announces, hzero]
          simpa using hmany
        right
        show (if _ then _ else _ : Phase).Holds w
        rw [if_pos hempty]
        exact hword
      · exact Or.inl hzero
    · left
      rw [← hother heq]
      exact hnonzero
  · intro w _ hphase _
    right
    show (if _ then _ else _ : Phase).Holds w
    split
    · exact (hholds w hphase).1
    · exact (hholds w hphase).2

/-- The owner takes a word whose announcement it has in hand. -/
theorem Announced.takeWord {word : ℕ} {phase : Phase} (h : Announced s) (htidy : phase.Tidy)
    (hholds : ∀ w, s.phase.Holds w → w = word ∨ phase.Holds w) :
  Announced { s with ready := (s.ready.takeWord word).1, phase := phase }
  := by
  have hwords : ∀ w, (s.ready.takeWord word).1.words w ≠ 0#64 → w ≠ word ∧ s.ready.words w ≠ 0#64 := by
    intro w hnonzero
    rw [takeWord_words] at hnonzero
    split at hnonzero
    · exact absurd rfl hnonzero
    · rename_i hne
      exact ⟨hne, hnonzero⟩
  refine h.move rfl rfl htidy ?_ (fun _ _ hin => Or.inl hin) ?_
  · intro _ w hnonzero
    exact Or.inl (hwords w hnonzero).2
  · intro w _ hphase hnonzero
    exact Or.inr ((hholds w hphase).resolve_left (hwords w hnonzero).1)

/-- The owner takes a summary word. -/
theorem Announced.takeSummary {i : ℕ} {phase : Phase} (h : Announced s) (htidy : phase.Tidy)
    (hholds : ∀ w, s.phase.Holds w → phase.Holds w)
    (htaken : ∀ w, w / WORD_BITS = i →
      (s.ready.takeSummary i).2.getLsbD (w % WORD_BITS) = true → phase.Holds w) :
  Announced { s with ready := (s.ready.takeSummary i).1, phase := phase }
  := by
  refine h.move rfl rfl htidy (fun _ _ hword => Or.inl hword) ?_ ?_
  · intro w hw hin
    by_cases heq : w / WORD_BITS = i
    · subst heq
      exact Or.inr (htaken w rfl (takeSummary_bit hw hin))
    · exact Or.inl (inSummary_take.mpr ⟨hin, heq⟩)
  · intro w _ hphase _
    exact Or.inr (hholds w hphase)

/-- The owner puts a summary word back. -/
theorem Announced.restoreSummary {i : ℕ} {bits : Word} {phase : Phase} (h : Announced s)
    (htidy : phase.Tidy)
    (hholds : ∀ w, s.phase.Holds w →
      (w / WORD_BITS = i ∧ bits.getLsbD (w % WORD_BITS) = true) ∨ phase.Holds w) :
  Announced ((s.restoreSummary i bits).setPhase phase)
  := by
  refine h.move restoreSummary_slots rfl htidy ?_ ?_ ?_
  · intro _ w hnonzero
    left
    rw [← restoreSummary_words]
    exact hnonzero
  · intro w hw hin
    exact Or.inl (inSummary_restore hw (Or.inl hin))
  · intro w hw hphase _
    rcases hholds w hphase with hbit | hphase'
    · exact Or.inl (inSummary_restore hw (Or.inr hbit))
    · exact Or.inr hphase'

/-- The owner puts the bits of a word back. -/
theorem Announced.restoreWord {word : ℕ} {bits : Word} {announce next : Phase} (h : Announced s)
    (htidy : announce.Tidy ∧ next.Tidy) (hword : announce.Holds word)
    (hholds : ∀ w, s.phase.Holds w → announce.Holds w ∧ next.Holds w) :
  Announced (s.restoreWord word bits announce next)
  := by
  rw [System.restoreWord]
  split
  · exact h.still rfl rfl htidy.2 fun w hphase => (hholds w hphase).2
  · exact h.fetchOr htidy hword hholds

/-- The parts of a summary word before and after the word of the cursor. -/
theorem split_holds {g : Guard} {announced : Word} {i b w : ℕ} (hdiv : w / WORD_BITS = i)
    (hbit : announced.getLsbD (w % WORD_BITS) = true) :
  ((g.deferSummary i (announced &&& lowMask b)).setSummary i (announced &&& ~~~lowMask b)).Holds w
  := by
  have hlt : w % WORD_BITS < 64 := Nat.mod_lt _ (by decide)
  by_cases hlow : w % WORD_BITS < b
  · right
    refine ⟨hdiv, ?_⟩
    show (announced &&& lowMask b).getLsbD _ = true
    rw [BitVec.getLsbD_and, hbit, getLsbD_lowMask hlt, decide_eq_true hlow]
    rfl
  · left
    refine ⟨hdiv, ?_⟩
    show (announced &&& ~~~lowMask b).getLsbD _ = true
    rw [BitVec.getLsbD_and, hbit, BitVec.getLsbD_not, getLsbD_lowMask hlt, decide_eq_true hlt,
      decide_eq_false hlow]
    rfl

/-- The owner takes the summary word of the cursor. -/
theorem Announced.takeFirst {pass : Pass} (h : Announced s)
    (hphase : s.phase = .takingSummary pass 0) (hnone : ∀ w, ¬ pass.guard.Holds w) :
  Announced (s.takeFirst pass)
  := by
  have hold : ∀ w, ¬ s.phase.Holds w := by
    rw [hphase]
    exact hnone
  rw [System.takeFirst]
  simp only
  split
  · rename_i hstart
    refine h.takeSummary trivial (fun w hholds => absurd hholds (hold w)) ?_
    intro w hdiv hbit
    have hlt : w % WORD_BITS < 64 := Nat.mod_lt _ (by decide)
    by_cases heq : w % WORD_BITS = pass.startWord % WORD_BITS
    · left
      calc w = WORD_BITS * (w / WORD_BITS) + w % WORD_BITS := (Nat.div_add_mod ..).symm
        _ = WORD_BITS * (pass.startWord / WORD_BITS) + pass.startWord % WORD_BITS := by
          rw [hdiv, heq]
        _ = pass.startWord := Nat.div_add_mod ..
    · right
      rcases split_holds (g := pass.guard) (b := pass.startWord % WORD_BITS) hdiv hbit with
        ⟨hindex, hset⟩ | hdeferred
      · refine Or.inl ⟨hindex, ?_⟩
        show (_ &&& ~~~oneBit _).getLsbD _ = true
        rw [BitVec.getLsbD_and, hset, BitVec.getLsbD_not, getLsbD_oneBit hlt, decide_eq_true hlt,
          decide_eq_false heq]
        rfl
      · exact Or.inr hdeferred
  · refine h.takeSummary (rotate_spec _ _ 0 0).1 (fun w hholds => absurd hholds (hold w)) ?_
    intro w hdiv hbit
    exact (rotate_spec _ _ 0 w).2 (split_holds hdiv hbit)

section Steps

variable [DecidableEq ν] {e : Event} {n : ν} {slot word : ℕ}

/-- A notifier that makes a word ready announces it. -/
theorem Announced.mark (h : Announced s) (hstage : s.stage n = .marking slot) :
  Announced ((s.mark slot).setStage n (s.marked slot))
  := by
  refine ⟨h.tidy, ?_⟩
  intro hmany w hw hnonzero
  have hself : ((s.mark slot).setStage n (s.marked slot)).stage n = s.marked slot :=
    Function.update_self _ _ _
  have hcover : s.ready.words w ≠ 0#64 → s.ready.InSummary w ∨
      (∃ n', ((s.mark slot).setStage n (s.marked slot)).stage n' = .announcing w) ∨
      s.phase.Holds w := by
    intro hold
    rcases h.covered hmany w hw hold with hin | ⟨n', hn'⟩ | hphase
    · exact Or.inl hin
    · refine Or.inr (Or.inl ⟨n', ?_⟩)
      have hne : n' ≠ n := by
        rintro rfl
        rw [hstage] at hn'
        cases hn'
      exact (Function.update_of_ne hne _ _).trans hn'
    · exact Or.inr (Or.inr hphase)
  by_cases hold : s.ready.words w = 0#64
  · have hword : w = slot / WORD_BITS := by
      by_contra hne
      apply hnonzero
      exact (fetchOr_words.trans (if_neg hne)).trans hold
    have hannounces : s.ready.announces (s.ready.words (slot / WORD_BITS)) = true := by
      have hsummaries : s.ready.summaries ≠ 0 := hmany
      rw [ReadySet.announces, ← hword, hold]
      simpa using hsummaries
    refine Or.inr (Or.inl ⟨n, ?_⟩)
    rw [hself, System.marked, if_pos hannounces, hword]
  · exact hcover hold

/-- A notifier announces its word. -/
theorem Announced.notifierAnnounce (h : Announced s) (hstage : s.stage n = .announcing word) :
  Announced ((s.announce word).setStage n .ringing)
  := by
  refine ⟨h.tidy, ?_⟩
  intro hmany w hw hnonzero
  rcases h.covered hmany w hw hnonzero with hin | ⟨n', hn'⟩ | hphase
  · exact Or.inl (inSummary_announce.mpr (Or.inl hin))
  · by_cases hne : n' = n
    · subst hne
      rw [hstage, Stage.announcing.injEq] at hn'
      exact Or.inl (inSummary_announce.mpr (Or.inr hn'.symm))
    · exact Or.inr (Or.inl ⟨n', (Function.update_of_ne hne _ _).trans hn'⟩)
  · exact Or.inr (Or.inr hphase)

/-- A notifier that announces nothing moves on. -/
theorem Announced.setStage {stage : Stage} (h : Announced s)
    (hstage : ∀ word, s.stage n ≠ .announcing word) :
  Announced (s.setStage n stage)
  := by
  refine ⟨h.tidy, ?_⟩
  intro hmany w hw hnonzero
  rcases h.covered hmany w hw hnonzero with hin | ⟨n', hn'⟩ | hphase
  · exact Or.inl hin
  · refine Or.inr (Or.inl ⟨n', ?_⟩)
    have hne : n' ≠ n := by
      rintro rfl
      exact hstage w hn'
    exact (Function.update_of_ne hne _ _).trans hn'
  · exact Or.inr (Or.inr hphase)

/-- Every step leaves every word that is not empty announced. -/
theorem Announced.step (h : Announced s) (hstep : Step s e s') :
  Announced s'
  := by
  have hidle : ∀ {w}, s.phase = .idle → ¬ s.phase.Holds w := by
    intro w hphase hholds
    rw [hphase] at hholds
    exact hholds
  have htidy := h.tidy
  cases hstep with
  | notifyClosed _ _ _ => exact h
  | notify hstage _ _ =>
    apply h.setStage
    rw [hstage]
    exact fun _ => Stage.noConfusion
  | mark hstage => exact h.mark hstage
  | announce hstage => exact h.notifierAnnounce hstage
  | @ring n hstage =>
    have hring : Announced s.ring := ⟨h.tidy, h.covered⟩
    apply hring.setStage
    rw [show s.ring.stage n = .ringing from hstage]
    exact fun _ => Stage.noConfusion
  | register _ => exact ⟨h.tidy, h.covered⟩
  | push hphase _ => exact h.still rfl rfl trivial fun w hholds => absurd hholds (hidle hphase)
  | pushFull _ _ => exact h
  | pushMark hphase =>
    refine h.fetchOr ⟨trivial, trivial⟩ rfl ?_
    rw [hphase]
    exact fun w hholds => hholds.elim
  | pushAnnounce hphase =>
    refine h.announce trivial ?_
    rw [hphase]
    exact fun w hholds => Or.inl hholds
  | @harvest cap hphase =>
    refine h.still rfl rfl ?_ fun w hholds => absurd hholds (hidle hphase)
    show (s.begin cap).Tidy
    rw [System.begin]
    simp only
    split
    · trivial
    · split
      · exact ⟨rfl, rfl⟩
      · exact ⟨rfl, fun _ => rfl⟩
  | takeSingle hphase =>
    rw [hphase] at htidy
    refine h.takeWord htidy ?_
    rw [hphase]
    exact fun w hholds => Or.inr hholds
  | @takeFirst pass hphase =>
    rw [hphase] at htidy
    exact h.takeFirst hphase fun w => not_holds htidy.1 (htidy.2 rfl)
  | takeStart hphase =>
    refine h.takeWord trivial ?_
    rw [hphase]
    exact fun w hholds => hholds
  | @takeSummary pass step hphase =>
    rw [hphase] at htidy
    refine h.takeSummary (rotate_spec _ _ (step + 1) 0).1 ?_ ?_
    · rw [hphase]
      rintro w (⟨-, hbit⟩ | hdeferred)
      · rw [htidy.1, BitVec.getLsbD_zero] at hbit
        cases hbit
      · exact (rotate_spec _ _ (step + 1) w).2 (Or.inr hdeferred)
    · intro w hdiv hbit
      exact (rotate_spec _ _ (step + 1) w).2 (Or.inl ⟨hdiv, hbit⟩)
  | takeWord hphase =>
    rw [hphase] at htidy
    refine h.takeWord htidy ?_
    rw [hphase]
    exact fun w hholds => hholds
  | resume hphase _ =>
    rw [hphase] at htidy
    refine h.still rfl rfl (resume_spec (w := 0) htidy).1 ?_
    rw [hphase]
    exact fun w hholds => (resume_spec htidy).2 hholds
  | skip hphase _ _ =>
    rw [hphase] at htidy
    refine h.still rfl rfl htidy ?_
    rw [hphase]
    exact fun w hholds => hholds
  | stale hphase _ _ _ =>
    rw [hphase] at htidy
    refine h.still rfl rfl htidy ?_
    rw [hphase]
    exact fun w hholds => hholds
  | truncate hphase _ _ _ _ =>
    refine h.still rfl rfl trivial ?_
    rw [hphase]
    exact fun w hholds => hholds
  | pending hphase _ _ _ _ =>
    rw [hphase] at htidy
    refine h.still rfl rfl htidy ?_
    rw [hphase]
    exact fun w hholds => hholds
  | finished hphase _ _ _ _ =>
    rw [hphase] at htidy
    refine h.still rfl rfl htidy ?_
    rw [hphase]
    exact fun w hholds => hholds
  | pollPanics hphase _ _ _ _ =>
    refine h.still rfl rfl trivial ?_
    rw [hphase]
    exact fun w hholds => hholds
  | outPanics hphase _ _ _ _ =>
    refine h.still rfl rfl trivial ?_
    rw [hphase]
    exact fun w hholds => hholds
  | restoreCurrent hphase =>
    refine h.restoreWord ⟨trivial, trivial⟩ (Or.inl rfl) ?_
    rw [hphase]
    exact fun w hholds => ⟨Or.inr hholds, hholds⟩
  | announceCurrent hphase =>
    refine h.announce trivial ?_
    rw [hphase]
    exact fun w hholds => hholds
  | restoreDeferred hphase =>
    refine h.restoreWord ⟨trivial, trivial⟩ (Or.inl rfl) ?_
    rw [hphase]
    exact fun w hholds => ⟨Or.inr hholds, hholds⟩
  | announceDeferred hphase =>
    refine h.announce trivial ?_
    rw [hphase]
    exact fun w hholds => hholds
  | restoreSummary hphase =>
    refine h.restoreSummary trivial ?_
    rw [hphase]
    exact fun w hholds => hholds
  | restoreDeferredSummary hphase =>
    refine h.restoreSummary ?_ ?_
    · split <;> trivial
    · rw [hphase]
      exact fun w hholds => Or.inl hholds
  | restoreRing hphase =>
    refine h.still rfl rfl trivial ?_
    rw [hphase]
    exact fun w hholds => hholds
  | check hphase _ =>
    refine h.still rfl rfl trivial ?_
    rw [hphase]
    exact fun w hholds => hholds
  | report hphase _ =>
    refine h.still rfl rfl trivial ?_
    rw [hphase]
    exact fun w hholds => hholds
  | close hphase => exact h.still rfl rfl trivial fun w hholds => absurd hholds (hidle hphase)

end Steps

end Grommet.Outstanding
