import Grommet.Runtime.Outstanding.Rotation

/-!
# The course of a harvest

While a harvest scans, a step either leaves what it awaits as it is, or visits the next slot in
circular order.  So the slots that it visits are in circular order from its cursor, and it visits
every slot that it awaited when it began unless it ends before.
-/

namespace Grommet.Outstanding

variable {ν : Type} {s s' : System ν} {start i : ℕ}

/-- The harvest comes to a slot whose bit is set. -/
def System.Awaits (s : System ν) (start i : ℕ) : Prop :=
  s.phase.Awaits s.ready.turns (s.ready.isReady i = true) (s.ready.InSummary (i / WORD_BITS))
    (Circle.place start (4096 * s.ready.turns) i)

/-- The harvest comes to a place, whether a bit is set there or not. -/
def System.Pends (s : System ν) (x : ℕ) : Prop := s.phase.Awaits s.ready.turns True True x

section Monotone

variable {p : Pass} {turns turn x : ℕ} {phase : Phase} {ready ready' announced announced' : Prop}

theorem Pass.Awaits.mono (h : p.Awaits turns turn ready announced x) (hready : ready → ready')
    (hannounced : announced → announced') :
  p.Awaits turns turn ready' announced' x
  := by
  rcases h with hdeferred | ⟨hr, hsummary | hbefore | ⟨ha, hlater⟩⟩
  · exact Or.inl hdeferred
  · exact Or.inr ⟨hready hr, Or.inl hsummary⟩
  · exact Or.inr ⟨hready hr, Or.inr (Or.inl hbefore)⟩
  · exact Or.inr ⟨hready hr, Or.inr (Or.inr ⟨hannounced ha, hlater⟩)⟩

/-- More bits in the words and in the summary are awaited as well. -/
theorem Phase.Awaits.mono (h : phase.Awaits turns ready announced x) (hready : ready → ready')
    (hannounced : announced → announced') :
  phase.Awaits turns ready' announced' x
  := by
  cases phase with
  | taking pass =>
    exact h.imp (And.imp_left hready) fun hlater => hlater.mono hready hannounced
  | takingSummary pass step =>
    cases step with
    | zero => exact ⟨hready h.1, hannounced h.2⟩
    | succ step => exact Pass.Awaits.mono h hready hannounced
  | takingStart pass =>
    exact h.imp (And.imp_left hready) fun hlater => hlater.mono hready hannounced
  | takingWord pass word next =>
    exact h.imp (And.imp_left hready) fun hlater => hlater.mono hready hannounced
  | polling pass next => exact h.imp_right fun hlater => hlater.mono hready hannounced
  | idle => exact h.elim
  | marking slot => exact h.elim
  | announcing word => exact h.elim
  | restoring pass part wakeOwner hadWork => exact h.elim
  | checking summary report => exact h.elim
  | gone => exact h.elim

end Monotone

theorem System.Awaits.pends (h : s.Awaits start i) :
  s.Pends (Circle.place start (4096 * s.ready.turns) i)
  := Phase.Awaits.mono h (fun _ => trivial) fun _ => trivial

/-- What holds while a harvest from a slot is under way. -/
structure Steered (start : ℕ) (s : System ν) : Prop where
  placed : s.phase.Placed start s.ready.turns
  tidy : s.phase.Tidy
  blank : s.phase.Blank
  start : start < s.capacity

theorem Steered.start_lt (h : Steered start s) :
  start < 4096 * s.ready.turns
  := h.start.trans_le (slots_le s.ready).2.2

/-- The cap of the harvest, and how many futures it has polled. -/
def Phase.Counts (cap polled : ℕ) : Phase → Prop
  | .taking pass => pass.cap = cap ∧ pass.report.polled = polled
  | .takingSummary pass _ => pass.cap = cap ∧ pass.report.polled = polled
  | .takingStart pass => pass.cap = cap ∧ pass.report.polled = polled
  | .takingWord pass _ _ => pass.cap = cap ∧ pass.report.polled = polled
  | .polling pass _ => pass.cap = cap ∧ pass.report.polled = polled
  | .checking _ report => report.polled = polled
  | _ => True

/-- A step that visits no slot, told by the phase and the bitmap that it leaves. -/
structure Quiet (start : ℕ) (s : System ν) (phase : Phase) (ready : ReadySet) : Prop where
  placed : phase.Placed start s.ready.turns
  awaits : ∀ i < s.capacity, s.Awaits start i → phase.Awaits s.ready.turns
    (ready.isReady i = true) (ready.InSummary (i / WORD_BITS))
    (Circle.place start (4096 * s.ready.turns) i)
  pends : ∀ x, phase.Awaits s.ready.turns True True x → s.Pends x
  counts : ∀ cap polled, s.phase.Counts cap polled → phase.Counts cap polled

section Takes

variable {p : Pass} {next : Next} {word step cap polled : ℕ}

theorem wrapUp_counts (h : p.cap = cap ∧ p.report.polled = polled) :
  p.wrapUp.Counts cap polled
  := by
  rw [Pass.wrapUp]
  split
  · exact h
  · exact h

theorem resume_counts {n : ℕ} (h : p.cap = cap ∧ p.report.polled = polled) :
  (p.resume n next).Counts cap polled
  := by
  cases next with
  | single => exact h
  | rotate step =>
    rw [Pass.resume]
    split
    · exact h
    · split
      · exact h
      · exact wrapUp_counts h
  | wrap => exact wrapUp_counts h
  | last => exact h.2

/-- The harvest goes on with another word. -/
theorem Steered.resume (h : Steered start s) (hphase : s.phase = .polling p next)
    (hzero : p.guard.currentBits = 0#64) :
  Quiet start s (p.resume s.ready.summaries next) s.ready
  := by
  obtain ⟨hplaced, htidy, hblank, -⟩ := h
  rw [hphase] at hplaced htidy hblank
  obtain ⟨hpass, -, hsingle, hrotate⟩ := hplaced
  have hcurrent : ∀ {x}, ¬ p.guard.currentBits.getLsbD x = true := by
    intro x hbit
    rw [hzero, BitVec.getLsbD_zero] at hbit
    cases hbit
  have hiff : ∀ {ready announced x}, (p.resume s.ready.summaries next).Awaits s.ready.turns ready
      announced x ↔ p.Awaits s.ready.turns (next.turn s.ready.turns) ready announced x :=
    hpass.awaits_resume htidy rfl hsingle hrotate hblank
  refine ⟨hpass.resume htidy rfl hrotate, ?_, ?_, ?_⟩
  · intro i _ hawaits
    rw [System.Awaits, hphase] at hawaits
    exact hiff.mpr (hawaits.resolve_left fun hbit => hcurrent hbit.2)
  · intro x hx
    rw [System.Pends, hphase]
    exact Or.inr (hiff.mp hx)
  · intro cap polled hcounts
    rw [hphase] at hcounts
    exact resume_counts hcounts

/-- The bits of a word that is taken. -/
theorem takeWord_evidence {i : ℕ} (hi : i < s.capacity) (hready : s.ready.isReady i = true) :
  (i / 64 = word → (s.ready.takeWord word).2.getLsbD (i % 64) = true) ∧
    (i / 64 ≠ word → (s.ready.takeWord word).1.isReady i = true)
  := by
  constructor
  · rintro rfl
    have hbit : (s.ready.words (i / 64)).getLsbD (i % 64) = true := hready
    have hlt : i % 64 < 64 := Nat.mod_lt _ (by decide)
    rw [ReadySet.takeWord, BitVec.getLsbD_and, hbit, getLsbD_validMask hlt, Bool.and_true]
    rw [WORD_BITS, Nat.div_add_mod']
    exact hi
  · intro hne
    exact (isReady_takeWord _ hi hready).resolve_right fun htaken => hne htaken.1.symm

theorem Steered.takeWord (h : Steered start s) (hphase : s.phase = .takingWord p word next) :
  Quiet start s (s.takeWord p word next).phase (s.takeWord p word next).ready
  := by
  have hlt := h.start_lt
  obtain ⟨hplaced, htidy, hblank, -⟩ := h
  rw [hphase] at hplaced htidy hblank
  refine ⟨takeWord_placed hplaced, ?_, ?_, ?_⟩
  · intro i hi hawaits
    rw [System.Awaits, hphase] at hawaits
    have hwide : i < 4096 * s.ready.turns := hi.trans_le (slots_le s.ready).2.2
    exact takeWord_awaits hplaced hwide hlt (fun heq hready => (takeWord_evidence hi hready).1 heq)
      (fun hne hready => (takeWord_evidence hi hready).2 hne) hawaits
  · intro x hx
    rw [System.Pends, hphase]
    exact takeWord_pends hx
  · intro cap polled hcounts
    rw [hphase] at hcounts
    exact hcounts

/-- The harvest takes the only word, or the word of the cursor, and splits it. -/
theorem Steered.takeSplit (h : Steered start s)
    (hphase : (s.phase = .taking p ∧ word = 0 ∧ next = .single) ∨
      (s.phase = .takingStart p ∧ word = p.startWord ∧ next = .rotate 0)) :
  Quiet start s (s.takeSplit p word next).phase (s.takeSplit p word next).ready
  := by
  have hlt := h.start_lt
  obtain ⟨hplaced, htidy, hblank, -⟩ := h
  have hnext : next = .single ∨ next = .rotate 0 := by
    rcases hphase with ⟨-, -, hsingle⟩ | ⟨-, -, hrotate⟩
    · exact Or.inl hsingle
    · exact Or.inr hrotate
  have hpass : p.Placed start s.ready.turns 0 ∧ word = p.startWord ∧
      (next = .single ∧ s.ready.turns = 1 ∨ next = .rotate 0) ∧ p.guard.deferredBits = 0#64 := by
    rcases hphase with ⟨hphase, rfl, rfl⟩ | ⟨hphase, rfl, rfl⟩
    · rw [hphase] at hplaced hblank
      exact ⟨hplaced.1, hplaced.2.2.symm, Or.inl ⟨rfl, hplaced.2.1⟩, hblank.2⟩
    · rw [hphase] at hplaced hblank
      exact ⟨hplaced, rfl, Or.inr rfl, hblank.2⟩
  have hstarts : ∀ {ready announced x}, s.phase.Awaits s.ready.turns ready announced x ↔
      (Phase.takingStart p).Awaits s.ready.turns ready announced x := by
    intro ready announced x
    rcases hphase with ⟨hphase, -, -⟩ | ⟨hphase, -, -⟩
    · rw [hphase]
      exact Iff.rfl
    · rw [hphase]
  obtain ⟨hpass, rfl, hkind, hdeferred⟩ := hpass
  refine ⟨hpass.splitAt hkind, ?_, ?_, ?_⟩
  · intro i hi hawaits
    have hwide : i < 4096 * s.ready.turns := hi.trans_le (slots_le s.ready).2.2
    refine splitAt_awaits hpass hdeferred hnext hwide hlt
      (fun heq hready => (takeWord_evidence hi hready).1 heq)
      (fun hne hready => (takeWord_evidence hi hready).2 hne) ((hstarts.mp hawaits).imp_left ?_)
    exact And.imp_right (startWord_iff hpass hwide).mpr
  · intro x hx
    exact hstarts.mpr (splitAt_pends hnext hx)
  · intro cap polled hcounts
    rcases hphase with ⟨hphase, -, -⟩ | ⟨hphase, -, -⟩ <;> rw [hphase] at hcounts <;> exact hcounts

/-- The harvest takes the summary word of the cursor and splits it. -/
theorem takeFirst_phase (s : System ν) (p : Pass) : ∃ before behind : Word,
  (∀ b, before.getLsbD b = true ↔ (s.ready.takeSummary (p.startWord / 64)).2.getLsbD b = true ∧
      b < p.startWord % 64) ∧
    (∀ b, behind.getLsbD b = true ↔ (s.ready.takeSummary (p.startWord / 64)).2.getLsbD b = true ∧
      p.startWord % 64 < b) ∧
    ((s.takeFirst p).phase = .takingStart (p.splitSummary before behind) ∨
      ((s.takeFirst p).phase = (p.splitSummary before behind).resume s.ready.summaries (.rotate 0) ∧
        (s.ready.takeSummary (p.startWord / 64)).2.getLsbD (p.startWord % 64) = false))
  := by
  have hlt : p.startWord % 64 < 64 := Nat.mod_lt _ (by decide)
  rw [System.takeFirst]
  simp only
  split
  · refine ⟨_, _, fun b => low_bit, ?_, Or.inl rfl⟩
    intro b
    by_cases hb : b < 64
    · rw [oneBit, BitVec.getLsbD_clear hb, Bool.and_eq_true]
      show (_ &&& ~~~lowMask (p.startWord % 64)).getLsbD b = true ∧ _ ↔ _
      rw [high_bit, Bool.not_eq_true', decide_eq_false_iff_not, WORD_BITS]
      constructor
      · rintro ⟨⟨hbit, hle⟩, hne⟩
        exact ⟨hbit, by omega⟩
      · rintro ⟨hbit, hgt⟩
        exact ⟨⟨hbit, hgt.le⟩, by omega⟩
    · rw [BitVec.getLsbD_of_ge _ _ (Nat.le_of_not_lt hb),
        BitVec.getLsbD_of_ge _ _ (Nat.le_of_not_lt hb)]
      simp
  · rename_i hclear
    have hnot : (s.ready.takeSummary (p.startWord / 64)).2.getLsbD (p.startWord % 64) = false := by
      rw [← Bool.not_eq_true]
      intro hbit
      apply hclear
      rw [← bne_iff_ne, oneBit, WORD_BITS, BitVec.and_one_shiftLeft_ne_zero hlt]
      exact high_bit.mpr ⟨hbit, le_rfl⟩
    refine ⟨_, _, fun b => low_bit, ?_, Or.inr ⟨rfl, hnot⟩⟩
    intro b
    refine high_bit.trans (and_congr_right fun hbit => ?_)
    rw [WORD_BITS]
    constructor
    · intro hle
      refine lt_of_le_of_ne hle ?_
      rintro rfl
      exact Bool.false_ne_true (hnot.symm.trans hbit)
    · exact le_of_lt

/-- The bits of a summary word that is taken. -/
theorem takeSummary_evidence {i : ℕ} (summary : ℕ) (hi : i < s.capacity)
    (hannounced : s.ready.InSummary (i / 64)) :
  (i / 4096 = summary → (s.ready.takeSummary summary).2.getLsbD (i / 64 % 64) = true) ∧
    (i / 4096 ≠ summary → (s.ready.takeSummary summary).1.InSummary (i / 64))
  := by
  have hword : i / 64 < s.ready.wordCount := by
    have hslots := (slots_le s.ready).1
    rw [System.capacity] at hi
    omega
  have hdiv : i / 64 / WORD_BITS = i / 4096 := by
    rw [WORD_BITS]
    omega
  constructor
  · rintro rfl
    have hbit := takeSummary_bit hword hannounced
    rw [hdiv] at hbit
    exact hbit
  · intro hne
    exact inSummary_take.mpr ⟨hannounced, by rwa [hdiv]⟩

theorem Steered.takeFirst (h : Steered start s) (hphase : s.phase = .takingSummary p 0) :
  Quiet start s (s.takeFirst p).phase (s.takeFirst p).ready
  := by
  obtain ⟨hplaced, htidy, hblank, -⟩ := h
  rw [hphase] at hplaced htidy hblank
  have hready : (s.takeFirst p).ready = (s.ready.takeSummary (p.startWord / 64)).1 := rfl
  obtain ⟨before, behind, hbefore, hbehind, hcases⟩ := takeFirst_phase s p
  have hsplit : (p.splitSummary before behind).Placed start s.ready.turns 0 :=
    hplaced.splitSummary (fun b hb => ((hbefore b).mp hb).2) fun b hb => ((hbehind b).mp hb).2
  have hawaited : ∀ i < s.capacity, s.Awaits start i → (s.takeFirst p).ready.isReady i = true ∧
      (i / 64 = p.startWord ∨ (p.splitSummary before behind).Awaits s.ready.turns 0
        ((s.takeFirst p).ready.isReady i = true) ((s.takeFirst p).ready.InSummary (i / 64))
        (Circle.place start (4096 * s.ready.turns) i)) := by
    intro i hi hawaits
    rw [System.Awaits, hphase] at hawaits
    obtain ⟨hset, hannounced⟩ := hawaits
    have hevidence := takeSummary_evidence (p.startWord / 64) hi hannounced
    have hset' : (s.takeFirst p).ready.isReady i = true := hset
    refine ⟨hset', splitSummary_awaits hplaced (hi.trans_le (slots_le s.ready).2.2) hset' ?_ ?_ ?_⟩
    · intro hown hlow
      exact (hbefore _).mpr ⟨hevidence.1 hown, hlow⟩
    · intro hown hhigh
      exact (hbehind _).mpr ⟨hevidence.1 hown, hhigh⟩
    · rw [hready]
      exact hevidence.2
  have hpends : ∀ x, s.Pends x := by
    intro x
    rw [System.Pends, hphase]
    exact ⟨trivial, trivial⟩
  rcases hcases with hphase' | ⟨hphase', hclear⟩
  · refine ⟨?_, ?_, fun x _ => hpends x, ?_⟩
    · rw [hphase']
      exact hsplit
    · intro i hi hawaits
      obtain ⟨hset, hplace⟩ := hawaited i hi hawaits
      rw [hphase']
      refine hplace.imp_left fun heq => ⟨hset, ?_⟩
      exact (startWord_iff hplaced (hi.trans_le (slots_le s.ready).2.2)).mp heq
    · intro cap polled hcounts
      rw [hphase] at hcounts
      rw [hphase']
      exact hcounts
  · have hturns : 0 < s.ready.turns := by
      rw [ReadySet.turns]
      omega
    refine ⟨?_, ?_, fun x _ => hpends x, ?_⟩
    · rw [hphase']
      exact hsplit.rotate rfl hturns
    · intro i hi hawaits
      obtain ⟨-, hplace⟩ := hawaited i hi hawaits
      rw [hphase']
      refine (hsplit.awaits_rotate rfl hturns).mpr (hplace.resolve_left ?_)
      intro heq
      rw [System.Awaits, hphase] at hawaits
      have hbit := (takeSummary_evidence _ hi hawaits.2).1 (show i / 4096 = p.startWord / 64 by omega)
      rw [heq] at hbit
      exact Bool.false_ne_true (hclear.symm.trans hbit)
    · intro cap polled hcounts
      rw [hphase] at hcounts
      rw [hphase']
      exact resume_counts hcounts

/-- The harvest takes the summary word of a later turn. -/
theorem Steered.takeSummary (h : Steered start s) (hphase : s.phase = .takingSummary p (step + 1)) :
  Quiet start s (s.takeSummary p (step + 1)).phase (s.takeSummary p (step + 1)).ready
  := by
  obtain ⟨hplaced, htidy, hblank, -⟩ := h
  rw [hphase] at hplaced htidy hblank
  obtain ⟨hpass, hstep⟩ := hplaced
  have hturns : s.ready.summaries = s.ready.turns := by
    rw [ReadySet.turns] at hstep ⊢
    omega
  have hmeets : p.Meets s.ready.turns (step + 1)
      ((p.startWord / WORD_BITS + (step + 1)) % s.ready.summaries) := by
    have hword := hpass.startWord
    rw [hturns, WORD_BITS]
    refine ⟨Nat.mod_lt _ (by omega), ?_⟩
    by_cases hlt : p.startWord / 64 + (step + 1) < s.ready.turns
    · rw [Nat.mod_eq_of_lt hlt]
      exact Or.inl rfl
    · right
      rw [Nat.mod_eq_sub_mod (Nat.le_of_not_lt hlt), Nat.mod_eq_of_lt (by omega)]
      omega
  have hplaced' := hpass.takeSummary (s.ready.takeSummary
    ((p.startWord / WORD_BITS + (step + 1)) % s.ready.summaries)).2 hstep hmeets
  have hiff : ∀ {ready announced x}, (s.takeSummary p (step + 1)).phase.Awaits s.ready.turns ready
      announced x ↔ Pass.Awaits _ s.ready.turns (step + 1) ready announced x :=
    hplaced'.awaits_rotate rfl hstep
  refine ⟨hplaced'.rotate rfl hstep, ?_, ?_, ?_⟩
  · intro i hi hawaits
    rw [System.Awaits, hphase] at hawaits
    refine hiff.mpr (takeSummary_awaits hpass hmeets htidy.1 (hi.trans_le (slots_le s.ready).2.2)
      ?_ ?_ hawaits)
    · intro heq hannounced
      exact (takeSummary_evidence _ hi hannounced).1 heq
    · intro hne hannounced
      exact (takeSummary_evidence _ hi hannounced).2 hne
  · intro x hx
    rw [System.Pends, hphase]
    exact takeSummary_pends hstep (hiff.mp hx)
  · intro cap polled hcounts
    rw [hphase] at hcounts
    rw [System.takeSummary]
    simp only
    exact resume_counts hcounts

end Takes

/-- A step that visits the slot of the lowest bit of the current word. -/
structure Visits (p : Pass) (next : Next) (report : Harvest) (s : System ν) (e : Event)
    (s' : System ν) : Prop where
  phase : s.phase = .polling p next
  bits : p.guard.currentBits ≠ 0#64
  index : p.index < s.capacity
  phase' : s'.phase = .polling { p.visited with report := report } next
  ready : s'.ready = s.ready
  cursor : s'.cursor = Circle.next s.capacity p.index
  occupied : ∀ i, i ≠ p.index → s'.occupied i = s.occupied i
  deed : (s.occupied p.index = false ∧ s'.occupied p.index = false ∧ report = p.report ∧
      ∀ i done, deed s e s' ≠ .polled i done) ∨
    (s.occupied p.index = true ∧ p.report.polled ≠ p.cap ∧
      report.polled = p.report.polled + 1 ∧ ∃ done, deed s e s' = .polled p.index done)

section Cases

variable {p : Pass} {next : Next} {report : Harvest}

theorem Steered.same {ready : ReadySet} (h : Steered start s)
    (hready : ∀ i, s.ready.isReady i = true → ready.isReady i = true)
    (hannounced : ∀ w, s.ready.InSummary w → ready.InSummary w) :
  Quiet start s s.phase ready
  := ⟨h.placed, fun i _ hawaits => Phase.Awaits.mono hawaits (hready i) (hannounced _),
    fun _ hx => hx, fun _ _ hcounts => hcounts⟩

/-- A bit that names no slot is cleared. -/
theorem Steered.skip (h : Steered start s) (hphase : s.phase = .polling p next)
    (hbits : p.guard.currentBits ≠ 0#64) (hindex : s.capacity ≤ p.index) :
  Quiet start s (.polling p.visited next) s.ready
  := by
  obtain ⟨hplaced, -, -, -⟩ := h
  rw [hphase] at hplaced
  refine ⟨visited_placed p.report hplaced, ?_, ?_, ?_⟩
  · intro i hi hawaits
    rw [System.Awaits, hphase] at hawaits
    refine awaits_visited hawaits ?_
    intro heq
    have hplace := place_index hplaced hbits
    have hsame := Circle.place_inj (hi.trans_le (slots_le s.ready).2.2) (index_lt hplaced hbits)
      (heq.trans hplace.symm)
    omega
  · intro x hx
    rw [System.Pends, hphase]
    exact visited_awaits hx
  · intro cap polled hcounts
    rw [hphase] at hcounts
    exact hcounts

variable [DecidableEq ν] {e : Event}

omit [DecidableEq ν] in
/-- A step that visits no slot polls none. -/
theorem Quiet.deed {ready : ReadySet} (h : Quiet start s s'.phase ready) (i : ℕ) (done : Bool) :
  deed s e s' ≠ .polled i done
  := by
  intro hpolled
  obtain ⟨pass, next, pass', next', hphase, hphase', hcount, -⟩ := deed_polled hpolled
  have hcounts := h.counts pass.cap pass.report.polled (by rw [hphase]; exact ⟨rfl, rfl⟩)
  rw [hphase'] at hcounts
  have hsame := hcounts.2
  omega

/-- While a harvest scans, a step visits the next slot or no slot. -/
theorem scan_cases (h : Steered start s) (hstep : Step s e s') (hbusy : s.phase ≠ .idle)
    (hscans : s'.phase.Scans) :
  (Quiet start s s'.phase s'.ready ∧ s'.cursor = s.cursor ∧ s'.occupied = s.occupied) ∨
    ∃ p next report, Visits p next report s e s'
  := by
  have hbefore := scans_back hstep hbusy hscans
  have hnot : ∀ {phase : Phase}, s.phase = phase → ¬ phase.Scans → False := by
    intro phase hphase hnone
    rw [hphase] at hbefore
    exact hnone hbefore
  cases hstep with
  | notifyClosed _ _ _ => exact Or.inl ⟨h.same (fun _ hr => hr) fun _ ha => ha, rfl, rfl⟩
  | notify _ _ _ => exact Or.inl ⟨h.same (fun _ hr => hr) fun _ ha => ha, rfl, rfl⟩
  | mark _ =>
    exact Or.inl ⟨h.same (fun _ hr => isReady_fetchOr (Or.inl hr)) fun _ ha => ha, rfl, rfl⟩
  | announce _ =>
    exact Or.inl ⟨h.same (fun _ hr => hr) fun _ ha => inSummary_announce.mpr (Or.inl ha), rfl, rfl⟩
  | ring _ => exact Or.inl ⟨h.same (fun _ hr => hr) fun _ ha => ha, rfl, rfl⟩
  | register hphase => exact (hbusy hphase).elim
  | push hphase _ => exact (hbusy hphase).elim
  | pushFull hphase _ => exact (hbusy hphase).elim
  | pushMark hphase => exact (hnot hphase id).elim
  | pushAnnounce hphase => exact (hnot hphase id).elim
  | harvest hphase => exact (hbusy hphase).elim
  | takeSingle hphase => exact Or.inl ⟨h.takeSplit (Or.inl ⟨hphase, rfl, rfl⟩), rfl, rfl⟩
  | takeFirst hphase => exact Or.inl ⟨h.takeFirst hphase, rfl, rfl⟩
  | takeStart hphase => exact Or.inl ⟨h.takeSplit (Or.inr ⟨hphase, rfl, rfl⟩), rfl, rfl⟩
  | takeSummary hphase => exact Or.inl ⟨h.takeSummary hphase, rfl, rfl⟩
  | takeWord hphase => exact Or.inl ⟨h.takeWord hphase, rfl, rfl⟩
  | resume hphase hzero => exact Or.inl ⟨h.resume hphase hzero, rfl, rfl⟩
  | skip hphase hbits hindex => exact Or.inl ⟨h.skip hphase hbits hindex, rfl, rfl⟩
  | @stale p next hphase hbits hindex hfree =>
    refine Or.inr ⟨p, next, p.report, ⟨hphase, hbits, hindex, rfl, rfl, rfl, fun _ _ => rfl,
      Or.inl ⟨hfree, hfree, rfl, ?_⟩⟩⟩
    intro i done hpolled
    obtain ⟨pass, _, pass', _, hold, hnew, hcount, -⟩ := deed_polled hpolled
    cases hphase.symm.trans hold
    cases hnew
    exact absurd hcount (Nat.succ_ne_self _).symm
  | @pending p next hphase hbits hindex hoccupied hcap =>
    exact Or.inr ⟨p, next, _, ⟨hphase, hbits, hindex, rfl, rfl, rfl, fun _ _ => rfl,
      Or.inr ⟨hoccupied, hcap, rfl, false, deed_pending hphase⟩⟩⟩
  | @finished p next hphase hbits hindex hoccupied hcap =>
    exact Or.inr ⟨p, next, _, ⟨hphase, hbits, hindex, rfl, rfl, rfl,
      fun i hne => Function.update_of_ne hne .., Or.inr ⟨hoccupied, hcap, rfl, true,
      deed_finished hphase⟩⟩⟩
  | truncate _ _ _ _ _ => exact hscans.elim
  | pollPanics _ _ _ _ _ => exact hscans.elim
  | outPanics _ _ _ _ _ => exact hscans.elim
  | restoreCurrent hphase => exact (hnot hphase id).elim
  | announceCurrent hphase => exact (hnot hphase id).elim
  | restoreDeferred hphase => exact (hnot hphase id).elim
  | announceDeferred hphase => exact (hnot hphase id).elim
  | restoreSummary hphase => exact (hnot hphase id).elim
  | restoreDeferredSummary hphase => exact (hnot hphase id).elim
  | restoreRing hphase => exact (hnot hphase id).elim
  | check _ _ => exact absurd hscans (Nat.succ_ne_zero _)
  | report _ _ => exact hscans.elim
  | close hphase => exact (hbusy hphase).elim

/-- How a harvest ends its scan. -/
inductive Ends (s : System ν) (e : Event) (s' : System ν) : Prop
  /-- As many futures were polled as may be. -/
  | truncates {p : Pass} {next : Next} : s.phase = .polling p next → p.guard.currentBits ≠ 0#64 →
      p.index < s.capacity → s.occupied p.index = true → p.report.polled = p.cap → e = .other →
      s' = s.restore p.truncated false → Ends s e s'
  /-- A future or the callback that takes its output panics. -/
  | unwinds {p : Pass} {hadWork : Bool} : s'.phase = .restoring p .current true hadWork →
      s'.cursor = s.cursor → e = .other → Ends s e s'
  /-- All was visited. -/
  | checks {report : Harvest} : s.phase = .checking 0 report → Ends s e s'

theorem end_cases (hscans : s.phase.Scans) (hstep : Step s e s') (hends : ¬ s'.phase.Scans) :
  Ends s e s'
  := by
  have hnot : ∀ {phase : Phase}, s.phase = phase → ¬ phase.Scans → False := by
    intro phase hphase hnone
    rw [hphase] at hscans
    exact hnone hscans
  have hcheck : ∀ {i : ℕ} {report : Harvest}, s.phase = .checking i report →
      s.phase = .checking 0 report := by
    intro i report hphase
    rw [hphase] at hscans
    rw [hphase, show i = 0 from hscans]
  cases hstep with
  | notifyClosed _ _ _ => exact absurd hscans hends
  | notify _ _ _ => exact absurd hscans hends
  | mark _ => exact absurd hscans hends
  | announce _ => exact absurd hscans hends
  | ring _ => exact absurd hscans hends
  | register hphase => exact (hnot hphase id).elim
  | push hphase _ => exact (hnot hphase id).elim
  | pushFull hphase _ => exact (hnot hphase id).elim
  | pushMark hphase => exact (hnot hphase id).elim
  | pushAnnounce hphase => exact (hnot hphase id).elim
  | harvest hphase => exact (hnot hphase id).elim
  | takeSingle _ => exact absurd trivial hends
  | takeFirst _ => exact absurd (takeFirst_scans s _) hends
  | takeStart _ => exact absurd trivial hends
  | takeSummary _ => exact absurd (takeSummary_scans s _ _) hends
  | takeWord _ => exact absurd trivial hends
  | resume _ _ => exact absurd (resume_scans _ _ _) hends
  | skip _ _ _ => exact absurd trivial hends
  | stale _ _ _ _ => exact absurd trivial hends
  | truncate hphase hbits hindex hoccupied hcap =>
    exact .truncates hphase hbits hindex hoccupied hcap rfl rfl
  | pending _ _ _ _ _ => exact absurd trivial hends
  | finished _ _ _ _ _ => exact absurd trivial hends
  | pollPanics _ _ _ _ _ => exact .unwinds rfl rfl rfl
  | outPanics _ _ _ _ _ => exact .unwinds rfl rfl rfl
  | restoreCurrent hphase => exact (hnot hphase id).elim
  | announceCurrent hphase => exact (hnot hphase id).elim
  | restoreDeferred hphase => exact (hnot hphase id).elim
  | announceDeferred hphase => exact (hnot hphase id).elim
  | restoreSummary hphase => exact (hnot hphase id).elim
  | restoreDeferredSummary hphase => exact (hnot hphase id).elim
  | restoreRing hphase => exact (hnot hphase id).elim
  | check hphase _ => exact .checks (hcheck hphase)
  | report hphase _ => exact .checks (hcheck hphase)
  | close hphase => exact (hnot hphase id).elim

end Cases

/-! ### The slots visited -/

/-- A harvest from a slot that visited another last, if any: all that it comes to lies behind. -/
structure Sails (start : ℕ) (last : Option ℕ) (s : System ν) : Prop where
  steered : Steered start s
  slot : ∀ l ∈ last, l < s.capacity
  cursor : s.cursor = last.elim start (Circle.next s.capacity)
  beyond : ∀ i < s.capacity, s.Pends (Circle.place start (4096 * s.ready.turns) i) →
    ∀ l ∈ last, Circle.dist s.capacity start l < Circle.dist s.capacity start i

/-- A step of a harvest that scans. -/
inductive Sailed (start : ℕ) (last : Option ℕ) (s : System ν) (e : Event) (s' : System ν) : Prop
  | quiet : Sails start last s' → Quiet start s s'.phase s'.ready →
      (∀ i < s.capacity, s.Awaits start i → s'.Awaits start i) → s'.cursor = s.cursor →
      s'.occupied = s.occupied → Sailed start last s e s'
  | visit {p : Pass} {next : Next} {report : Harvest} : Visits p next report s e s' →
      Sails start (some p.index) s' →
      (∀ l ∈ last, Circle.dist s.capacity start l < Circle.dist s.capacity start p.index) →
      (∀ i < s.capacity, i ≠ p.index → s.Awaits start i → s'.Awaits start i) →
      Sailed start last s e s'

section Sailing

variable {last : Option ℕ}

/-- The way from the cursor to a slot that is awaited. -/
theorem Sails.dist (h : Sails start last s) (hi : i < s.capacity) (hawaits : s.Awaits start i) :
  Circle.dist s.capacity s.cursor i +
      (last.elim 0 fun l => Circle.dist s.capacity start l + 1) =
    Circle.dist s.capacity start i
  := by
  cases last with
  | none =>
    rw [h.cursor]
    rfl
  | some l =>
    rw [h.cursor]
    exact Circle.dist_next h.steered.start (h.slot l rfl) hi (h.beyond i hi hawaits.pends l rfl)

variable [DecidableEq ν] {e : Event}

theorem Sails.step (h : Sails start last s) (hstep : Step s e s') (hbusy : s.phase ≠ .idle)
    (hscans : s'.phase.Scans) (htidy : s'.phase.Tidy) :
  Sailed start last s e s'
  := by
  have hslots : s'.ready.slots = s.ready.slots := slots_step hstep
  have hcapacity : s'.capacity = s.capacity := hslots
  have hturns : s'.ready.turns = s.ready.turns := turns_congr hslots
  have hblank := blank_step h.steered.blank hstep
  have hstart : start < s'.capacity := h.steered.start.trans_eq hcapacity.symm
  rcases scan_cases h.steered hstep hbusy hscans with ⟨hquiet, hcursor, hoccupied⟩ | hvisits
  · refine .quiet ⟨⟨?_, htidy, hblank, hstart⟩, ?_, ?_, ?_⟩ hquiet ?_ hcursor hoccupied
    · rw [hturns]
      exact hquiet.placed
    · rw [hcapacity]
      exact h.slot
    · rw [hcursor, hcapacity]
      exact h.cursor
    · intro i hi hpends
      rw [System.Pends, hturns] at hpends
      rw [hcapacity] at hi ⊢
      exact h.beyond i hi (hquiet.pends _ hpends)
    · intro i hi hawaits
      rw [System.Awaits, hturns]
      exact hquiet.awaits i hi hawaits
  · obtain ⟨p, next, report, hvisits⟩ := hvisits
    have hplaced : (Phase.polling p next).Placed start s.ready.turns := by
      rw [← hvisits.phase]
      exact h.steered.placed
    have hblankp : (Phase.polling p next).Blank := by
      rw [← hvisits.phase]
      exact h.steered.blank
    have hplace := place_index hplaced hvisits.bits
    have hlt : ∀ i < s.capacity, s'.Pends (Circle.place start (4096 * s.ready.turns) i) →
        Circle.dist s.capacity start p.index < Circle.dist s.capacity start i := by
      intro i hi hpends
      rw [System.Pends, hturns, hvisits.phase'] at hpends
      rw [Circle.dist_lt_dist_iff h.steered.start hvisits.index hi (slots_le s.ready).2.2, hplace]
      exact here_lt hplaced hblankp hvisits.bits hpends
    refine .visit hvisits ⟨⟨?_, htidy, hblank, hstart⟩, ?_, ?_, ?_⟩ ?_ ?_
    · rw [hturns, hvisits.phase']
      exact visited_placed report hplaced
    · rintro l hl
      cases hl
      rw [hcapacity]
      exact hvisits.index
    · rw [hcapacity]
      exact hvisits.cursor
    · intro i hi hpends l hl
      cases hl
      rw [hcapacity] at hi ⊢
      rw [hturns] at hpends
      exact hlt i hi hpends
    · apply h.beyond p.index hvisits.index
      rw [System.Pends, hvisits.phase, hplace]
      exact awaits_here hvisits.bits
    · intro i hi hne hawaits
      rw [System.Awaits, hvisits.phase] at hawaits
      rw [System.Awaits, hturns, hvisits.phase', hvisits.ready]
      apply awaits_visited hawaits
      intro heq
      exact hne (Circle.place_inj (hi.trans_le (slots_le s.ready).2.2)
        (index_lt hplaced hvisits.bits) (heq.trans hplace.symm))

end Sailing

/-! ### The begin of a harvest -/

section Begins

theorem begin_phase (s : System ν) (cap : ℕ) : ∃ p : Pass, p.guard = Guard.new ∧
  p.startWord = s.cursor / 64 ∧ p.startBit = s.cursor % 64 ∧ p.cap = cap ∧ p.report.polled = 0 ∧
    (((cap = 0 ∨ s.capacity = 0) ∧ s.begin cap = .checking 0 p.report) ∨
      (s.ready.wordCount = 1 ∧ s.begin cap = .taking p) ∨
      (s.ready.wordCount ≠ 1 ∧ s.begin cap = .takingSummary p 0))
  := by
  refine ⟨⟨cap, s.cursor / 64, s.cursor % 64, Guard.new, ⟨0, 0, false⟩⟩, rfl, rfl, rfl, rfl, rfl, ?_⟩
  rw [System.begin]
  simp only
  split
  · rename_i hnone
    exact Or.inl ⟨hnone, rfl⟩
  · split
    · rename_i hone
      exact Or.inr (Or.inl ⟨hone, rfl⟩)
    · rename_i hmany
      exact Or.inr (Or.inr ⟨hmany, rfl⟩)

theorem begin_counts (cap : ℕ) :
  (s.begin cap).Counts cap 0
  := by
  obtain ⟨p, -, -, -, hcap, hpolled, ⟨-, hphase⟩ | ⟨-, hphase⟩ | ⟨-, hphase⟩⟩ := begin_phase s cap
  · rw [hphase]
    exact hpolled
  · rw [hphase]
    exact ⟨hcap, hpolled⟩
  · rw [hphase]
    exact ⟨hcap, hpolled⟩

theorem new_placed {p : Pass} (hcursor : s.cursor < s.capacity) (hguard : p.guard = Guard.new)
    (hword : p.startWord = s.cursor / 64) (hbit : p.startBit = s.cursor % 64) :
  p.Placed s.cursor s.ready.turns 0
  := by
  have hslots := (slots_le s.ready).2.2
  rw [System.capacity] at hcursor
  have hnone : ∀ {b}, ¬ (0#64).getLsbD b = true := by
    intro b hb
    rw [BitVec.getLsbD_zero] at hb
    cases hb
  refine ⟨by omega, by omega, by omega, Nat.zero_le _, ?_, ?_, ?_⟩
  · intro b hb
    rw [hguard] at hb
    exact absurd hb hnone
  · intro b hb
    rw [hguard] at hb
    exact absurd hb hnone
  · intro b hb
    rw [hguard] at hb
    exact absurd hb hnone

/-- A harvest begins. -/
theorem begin_sails (cap : ℕ) (hcursor : s.cursor < s.capacity) :
  Sails s.cursor none (s.setPhase (s.begin cap))
  := by
  obtain ⟨p, hguard, hword, hbit, -, -, hcases⟩ := begin_phase s cap
  have hplaced := new_placed hcursor hguard hword hbit
  have hslots := slots_le s.ready
  rw [System.capacity] at hcursor
  refine ⟨⟨?_, ?_, begin_blank cap, hcursor⟩, (fun l hl => nomatch hl), rfl,
    (fun i _ _ l hl => nomatch hl)⟩
  · show (s.begin cap).Placed s.cursor s.ready.turns
    rcases hcases with ⟨-, hphase⟩ | ⟨hone, hphase⟩ | ⟨-, hphase⟩
    · rw [hphase]
      trivial
    · have hturns : s.ready.turns = 1 := by
        rw [ReadySet.turns, ReadySet.summaries, hone]
        rfl
      rw [hphase]
      exact ⟨hplaced, hturns, by omega⟩
    · rw [hphase]
      exact hplaced
  · show (s.begin cap).Tidy
    rcases hcases with ⟨-, hphase⟩ | ⟨-, hphase⟩ | ⟨-, hphase⟩
    · rw [hphase]
      trivial
    · rw [hphase, Phase.Tidy, hguard]
      exact ⟨rfl, rfl⟩
    · rw [hphase, Phase.Tidy, hguard]
      exact ⟨rfl, fun _ => rfl⟩

/-- A harvest that may poll comes to every slot that is ready and announced. -/
theorem begin_awaits {cap : ℕ} (hcap : cap ≠ 0) (hcursor : s.cursor < s.capacity)
    (hi : i < s.capacity) (hready : s.ready.isReady i = true)
    (hannounced : 1 < s.ready.wordCount → s.ready.InSummary (i / WORD_BITS)) :
  (s.setPhase (s.begin cap)).Awaits s.cursor i
  := by
  obtain ⟨p, hguard, hword, hbit, -, -, hcases⟩ := begin_phase s cap
  have hplaced := new_placed hcursor hguard hword hbit
  have hslots := slots_le s.ready
  have hwide : i < 4096 * s.ready.turns := hi.trans_le hslots.2.2
  rw [System.capacity] at hi hcursor
  show (s.begin cap).Awaits s.ready.turns _ _ _
  rcases hcases with ⟨hnone, -⟩ | ⟨hone, hphase⟩ | ⟨hmany, hphase⟩
  · rw [System.capacity] at hnone
    omega
  · rw [hphase]
    exact Or.inl ⟨hready, (startWord_iff hplaced hwide).mp (by omega)⟩
  · rw [hphase]
    exact ⟨hready, hannounced (by omega)⟩

end Begins

end Grommet.Outstanding
