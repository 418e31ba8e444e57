import Grommet.Runtime.Outstanding.Course
import Grommet.Runtime.Outstanding.Unwinding

/-!
# Fairness under waking

When a wake is one indivisible act, it may come between any two steps of the owner and never
leaves a word unannounced.  A slot that is ready when a harvest begins is then polled after at
most as many polls of others as it is behind the cursor, however often the others are woken
again and however small the caps are.
-/

namespace Grommet.Outstanding

variable {ν : Type} {s s' s₀ : System ν} {e : Event} {slot j i capacity : ℕ}

/-! ### Wakes -/

/-- A slot waker marks its slot, announces its word and rings the owner in one act. -/
def System.wake (s : System ν) (slot : ℕ) : System ν :=
  if s.bell.closed then
    s
  else
    let previous := s.ready.words (slot / WORD_BITS)
    let marked := s.mark slot
    let announced := if s.ready.announces previous then marked.announce (slot / WORD_BITS) else marked
    if previous &&& oneBit (slot % WORD_BITS) = 0#64 then announced.ring else announced

/-- A wake adds readiness and leaves the owner and its slots alone. -/
theorem wake_spec (s : System ν) (slot : ℕ) :
  (s.wake slot).phase = s.phase ∧ (s.wake slot).occupied = s.occupied ∧
    (s.wake slot).cursor = s.cursor ∧ (s.wake slot).stage = s.stage ∧
    (s.wake slot).ready.slots = s.ready.slots ∧
    (∀ i, s.ready.isReady i = true → (s.wake slot).ready.isReady i = true) ∧
    (∀ w, s.ready.InSummary w → (s.wake slot).ready.InSummary w)
  := by
  have hmark : ∀ i, s.ready.isReady i = true → (s.mark slot).ready.isReady i = true :=
    fun i hi => isReady_fetchOr (Or.inl hi)
  have hannounce : ∀ w, s.ready.InSummary w →
      ((s.mark slot).announce (slot / WORD_BITS)).ready.InSummary w :=
    fun w hw => inSummary_announce.mpr (Or.inl hw)
  rw [System.wake]
  split
  · exact ⟨rfl, rfl, rfl, rfl, rfl, fun _ h => h, fun _ h => h⟩
  · simp only
    split <;> split
    · exact ⟨rfl, rfl, rfl, rfl, rfl, hmark, hannounce⟩
    · exact ⟨rfl, rfl, rfl, rfl, rfl, hmark, fun _ h => h⟩
    · exact ⟨rfl, rfl, rfl, rfl, rfl, hmark, hannounce⟩
    · exact ⟨rfl, rfl, rfl, rfl, rfl, hmark, fun _ h => h⟩

variable [DecidableEq ν]

theorem setStage_setStage {n : ν} {stage stage' : Stage} :
  (s.setStage n stage).setStage n stage' = s.setStage n stage'
  := by
  rw [System.setStage, System.setStage, System.setStage]
  simp only [Function.update_idem]

/-- A wake is a run of an idle notifier. -/
theorem wake_run {n : ν} (hidle : s.stage n = .idle) (hslot : slot < s.capacity) :
  ∃ trace, Trail Step s trace (s.wake slot)
  := by
  have hself : ∀ {s : System ν} {stage}, (s.setStage n stage).stage n = stage :=
    Function.update_self ..
  have hend : ∀ {s' : System ν} {trace}, s'.stage = s.stage →
      Trail Step s trace (s'.setStage n .idle) → ∃ trace, Trail Step s trace s' := by
    intro s' trace hstage htrail
    have heq : s'.setStage n .idle = s' := by
      rw [System.setStage, ← hidle, ← hstage, Function.update_eq_self]
    rw [heq] at htrail
    exact ⟨trace, htrail⟩
  rw [System.wake]
  cases hclosed : s.bell.closed with
  | true => exact ⟨_, .nil⟩
  | false =>
    have hnotify := Trail.nil.snoc (Step.notify hidle hslot hclosed)
    have hmark := hnotify.snoc (Step.mark hself)
    have hmarked : (s.setStage n (.marking slot)).marked slot = s.marked slot := rfl
    have hstate : ((s.setStage n (.marking slot)).mark slot) =
      (s.mark slot).setStage n (.marking slot) := rfl
    rw [hmarked, hstate, setStage_setStage] at hmark
    have hring : ∀ {s' : System ν} {trace}, s'.stage = s.stage →
        Trail Step s trace (s'.setStage n .ringing) → ∃ trace, Trail Step s trace s'.ring := by
      intro s' trace hstage htrail
      have hrung := htrail.snoc (Step.ring hself)
      have hstate : (s'.setStage n .ringing).ring = s'.ring.setStage n .ringing := rfl
      rw [hstate, setStage_setStage] at hrung
      exact hend hstage hrung
    simp only [Bool.false_eq_true, if_false]
    cases hannounces : s.ready.announces (s.ready.words (slot / WORD_BITS)) with
    | true =>
      have hzero : s.ready.words (slot / WORD_BITS) = 0#64 := by
        rw [ReadySet.announces, Bool.and_eq_true, decide_eq_true_eq] at hannounces
        exact hannounces.1
      have hclear : s.ready.words (slot / WORD_BITS) &&& oneBit (slot % WORD_BITS) = 0#64 := by
        rw [hzero, BitVec.zero_and]
      rw [System.marked, hannounces] at hmark
      have hannounced := hmark.snoc (Step.announce hself)
      have hstate : ∀ {stage word}, ((s.mark slot).setStage n stage).announce word =
        ((s.mark slot).announce word).setStage n stage := rfl
      rw [if_pos rfl, hstate, setStage_setStage] at hannounced
      rw [if_pos rfl, if_pos hclear]
      exact hring rfl hannounced
    | false =>
      rw [System.marked, hannounces] at hmark
      simp only [Bool.false_eq_true, if_false] at hmark ⊢
      split
      · rename_i hclear
        rw [if_pos hclear] at hmark
        exact hring rfl hmark
      · rename_i hset
        rw [if_neg hset] at hmark
        exact hend rfl hmark

/-! ### Runs in which a wake is one act -/

/-- The owner is not in a harvest. -/
def Phase.Rests : Phase → Prop
  | .idle => True
  | .marking _ => True
  | .announcing _ => True
  | .gone => True
  | _ => False

/-- An act of a system in which wakes are indivisible: a wake, or a step of the owner, which
harvests with a cap of one at least. -/
inductive Acts (s : System ν) : Deed → System ν → Prop
  | wake {n : ν} {slot : ℕ} : s.stage n = .idle → slot < s.capacity → Acts s .other (s.wake slot)
  | harvest {cap : ℕ} : s.phase = .idle → cap ≠ 0 → Acts s .other (s.setPhase (s.begin cap))
  | owner {e : Event} {s' : System ν} : Step s e s' → s'.stage = s.stage →
      (s.phase = .idle → s'.phase.Rests) → Acts s (deed s e s') s'

theorem Acts.stage {d : Deed} (h : Acts s d s') :
  s'.stage = s.stage
  := by
  cases h with
  | wake _ _ => exact (wake_spec s _).2.2.2.1
  | harvest _ _ => rfl
  | owner _ hstage _ => exact hstage

theorem acts_run {deeds : List Deed} (h : Trail Acts s deeds s') :
  (∃ trace, Trail Step s trace s') ∧ s'.stage = s.stage
  := by
  induction h with
  | nil => exact ⟨⟨[], .nil⟩, rfl⟩
  | snoc _ hact ih =>
    obtain ⟨⟨trace, htrail⟩, hstage⟩ := ih
    refine ⟨?_, hact.stage.trans hstage⟩
    cases hact with
    | wake hidle hslot =>
      obtain ⟨trace', htrail'⟩ := wake_run hidle hslot
      exact ⟨_, htrail.trans htrail'⟩
    | harvest hidle _ => exact ⟨_, htrail.snoc (.harvest hidle)⟩
    | owner hstep _ _ => exact ⟨_, htrail.snoc hstep⟩

/-- An act that keeps the future of a slot in its place. -/
def Keeps (j : ℕ) (s : System ν) (d : Deed) (s' : System ν) : Prop :=
  Acts s d s' ∧ s'.occupied j = true

/-- The polls in a list of deeds. -/
def polls (deeds : List Deed) : ℕ :=
  deeds.countP fun
    | .polled _ _ => true
    | _ => false

/-- The harvests that returned. -/
def returns (deeds : List Deed) : ℕ :=
  deeds.countP fun
    | .returned _ => true
    | _ => false

/-! ### Between harvests -/

omit [DecidableEq ν] in
theorem begin_not_rests (cap : ℕ) :
  ¬ (s.begin cap).Rests
  := by
  obtain ⟨p, -, -, -, -, -, ⟨-, hphase⟩ | ⟨-, hphase⟩ | ⟨-, hphase⟩⟩ := begin_phase s cap <;>
    rw [hphase] <;> exact id

/-- Between harvests no bit is cleared and the cursor stands. -/
theorem rest_step (hrests : s.phase.Rests) (hrests' : s.phase = .idle → s'.phase.Rests)
    (hstep : Step s e s') :
  s'.phase.Rests ∧ s'.cursor = s.cursor ∧ (s.ready.isReady i = true → s'.ready.isReady i = true) ∧
    deed s e s' = .other
  := by
  have hnot : ∀ {phase : Phase}, s.phase = phase → ¬ phase.Rests → False := by
    intro phase hphase hnone
    rw [hphase] at hrests
    exact hnone hrests
  have hdeed : ∀ {e} {s' : System ν}, (∀ report, e ≠ .reported report) → deed s e s' = .other := by
    intro e s' hne
    apply deed_other hne
    intro i done hpolled
    obtain ⟨_, _, _, _, hphase, -⟩ := deed_polled hpolled
    exact hnot hphase id
  have hother : ∀ report, Event.other ≠ .reported report := fun _ => Event.noConfusion
  have hmark : ∀ {word bits}, s.ready.isReady i = true →
      (s.ready.fetchOr word bits).isReady i = true := fun hi => isReady_fetchOr (Or.inl hi)
  cases hstep with
  | notifyClosed _ _ _ => exact ⟨hrests, rfl, id, hdeed hother⟩
  | notify _ _ _ => exact ⟨hrests, rfl, id, hdeed hother⟩
  | mark _ => exact ⟨hrests, rfl, hmark, hdeed hother⟩
  | announce _ => exact ⟨hrests, rfl, id, hdeed hother⟩
  | ring _ => exact ⟨hrests, rfl, id, hdeed (rung_ne s)⟩
  | register _ => exact ⟨hrests, rfl, id, hdeed fun _ => Event.noConfusion⟩
  | push _ _ => exact ⟨trivial, rfl, id, hdeed fun _ => Event.noConfusion⟩
  | pushFull _ _ => exact ⟨hrests, rfl, id, hdeed hother⟩
  | pushMark _ =>
    refine ⟨?_, rfl, hmark, hdeed hother⟩
    show (if _ then _ else _ : Phase).Rests
    split <;> trivial
  | pushAnnounce _ => exact ⟨trivial, rfl, id, hdeed hother⟩
  | harvest hphase =>
    exact (begin_not_rests _ (hrests' hphase)).elim
  | close _ => exact ⟨trivial, rfl, id, hdeed fun _ => Event.noConfusion⟩
  | takeSingle hphase => exact (hnot hphase id).elim
  | takeFirst hphase => exact (hnot hphase id).elim
  | takeStart hphase => exact (hnot hphase id).elim
  | takeSummary hphase => exact (hnot hphase id).elim
  | takeWord hphase => exact (hnot hphase id).elim
  | resume hphase _ => exact (hnot hphase id).elim
  | skip hphase _ _ => exact (hnot hphase id).elim
  | stale hphase _ _ _ => exact (hnot hphase id).elim
  | truncate hphase _ _ _ _ => exact (hnot hphase id).elim
  | pending hphase _ _ _ _ => exact (hnot hphase id).elim
  | finished hphase _ _ _ _ => exact (hnot hphase id).elim
  | pollPanics hphase _ _ _ _ => exact (hnot hphase id).elim
  | outPanics hphase _ _ _ _ => exact (hnot hphase id).elim
  | restoreCurrent hphase => exact (hnot hphase id).elim
  | announceCurrent hphase => exact (hnot hphase id).elim
  | restoreDeferred hphase => exact (hnot hphase id).elim
  | announceDeferred hphase => exact (hnot hphase id).elim
  | restoreSummary hphase => exact (hnot hphase id).elim
  | restoreDeferredSummary hphase => exact (hnot hphase id).elim
  | restoreRing hphase => exact (hnot hphase id).elim
  | check hphase _ => exact (hnot hphase id).elim
  | report hphase _ => exact (hnot hphase id).elim

/-! ### A slot that waits -/

/-- Where a slot that is ready stands, and how many harvests have returned and how many polls they
made: every harvest that returns made one at least. -/
inductive Waits (j : ℕ) (s : System ν) (returned polled : ℕ) : Prop
  | rests : s.phase.Rests → s.ready.isReady j = true → returned ≤ polled → Waits j s returned polled
  | scans {start cap count : ℕ} {last : Option ℕ} : s.phase.Scans → Sails start last s →
      s.Awaits start j → s.Retains j → s.phase.Counts cap count → cap ≠ 0 →
      returned + min 1 count ≤ polled →
      Waits j s returned polled
  | restores {pass : Pass} {part : Restore} {wakeOwner hadWork : Bool} :
      s.phase = .restoring pass part wakeOwner hadWork → s.Retains j → returned ≤ polled →
      (wakeOwner = false → returned < polled) → Waits j s returned polled

/-- The next state of a slot that waits, with what the step adds to the numbers: the way from the
cursor to the slot becomes shorter by every poll. -/
def Nears (j : ℕ) (s : System ν) (d : Deed) (s' : System ν) (returned polled : ℕ) : Prop :=
  Waits j s' (returned + returns [d]) (polled + polls [d]) ∧
    Circle.dist s.capacity s'.cursor j + polls [d] ≤ Circle.dist s.capacity s.cursor j

section Waiting

variable {returned polled : ℕ}

theorem Waits.restore {pass : Pass} {part : Restore} {wakeOwner hadWork : Bool}
    (hphase : s.phase = .restoring pass part wakeOwner hadWork) (hretains : s.Retains j)
    (hj : j < s.capacity)
    (hreturned : returned ≤ polled) (hpolled : wakeOwner = false → returned < polled)
    (hstep : Step s e s') :
  Nears j s (deed s e s') s' returned polled
  := by
  have hretains' := hretains.restoring hphase hj hstep
  obtain ⟨-, hcursor, hcases⟩ := restoring_step hphase hstep
  have hdeed : (∀ report, e ≠ .reported report) → deed s e s' = .other :=
    fun hne => deed_other hne fun i done => deed_restoring hphase
  have hready : s'.phase = .idle → s'.phase.Rests ∧ s'.ready.isReady j = true := by
    intro hidle
    refine ⟨?_, hretains'.ready ?_⟩ <;> rw [hidle]
    · trivial
    · exact id
  rw [Nears, hcursor]
  rcases hcases with ⟨part', hphase', hne⟩ | ⟨hidle, ⟨hwake, rfl⟩ | ⟨rfl, -⟩ | ⟨rfl, -⟩⟩
  · rw [hdeed hne]
    exact ⟨.restores hphase' hretains' hreturned hpolled, le_rfl⟩
  · obtain ⟨hrests, hset⟩ := hready hidle
    exact ⟨.rests hrests hset (hpolled hwake), le_rfl⟩
  · obtain ⟨hrests, hset⟩ := hready hidle
    rw [hdeed fun _ => Event.noConfusion]
    exact ⟨.rests hrests hset hreturned, le_rfl⟩
  · obtain ⟨hrests, hset⟩ := hready hidle
    rw [hdeed (rung_ne s)]
    exact ⟨.rests hrests hset hreturned, le_rfl⟩

omit [DecidableEq ν] in
/-- A slot that is ready waits when a harvest begins. -/
theorem Waits.begin {cap : ℕ} (hset : s.ready.isReady j = true) (hreturned : returned ≤ polled)
    (hcoherent : Coherent s) (hquiet : ∀ n, s.stage n = .idle) (hj : j < s.capacity)
    (hidle : s.phase = .idle) (hcap : cap ≠ 0) :
  Waits j (s.setPhase (s.begin cap)) returned polled
  := by
  have hcursor : s.cursor < s.capacity := hcoherent.partitioned.cursor.resolve_left (by omega)
  have hsummary : 1 < s.ready.wordCount → s.ready.InSummary (j / WORD_BITS) := by
    intro hmany
    apply (hcoherent.announced.announces hidle hj hset hmany).resolve_right
    rintro ⟨n, hn⟩
    rw [hquiet n] at hn
    cases hn
  exact .scans (begin_scans s cap) (begin_sails cap hcursor)
    (begin_awaits hcap hcursor hj hset hsummary) (Or.inl hset) (begin_counts cap) hcap hreturned

theorem Waits.rest (hrests : s.phase.Rests) (hset : s.ready.isReady j = true)
    (hreturned : returned ≤ polled) (hrests' : s.phase = .idle → s'.phase.Rests)
    (hstep : Step s e s') :
  Nears j s (deed s e s') s' returned polled
  := by
  obtain ⟨hrests', hcursor, hmono, hdeed⟩ := rest_step hrests hrests' hstep
  rw [Nears, hcursor, hdeed]
  exact ⟨.rests hrests' (hmono hset) hreturned, le_rfl⟩

theorem Waits.scan {start cap count : ℕ} {last : Option ℕ} (hscans : s.phase.Scans)
    (hsails : Sails start last s) (hawaits : s.Awaits start j) (hretains : s.Retains j)
    (hcounts : s.phase.Counts cap count) (hcap : cap ≠ 0)
    (hreturned : returned + min 1 count ≤ polled) (hj : j < s.capacity)
    (hoccupied : s.occupied j = true) (htidy : s'.phase.Tidy) (hstep : Step s e s')
    (hnever : ∀ done, deed s e s' ≠ .polled j done) :
  Nears j s (deed s e s') s' returned polled
  := by
  have hretains' := hretains.step hsails.steered.blank hj (fun _ _ _ => hoccupied) hstep hnever
  have hbusy : s.phase ≠ .idle := by
    intro hidle
    rw [hidle] at hscans
    exact hscans
  have hcapacity : s'.capacity = s.capacity := slots_step hstep
  have hdist := hsails.dist hj hawaits
  by_cases hscans' : s'.phase.Scans
  · have hreported : ∀ report, e ≠ .reported report := by
      rintro report rfl
      rw [reported_idle hstep] at hscans'
      exact hscans'
    cases hsails.step hstep hbusy hscans' htidy with
    | quiet hsails' hquiet hkeeps hcursor _ =>
      rw [Nears, hcursor, deed_other hreported hquiet.deed]
      exact ⟨.scans hscans' hsails' (hkeeps j hj hawaits) hretains' (hquiet.counts _ _ hcounts) hcap
        hreturned, le_rfl⟩
    | @visit p next report hvisits hsails' hbehind hkeeps =>
      have hne : j ≠ p.index := by
        rintro rfl
        rcases hvisits.deed with ⟨hfree, -⟩ | ⟨-, -, -, done, hpolled⟩
        · rw [hoccupied] at hfree
          cases hfree
        · exact hnever done hpolled
      have hawaits' := hkeeps j hj hne hawaits
      have hdist' := hsails'.dist (hj.trans_eq hcapacity.symm) hawaits'
      rw [hcapacity] at hdist'
      have hnear : Circle.dist s.capacity s'.cursor j < Circle.dist s.capacity s.cursor j := by
        cases last with
        | none =>
          simp only [Option.elim] at hdist hdist'
          omega
        | some l =>
          have hlt := hbehind l rfl
          simp only [Option.elim] at hdist hdist'
          omega
      rw [hvisits.phase] at hcounts
      rcases hvisits.deed with ⟨-, -, hreport, hnot⟩ | ⟨-, -, hcount, done, hpolled⟩
      · rw [Nears, deed_other hreported hnot]
        refine ⟨.scans hscans' hsails' hawaits' hretains' ?_ hcap hreturned, hnear.le⟩
        rw [hvisits.phase', hreport]
        exact hcounts
      · have hcounts' : s'.phase.Counts cap report.polled := by
          rw [hvisits.phase']
          exact ⟨hcounts.1, rfl⟩
        rw [Nears, hpolled]
        refine ⟨.scans hscans' hsails' hawaits' hretains' hcounts' hcap ?_, hnear⟩
        show returned + 0 + min 1 report.polled ≤ polled + 1
        omega
  · have hdeed : e = .other → (∃ pass part wakeOwner hadWork, s'.phase =
        .restoring pass part wakeOwner hadWork) → deed s e s' = .other := by
      rintro rfl ⟨pass, part, wakeOwner, hadWork, hphase'⟩
      apply deed_other fun _ => Event.noConfusion
      intro i done hpolled
      obtain ⟨_, _, _, _, -, hpolling, -⟩ := deed_polled hpolled
      rw [hphase'] at hpolling
      cases hpolling
    cases end_cases hscans hstep hscans' with
    | truncates hphase _ _ _ hfull he hs' =>
      have hphase' := congrArg System.phase hs'
      have hcursor : s'.cursor = s.cursor := by
        rw [hs']
        rfl
      rw [hphase] at hcounts
      obtain ⟨rfl, rfl⟩ := hcounts
      rw [Nears, hcursor, hdeed he ⟨_, _, _, _, hphase'⟩]
      refine ⟨.restores hphase' hretains' (show returned ≤ polled by omega) fun _ => ?_, le_rfl⟩
      show returned < polled
      omega
    | unwinds hphase' hcursor he =>
      rw [Nears, hcursor, hdeed he ⟨_, _, _, _, hphase'⟩]
      exact ⟨.restores hphase' hretains' (show returned ≤ polled by omega) Bool.noConfusion, le_rfl⟩
    | checks hphase =>
      rw [System.Awaits, hphase] at hawaits
      exact hawaits.elim

omit [DecidableEq ν] in
/-- A wake keeps a slot waiting. -/
theorem Waits.wake (h : Waits j s returned polled) (slot : ℕ) :
  Waits j (s.wake slot) returned polled
  := by
  obtain ⟨hphase, -, hcursor, -, hslots, hready, hannounced⟩ := wake_spec s slot
  have hturns := turns_congr hslots
  have hcapacity : (s.wake slot).capacity = s.capacity := hslots
  have hretains : s.Retains j → (s.wake slot).Retains j := by
    rw [System.Retains, System.Retains, hphase]
    exact Or.imp_left (hready j)
  cases h with
  | rests hrests hset hreturned =>
    rw [← hphase] at hrests
    exact .rests hrests (hready j hset) hreturned
  | @scans start cap count last hscans hsails hawaits hretained hcounts hcap hreturned =>
    obtain ⟨⟨hplaced, htidy, hblank, hstart⟩, hslot, hat, hbeyond⟩ := hsails
    have hsails' : Sails start last (s.wake slot) := by
      refine ⟨⟨?_, ?_, ?_, ?_⟩, ?_, ?_, ?_⟩
      · rw [hphase, hturns]
        exact hplaced
      · rw [hphase]
        exact htidy
      · rw [hphase]
        exact hblank
      · rw [hcapacity]
        exact hstart
      · rw [hcapacity]
        exact hslot
      · rw [hcursor, hcapacity]
        exact hat
      · intro i hi hpends
        rw [System.Pends, hphase, hturns] at hpends
        rw [hcapacity] at hi ⊢
        exact hbeyond i hi hpends
    have hawaits' : (s.wake slot).Awaits start j := by
      rw [System.Awaits, hphase, hturns]
      exact Phase.Awaits.mono hawaits (hready j) (hannounced _)
    rw [← hphase] at hscans hcounts
    exact .scans hscans hsails' hawaits' (hretains hretained) hcounts hcap hreturned
  | restores hrestoring hretained hreturned hpolled =>
    rw [← hphase] at hrestoring
    exact .restores hrestoring (hretains hretained) hreturned hpolled

theorem Waits.act {d : Deed} (h : Waits j s returned polled) (hcoherent : Coherent s)
    (hquiet : ∀ n, s.stage n = .idle) (hoccupied : s.occupied j = true) (hact : Acts s d s')
    (hcoherent' : Coherent s') (hnever : ∀ done, d ≠ .polled j done) :
  Nears j s d s' returned polled
  := by
  have hj : j < s.capacity := hcoherent.partitioned.occupied j hoccupied
  cases hact with
  | @wake n slot hidle hslot =>
    refine ⟨h.wake slot, ?_⟩
    rw [(wake_spec s slot).2.2.1]
    exact le_rfl
  | harvest hidle hcap =>
    cases h with
    | rests _ hset hreturned =>
      exact ⟨.begin hset hreturned hcoherent hquiet hj hidle hcap, le_rfl⟩
    | scans hscans _ _ _ _ _ _ =>
      rw [hidle] at hscans
      exact hscans.elim
    | restores hphase _ _ _ =>
      rw [hidle] at hphase
      cases hphase
  | owner hstep _ hrests' =>
    cases h with
    | rests hrests hset hreturned =>
      exact Waits.rest hrests hset hreturned hrests' hstep
    | scans hscans hsails hawaits hretained hcounts hpositive hreturned =>
      exact Waits.scan hscans hsails hawaits hretained hcounts hpositive hreturned hj hoccupied
        hcoherent'.announced.tidy hstep hnever
    | restores hphase hretained hreturned hpolled =>
      exact Waits.restore hphase hretained hj hreturned hpolled hstep

end Waiting

theorem polls_append (deeds : List Deed) (d : Deed) :
  polls (deeds ++ [d]) = polls deeds + polls [d]
  := List.countP_append ..

theorem returns_append (deeds : List Deed) (d : Deed) :
  returns (deeds ++ [d]) = returns deeds + returns [d]
  := List.countP_append ..

/-! ### Runs -/

omit [DecidableEq ν] in
theorem start_quiet (hnew : System.withCapacity capacity = .ok s₀) (n : ν) :
  s₀.stage n = .idle
  := by
  rw [System.withCapacity, Checked.bind_eq_ok] at hnew
  obtain ⟨ready, -, hnew⟩ := hnew
  cases hnew
  rfl

/-- What holds of every set that acts lead to. -/
theorem acts_coherent {deeds : List Deed} (hnew : System.withCapacity capacity = .ok s₀)
    (h : Trail Acts s₀ deeds s) :
  Coherent s ∧ s.capacity = capacity ∧ ∀ n, s.stage n = .idle
  := by
  obtain ⟨⟨trace, hrun⟩, hstage⟩ := acts_run h
  obtain ⟨hcoherent, hcapacity⟩ := run_coherent hnew hrun
  refine ⟨hcoherent, hcapacity, fun n => ?_⟩
  rw [hstage]
  exact start_quiet hnew n

/-- A slot that waits is neared by every act of a run in which it is not polled. -/
theorem waits_run {cap : ℕ} {past deeds : List Deed}
    (hnew : System.withCapacity capacity = .ok s₀) (hpast : Trail Acts s₀ past s)
    (hidle : s.phase = .idle) (hoccupied : s.occupied j = true)
    (hready : s.ready.isReady j = true) (hcap : cap ≠ 0)
    (hrun : Trail (Keeps j) (s.setPhase (s.begin cap)) deeds s')
    (hnever : ∀ done, .polled j done ∉ deeds) :
  s'.occupied j = true ∧ Waits j s' (returns deeds) (polls deeds) ∧
    Circle.dist capacity s'.cursor j + polls deeds ≤ Circle.dist capacity s.cursor j
  := by
  obtain ⟨hcoherent, hcapacity, hquiet⟩ := acts_coherent hnew hpast
  have hj : j < s.capacity := hcoherent.partitioned.occupied j hoccupied
  refine hrun.invariant (fun deeds a => (∀ done, .polled j done ∉ deeds) →
    a.occupied j = true ∧ Waits j a (returns deeds) (polls deeds) ∧
      Circle.dist capacity a.cursor j + polls deeds ≤ Circle.dist capacity s.cursor j) ?_ ?_ hnever
  · exact fun _ => ⟨hoccupied, .begin hready le_rfl hcoherent hquiet hj hidle hcap, le_rfl⟩
  · intro deeds a d b htrail ih hkeeps hnever
    obtain ⟨hocc, hwaits, hdist⟩ := ih fun done hin =>
      hnever done (List.mem_append_left _ hin)
    have hacts := (hpast.snoc (.harvest hidle hcap)).trans (htrail.mono fun _ _ _ hkeeps => hkeeps.1)
    obtain ⟨hcoherent', hcapacity', hquiet'⟩ := acts_coherent hnew hacts
    obtain ⟨hcoherent'', -⟩ := acts_coherent hnew (hacts.snoc hkeeps.1)
    obtain ⟨hwaits', hnear⟩ := hwaits.act hcoherent' hquiet' hocc hkeeps.1 hcoherent'' fun done hd =>
      hnever done (List.mem_append_right _ (List.mem_singleton.mpr hd.symm))
    rw [hcapacity'] at hnear
    rw [returns_append, polls_append]
    exact ⟨hkeeps.2, hwaits', by omega⟩

/-! ### A few futures -/

/-- Every slot of a set of one word holds a future. -/
structure Group (n : ℕ) (s : System ν) (phase : Phase) (word : Word) (cursor : ℕ) : Prop where
  few : 0 < n ∧ n < 64
  opened : s.bell.closed = false
  stands : s.phase = phase
  slots : s.ready.slots = n
  word : s.ready.words 0 = word
  cursor : s.cursor = cursor
  occupied : ∀ i < n, s.occupied i = true

/-- The harvest of one future that took the bits of a word. -/
def Pass.taken (n : ℕ) (word : Word) (cursor : ℕ) : Pass :=
  ⟨1, 0, cursor, ⟨0, 0#64, 0, 0#64, 0, word &&& lowMask n &&& ~~~lowMask cursor, 0,
    word &&& lowMask n &&& lowMask cursor⟩, ⟨0, 0, false⟩⟩

section Groups

variable {n cursor : ℕ} {phase announce next : Phase} {word bits : Word} {pass : Pass}
  {onward : Next} {wakeOwner hadWork : Bool}

omit [DecidableEq ν] in
theorem Group.single (h : Group n s phase word cursor) :
  s.ready.wordCount = 1 ∧ s.ready.summaries = 0 ∧ s.ready.validMask 0 = lowMask n
  := by
  obtain ⟨hpos, hlt⟩ := h.few
  have hcount : s.ready.wordCount = 1 := by
    rw [ReadySet.wordCount, h.slots, divCeil, WORD_BITS]
    omega
  refine ⟨hcount, ?_, ?_⟩
  · rw [ReadySet.summaries, hcount]
    rfl
  · have hmod : s.ready.slots % WORD_BITS = n := by
      rw [h.slots]
      exact Nat.mod_eq_of_lt hlt
    rw [ReadySet.validMask, hcount, hmod]
    exact if_pos ⟨rfl, hpos.ne'⟩

omit [DecidableEq ν] in
theorem Group.ready (h : Group n s phase word cursor) (hbit : word.getLsbD j = true) (hj : j < n) :
  s.ready.isReady j = true
  := by
  have hlt : j < 64 := hj.trans h.few.2
  rw [ReadySet.isReady, WORD_BITS, Nat.div_eq_of_lt hlt, Nat.mod_eq_of_lt hlt, h.word]
  exact hbit

omit [DecidableEq ν] in
/-- A slot waker marks its slot. -/
theorem Group.wake {slot : ℕ} (h : Group n s .idle word cursor) (hslot : slot < n) :
  Group n (s.wake slot) .idle (word ||| oneBit slot) cursor
  := by
  obtain ⟨hphase, hoccupied, hcursor, -, hslots, -, -⟩ := wake_spec s slot
  have hlt : slot < 64 := hslot.trans h.few.2
  have hword : (s.mark slot).ready.words 0 = word ||| oneBit slot := by
    show Function.update s.ready.words (slot / WORD_BITS) (s.ready.words (slot / WORD_BITS) |||
      oneBit (slot % WORD_BITS)) 0 = _
    rw [WORD_BITS, Nat.div_eq_of_lt hlt, Nat.mod_eq_of_lt hlt, Function.update_self, h.word]
  have hmarked : (s.wake slot).bell.closed = false ∧
      (s.wake slot).ready.words 0 = word ||| oneBit slot := by
    rw [System.wake, if_neg (by rw [h.opened]; exact Bool.false_ne_true)]
    simp only
    split <;> split
    · exact ⟨ring_closed.trans h.opened, hword⟩
    · exact ⟨ring_closed.trans h.opened, hword⟩
    · exact ⟨h.opened, hword⟩
    · exact ⟨h.opened, hword⟩
  refine ⟨h.few, hmarked.1, hphase.trans h.stands, hslots.trans h.slots, hmarked.2,
    hcursor.trans h.cursor, ?_⟩
  rw [hoccupied]
  exact h.occupied

/-- A step of the owner in which no future is polled and no harvest returns. -/
theorem Keeps.quiet (hstep : Step s e s') (hstage : s'.stage = s.stage) (hphase : s.phase = phase)
    (hbusy : phase ≠ .idle) (hpolling : ∀ pass next, phase ≠ .polling pass next)
    (he : ∀ report, e ≠ .reported report) (hoccupied : s'.occupied j = true) :
  Keeps j s .other s'
  := by
  have hdeed : deed s e s' = .other := by
    apply deed_other he
    intro i done hpolled
    obtain ⟨pass, next, _, _, hin, -⟩ := deed_polled hpolled
    exact hpolling pass next (hphase.symm.trans hin)
  rw [← hdeed]
  exact ⟨.owner hstep hstage fun hidle => (hbusy (hphase.symm.trans hidle)).elim, hoccupied⟩

/-- A harvest takes the word. -/
theorem Group.take (h : Group n s .idle word cursor) (hcursor : cursor < 64) (hj : j < n) :
  ∃ a, Keeps j (s.setPhase (s.begin 1)) .other a ∧
    Group n a (.polling (.taken n word cursor) .single) 0#64 cursor
  := by
  obtain ⟨hwords, -, hmask⟩ := h.single
  have hbegin : s.begin 1 = .taking ⟨1, 0, cursor, Guard.new, ⟨0, 0, false⟩⟩ := by
    rw [System.begin, System.capacity, h.slots, h.cursor, hwords, WORD_BITS,
      Nat.div_eq_of_lt hcursor, Nat.mod_eq_of_lt hcursor]
    exact (if_neg (by have := h.few; omega)).trans (if_pos rfl)
  rw [hbegin]
  refine ⟨_, .quiet (.takeSingle rfl) rfl rfl (by rintro ⟨⟩) (by rintro _ _ ⟨⟩) (by rintro _ ⟨⟩)
    (h.occupied j hj), h.few, h.opened, ?_, h.slots, ?_, h.cursor, h.occupied⟩
  · show Phase.polling ⟨1, 0, cursor, ⟨0, 0#64, 0, 0#64, 0, s.ready.words 0 &&&
      s.ready.validMask 0 &&& ~~~lowMask cursor, 0, s.ready.words 0 &&& s.ready.validMask 0 &&&
      lowMask cursor⟩, ⟨0, 0, false⟩⟩ .single = _
    rw [hmask, h.word]
    rfl
  · show Function.update s.ready.words 0 0#64 0 = 0#64
    exact Function.update_self ..

/-- A future is polled and is not ready. -/
theorem Group.polled (h : Group n s (.polling pass onward) word cursor)
    (hbits : pass.guard.currentBits ≠ 0#64) (hindex : pass.index + 1 < n)
    (hcap : pass.report.polled ≠ pass.cap) (hj : j < n) :
  ∃ a, Keeps j s (.polled pass.index false) a ∧
    Group n a (.polling pass.polled.visited onward) word (pass.index + 1)
  := by
  have hlt : pass.index < n := Nat.lt_of_succ_lt hindex
  have hcapacity : s.capacity = n := h.slots
  have hstep := Step.pending h.stands hbits (hcapacity ▸ hlt) (h.occupied _ hlt) hcap
  have hdeed : deed s .other ((s.advanceCursor pass.index).setPhase
      (.polling pass.polled.visited onward)) = .polled pass.index false := by
    unfold deed
    rw [h.stands]
    apply (if_pos (rfl : pass.polled.report.polled = pass.report.polled + 1)).trans
    exact congrArg (Deed.polled pass.index) (decide_eq_false (Nat.succ_ne_self _).symm)
  refine ⟨(s.advanceCursor pass.index).setPhase (.polling pass.polled.visited onward),
    ⟨?_, h.occupied j hj⟩, h.few, h.opened, rfl, h.slots, h.word, ?_, h.occupied⟩
  · rw [← hdeed]
    exact .owner hstep rfl fun hidle => (nomatch h.stands.symm.trans hidle)
  · show (if pass.index + 1 = s.capacity then 0 else pass.index + 1) = pass.index + 1
    rw [hcapacity, if_neg hindex.ne]

omit [DecidableEq ν] in
theorem Group.restoreWord {w : ℕ} (h : Group n s phase word cursor) (hw : w = 0) :
  Group n (s.restoreWord w bits announce next) next (word ||| (bits &&& lowMask n)) cursor
  := by
  subst hw
  obtain ⟨-, hsummaries, hmask⟩ := h.single
  rw [System.restoreWord]
  simp only [hmask]
  split
  · rename_i hzero
    rw [hzero, BitVec.or_zero]
    exact ⟨h.few, h.opened, rfl, h.slots, h.word, h.cursor, h.occupied⟩
  · refine ⟨h.few, h.opened, ?_, h.slots, ?_, h.cursor, h.occupied⟩
    · show (if s.ready.announces _ then _ else _ : Phase) = _
      rw [ReadySet.announces, hsummaries]
      simp
    · show Function.update s.ready.words 0 (s.ready.words 0 ||| (bits &&& lowMask n)) 0 = _
      rw [Function.update_self, h.word]

omit [DecidableEq ν] in
theorem Group.restoreSummary {summary : ℕ} {words : Word} (h : Group n s phase word cursor) :
  Group n ((s.restoreSummary summary words).setPhase next) next word cursor
  := by
  rw [System.restoreSummary, ReadySet.restoreSummary]
  split
  · exact ⟨h.few, h.opened, rfl, h.slots, h.word, h.cursor, h.occupied⟩
  · exact ⟨h.few, h.opened, rfl, h.slots, h.word, h.cursor, h.occupied⟩

/-- A guard puts the bits of the only word back. -/
theorem Group.restores (h : Group n s (.restoring pass .current wakeOwner hadWork) word cursor)
    (hcurrent : pass.guard.currentWord = 0) (hdeferred : pass.guard.deferredWord = 0)
    (hj : j < n) :
  ∃ a, Trail (Keeps j) s [.other, .other, .other] a ∧
    Group n a (.restoring pass .deferredSummary wakeOwner hadWork)
      (word ||| (pass.guard.currentBits &&& lowMask n) ||| (pass.guard.deferredBits &&& lowMask n))
      cursor
  := by
  obtain ⟨s₁, hfirst, h₁⟩ : ∃ s₁, Keeps j s .other s₁ ∧
      Group n s₁ (.restoring pass .deferred wakeOwner hadWork) _ cursor :=
    ⟨_, .quiet (.restoreCurrent h.stands) restoreWord_other.2.2.1 h.stands nofun nofun nofun
      ((h.restoreWord hcurrent).occupied j hj), h.restoreWord hcurrent⟩
  obtain ⟨s₂, hsecond, h₂⟩ : ∃ s₂, Keeps j s₁ .other s₂ ∧
      Group n s₂ (.restoring pass .summary wakeOwner hadWork) _ cursor :=
    ⟨_, .quiet (.restoreDeferred h₁.stands) restoreWord_other.2.2.1 h₁.stands nofun nofun nofun
      ((h₁.restoreWord hdeferred).occupied j hj), h₁.restoreWord hdeferred⟩
  exact ⟨_, ((Trail.nil.snoc hfirst).snoc hsecond).snoc (.quiet (.restoreSummary h₂.stands) rfl
    h₂.stands nofun nofun nofun (h₂.occupied j hj)), h₂.restoreSummary⟩

/-- A harvest that unwinds puts its bits back and rings. -/
theorem Group.unwinds (h : Group n s (.restoring pass .current true true) word cursor)
    (hcurrent : pass.guard.currentWord = 0) (hdeferred : pass.guard.deferredWord = 0)
    (hj : j < n) :
  ∃ a, Trail (Keeps j) s [.other, .other, .other, .other, .other] a ∧
    Group n a .idle (word ||| (pass.guard.currentBits &&& lowMask n) |||
      (pass.guard.deferredBits &&& lowMask n)) cursor
  := by
  obtain ⟨s₁, hrestores, h₁⟩ := h.restores hcurrent hdeferred hj
  obtain ⟨s₂, hsummary, h₂⟩ : ∃ s₂, Keeps j s₁ .other s₂ ∧
      Group n s₂ (.restoring pass .ring true true) _ cursor :=
    ⟨_, .quiet (.restoreDeferredSummary h₁.stands) rfl h₁.stands nofun nofun nofun
      (h₁.occupied j hj), h₁.restoreSummary⟩
  have hring : Keeps j s₂ .other (s₂.ring.setPhase .idle) :=
    .quiet (.restoreRing h₂.stands) rfl h₂.stands nofun nofun (rung_ne _) (h₂.occupied j hj)
  exact ⟨_, (hrestores.snoc hsummary).snoc hring, h₂.few, ring_closed.trans h₂.opened, rfl, h₂.slots,
    h₂.word, h₂.cursor, h₂.occupied⟩

/-- A harvest that has polled as many futures as it may puts its bits back and returns. -/
theorem Group.truncates (h : Group n s (.polling pass onward) word cursor)
    (hbits : pass.guard.currentBits ≠ 0#64) (hindex : pass.index < n)
    (hcap : pass.report.polled = pass.cap) (hcurrent : pass.guard.currentWord = 0)
    (hdeferred : pass.guard.deferredWord = 0) (hj : j < n) :
  ∃ a, Trail (Keeps j) s [.other, .other, .other, .other, .returned pass.truncated.report] a ∧
    Group n a .idle (word ||| (pass.guard.currentBits &&& lowMask n) |||
      (pass.guard.deferredBits &&& lowMask n)) cursor
  := by
  have hcapacity : s.capacity = n := h.slots
  have htruncate : Keeps j s .other (s.restore pass.truncated false) := by
    have hstep := Step.truncate h.stands hbits (hcapacity ▸ hindex) (h.occupied _ hindex) hcap
    have hdeed : deed s .other (s.restore pass.truncated false) = .other := by
      unfold deed
      rw [h.stands]
      rfl
    rw [← hdeed]
    exact ⟨.owner hstep rfl fun hidle => (nomatch h.stands.symm.trans hidle), h.occupied j hj⟩
  have h₁ : Group n (s.restore pass.truncated false)
      (.restoring pass.truncated .current false pass.truncated.guard.hadWork) word cursor :=
    ⟨h.few, h.opened, rfl, h.slots, h.word, h.cursor, h.occupied⟩
  obtain ⟨s₂, hrestores, h₂⟩ := h₁.restores hcurrent hdeferred hj
  have h₃ : Group n ((s₂.restoreSummary pass.truncated.guard.deferredSummaryIndex
      pass.truncated.guard.deferredSummary).restored pass.truncated false
      pass.truncated.guard.hadWork) .idle _ cursor := h₂.restoreSummary
  have hreturn : Keeps j s₂ (.returned pass.truncated.report) _ :=
    ⟨.owner (.restoreDeferredSummary h₂.stands) rfl fun hidle =>
      (nomatch h₂.stands.symm.trans hidle),
      h₃.occupied j hj⟩
  exact ⟨_, ((Trail.nil.snoc htruncate).trans hrestores).snoc hreturn, h₃⟩

/-- A harvest polls one future and leaves another one ready. -/
theorem Group.harvests {i : ℕ} (h : Group n s .idle word cursor)
    (hcursor : cursor < 64) (hi : (Pass.taken n word cursor).index = i)
    (hbits : (Pass.taken n word cursor).guard.currentBits ≠ 0#64) (hnext : i + 1 < n)
    (hleft : (Pass.taken n word cursor).visited.guard.currentBits ≠ 0#64)
    (hindex : (Pass.taken n word cursor).visited.index < n) (hj : j < n) :
  ∃ a, Trail (Keeps j) (s.setPhase (s.begin 1)) [.other, .polled i false, .other, .other, .other,
      .other, .returned ⟨1, 0, true⟩] a ∧
    Group n a .idle (0#64 ||| ((Pass.taken n word cursor).visited.guard.currentBits &&& lowMask n) |||
      ((Pass.taken n word cursor).guard.deferredBits &&& lowMask n)) (i + 1)
  := by
  subst hi
  obtain ⟨a, htake, ha⟩ := h.take hcursor hj
  obtain ⟨b, hpolled, hb⟩ := ha.polled hbits hnext Nat.zero_ne_one hj
  obtain ⟨c, htrail, hc⟩ := hb.truncates hleft hindex rfl rfl rfl hj
  exact ⟨c, ((Trail.nil.snoc htake).snoc hpolled).trans htrail, hc⟩

/-- The first of two futures panics when it is polled, and both stay where they are. -/
theorem Group.panics (h : Group 2 s .idle 3#64 0) :
  ∃ a b c, Trail (Keeps 1) (s.setPhase (s.begin 1)) [.other] a ∧ Panics a 0 false b ∧
    Trail (Keeps 1) b [.other, .other, .other, .other, .other] c ∧ Group 2 c .idle 3#64 0
  := by
  obtain ⟨a, htake, ha⟩ := h.take (by decide) (by decide : 1 < 2)
  have hcapacity : a.capacity = 2 := ha.slots
  have hindex : (Pass.taken 2 3#64 0).index = 0 := by decide +kernel
  have hpanic : Panics a (Pass.taken 2 3#64 0).index false
      (a.restore (Pass.taken 2 3#64 0).polled true) := by
    apply Panics.poll ha.stands (by decide)
    · rw [hindex, hcapacity]
      decide
    · rw [hindex]
      exact ha.occupied 0 (by decide)
    · decide
  have hb : Group 2 (a.restore (Pass.taken 2 3#64 0).polled true)
      (.restoring (Pass.taken 2 3#64 0).polled .current true true) 0#64 0 :=
    ⟨ha.few, ha.opened, rfl, ha.slots, ha.word, ha.cursor, ha.occupied⟩
  obtain ⟨c, htrail, hc⟩ := hb.unwinds rfl rfl (by decide : 1 < 2)
  rw [hindex] at hpanic
  exact ⟨a, _, c, Trail.nil.snoc htake, hpanic, htrail, hc⟩

omit [DecidableEq ν] in
/-- The first slots of a set of one word are filled. -/
structure Filled (n k : ℕ) (s : System ν) : Prop where
  opened : s.bell.closed = false
  stands : s.phase = .idle
  slots : s.ready.slots = n
  word : s.ready.words 0 = lowMask k
  cursor : s.cursor = 0
  occupied : ∀ i < k, s.occupied i = true
  free : s.free = List.range' k (n - k)

theorem Filled.push {k : ℕ} (h : Filled n k s) (hfew : 0 < n ∧ n < 64) (hk : k < n) :
  ∃ deeds s', Trail Acts s deeds s' ∧ Filled n (k + 1) s'
  := by
  have hfree : s.free = k :: List.range' (k + 1) (n - (k + 1)) := by
    rw [h.free, ← Nat.sub_sub, ← List.range'_succ, Nat.sub_add_cancel (Nat.sub_pos_of_lt hk)]
  have hpush : Acts s _ (s.insert k (List.range' (k + 1) (n - (k + 1)))) :=
    .owner (.push h.stands hfree) rfl fun _ => trivial
  have hmark : Acts (s.insert k (List.range' (k + 1) (n - (k + 1)))) _ _ :=
    .owner (.pushMark rfl) rfl fun hidle => (nomatch hidle)
  have hlt : k < 64 := hk.trans hfew.2
  refine ⟨_, _, (Trail.nil.snoc hpush).snoc hmark, h.opened, ?_, h.slots, ?_, h.cursor, ?_, rfl⟩
  · have hsummaries : s.ready.summaries = 0 := by
      rw [ReadySet.summaries, ReadySet.wordCount, h.slots, divCeil, WORD_BITS, if_neg (by omega)]
    show (if s.ready.announces _ then _ else _ : Phase) = .idle
    rw [ReadySet.announces, hsummaries]
    simp
  · show Function.update s.ready.words (k / WORD_BITS) (s.ready.words (k / WORD_BITS) |||
      oneBit (k % WORD_BITS)) 0 = lowMask (k + 1)
    rw [WORD_BITS, Nat.div_eq_of_lt hlt, Nat.mod_eq_of_lt hlt, Function.update_self, h.word]
    apply BitVec.eq_of_getLsbD_eq
    intro i hi
    rw [BitVec.getLsbD_or, getLsbD_lowMask hi, getLsbD_oneBit hi, getLsbD_lowMask hi]
    simp only [Nat.lt_succ_iff_lt_or_eq, Bool.decide_or]
  · intro i hi
    show Function.update s.occupied k true i = true
    rcases Nat.lt_succ_iff_lt_or_eq.mp hi with hi | rfl
    · rw [Function.update_of_ne hi.ne]
      exact h.occupied i hi
    · exact Function.update_self ..

/-- Every slot of a set of one word is filled. -/
theorem group_pushed (hfew : 0 < n ∧ n < 64) :
  ∃ (past : List Deed) (s₀ s : System ν), System.withCapacity n = .ok s₀ ∧
    Trail Acts s₀ past s ∧ Group n s .idle (lowMask n) 0
  := by
  have hcapacity : decide (n ≤ MAX_CAPACITY) = true :=
    decide_eq_true (hfew.2.le.trans (by decide))
  obtain ⟨s₀, hnew, hs₀⟩ : ∃ s₀ : System ν, System.withCapacity n = .ok s₀ ∧ Filled n 0 s₀ := by
    rw [System.withCapacity, ReadySet.new, Checked.assert_of hcapacity]
    exact ⟨_, rfl, rfl, rfl, rfl, (by decide +kernel : 0#64 = lowMask 0), rfl,
      fun i hi => absurd hi (Nat.not_lt_zero i), List.range_eq_range'⟩
  have hpushes : ∀ k ≤ n, ∃ past s, Trail Acts s₀ past s ∧ Filled n k s := by
    intro k
    induction k with
    | zero => exact fun _ => ⟨_, s₀, .nil, hs₀⟩
    | succ k ih =>
      intro hk
      obtain ⟨past, s, hpast, hs⟩ := ih (Nat.le_of_succ_le hk)
      obtain ⟨deeds, s', hdeeds, hs'⟩ := hs.push hfew hk
      exact ⟨_, s', hpast.trans hdeeds, hs'⟩
  obtain ⟨past, s, hpast, hs⟩ := hpushes n (Nat.le_refl n)
  exact ⟨past, s₀, s, hnew, hpast, hfew, hs.opened, hs.stands, hs.slots, hs.word,
    hs.cursor, hs.occupied⟩

end Groups

/-! ### Fairness -/

/-- Capped harvesting is fair under waking: when a slot that holds a future is ready as a harvest
begins, then as long as it keeps its future and is not polled, the polls of others are as many at
most as the slots from the cursor to the slot, and as many at least as the harvests that returned.
A poll that unwinds its harvest is not among them. -/
theorem ready_slot_is_polled_in_turn {cap : ℕ} {past deeds : List Deed}
    (hnew : System.withCapacity capacity = .ok s₀) (hpast : Trail Acts s₀ past s)
    (hidle : s.phase = .idle) (hoccupied : s.occupied j = true)
    (hready : s.ready.isReady j = true) (hcap : cap ≠ 0)
    (hrun : Trail (Keeps j) (s.setPhase (s.begin cap)) deeds s')
    (hnever : ∀ done, .polled j done ∉ deeds) :
  polls deeds ≤ (j + capacity - s.cursor) % capacity ∧ returns deeds ≤ polls deeds
  := by
  obtain ⟨-, hwaits, hdist⟩ := waits_run hnew hpast hidle hoccupied hready hcap hrun hnever
  refine ⟨(Nat.le_add_left ..).trans hdist, ?_⟩
  cases hwaits with
  | rests _ _ hreturned => exact hreturned
  | scans _ _ _ _ _ _ hreturned => exact (Nat.le_add_right ..).trans hreturned
  | restores _ _ hreturned _ => exact hreturned

/-- Three futures are pushed and harvested one at a time.  The first is woken again as soon as it
was polled, and the second is polled before it: the third has two polls before it, which is as
many as there may be. -/
theorem ready_slot_is_polled_in_turn_pushed :
  ∃ (past deeds : List Deed) (s₀ s s' : System Unit), System.withCapacity 3 = .ok s₀ ∧
    Trail Acts s₀ past s ∧ s.phase = .idle ∧ s.occupied 2 = true ∧ s.ready.isReady 2 = true ∧
    Trail (Keeps 2) (s.setPhase (s.begin 1)) deeds s' ∧ polls deeds = 2 ∧ returns deeds = 2 ∧
    (2 + 3 - s.cursor) % 3 = 2 ∧ polls deeds ≤ (2 + 3 - s.cursor) % 3 ∧
    returns deeds ≤ polls deeds
  := by
  obtain ⟨past, s₀, s, hnew, hpast, hs⟩ := group_pushed (n := 3) (ν := Unit) (by decide)
  have hquiet : ∀ n, s.stage n = .idle := (acts_coherent hnew hpast).2.2
  obtain ⟨a, hfirst, ha⟩ := hs.harvests (i := 0) (j := 2) (by decide) (by decide +kernel)
    (by decide) (by decide) (by decide +kernel) (by decide +kernel) (by decide)
  have hstage : a.stage = s.stage := (acts_run (hfirst.mono fun _ _ _ h => h.1)).2
  have hb := ha.wake (show 0 < 3 by decide)
  have hwake : Keeps 2 a .other (a.wake 0) :=
    ⟨.wake (n := ()) (hstage ▸ hquiet ()) (by rw [System.capacity, ha.slots]; decide),
      hb.occupied 2 (by decide)⟩
  have hbegin : Keeps 2 (a.wake 0) .other _ :=
    ⟨.harvest hb.stands Nat.one_ne_zero, hb.occupied 2 (by decide)⟩
  obtain ⟨c, hsecond, -⟩ := hb.harvests (i := 1) (j := 2) (by decide) (by decide +kernel)
    (by decide +kernel) (by decide) (by decide +kernel) (by decide +kernel) (by decide)
  have hrun := ((hfirst.snoc hwake).snoc hbegin).trans hsecond
  have hready := hs.ready (j := 2) (by decide) (by decide)
  have hturn := ready_slot_is_polled_in_turn hnew hpast hs.stands (hs.occupied 2 (by decide))
    hready Nat.one_ne_zero hrun (by decide)
  refine ⟨past, _, s₀, s, c, hnew, hpast, hs.stands, hs.occupied 2 (by decide), hready, hrun,
    by decide, by decide, ?_, hturn⟩
  rw [hs.cursor]

/-- A future that panics whenever it is polled is polled again and again before another one that
is ready.  Here it is polled twice, and the other one is one slot away from the cursor. -/
theorem panicking_slot_is_polled_again :
  ∃ (past : List Deed) (s₀ s a b s' a' b' s'' : System Unit), System.withCapacity 2 = .ok s₀ ∧
    Trail Acts s₀ past s ∧ s.phase = .idle ∧ s.occupied 1 = true ∧ s.ready.isReady 1 = true ∧
    Trail (Keeps 1) (s.setPhase (s.begin 1)) [.other] a ∧ Panics a 0 false b ∧
    Trail (Keeps 1) b [.other, .other, .other, .other, .other] s' ∧ s'.phase = .idle ∧
    Trail (Keeps 1) (s'.setPhase (s'.begin 1)) [.other] a' ∧ Panics a' 0 false b' ∧
    Trail (Keeps 1) b' [.other, .other, .other, .other, .other] s'' ∧ s''.occupied 1 = true ∧
    s''.ready.isReady 1 = true ∧ (1 + 2 - s.cursor) % 2 = 1
  := by
  obtain ⟨past, s₀, s, hnew, hpast, hs⟩ := group_pushed (n := 2) (ν := Unit) (by decide)
  obtain ⟨a, b, s', htake, hpanic, hunwind, hs'⟩ := hs.panics
  obtain ⟨a', b', s'', htake', hpanic', hunwind', hs''⟩ := hs'.panics
  refine ⟨past, s₀, s, a, b, s', a', b', s'', hnew, hpast, hs.stands, hs.occupied 1 (by decide),
    hs.ready (by decide) (by decide), htake, hpanic, hunwind, hs'.stands, htake', hpanic', hunwind',
    hs''.occupied 1 (by decide), hs''.ready (by decide) (by decide), ?_⟩
  rw [hs.cursor]

end Grommet.Outstanding
