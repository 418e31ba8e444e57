import Grommet.Runtime.Outstanding.Slots

/-!
# Unwinding harvests

A future may panic while a harvest polls it, and so may the callback that takes the output of
a future.  The guard of the harvest then puts back all it holds and rings the owner, and the
slots are left as the polls before the panic made them.
-/

open Checked

namespace Grommet.Outstanding

variable {ν : Type} [DecidableEq ν] {s s' s₀ : System ν} {e : Event} {i capacity : ℕ}
  {trace : List Event} {deeds rest : List Deed}

/-! ### Reachable sets -/

/-- What holds of every reachable set. -/
structure Coherent (s : System ν) : Prop where
  announced : Announced s
  partitioned : Partitioned s
  blank : s.phase.Blank
  closed : s.bell.closed = true → s.phase = .gone

omit [DecidableEq ν] in
theorem start_coherent (hnew : System.withCapacity capacity = .ok s₀) :
  Partitioned s₀ ∧ s₀.phase = .idle ∧ s₀.capacity = capacity
  := by
  rw [System.withCapacity, bind_eq_ok] at hnew
  obtain ⟨ready, hready, hnew⟩ := hnew
  rw [ReadySet.new, bind_eq_ok] at hready
  obtain ⟨-, -, hready⟩ := hready
  cases hready
  cases hnew
  refine ⟨⟨?_, ?_, List.nodup_range, ?_, ?_⟩, rfl, rfl⟩
  · intro i
    show i ∈ List.range capacity ↔ i < capacity ∧ false = false
    rw [List.mem_range]
    exact (and_iff_left rfl).symm
  · intro i hi
    cases hi
  · show 0 + (List.range capacity).length = capacity
    rw [List.length_range, Nat.zero_add]
  · show capacity = 0 ∨ 0 < capacity
    exact Nat.eq_zero_or_pos capacity

theorem run_coherent (hnew : System.withCapacity capacity = .ok s₀) (hrun : Trail Step s₀ trace s) :
  Coherent s ∧ s.capacity = capacity
  := by
  have hstart := start_inv hnew
  obtain ⟨hpartitioned, hidle, hcapacity⟩ := start_coherent hnew
  have hinv : (Announced s ∧ Addressed s ∧ Watched (watch trace) s) ∧
      Partitioned s ∧ s.phase.Blank ∧ s.capacity = capacity := by
    refine hrun.invariant (fun trace s => (Announced s ∧ Addressed s ∧ Watched (watch trace) s) ∧
      Partitioned s ∧ s.phase.Blank ∧ s.capacity = capacity) ⟨hstart, hpartitioned, ?_, hcapacity⟩ ?_
    · rw [hidle]
      trivial
    · rintro trace s₁ e s₂ - ⟨⟨hannounced, haddressed, hwatched⟩, hpart, hblank, hcap⟩ hstep
      rw [watch_snoc]
      exact ⟨⟨hannounced.step hstep, haddressed.step hstep,
        hwatched.step hannounced haddressed hstep⟩, hpart.step hstep, blank_step hblank hstep,
        (slots_step hstep).trans hcap⟩
  obtain ⟨⟨hannounced, -, hwatched⟩, hpart, hblank, hcap⟩ := hinv
  exact ⟨⟨hannounced, hpart, hblank, hwatched.closed⟩, hcap⟩

/-- A word is announced, or a notifier is about to announce it. -/
def System.Announces (s : System ν) (w : ℕ) : Prop :=
  s.ready.InSummary w ∨ ∃ n, s.stage n = .announcing w

omit [DecidableEq ν] in
/-- The word of a slot that is ready is announced once the owner is idle. -/
theorem Announced.announces (h : Announced s) (hidle : s.phase = .idle) (hi : i < s.capacity)
    (hready : s.ready.isReady i = true) (hmany : 1 < s.ready.wordCount) :
  s.Announces (i / WORD_BITS)
  := by
  have hsummaries : s.ready.summaries ≠ 0 := by
    rw [ReadySet.summaries, if_pos hmany, divCeil, WORD_BITS]
    omega
  have hw : i / WORD_BITS < s.ready.wordCount := by
    rw [System.capacity] at hi
    rw [ReadySet.wordCount, divCeil, WORD_BITS]
    omega
  have hnonzero : s.ready.words (i / WORD_BITS) ≠ 0#64 := by
    intro hzero
    rw [ReadySet.isReady, hzero, BitVec.getLsbD_zero] at hready
    cases hready
  rcases h.covered hsummaries _ hw hnonzero with hin | hstage | hholds
  · exact Or.inl hin
  · exact Or.inr hstage
  · rw [hidle] at hholds
    exact hholds.elim

/-! ### Panics -/

/-- A panic in a harvest: the slot, and whether the output of its future was produced. -/
inductive Panics (s : System ν) : ℕ → Bool → System ν → Prop
  /-- The future panics in its poll. -/
  | poll {pass : Pass} {next : Next} : s.phase = .polling pass next →
      pass.guard.currentBits ≠ 0#64 → pass.index < s.capacity → s.occupied pass.index = true →
      pass.report.polled ≠ pass.cap → Panics s pass.index false (s.restore pass.polled true)
  /-- The callback that takes the output of the future panics. -/
  | out {pass : Pass} {next : Next} : s.phase = .polling pass next →
      pass.guard.currentBits ≠ 0#64 → pass.index < s.capacity → s.occupied pass.index = true →
      pass.report.polled ≠ pass.cap →
      Panics s pass.index true ((s.remove pass.index).restore pass.polled true)

theorem Panics.step {slot : ℕ} {produced : Bool} (h : Panics s slot produced s') :
  Step s .other s'
  := by
  cases h with
  | poll hphase hbits hindex hoccupied hcap => exact .pollPanics hphase hbits hindex hoccupied hcap
  | out hphase hbits hindex hoccupied hcap => exact .outPanics hphase hbits hindex hoccupied hcap

omit [DecidableEq ν] in
/-- The harvest unwinds, holding something. -/
theorem Panics.phase {slot : ℕ} {produced : Bool} (h : Panics s slot produced s') :
  s.phase.Scans ∧ ∃ pass, s'.phase = .restoring pass .current true true
  := by
  have hwork : ∀ {pass : Pass}, pass.guard.currentBits ≠ 0#64 →
      pass.polled.guard.hadWork = true := by
    intro pass hbits
    rw [Guard.hadWork]
    simp [Pass.polled, hbits]
  cases h with
  | poll hphase hbits _ _ _ =>
    rw [hphase, System.restore, hwork hbits]
    exact ⟨trivial, _, rfl⟩
  | out hphase hbits _ _ _ =>
    rw [hphase, System.restore, hwork hbits]
    exact ⟨trivial, _, rfl⟩

omit [DecidableEq ν] in
theorem Panics.occupied {slot : ℕ} {produced : Bool} (h : Panics s slot produced s')
    (hi : s.occupied i = true) :
  s'.occupied i = true ∨ (i = slot ∧ produced = true)
  := by
  cases h with
  | poll _ _ _ _ _ => exact Or.inl hi
  | @out pass _ _ _ _ _ _ =>
    by_cases heq : i = pass.index
    · exact Or.inr ⟨heq, rfl⟩
    · left
      show Function.update s.occupied pass.index false i = true
      rw [Function.update_of_ne heq]
      exact hi

omit [DecidableEq ν] in
theorem Panics.deed {slot : ℕ} {produced done : Bool} (h : Panics s slot produced s') :
  deed s .other s' ≠ .polled i done
  := by
  obtain ⟨-, pass, hphase⟩ := h.phase
  intro heq
  obtain ⟨_, _, _, _, -, hpolling, -, -⟩ := deed_polled heq
  rw [hphase] at hpolling
  cases hpolling

/-! ### Before the panic -/

/-- A step of a harvest that scans leaves a slot that is not polled occupied. -/
theorem occupied_step (hstep : Step s e s') (hbusy : s.phase ≠ .idle) (hscans : s'.phase.Scans)
    (hoccupied : s.occupied i = true) :
  s'.occupied i = true ∨ deed s e s' = .polled i true
  := by
  cases hstep with
  | push hphase _ => exact absurd hphase hbusy
  | @finished pass _ hphase _ _ _ _ =>
    by_cases heq : i = pass.index
    · right
      rw [heq]
      exact deed_finished hphase
    · left
      show Function.update s.occupied pass.index false i = true
      rw [Function.update_of_ne heq]
      exact hoccupied
  | outPanics _ _ _ _ _ => exact hscans.elim
  | restoreCurrent _ => exact Or.inl ((congrFun restoreWord_slots.1 i).trans hoccupied)
  | restoreDeferred _ => exact Or.inl ((congrFun restoreWord_slots.1 i).trans hoccupied)
  | _ => exact Or.inl hoccupied

/-- What a harvest that began in a state has left of its slots. -/
structure Spares (s : System ν) (deeds : List Deed) (s' : System ν) : Prop where
  capacity : s'.capacity = s.capacity
  blank : s'.phase.Blank
  occupied : ∀ i, s.occupied i = true → s'.occupied i = true ∨ .polled i true ∈ deeds
  retained : ∀ i, s.occupied i = true → s.ready.isReady i = true →
    (∀ done, .polled i done ∉ deeds) → s'.Retains i

theorem Spares.step {a b : System ν} {d : Deed} (h : Spares s deeds a) (hpartitioned : Partitioned s)
    (hpaces : Paces a d b) (hscans : b.phase.Scans) :
  Spares s (deeds ++ [d]) b
  := by
  obtain ⟨hbusy, e, hstep, hdeed⟩ := hpaces
  refine ⟨(slots_step hstep).trans h.capacity, blank_step h.blank hstep, ?_, ?_⟩
  · intro i hi
    rcases h.occupied i hi with hoccupied | hpolled
    · apply (occupied_step hstep hbusy hscans hoccupied).imp_right
      intro hpolled
      rw [← hdeed, hpolled]
      exact List.mem_append_right _ (List.mem_singleton_self _)
    · exact Or.inr (List.mem_append_left _ hpolled)
  · intro i hi hready hnever
    have hbefore : ∀ done, .polled i done ∉ deeds :=
      fun done hmem => hnever done (List.mem_append_left _ hmem)
    have hoccupied := (h.occupied i hi).resolve_right (hbefore true)
    have hlt : i < a.capacity := lt_of_lt_of_eq (hpartitioned.occupied i hi) h.capacity.symm
    apply (h.retained i hi hready hbefore).step h.blank hlt (fun _ _ _ => hoccupied) hstep
    intro done hpolled
    apply hnever done
    rw [← hdeed, hpolled]
    exact List.mem_append_right _ (List.mem_singleton_self _)

theorem spares_run {a : System ν} {cap : ℕ} (hpartitioned : Partitioned s)
    (hpass : Trail Paces (s.setPhase (s.begin cap)) deeds a) (hscans : a.phase.Scans) :
  Spares s deeds a
  := by
  refine hpass.invariant (fun deeds a => a.phase.Scans → Spares s deeds a) ?_ ?_ hscans
  · intro _
    exact ⟨rfl, begin_blank cap, fun i hi => Or.inl hi, fun i _ hready _ => Or.inl hready⟩
  · intro deeds a d b _ ih hpaces hscans
    have hbusy := hpaces.1
    obtain ⟨-, e, hstep, -⟩ := id hpaces
    exact (ih (scans_back hstep hbusy hscans)).step hpartitioned hpaces hscans

/-! ### After the panic -/

/-- A guard that unwinds leaves the slots alone and ends with a ring. -/
theorem unwinding_step {pass : Pass} {part : Restore}
    (hphase : s.phase = .restoring pass part true true) (hstep : Step s e s') :
  s'.occupied = s.occupied ∧ ((∃ part', s'.phase = .restoring pass part' true true) ∨
    (e = s.rung ∧ s' = s.ring.setPhase .idle))
  := by
  obtain ⟨hoccupied, -, ⟨part', hpart, -⟩ | ⟨-, ⟨hwake, -⟩ | ⟨-, hwork⟩ | hrung⟩⟩ :=
    restoring_step hphase hstep
  · exact ⟨hoccupied, Or.inl ⟨part', hpart⟩⟩
  · cases hwake
  · cases hwork
  · exact ⟨hoccupied, Or.inr hrung⟩

omit [DecidableEq ν] in
theorem deed_rung :
  deed s s.rung (s.ring.setPhase .idle) = .other
  := by
  unfold deed System.rung
  cases s.bell.wakes with
  | true => simp [System.setPhase]
  | false => simp [System.setPhase]

/-- A guard that unwinds, or has unwound: what it retains, and the ring at its end. -/
structure Unwinds (b s : System ν) : Prop where
  capacity : s.capacity = b.capacity
  blank : s.phase.Blank
  occupied : s.occupied = b.occupied
  retained : ∀ i < b.capacity, b.occupied i = true → b.Retains i → s.Retains i
  rung : (∃ pass part, s.phase = .restoring pass part true true) ∨
    (∃ c rest pass part, Trail Paces b rest c ∧ c.phase = .restoring pass part true true ∧
      Paces c .other s ∧ s = c.ring.setPhase .idle)

theorem Unwinds.step {b : System ν} {d : Deed} (htrail : Trail Paces b rest s) (h : Unwinds b s)
    (hpaces : Paces s d s') :
  Unwinds b s'
  := by
  obtain ⟨hbusy, e, hstep, hdeed⟩ := id hpaces
  rcases h.rung with ⟨pass, part, hphase⟩ | ⟨c, -, -, -, -, -, -, hidle⟩
  · obtain ⟨hoccupied, hend⟩ := unwinding_step hphase hstep
    refine ⟨(slots_step hstep).trans h.capacity, blank_step h.blank hstep,
      hoccupied.trans h.occupied, ?_, ?_⟩
    · intro i hi hib hretains
      exact (h.retained i hi hib hretains).restoring hphase (lt_of_lt_of_eq hi h.capacity.symm) hstep
    · apply hend.imp
      · rintro ⟨part', hphase'⟩
        exact ⟨pass, part', hphase'⟩
      · rintro ⟨rfl, hs'⟩
        refine ⟨s, rest, pass, part, htrail, hphase, ⟨hbusy, s.rung, hstep, ?_⟩, hs'⟩
        rw [hs']
        exact deed_rung
  · rw [hidle] at hbusy
    exact absurd rfl hbusy

/-- The harvest that is in the state can go on until the owner is idle. -/
def System.Returns (s : System ν) : Prop :=
  ∃ rest s', Trail Paces s rest s' ∧ s'.phase = .idle

theorem System.Returns.before (hstep : Step s e s') (hbusy : s.phase ≠ .idle) (h : s'.Returns) :
  s.Returns
  := by
  obtain ⟨rest, s₂, htrail, hidle⟩ := h
  have hfirst : Trail Paces s [deed s e s'] s' := Trail.nil.snoc ⟨hbusy, e, hstep, rfl⟩
  exact ⟨_, s₂, hfirst.trans htrail, hidle⟩

/-- A guard that unwinds comes to its end. -/
theorem unwinding_returns {pass : Pass} {part : Restore} (s : System ν)
    (hphase : s.phase = .restoring pass part true true) :
  s.Returns
  := by
  have hbusy : ∀ {s : System ν} {part}, s.phase = .restoring pass part true true →
      s.phase ≠ .idle := by
    intro s part hphase hidle
    cases hphase.symm.trans hidle
  have hring : ∀ {s : System ν}, s.phase = .restoring pass .ring true true → s.Returns := by
    intro s h
    exact .before (.restoreRing h) (hbusy h) ⟨[], _, .nil, rfl⟩
  have hdeferredSummary : ∀ {s : System ν}, s.phase = .restoring pass .deferredSummary true true →
      s.Returns := fun h => .before (.restoreDeferredSummary h) (hbusy h) (hring rfl)
  have hsummary : ∀ {s : System ν}, s.phase = .restoring pass .summary true true → s.Returns :=
    fun h => .before (.restoreSummary h) (hbusy h) (hdeferredSummary rfl)
  have hannounceDeferred : ∀ {s : System ν},
      s.phase = .restoring pass .announceDeferred true true → s.Returns :=
    fun h => .before (.announceDeferred h) (hbusy h) (hsummary rfl)
  have hdeferred : ∀ {s : System ν}, s.phase = .restoring pass .deferred true true →
      s.Returns := by
    intro s h
    apply System.Returns.before (.restoreDeferred h) (hbusy h)
    exact restoreWord_other.2.2.2.2.elim hannounceDeferred hsummary
  have hannounceCurrent : ∀ {s : System ν},
      s.phase = .restoring pass .announceCurrent true true → s.Returns :=
    fun h => .before (.announceCurrent h) (hbusy h) (hdeferred rfl)
  cases part with
  | current =>
    apply System.Returns.before (.restoreCurrent hphase) (hbusy hphase)
    exact restoreWord_other.2.2.2.2.elim hannounceCurrent hdeferred
  | announceCurrent => exact hannounceCurrent hphase
  | deferred => exact hdeferred hphase
  | announceDeferred => exact hannounceDeferred hphase
  | summary => exact hsummary hphase
  | deferredSummary => exact hdeferredSummary hphase
  | ring => exact hring hphase

/-! ### A harvest that unwound -/

/-- What a harvest that began in `s` and unwound into `s'` has left behind, where `deeds` is what
it did before the panic. -/
structure Unwound (s : System ν) (deeds : List Deed) (slot : ℕ) (produced : Bool)
    (s' : System ν) : Prop where
  capacity : s'.capacity = s.capacity
  partitioned : Partitioned s'
  /-- A future was released only after its output was produced. -/
  released : ∀ i, s.occupied i = true → s'.occupied i = false →
    .polled i true ∈ deeds ∨ (i = slot ∧ produced = true)
  /-- What was ready and was not polled, or panicked in its poll, is ready and announced. -/
  ready : ∀ i, s.occupied i = true → s.ready.isReady i = true →
    (∀ done, .polled i done ∉ deeds) → (i = slot → produced = false) →
    s'.occupied i = true ∧ s'.ready.isReady i = true ∧
      (1 < s'.ready.wordCount → s'.Announces (i / WORD_BITS))
  /-- The last that was done was to ring the owner of an open set. -/
  rung : ∃ c, Paces c .other s' ∧ s' = c.ring.setPhase .idle ∧ c.bell.closed = false

/-- An unwinding harvest strands nothing: when a future or the callback that takes its output
panics in a harvest of any reachable set, the guard comes to its end, the slots are partitioned,
only futures whose output was produced are released, every future that was ready and was not
polled is ready and announced, and the owner has been rung. -/
theorem unwinding_harvest_strands_nothing {cap slot : ℕ} {a b : System ν} {produced : Bool}
    (hnew : System.withCapacity capacity = .ok s₀) (hrun : Trail Step s₀ trace s)
    (hidle : s.phase = .idle) (hpass : Trail Paces (s.setPhase (s.begin cap)) deeds a)
    (hpanic : Panics a slot produced b) :
  (∃ rest s', Trail Paces b rest s' ∧ s'.phase = .idle) ∧
    ∀ rest s', Trail Paces b rest s' → s'.phase = .idle → Unwound s deeds slot produced s'
  := by
  obtain ⟨hscans, pass, hphase⟩ := hpanic.phase
  refine ⟨unwinding_returns b hphase, ?_⟩
  intro rest s' hunwind hdone
  have hcoherent := (run_coherent hnew hrun).1
  have hspares : Spares s deeds a := spares_run hcoherent.partitioned hpass hscans
  have hbegin : Trail Step s₀ (trace ++ [.other]) (s.setPhase (s.begin cap)) :=
    hrun.snoc (.harvest hidle)
  obtain ⟨before, hbefore⟩ := trail_of_paces hpass
  have hreach : Trail Step s₀ (trace ++ [.other] ++ before ++ [.other]) b :=
    (hbegin.trans hbefore).snoc hpanic.step
  have hslots := slots_step hpanic.step
  have hunwinds : Unwinds b s' := by
    apply hunwind.invariant (fun _ s => Unwinds b s)
    · exact ⟨rfl, blank_step hspares.blank hpanic.step, rfl, fun _ _ _ h => h,
        Or.inl ⟨pass, .current, hphase⟩⟩
    · intro rest c d c' htrail hunwinds hpaces
      exact hunwinds.step htrail hpaces
  obtain ⟨after, hafter⟩ := trail_of_paces hunwind
  have hcoherent' := (run_coherent hnew (hreach.trans hafter)).1
  have hcapacity : s'.capacity = s.capacity :=
    hunwinds.capacity.trans (hslots.trans hspares.capacity)
  refine ⟨hcapacity, hcoherent'.partitioned, ?_, ?_, ?_⟩
  · intro i hi hgone
    rcases hspares.occupied i hi with hoccupied | hpolled
    · right
      apply (hpanic.occupied hoccupied).resolve_left
      rw [← hunwinds.occupied, hgone]
      exact Bool.false_ne_true
    · exact Or.inl hpolled
  · intro i hi hready hnever hslot
    have hlt : i < s.capacity := hcoherent.partitioned.occupied i hi
    have hocca := (hspares.occupied i hi).resolve_right (hnever true)
    have hoccb : b.occupied i = true := by
      apply (hpanic.occupied hocca).resolve_right
      rintro ⟨heq, hproduced⟩
      rw [hslot heq] at hproduced
      cases hproduced
    have hretains : b.Retains i :=
      (hspares.retained i hi hready hnever).step hspares.blank
        (lt_of_lt_of_eq hlt hspares.capacity.symm) (fun _ _ _ => hocca) hpanic.step
        fun done => hpanic.deed
    have hbcapacity : b.capacity = s.capacity := hslots.trans hspares.capacity
    have hready' : s'.ready.isReady i = true := by
      apply (hunwinds.retained i (lt_of_lt_of_eq hlt hbcapacity.symm) hoccb hretains).ready
      rw [hdone]
      exact id
    refine ⟨(congrFun hunwinds.occupied i).trans hoccb, hready', ?_⟩
    exact hcoherent'.announced.announces hdone (lt_of_lt_of_eq hlt hcapacity.symm) hready'
  · rcases hunwinds.rung with ⟨_, _, hrestoring⟩ | ⟨c, rest', pass', part, htrail, hc, hpaces, hs'⟩
    · cases hdone.symm.trans hrestoring
    · refine ⟨c, hpaces, hs', ?_⟩
      obtain ⟨middle, hmiddle⟩ := trail_of_paces htrail
      have hcoherentc := (run_coherent hnew (hreach.trans hmiddle)).1
      cases hclosed : c.bell.closed with
      | false => rfl
      | true => cases hc.symm.trans (hcoherentc.closed hclosed)

/-- Two futures are pushed, and the first panics in the harvest that follows. -/
theorem unwinding_harvest_strands_nothing_pushed :
  ∃ (trace : List Event) (s₀ s a b : System Unit), System.withCapacity 2 = .ok s₀ ∧
    Trail Step s₀ trace s ∧ Trail Paces (s.setPhase (s.begin 4)) [.other] a ∧
    Panics a 0 false b ∧ s.occupied 1 = true ∧ s.ready.isReady 1 = true ∧
    (∃ rest s', Trail Paces b rest s' ∧ s'.phase = .idle) ∧
    ∀ rest s', Trail Paces b rest s' → s'.phase = .idle → Unwound s [.other] 0 false s'
  := by
  have hnew : System.withCapacity 2 = .ok (⟨⟨fun _ => 0#64, fun _ => 0#64, 2⟩, ⟨none, false⟩,
      fun _ => false, [0, 1], 0, 0, .idle, fun _ => .idle⟩ : System Unit) := rfl
  have hfirst : Trail Step (⟨⟨fun _ => 0#64, fun _ => 0#64, 2⟩, ⟨none, false⟩, fun _ => false,
      [0, 1], 0, 0, .idle, fun _ => .idle⟩ : System Unit) _ _ :=
    Trail.nil.snoc (Step.push rfl rfl)
  have hmarked := hfirst.snoc (Step.pushMark rfl)
  have hsecond := hmarked.snoc (Step.push rfl rfl)
  have hrun := hsecond.snoc (Step.pushMark rfl)
  have htake : ∀ {s : System Unit} {pass : Pass}, s.phase = .taking pass →
      Trail Paces s [.other] (s.takeSplit pass 0 .single) := by
    intro s pass hphase
    refine Trail.nil.snoc ⟨?_, .other, .takeSingle hphase, ?_⟩
    · rw [hphase]
      exact Phase.noConfusion
    · unfold deed
      rw [hphase]
  have hslot : ∀ {s s' : System Unit} {slot : ℕ}, Panics s slot false s' → slot = 0 →
      Panics s 0 false s' := by
    rintro s s' slot hpanic rfl
    exact hpanic
  obtain ⟨trace, s, a, b, hrun, hidle, hpass, hpanic, hoccupied, hready⟩ :
      ∃ (trace : List Event) (s a b : System Unit), Trail Step ⟨⟨fun _ => 0#64, fun _ => 0#64, 2⟩,
        ⟨none, false⟩, fun _ => false, [0, 1], 0, 0, .idle, fun _ => .idle⟩ trace s ∧
        s.phase = .idle ∧ Trail Paces (s.setPhase (s.begin 4)) [.other] a ∧ Panics a 0 false b ∧
        s.occupied 1 = true ∧ s.ready.isReady 1 = true := by
    refine ⟨_, _, _, _, hrun, rfl, htake rfl, hslot (.poll rfl ?_ ?_ ?_ ?_) ?_, rfl, ?_⟩
    · decide +kernel
    · decide +kernel
    · decide +kernel
    · decide
    · decide +kernel
    · decide +kernel
  exact ⟨trace, _, s, a, b, hnew, hrun, hpass, hpanic, hoccupied, hready,
    unwinding_harvest_strands_nothing hnew hrun hidle hpass hpanic⟩

end Grommet.Outstanding
