import Grommet.Runtime.Outstanding.Readiness

/-!
# The slots of an outstanding set

Every slot either holds a future or is on the free list.  A harvest changes that only where a
future finishes, and moves its cursor from slot to slot.  The bit of a slot that a harvest
does not poll stays set: in its word, or in the guard of the harvest.
-/

namespace Grommet.Outstanding

variable {ν : Type} {s s' : System ν} {i : ℕ}

/-! ### The free list -/

/-- Every slot either holds a future or is on the free list, and the cursor is a slot. -/
structure Partitioned (s : System ν) : Prop where
  free : ∀ i, i ∈ s.free ↔ i < s.capacity ∧ s.occupied i = false
  occupied : ∀ i, s.occupied i = true → i < s.capacity
  nodup : s.free.Nodup
  live : s.live + s.free.length = s.capacity
  cursor : s.capacity = 0 ∨ s.cursor < s.capacity

/-- What a step does to the slots: nothing, or the cursor moves, a future is stored, or a future
is dropped. -/
inductive Settles (s s' : System ν) : Prop
  | same : s'.occupied = s.occupied → s'.free = s.free → s'.live = s.live →
      s'.cursor = s.cursor → Settles s s'
  | visit (index : ℕ) : index < s.capacity → s'.occupied = s.occupied → s'.free = s.free →
      s'.live = s.live → s'.cursor = (s.advanceCursor index).cursor → Settles s s'
  | insert (index : ℕ) (rest : List ℕ) : s.free = index :: rest →
      s'.occupied = Function.update s.occupied index true → s'.free = rest →
      s'.live = s.live + 1 → s'.cursor = s.cursor → Settles s s'
  | remove (index : ℕ) : index < s.capacity → s.occupied index = true →
      s'.occupied = Function.update s.occupied index false → s'.free = index :: s.free →
      s'.live = s.live - 1 →
      (s'.cursor = s.cursor ∨ s'.cursor = (s.advanceCursor index).cursor) → Settles s s'

theorem restoreWord_slots {word : ℕ} {bits : Word} {announce next : Phase} :
  (s.restoreWord word bits announce next).occupied = s.occupied ∧
    (s.restoreWord word bits announce next).free = s.free ∧
    (s.restoreWord word bits announce next).live = s.live ∧
    (s.restoreWord word bits announce next).cursor = s.cursor
  := by
  rw [System.restoreWord]
  split
  · exact ⟨rfl, rfl, rfl, rfl⟩
  · exact ⟨rfl, rfl, rfl, rfl⟩

theorem restoreWord_settles {word : ℕ} {bits : Word} {announce next : Phase} :
  Settles s (s.restoreWord word bits announce next)
  := .same restoreWord_slots.1 restoreWord_slots.2.1 restoreWord_slots.2.2.1 restoreWord_slots.2.2.2

theorem settles [DecidableEq ν] {e : Event} (hstep : Step s e s') :
  Settles s s'
  := by
  cases hstep with
  | push _ hfree => exact .insert _ _ hfree rfl rfl rfl rfl
  | stale _ _ hindex _ => exact .visit _ hindex rfl rfl rfl rfl
  | pending _ _ hindex _ _ => exact .visit _ hindex rfl rfl rfl rfl
  | finished _ _ hindex hoccupied _ =>
    exact .remove _ hindex hoccupied rfl rfl rfl (Or.inr rfl)
  | outPanics _ _ hindex hoccupied _ =>
    exact .remove _ hindex hoccupied rfl rfl rfl (Or.inl rfl)
  | restoreCurrent _ => exact restoreWord_settles
  | restoreDeferred _ => exact restoreWord_settles
  | _ => exact .same rfl rfl rfl rfl

theorem advanceCursor_lt {index : ℕ} (hindex : index < s.capacity) :
  (s.advanceCursor index).cursor < s.capacity
  := by
  show (if index + 1 = s.capacity then 0 else index + 1) < s.capacity
  split <;> omega

theorem Partitioned.kept (h : Partitioned s) (hcapacity : s'.capacity = s.capacity)
    (hoccupied : s'.occupied = s.occupied) (hfree : s'.free = s.free) (hlive : s'.live = s.live)
    (hcursor : s.capacity = 0 ∨ s'.cursor < s.capacity) :
  Partitioned s'
  := by
  refine ⟨?_, ?_, ?_, ?_, ?_⟩
  · rw [hcapacity, hoccupied, hfree]
    exact h.free
  · rw [hcapacity, hoccupied]
    exact h.occupied
  · rw [hfree]
    exact h.nodup
  · rw [hcapacity, hfree, hlive]
    exact h.live
  · rw [hcapacity]
    exact hcursor

theorem Partitioned.insert {index : ℕ} {rest : List ℕ} (h : Partitioned s)
    (hcapacity : s'.capacity = s.capacity) (hfree : s.free = index :: rest)
    (hoccupied : s'.occupied = Function.update s.occupied index true) (hrest : s'.free = rest)
    (hlive : s'.live = s.live + 1) (hcursor : s'.cursor = s.cursor) :
  Partitioned s'
  := by
  have hnodup := h.nodup
  rw [hfree, List.nodup_cons] at hnodup
  have hmem : ∀ i, i = index ∨ i ∈ rest ↔ i < s.capacity ∧ s.occupied i = false := by
    intro i
    rw [← h.free, hfree, List.mem_cons]
  refine ⟨?_, ?_, ?_, ?_, ?_⟩
  · intro i
    rw [hrest, hoccupied, hcapacity, Function.update_apply]
    by_cases heq : i = index
    · simp [heq, hnodup.1]
    · rw [if_neg heq, ← hmem]
      simp [heq]
  · intro i hi
    rw [hcapacity]
    rw [hoccupied, Function.update_apply] at hi
    split at hi
    · rename_i heq
      exact ((hmem i).mp (Or.inl heq)).1
    · exact h.occupied i hi
  · rw [hrest]
    exact hnodup.2
  · have hlength := h.live
    rw [hfree, List.length_cons] at hlength
    rw [hrest, hlive, hcapacity]
    omega
  · rw [hcapacity, hcursor]
    exact h.cursor

theorem Partitioned.remove {index : ℕ} (h : Partitioned s) (hcapacity : s'.capacity = s.capacity)
    (hindex : index < s.capacity) (htaken : s.occupied index = true)
    (hoccupied : s'.occupied = Function.update s.occupied index false)
    (hfree : s'.free = index :: s.free) (hlive : s'.live = s.live - 1)
    (hcursor : s'.cursor < s.capacity) :
  Partitioned s'
  := by
  have hfresh : index ∉ s.free := by
    intro hmem
    have hclear := ((h.free index).mp hmem).2
    rw [htaken] at hclear
    cases hclear
  refine ⟨?_, ?_, ?_, ?_, ?_⟩
  · intro i
    rw [hfree, hoccupied, hcapacity, List.mem_cons, h.free, Function.update_apply]
    by_cases heq : i = index
    · simp [heq, hindex]
    · simp [heq]
  · intro i hi
    rw [hoccupied, Function.update_apply] at hi
    rw [hcapacity]
    split at hi
    · cases hi
    · exact h.occupied i hi
  · rw [hfree, List.nodup_cons]
    exact ⟨hfresh, h.nodup⟩
  · -- the slot is not on the free list, so that the list is shorter than the capacity
    have hshort : (index :: s.free).length ≤ (List.range s.capacity).length := by
      apply (List.nodup_cons.mpr ⟨hfresh, h.nodup⟩).length_le_of_subset
      intro i hi
      rw [List.mem_range]
      rcases List.mem_cons.mp hi with rfl | hold
      · exact hindex
      · exact ((h.free i).mp hold).1
    have hlength := h.live
    rw [List.length_cons, List.length_range] at hshort
    rw [hfree, hlive, hcapacity, List.length_cons]
    omega
  · rw [hcapacity]
    exact Or.inr hcursor

theorem Partitioned.settle (h : Partitioned s) (hcapacity : s'.capacity = s.capacity)
    (hsettles : Settles s s') :
  Partitioned s'
  := by
  cases hsettles with
  | same hoccupied hfree hlive hcursor =>
    refine h.kept hcapacity hoccupied hfree hlive ?_
    rw [hcursor]
    exact h.cursor
  | visit index hindex hoccupied hfree hlive hcursor =>
    refine h.kept hcapacity hoccupied hfree hlive ?_
    rw [hcursor]
    exact Or.inr (advanceCursor_lt hindex)
  | insert index rest hfree hoccupied hrest hlive hcursor =>
    exact h.insert hcapacity hfree hoccupied hrest hlive hcursor
  | remove index hindex htaken hoccupied hfree hlive hcursor =>
    apply h.remove hcapacity hindex htaken hoccupied hfree hlive
    rcases hcursor with hcursor | hcursor <;> rw [hcursor]
    · exact h.cursor.resolve_left (by omega)
    · exact advanceCursor_lt hindex

theorem Partitioned.step [DecidableEq ν] {e : Event} (h : Partitioned s) (hstep : Step s e s') :
  Partitioned s'
  := h.settle (slots_step hstep) (settles hstep)

/-! ### Bits in the guard -/

/-- The bit of a slot is set in its word. -/
def ReadySet.isReady (r : ReadySet) (i : ℕ) : Bool :=
  (r.words (i / WORD_BITS)).getLsbD (i % WORD_BITS)

def Guard.InCurrent (g : Guard) (i : ℕ) : Prop :=
  g.currentWord = i / WORD_BITS ∧ g.currentBits.getLsbD (i % WORD_BITS) = true

def Guard.InDeferred (g : Guard) (i : ℕ) : Prop :=
  g.deferredWord = i / WORD_BITS ∧ g.deferredBits.getLsbD (i % WORD_BITS) = true

/-- The owner has taken the bit of a slot, and has neither visited it nor put it back. -/
def Phase.HasBit (i : ℕ) : Phase → Prop
  | .taking pass => pass.guard.InCurrent i ∨ pass.guard.InDeferred i
  | .takingSummary pass _ => pass.guard.InCurrent i ∨ pass.guard.InDeferred i
  | .takingStart pass => pass.guard.InCurrent i ∨ pass.guard.InDeferred i
  | .takingWord pass _ _ => pass.guard.InCurrent i ∨ pass.guard.InDeferred i
  | .polling pass _ => pass.guard.InCurrent i ∨ pass.guard.InDeferred i
  | .restoring pass .current _ _ => pass.guard.InCurrent i ∨ pass.guard.InDeferred i
  | .restoring pass .announceCurrent _ _ => pass.guard.InDeferred i
  | .restoring pass .deferred _ _ => pass.guard.InDeferred i
  | _ => False

/-- The bits that the guard does not hold where it is about to take others. -/
def Phase.Blank : Phase → Prop
  | .taking pass => pass.guard.currentBits = 0#64 ∧ pass.guard.deferredBits = 0#64
  | .takingSummary pass step =>
      pass.guard.currentBits = 0#64 ∧ (step = 0 → pass.guard.deferredBits = 0#64)
  | .takingStart pass => pass.guard.currentBits = 0#64 ∧ pass.guard.deferredBits = 0#64
  | .takingWord pass _ next => pass.guard.currentBits = 0#64 ∧ next ≠ .last
  | .polling pass next => next = .last → pass.guard.deferredBits = 0#64
  | _ => True

section Guards

variable {g g' : Guard} {pass : Pass} {n word : ℕ} {next : Next}

theorem not_inCurrent (h : g.currentBits = 0#64) :
  ¬ g.InCurrent i
  := by
  rintro ⟨-, hbit⟩
  rw [h, BitVec.getLsbD_zero] at hbit
  cases hbit

theorem not_inDeferred (h : g.deferredBits = 0#64) :
  ¬ g.InDeferred i
  := by
  rintro ⟨-, hbit⟩
  rw [h, BitVec.getLsbD_zero] at hbit
  cases hbit

/-- The next announced word leaves the bits of the guard alone. -/
theorem nextAnnounced_bits (hnext : g.nextAnnounced = some (word, g')) :
  g'.currentWord = g.currentWord ∧ g'.currentBits = g.currentBits ∧
    g'.deferredWord = g.deferredWord ∧ g'.deferredBits = g.deferredBits
  := by
  rw [Guard.nextAnnounced] at hnext
  split at hnext
  · cases hnext
  · cases hnext
    exact ⟨rfl, rfl, rfl, rfl⟩

theorem Guard.InDeferred.nextAnnounced (h : g.InDeferred i)
    (hnext : g.nextAnnounced = some (word, g')) :
  g'.InDeferred i
  := by
  obtain ⟨-, -, hword, hbits⟩ := nextAnnounced_bits hnext
  rw [Guard.InDeferred, hword, hbits]
  exact h

theorem wrapUp_blank (h : pass.guard.currentBits = 0#64) :
  pass.wrapUp.Blank
  := by
  rw [Pass.wrapUp]
  cases hnext : pass.guard.nextAnnounced with
  | none => exact fun _ => rfl
  | some found => exact ⟨(nextAnnounced_bits hnext).2.1.trans h, Next.noConfusion⟩

theorem resume_blank (h : pass.guard.currentBits = 0#64) :
  (pass.resume n next).Blank
  := by
  cases next with
  | single => exact fun _ => rfl
  | rotate step =>
    rw [Pass.resume]
    cases hnext : pass.guard.nextAnnounced with
    | none =>
      simp only
      split
      · exact ⟨h, fun hzero => absurd hzero (Nat.succ_ne_zero step)⟩
      · exact wrapUp_blank h
    | some found => exact ⟨(nextAnnounced_bits hnext).2.1.trans h, Next.noConfusion⟩
  | wrap => exact wrapUp_blank h
  | last => trivial

theorem wrapUp_hasBit (h : pass.guard.InDeferred i) :
  pass.wrapUp.HasBit i
  := by
  rw [Pass.wrapUp]
  cases hnext : pass.guard.nextAnnounced with
  | none => exact Or.inl h
  | some found => exact Or.inr (h.nextAnnounced hnext)

/-- A harvest goes on with the bits that it holds back. -/
theorem resume_hasBit (hlast : next = .last → pass.guard.deferredBits = 0#64)
    (h : pass.guard.InDeferred i) :
  (pass.resume n next).HasBit i
  := by
  cases next with
  | single => exact Or.inl h
  | rotate step =>
    rw [Pass.resume]
    cases hnext : pass.guard.nextAnnounced with
    | none =>
      simp only
      split
      · exact Or.inr h
      · exact wrapUp_hasBit h
    | some found => exact Or.inr (h.nextAnnounced hnext)
  | wrap => exact wrapUp_hasBit h
  | last => exact absurd h (not_inDeferred (hlast rfl))

end Guards

theorem begin_blank (cap : ℕ) :
  (s.begin cap).Blank
  := by
  rw [System.begin]
  simp only
  split
  · trivial
  · split
    · exact ⟨rfl, rfl⟩
    · exact ⟨rfl, fun _ => rfl⟩

theorem takeFirst_blank {pass : Pass} (hcurrent : pass.guard.currentBits = 0#64)
    (hdeferred : pass.guard.deferredBits = 0#64) :
  (s.takeFirst pass).phase.Blank
  := by
  rw [System.takeFirst]
  simp only
  split
  · exact ⟨hcurrent, hdeferred⟩
  · exact resume_blank hcurrent

theorem takeSummary_blank {pass : Pass} {step : ℕ} (hcurrent : pass.guard.currentBits = 0#64) :
  (s.takeSummary pass step).phase.Blank
  := by
  rw [System.takeSummary]
  simp only
  exact resume_blank hcurrent

theorem restoreWord_blank {word : ℕ} {bits : Word} {announce next : Phase}
    (h : announce.Blank ∧ next.Blank) :
  (s.restoreWord word bits announce next).phase.Blank
  := by
  rcases restoreWord_phase s word bits announce next with heq | heq <;> rw [heq]
  · exact h.1
  · exact h.2

theorem blank_step [DecidableEq ν] {e : Event} (h : s.phase.Blank) (hstep : Step s e s') :
  s'.phase.Blank
  := by
  cases hstep with
  | notifyClosed _ _ _ => exact h
  | notify _ _ _ => exact h
  | mark _ => exact h
  | announce _ => exact h
  | ring _ => exact h
  | register _ => exact h
  | pushFull _ _ => exact h
  | pushMark _ =>
    show (if _ then _ else _ : Phase).Blank
    split <;> trivial
  | harvest _ => exact begin_blank _
  | takeSingle _ => exact Next.noConfusion
  | takeFirst hphase =>
    rw [hphase] at h
    exact takeFirst_blank h.1 (h.2 rfl)
  | takeStart _ => exact Next.noConfusion
  | takeSummary hphase =>
    rw [hphase] at h
    exact takeSummary_blank h.1
  | takeWord hphase =>
    rw [hphase] at h
    exact fun hlast => absurd hlast h.2
  | resume _ hzero => exact resume_blank hzero
  | skip hphase _ _ =>
    rw [hphase] at h
    exact h
  | stale hphase _ _ _ =>
    rw [hphase] at h
    exact h
  | pending hphase _ _ _ _ =>
    rw [hphase] at h
    exact h
  | finished hphase _ _ _ _ =>
    rw [hphase] at h
    exact h
  | restoreCurrent _ => exact restoreWord_blank ⟨trivial, trivial⟩
  | restoreDeferred _ => exact restoreWord_blank ⟨trivial, trivial⟩
  | restoreDeferredSummary _ =>
    show (if _ then _ else _ : Phase).Blank
    split <;> trivial
  | _ => trivial

/-! ### Deeds -/

/-- What the owner does in a step. -/
inductive Deed where
  /-- The future of a slot was polled and finished, or was polled and did not. -/
  | polled (slot : ℕ) (finished : Bool)
  /-- A harvest returned. -/
  | returned (report : Harvest)
  | other
  deriving DecidableEq

/-- The deed of a step. -/
def deed (s : System ν) (e : Event) (s' : System ν) : Deed :=
  match e, s.phase, s'.phase with
  | .reported report, _, _ => .returned report
  | _, .polling pass _, .polling pass' _ =>
      if pass'.report.polled = pass.report.polled + 1 then
        .polled pass.index (pass'.report.finished = pass.report.finished + 1)
      else
        .other
  | _, _, _ => .other

theorem deed_polled {e : Event} {done : Bool} (h : deed s e s' = .polled i done) :
  ∃ pass next pass' next', s.phase = .polling pass next ∧ s'.phase = .polling pass' next' ∧
    pass'.report.polled = pass.report.polled + 1 ∧ i = pass.index
  := by
  unfold deed at h
  split at h
  · cases h
  · rename_i hphase hphase'
    split at h
    · rename_i hpolled
      cases h
      exact ⟨_, _, _, _, hphase, hphase', hpolled, rfl⟩
    · cases h
  · cases h

theorem deed_returned {e : Event} {report : Harvest} (h : deed s e s' = .returned report) :
  e = .reported report
  := by
  unfold deed at h
  split at h
  · cases h
    rfl
  · split at h <;> cases h
  · cases h

theorem deed_other {e : Event} (hreported : ∀ report, e ≠ .reported report)
    (hpolled : ∀ i done, deed s e s' ≠ .polled i done) :
  deed s e s' = .other
  := by
  cases hdeed : deed s e s' with
  | polled i done => exact absurd hdeed (hpolled i done)
  | returned report => exact absurd (deed_returned hdeed) (hreported report)
  | other => rfl

/-- A step of a harvest and what the owner did in it. -/
def Paces [DecidableEq ν] (s : System ν) (d : Deed) (s' : System ν) : Prop :=
  s.phase ≠ .idle ∧ ∃ e, Step s e s' ∧ deed s e s' = d

theorem trail_of_paces [DecidableEq ν] {deeds : List Deed} (h : Trail Paces s deeds s') :
  ∃ trace, Trail Step s trace s'
  := by
  induction h with
  | nil => exact ⟨[], .nil⟩
  | snoc _ hpaces ih =>
    obtain ⟨trace, htrail⟩ := ih
    obtain ⟨-, e, hstep, -⟩ := hpaces
    exact ⟨trace ++ [e], htrail.snoc hstep⟩

/-- A harvest that still scans has not begun to unwind. -/
theorem scans_back [DecidableEq ν] {e : Event} (hstep : Step s e s') (hbusy : s.phase ≠ .idle)
    (hscans : s'.phase.Scans) :
  s.phase.Scans
  := by
  have hrestored : ∀ {word bits announce next}, ¬ announce.Scans → ¬ next.Scans →
      s'.phase = (s.restoreWord word bits announce next).phase → s.phase.Scans := by
    intro word bits announce next hannounce hnext heq
    rw [heq] at hscans
    rcases restoreWord_phase s word bits announce next with hp | hp <;>
      rw [hp] at hscans
    · exact absurd hscans hannounce
    · exact absurd hscans hnext
  have hconditional : ∀ {c : Prop} [Decidable c] {phase phase' : Phase}, ¬ phase.Scans →
      ¬ phase'.Scans → s'.phase = (if c then phase else phase') → s.phase.Scans := by
    intro c _ phase phase' hphase hphase' heq
    rw [heq] at hscans
    split at hscans
    · exact absurd hscans hphase
    · exact absurd hscans hphase'
  cases hstep with
  | notifyClosed _ _ _ => exact hscans
  | notify _ _ _ => exact hscans
  | mark _ => exact hscans
  | announce _ => exact hscans
  | ring _ => exact hscans
  | register hphase => exact absurd hphase hbusy
  | pushFull hphase _ => exact absurd hphase hbusy
  | pushMark _ => exact hconditional id id rfl
  | harvest hphase => exact absurd hphase hbusy
  | takeSingle hphase => rw [hphase]; trivial
  | takeFirst hphase => rw [hphase]; trivial
  | takeStart hphase => rw [hphase]; trivial
  | takeSummary hphase => rw [hphase]; trivial
  | takeWord hphase => rw [hphase]; trivial
  | resume hphase _ => rw [hphase]; trivial
  | skip hphase _ _ => rw [hphase]; trivial
  | stale hphase _ _ _ => rw [hphase]; trivial
  | pending hphase _ _ _ _ => rw [hphase]; trivial
  | finished hphase _ _ _ _ => rw [hphase]; trivial
  | restoreCurrent _ => exact hrestored id id rfl
  | restoreDeferred _ => exact hrestored id id rfl
  | restoreDeferredSummary _ => exact hconditional id id rfl
  | check _ _ => exact absurd hscans (Nat.succ_ne_zero _)
  | _ => exact hscans.elim

theorem deed_restoring {e : Event} {pass : Pass} {part : Restore} {wakeOwner hadWork done : Bool}
    (hphase : s.phase = .restoring pass part wakeOwner hadWork) :
  deed s e s' ≠ .polled i done
  := by
  intro hpolled
  obtain ⟨_, _, _, _, hpolling, -, -, -⟩ := deed_polled hpolled
  rw [hphase] at hpolling
  cases hpolling

theorem rung_ne (s : System ν) (report : Harvest) :
  s.rung ≠ .reported report
  := by
  rw [System.rung]
  split <;> exact Event.noConfusion

/-- A harvest that returns leaves the owner idle. -/
theorem reported_idle [DecidableEq ν] {report : Harvest} (h : Step s (.reported report) s') :
  s'.phase = .idle
  := by
  generalize he : Event.reported report = e at h
  cases h with
  | ring _ => exact absurd he.symm (rung_ne s report)
  | restoreRing _ => rfl
  | @restoreDeferredSummary pass wakeOwner hadWork _ =>
    cases wakeOwner with
    | true => cases he
    | false => rfl
  | report _ _ => rfl
  | _ => cases he

/-- A guard that puts back what it holds leaves the slots alone, and the harvest returns unless it
unwinds. -/
theorem restoring_step [DecidableEq ν] {e : Event} {pass : Pass} {part : Restore}
    {wakeOwner hadWork : Bool} (hphase : s.phase = .restoring pass part wakeOwner hadWork)
    (hstep : Step s e s') :
  s'.occupied = s.occupied ∧ s'.cursor = s.cursor ∧
    ((∃ part', s'.phase = .restoring pass part' wakeOwner hadWork ∧
        ∀ report, e ≠ .reported report) ∨
      (s'.phase = .idle ∧ ((wakeOwner = false ∧ e = .reported pass.report) ∨
        (e = .other ∧ hadWork = false) ∨ (e = s.rung ∧ s' = s.ring.setPhase .idle))))
  := by
  have hrestored : ∀ {word bits part₁ part₂},
      (∃ part', (s.restoreWord word bits (.restoring pass part₁ wakeOwner hadWork)
        (.restoring pass part₂ wakeOwner hadWork)).phase =
          .restoring pass part' wakeOwner hadWork ∧ ∀ report, Event.other ≠ .reported report) := by
    intro word bits part₁ part₂
    rcases restoreWord_phase s word bits _ _ with hp | hp
    · exact ⟨_, hp, fun _ => Event.noConfusion⟩
    · exact ⟨_, hp, fun _ => Event.noConfusion⟩
  have hother : ∀ report, Event.other ≠ .reported report := fun _ => Event.noConfusion
  cases hstep with
  | notifyClosed _ _ _ => exact ⟨rfl, rfl, Or.inl ⟨part, hphase, hother⟩⟩
  | notify _ _ _ => exact ⟨rfl, rfl, Or.inl ⟨part, hphase, hother⟩⟩
  | mark _ => exact ⟨rfl, rfl, Or.inl ⟨part, hphase, hother⟩⟩
  | announce _ => exact ⟨rfl, rfl, Or.inl ⟨part, hphase, hother⟩⟩
  | ring _ => exact ⟨rfl, rfl, Or.inl ⟨part, hphase, rung_ne s⟩⟩
  | register hold => cases hphase.symm.trans hold
  | push hold _ => cases hphase.symm.trans hold
  | pushFull hold _ => cases hphase.symm.trans hold
  | pushMark hold => cases hphase.symm.trans hold
  | pushAnnounce hold => cases hphase.symm.trans hold
  | harvest hold => cases hphase.symm.trans hold
  | takeSingle hold => cases hphase.symm.trans hold
  | takeFirst hold => cases hphase.symm.trans hold
  | takeStart hold => cases hphase.symm.trans hold
  | takeSummary hold => cases hphase.symm.trans hold
  | takeWord hold => cases hphase.symm.trans hold
  | resume hold _ => cases hphase.symm.trans hold
  | skip hold _ _ => cases hphase.symm.trans hold
  | stale hold _ _ _ => cases hphase.symm.trans hold
  | truncate hold _ _ _ _ => cases hphase.symm.trans hold
  | pending hold _ _ _ _ => cases hphase.symm.trans hold
  | finished hold _ _ _ _ => cases hphase.symm.trans hold
  | pollPanics hold _ _ _ _ => cases hphase.symm.trans hold
  | outPanics hold _ _ _ _ => cases hphase.symm.trans hold
  | restoreCurrent hold =>
    cases hphase.symm.trans hold
    exact ⟨restoreWord_slots.1, restoreWord_slots.2.2.2, Or.inl hrestored⟩
  | announceCurrent hold =>
    cases hphase.symm.trans hold
    exact ⟨rfl, rfl, Or.inl ⟨_, rfl, hother⟩⟩
  | restoreDeferred hold =>
    cases hphase.symm.trans hold
    exact ⟨restoreWord_slots.1, restoreWord_slots.2.2.2, Or.inl hrestored⟩
  | announceDeferred hold =>
    cases hphase.symm.trans hold
    exact ⟨rfl, rfl, Or.inl ⟨_, rfl, hother⟩⟩
  | restoreSummary hold =>
    cases hphase.symm.trans hold
    exact ⟨rfl, rfl, Or.inl ⟨_, rfl, hother⟩⟩
  | restoreDeferredSummary hold =>
    cases hphase.symm.trans hold
    refine ⟨rfl, rfl, ?_⟩
    cases wakeOwner with
    | false => exact Or.inr ⟨rfl, Or.inl ⟨rfl, rfl⟩⟩
    | true =>
      cases hadWork with
      | false => exact Or.inr ⟨rfl, Or.inr (Or.inl ⟨rfl, rfl⟩)⟩
      | true => exact Or.inl ⟨_, rfl, hother⟩
  | restoreRing hold => exact ⟨rfl, rfl, Or.inr ⟨rfl, Or.inr (Or.inr ⟨rfl, rfl⟩)⟩⟩
  | check hold _ => cases hphase.symm.trans hold
  | report hold _ => cases hphase.symm.trans hold
  | close hold => cases hphase.symm.trans hold

section Polls

variable {pass : Pass} {next : Next}

theorem deed_pending (hphase : s.phase = .polling pass next) :
  deed s .other ((s.advanceCursor pass.index).setPhase (.polling pass.polled.visited next)) =
    .polled pass.index false
  := by
  have hnot : decide (pass.report.finished = pass.report.finished + 1) = false :=
    decide_eq_false (Nat.succ_ne_self _).symm
  simp only [deed, hphase, System.setPhase]
  exact (if_pos rfl).trans (congrArg _ hnot)

theorem deed_finished (hphase : s.phase = .polling pass next) :
  deed s .other (((s.remove pass.index).advanceCursor pass.index).setPhase
      (.polling pass.polled.finished.visited next)) = .polled pass.index true
  := by
  have hdone : decide (pass.report.finished + 1 = pass.report.finished + 1) = true :=
    decide_eq_true rfl
  simp only [deed, hphase, System.setPhase]
  exact (if_pos rfl).trans (congrArg _ hdone)

end Polls

/-! ### Retained bits -/

/-- The bit of a slot is set, or the owner has taken it and is to visit it or put it back. -/
def System.Retains (s : System ν) (i : ℕ) : Prop :=
  s.ready.isReady i = true ∨ s.phase.HasBit i

section Retaining

variable {r : ReadySet} {pass : Pass} {word : ℕ} {bits : Word} {next : Next}

theorem visited_inCurrent (h : pass.guard.InCurrent i) (hne : i ≠ pass.index) :
  pass.visited.guard.InCurrent i
  := by
  refine ⟨h.1, ?_⟩
  have hlt : i % WORD_BITS < 64 := Nat.mod_lt _ (by decide)
  show (pass.guard.currentBits &&& ~~~(1#64 <<< _)).getLsbD _ = true
  rw [BitVec.getLsbD_clear hlt, h.2, Bool.true_and, Bool.not_eq_true', decide_eq_false_iff_not]
  intro heq
  apply hne
  rw [Pass.index, h.1, ← heq, Nat.div_add_mod']

theorem isReady_fetchOr (h : r.isReady i = true ∨
    (word = i / WORD_BITS ∧ bits.getLsbD (i % WORD_BITS) = true)) :
  (r.fetchOr word bits).isReady i = true
  := by
  rw [ReadySet.isReady, fetchOr_words]
  split
  · rw [BitVec.getLsbD_or, Bool.or_eq_true]
    exact h.imp_right And.right
  · rename_i hne
    exact h.resolve_right fun hbit => hne hbit.1.symm

theorem isReady_takeWord (word : ℕ) (hi : i < r.slots) (h : r.isReady i = true) :
  (r.takeWord word).1.isReady i = true ∨
    (word = i / WORD_BITS ∧ (r.takeWord word).2.getLsbD (i % WORD_BITS) = true)
  := by
  by_cases heq : i / WORD_BITS = word
  · refine Or.inr ⟨heq.symm, ?_⟩
    have hlt : i % WORD_BITS < 64 := Nat.mod_lt _ (by decide)
    subst heq
    rw [ReadySet.takeWord, BitVec.getLsbD_and, getLsbD_validMask hlt, Bool.and_true]
    · exact h
    · rw [Nat.div_add_mod']
      exact hi
  · left
    rw [ReadySet.isReady, takeWord_words, if_neg heq]
    exact h

/-- The bits of a word that is split at the cursor are kept. -/
theorem split_bit (startBit : ℕ) (h : bits.getLsbD (i % WORD_BITS) = true) :
  (bits &&& ~~~lowMask startBit).getLsbD (i % WORD_BITS) = true ∨
    (bits &&& lowMask startBit).getLsbD (i % WORD_BITS) = true
  := by
  have hlt : i % WORD_BITS < 64 := Nat.mod_lt _ (by decide)
  rw [BitVec.getLsbD_and, BitVec.getLsbD_and, BitVec.getLsbD_not, h, getLsbD_lowMask hlt]
  by_cases hlow : i % WORD_BITS < startBit
  · simp [hlow]
  · simp [hlow, hlt]

theorem restoreWord_isReady {announce next : Phase} (hi : i < s.capacity)
    (h : s.ready.isReady i = true ∨
      (word = i / WORD_BITS ∧ bits.getLsbD (i % WORD_BITS) = true)) :
  (s.restoreWord word bits announce next).ready.isReady i = true
  := by
  have hlt : i % WORD_BITS < 64 := Nat.mod_lt _ (by decide)
  have hvalid : word = i / WORD_BITS → bits.getLsbD (i % WORD_BITS) = true →
      (bits &&& s.ready.validMask word).getLsbD (i % WORD_BITS) = true := by
    rintro rfl hbit
    rw [BitVec.getLsbD_and, hbit, getLsbD_validMask hlt, Bool.and_true]
    rw [Nat.div_add_mod']
    exact hi
  rw [System.restoreWord]
  split
  · rename_i hzero
    apply h.resolve_right
    rintro ⟨hword, hbit⟩
    have hset := hvalid hword hbit
    rw [hzero, BitVec.getLsbD_zero] at hset
    cases hset
  · exact isReady_fetchOr (h.imp_right fun hbit => ⟨hbit.1, hvalid hbit.1 hbit.2⟩)

theorem System.Retains.ready (h : s.Retains i) (hnone : ¬ s.phase.HasBit i) :
  s.ready.isReady i = true
  := h.resolve_right hnone

theorem System.Retains.takeSplit (h : s.ready.isReady i = true) (hi : i < s.capacity) :
  (s.takeSplit pass word next).Retains i
  := by
  rcases isReady_takeWord word hi h with hready | ⟨hword, hbit⟩
  · exact Or.inl hready
  · rcases split_bit pass.startBit hbit with hcurrent | hdeferred
    · exact Or.inr (Or.inl ⟨hword, hcurrent⟩)
    · exact Or.inr (Or.inr ⟨hword, hdeferred⟩)

theorem takeSummary_hasBit {step : ℕ} (h : pass.guard.InDeferred i) :
  (s.takeSummary pass step).phase.HasBit i
  := by
  rw [System.takeSummary]
  simp only
  exact resume_hasBit Next.noConfusion h

theorem System.Retains.restoreWord {announce next : Phase} (hi : i < s.capacity)
    (h : s.ready.isReady i = true ∨
      (word = i / WORD_BITS ∧ bits.getLsbD (i % WORD_BITS) = true) ∨
      (announce.HasBit i ∧ next.HasBit i)) :
  (s.restoreWord word bits announce next).Retains i
  := by
  rcases or_assoc.mpr h with hbit | hphase
  · exact Or.inl (restoreWord_isReady hi hbit)
  · right
    rcases restoreWord_phase s word bits announce next with heq | heq <;>
      rw [heq]
    · exact hphase.1
    · exact hphase.2

/-- The bit of a slot that is not polled is retained. -/
theorem System.Retains.step [DecidableEq ν] {e : Event} (h : s.Retains i) (hblank : s.phase.Blank)
    (hi : i < s.capacity) (hoccupied : ∀ pass next, s.phase = .polling pass next → s.occupied i = true)
    (hstep : Step s e s') (hdeed : ∀ done, deed s e s' ≠ .polled i done) :
  s'.Retains i
  := by
  have hready : ∀ {phase : Phase}, s.phase = phase → ¬ phase.HasBit i →
      s.ready.isReady i = true := by
    intro phase hphase hnone
    rw [← hphase] at hnone
    exact h.ready hnone
  have hvisit : ∀ {pass pass' : Pass} {next}, s.phase = .polling pass next →
      pass'.guard = pass.visited.guard → i ≠ pass.index →
      s.ready.isReady i = true ∨ (Phase.polling pass' next).HasBit i := by
    intro pass pass' next hphase hguard hne
    rw [System.Retains, hphase] at h
    rw [Phase.HasBit, hguard]
    exact h.imp_right (Or.imp_left fun hcurrent => visited_inCurrent hcurrent hne)
  have hsame : ∀ {phase phase' : Phase}, s.phase = phase → (phase.HasBit i → phase'.HasBit i) →
      s.ready.isReady i = true ∨ phase'.HasBit i := by
    intro phase phase' hphase hbit
    rw [System.Retains, hphase] at h
    exact h.imp_right hbit
  cases hstep with
  | notifyClosed _ _ _ => exact h
  | notify _ _ _ => exact h
  | mark _ => exact h.imp_left fun hbit => isReady_fetchOr (Or.inl hbit)
  | announce _ => exact h
  | ring _ => exact h
  | register _ => exact h
  | push hphase _ => exact Or.inl (hready hphase id)
  | pushFull _ _ => exact h
  | pushMark hphase => exact Or.inl (isReady_fetchOr (Or.inl (hready hphase id)))
  | pushAnnounce hphase => exact Or.inl (hready hphase id)
  | harvest hphase => exact Or.inl (hready hphase id)
  | takeSingle hphase =>
    rw [hphase] at hblank
    refine System.Retains.takeSplit (hready hphase ?_) hi
    exact not_or.mpr ⟨not_inCurrent hblank.1, not_inDeferred hblank.2⟩
  | takeFirst hphase =>
    rw [hphase] at hblank
    refine Or.inl (hready hphase ?_)
    exact not_or.mpr ⟨not_inCurrent hblank.1, not_inDeferred (hblank.2 rfl)⟩
  | takeStart hphase =>
    rw [hphase] at hblank
    refine System.Retains.takeSplit (hready hphase ?_) hi
    exact not_or.mpr ⟨not_inCurrent hblank.1, not_inDeferred hblank.2⟩
  | takeSummary hphase =>
    rw [hphase] at hblank
    refine hsame hphase ?_
    rintro (hcurrent | hdeferred)
    · exact absurd hcurrent (not_inCurrent hblank.1)
    · exact takeSummary_hasBit hdeferred
  | @takeWord pass word next hphase =>
    rw [hphase] at hblank
    rw [System.Retains, hphase] at h
    rcases h with hbit | hcurrent | hdeferred
    · rcases isReady_takeWord word hi hbit with hleft | htaken
      · exact Or.inl hleft
      · exact Or.inr (Or.inl htaken)
    · exact absurd hcurrent (not_inCurrent hblank.1)
    · exact Or.inr (Or.inr hdeferred)
  | resume hphase hzero =>
    rw [hphase] at hblank
    refine hsame hphase ?_
    rintro (hcurrent | hdeferred)
    · exact absurd hcurrent (not_inCurrent hzero)
    · exact resume_hasBit hblank hdeferred
  | skip hphase _ hindex => exact hvisit hphase rfl (by omega)
  | stale hphase _ _ hfree =>
    refine hvisit hphase rfl ?_
    rintro rfl
    rw [hoccupied _ _ hphase] at hfree
    cases hfree
  | truncate hphase _ _ _ _ => exact hsame hphase id
  | pending hphase _ _ _ _ =>
    refine hvisit hphase rfl ?_
    rintro rfl
    exact hdeed _ (deed_pending hphase)
  | finished hphase _ _ _ _ =>
    refine hvisit hphase rfl ?_
    rintro rfl
    exact hdeed _ (deed_finished hphase)
  | pollPanics hphase _ _ _ _ => exact hsame hphase id
  | outPanics hphase _ _ _ _ => exact hsame hphase id
  | restoreCurrent hphase =>
    apply System.Retains.restoreWord hi
    rw [System.Retains, hphase] at h
    exact h.imp_right (Or.imp_right fun hdeferred => ⟨hdeferred, hdeferred⟩)
  | announceCurrent hphase => exact hsame hphase id
  | restoreDeferred hphase =>
    apply System.Retains.restoreWord hi
    rw [System.Retains, hphase] at h
    exact h.imp_right Or.inl
  | announceDeferred hphase => exact Or.inl (hready hphase id)
  | restoreSummary hphase =>
    left
    show ReadySet.isReady (ReadySet.restoreSummary _ _ _) i = true
    rw [ReadySet.isReady, restoreSummary_words]
    exact hready hphase id
  | restoreDeferredSummary hphase =>
    left
    show ReadySet.isReady (ReadySet.restoreSummary _ _ _) i = true
    rw [ReadySet.isReady, restoreSummary_words]
    exact hready hphase id
  | restoreRing hphase => exact Or.inl (hready hphase id)
  | check hphase _ => exact Or.inl (hready hphase id)
  | report hphase _ => exact Or.inl (hready hphase id)
  | close hphase => exact Or.inl (hready hphase id)

/-- A guard that puts back what it holds retains every bit. -/
theorem System.Retains.restoring [DecidableEq ν] {e : Event} {part : Restore}
    {wakeOwner hadWork : Bool} (h : s.Retains i)
    (hphase : s.phase = .restoring pass part wakeOwner hadWork) (hi : i < s.capacity)
    (hstep : Step s e s') :
  s'.Retains i
  := by
  refine h.step ?_ hi ?_ hstep fun done => deed_restoring hphase
  · rw [hphase]
    trivial
  · intro p next hpolling
    cases hphase.symm.trans hpolling

end Retaining

end Grommet.Outstanding
