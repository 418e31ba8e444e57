import Grommet.Runtime.Outstanding.Clearing
import Grommet.Runtime.Outstanding.Unwinding

/-!
# Harvests in circular order

When no wake comes between its steps, a harvest visits the ready slots in circular order from
its cursor: it drops the bits of the free ones, polls as many of the others as it may, and
leaves the rest ready and announced.
-/

namespace Grommet.Outstanding

variable {ν : Type} {s s' a b : System ν} {start i : ℕ}

/-- The ready slots in circular order from the cursor. -/
def System.order (s : System ν) : List ℕ :=
  (Circle.positions s.capacity s.cursor).filter s.ready.isReady

theorem mem_order (hcursor : s.cursor < s.capacity) :
  i ∈ s.order ↔ i < s.capacity ∧ s.ready.isReady i = true
  := by
  rw [System.order, List.mem_filter, Circle.mem_positions hcursor]

theorem order_pairwise (hcursor : s.cursor < s.capacity) :
  s.order.Pairwise fun i j => Circle.dist s.capacity s.cursor i < Circle.dist s.capacity s.cursor j
  := (Circle.positions_pairwise hcursor).filter _

/-- The slots that were polled. -/
def polledSlots (deeds : List Deed) : List ℕ :=
  deeds.filterMap fun
    | .polled slot _ => some slot
    | _ => none

theorem polledSlots_append (deeds deeds' : List Deed) :
  polledSlots (deeds ++ deeds') = polledSlots deeds ++ polledSlots deeds'
  := List.filterMap_append

/-- The bits of a word name slots with a property. -/
def Within (P : ℕ → Prop) (word : ℕ) (bits : Word) : Prop :=
  ∀ i, bits.getLsbD i = true → P (word * WORD_BITS + i)

theorem within_kept (P : ℕ → Prop) :
  Kept (Within P)
  := by
  refine ⟨?_, ?_, ?_⟩
  · intro w i hi
    rw [BitVec.getLsbD_zero] at hi
    cases hi
  · intro w bits mask h i hi
    rw [BitVec.getLsbD_and, Bool.and_eq_true] at hi
    exact h i hi.1
  · intro w bits bits' h h' i hi
    rw [BitVec.getLsbD_or, Bool.or_eq_true] at hi
    exact hi.elim (h i) (h' i)

/-- The bits in the words are those of slots with a property. -/
theorem Carried.ready {P : ℕ → Prop} (h : Carried (Within P) s) (hready : s.ready.isReady i = true) :
  P i
  := by
  have hslot := h.words (i / WORD_BITS) _ hready
  rw [Nat.div_add_mod'] at hslot
  exact hslot

/-! ### The next slot -/

section Nexts

variable {p : Pass} {next : Next} {last : Option ℕ}

/-- The slot of the lowest bit in hand comes before all others that are awaited. -/
theorem Sails.first (h : Sails start last s) (hphase : s.phase = .polling p next)
    (hbits : p.guard.currentBits ≠ 0#64) (hindex : p.index < s.capacity) (hi : i < s.capacity)
    (hawaits : s.Awaits start i) (hne : i ≠ p.index) :
  Circle.dist s.capacity start p.index < Circle.dist s.capacity start i
  := by
  have hplaced := h.steered.placed
  have hblank := h.steered.blank
  rw [hphase] at hplaced hblank
  have hplace := place_index hplaced hbits
  rw [System.Awaits, hphase] at hawaits
  have hle := here_le hplaced hblank hbits hawaits
  rw [Circle.dist_lt_dist_iff h.steered.start hindex hi (slots_le s.ready).2.2, hplace]
  refine lt_of_le_of_ne hle ?_
  intro heq
  exact hne (Circle.place_inj (hi.trans_le (slots_le s.ready).2.2) (index_lt hplaced hbits)
    (heq.symm.trans hplace.symm))

/-- A slot that is awaited while bits are in hand has its bit in a word or in hand. -/
theorem Sails.retains (h : Sails start last s) (hphase : s.phase = .polling p next)
    (hi : i < s.capacity) (hawaits : s.Awaits start i) :
  s.Retains i
  := by
  have hplaced := h.steered.placed
  rw [hphase] at hplaced
  rw [System.Awaits, hphase] at hawaits
  have hwide : i < 4096 * s.ready.turns := hi.trans_le (slots_le s.ready).2.2
  have hmod := place_mod hwide h.steered.start_lt
  rw [System.Retains, hphase]
  rcases hawaits with ⟨hx, hbit⟩ | ⟨hx, hbit⟩ | ⟨hready, -⟩
  · right
    left
    obtain ⟨hword, hle, hupper, -⟩ := hplaced.2.1 _ hbit
    obtain ⟨hlt, hmeets⟩ := hword.meets
    have hbound := BitVec.lt_of_getLsbD hbit
    have hplace : Circle.place start (4096 * s.ready.turns) (p.guard.currentWord * 64 + i % 64) =
        Circle.place start (4096 * s.ready.turns) i := by
      apply Circle.place_eq
      · omega
      · omega
      · rw [Pass.wordPlace] at hx
        omega
    have heq := Circle.place_inj (by omega) hwide hplace
    rw [hmod] at hbit
    exact ⟨by rw [WORD_BITS]; omega, hbit⟩
  · right
    right
    obtain ⟨hword, hlt⟩ := hplaced.1.deferred _ hbit
    rw [hmod] at hbit
    refine ⟨?_, hbit⟩
    rw [hword]
    exact ((startWord_iff hplaced.1 hwide).mpr (Or.inr hx)).symm
  · exact Or.inl hready

end Nexts

/-! ### What a harvest has visited -/

/-- What a harvest that began in `s` has done, where the slots it visited are listed. -/
structure Toured (s : System ν) (deeds : List Deed) (visited : List ℕ) (a : System ν) : Prop where
  slots : a.ready.slots = s.ready.slots
  stage : a.stage = s.stage
  announced : Announced a
  /-- No bit is left but of a ready slot that was not visited. -/
  carried : Carried (Within fun i => s.ready.isReady i = true ∧ i ∉ visited) a
  path : visited <+: s.order
  polled : polledSlots deeds = visited.filter s.occupied
  cursor : a.cursor = visited.getLast?.elim s.cursor (Circle.next s.capacity)
  occupied : ∀ i ∉ polledSlots deeds, a.occupied i = s.occupied i

/-- What holds while the harvest scans. -/
structure Touring (s : System ν) (cap : ℕ) (deeds : List Deed) (visited : List ℕ) (a : System ν) :
    Prop extends Toured s deeds visited a where
  scans : a.phase.Scans
  sails : Sails s.cursor visited.getLast? a
  cleared : Cleared a
  awaits : ∀ i ∈ s.order, i ∉ visited → a.Awaits s.cursor i
  counts : a.phase.Counts cap (polledSlots deeds).length
  le : (polledSlots deeds).length ≤ cap

section Tours

variable {deeds : List Deed} {visited : List ℕ} {cap : ℕ} {e : Event} {d : Deed}

theorem Touring.not_marking (h : Touring s cap deeds visited a) (slot : ℕ) :
  a.phase ≠ .marking slot
  := by
  intro hmarking
  have hscans := h.scans
  rw [hmarking] at hscans
  exact hscans

theorem Touring.busy (h : Touring s cap deeds visited a) :
  a.phase ≠ .idle
  := by
  intro hidle
  have hscans := h.scans
  rw [hidle] at hscans
  exact hscans

theorem Touring.capacity (h : Touring s cap deeds visited a) :
  a.capacity = s.capacity
  := h.slots

/-- The slot of the lowest bit in hand is the next one in order. -/
theorem Touring.next {p : Pass} {next : Next} (h : Touring s cap deeds visited a)
    (hcursor : s.cursor < s.capacity) (hphase : a.phase = .polling p next)
    (hbits : p.guard.currentBits ≠ 0#64) (hindex : p.index < a.capacity) :
  p.index ∉ visited ∧ visited ++ [p.index] <+: s.order
  := by
  have hcarries := (h.carried.guard p.guard (by rw [hphase]; rfl)).1
  obtain ⟨hready, hnew⟩ := hcarries _ (trailingZeros_spec hbits).1
  refine ⟨hnew, Circle.prefix_snoc (order_pairwise hcursor) h.path ?_ hnew ?_⟩
  · exact (mem_order hcursor).mpr ⟨hindex.trans_eq h.capacity, hready⟩
  · intro i hi hold hne
    have hlt := ((mem_order hcursor).mp hi).1.trans_eq h.capacity.symm
    rw [← h.capacity]
    exact h.sails.first hphase hbits hindex hlt (h.awaits i hi hold) hne

/-- The bit of a slot that is visited is gone. -/
theorem Touring.visit_carried {p : Pass} {next : Next} {report : Harvest}
    (h : Touring s cap deeds visited a) (hphase : a.phase = .polling p next)
    (hbits : p.guard.currentBits ≠ 0#64) (hready : b.ready = a.ready)
    (hphase' : b.phase = .polling { p.visited with report := report } next) :
  Carried (Within fun i => s.ready.isReady i = true ∧ i ∉ visited ++ [p.index]) b
  := by
  have hguard : a.phase.guard = some p.guard := by rw [hphase]; rfl
  obtain ⟨hset, hlt, -⟩ := trailingZeros_spec hbits
  have hnew : ∀ {i}, s.ready.isReady i = true ∧ i ∉ visited → i ≠ p.index →
      s.ready.isReady i = true ∧ i ∉ visited ++ [p.index] := by
    rintro i ⟨hi, hold⟩ hne
    refine ⟨hi, fun hmem => ?_⟩
    rcases List.mem_append.mp hmem with hmem | hmem
    · exact hold hmem
    · exact hne (List.mem_singleton.mp hmem)
  refine ⟨?_, ?_⟩
  · intro w i hbit
    rw [hready] at hbit
    refine hnew (h.carried.words w i hbit) ?_
    intro heq
    have hi := BitVec.lt_of_getLsbD hbit
    rw [Pass.index, WORD_BITS] at heq
    have hw : w = p.guard.currentWord := by omega
    rcases (h.cleared.words _ hguard).1 with hzero | hempty
    · exact hbits hzero
    · rw [hw, hempty, BitVec.getLsbD_zero] at hbit
      cases hbit
  · intro g hg
    rw [hphase'] at hg
    cases hg
    obtain ⟨hcurrent, hdeferred⟩ := h.carried.guard _ hguard
    refine ⟨?_, ?_⟩
    · intro i hbit
      obtain ⟨hold, hne⟩ := (visited_bit i).mp hbit
      refine hnew (hcurrent i hold) ?_
      intro heq
      apply hne
      change p.guard.currentWord * WORD_BITS + i = p.index at heq
      rw [Pass.index] at heq
      omega
    · intro i hbit
      refine hnew (hdeferred i hbit) ?_
      intro heq
      have hplaced := h.sails.steered.placed
      have hblank := h.sails.steered.blank
      rw [hphase] at hplaced hblank
      have hstart := hplaced.1.start
      obtain ⟨hword, hlow⟩ := hplaced.1.deferred i hbit
      change p.guard.deferredWord * WORD_BITS + i = p.index at heq
      have hplace := place_index hplaced hbits
      rw [Circle.place, if_neg (by rw [← heq, WORD_BITS]; omega), ← heq, hword, WORD_BITS] at hplace
      have hlater : p.Awaits a.ready.turns (next.turn a.ready.turns) True True
          (p.here a.ready.turns next) := by
        rw [← hplace]
        have hi := BitVec.lt_of_getLsbD hbit
        refine Or.inl ⟨by omega, ?_⟩
        have hmod : (p.startWord * 64 + i + 4096 * a.ready.turns) % 64 = i := by omega
        rw [hmod]
        exact hbit
      exact lt_irrefl _ (here_lt_later hplaced hblank hbits hlater)

variable [DecidableEq ν]

/-- A step of the owner leaves the notifiers alone. -/
theorem stage_step (hmoves : b.phase ≠ a.phase) (hstep : Step a e b) :
  b.stage = a.stage
  := by
  cases hstep with
  | notifyClosed _ _ _ => rfl
  | notify _ _ _ => exact absurd rfl hmoves
  | mark _ => exact absurd rfl hmoves
  | announce _ => exact absurd rfl hmoves
  | ring _ => exact absurd rfl hmoves
  | restoreCurrent _ => exact restoreWord_other.2.2.1
  | restoreDeferred _ => exact restoreWord_other.2.2.1
  | _ => rfl

/-- A step of a harvest without notifiers sets no bit. -/
theorem Toured.marks (h : Toured s deeds visited a) (hquiet : ∀ n, s.stage n = .idle)
    (hphase : ∀ slot, a.phase ≠ .marking slot) (slot : ℕ) :
  ¬ Marks a b slot
  := by
  rintro (⟨n, hstage, -⟩ | hmarking)
  · rw [h.stage, hquiet n] at hstage
    cases hstage
  · exact hphase slot hmarking

/-- A step that visits no slot. -/
theorem Toured.still (h : Toured s deeds visited a) (hquiet : ∀ n, s.stage n = .idle)
    (hphase : ∀ slot, a.phase ≠ .marking slot) (hmoves : b.phase ≠ a.phase) (hstep : Step a e b)
    (hcursor : b.cursor = a.cursor) (hoccupied : b.occupied = a.occupied)
    (hd : polledSlots [d] = []) :
  Toured s (deeds ++ [d]) visited b
  := by
  have hpolled : polledSlots (deeds ++ [d]) = polledSlots deeds := by
    rw [polledSlots_append, hd, List.append_nil]
  refine ⟨(slots_step hstep).trans h.slots, (stage_step hmoves hstep).trans h.stage,
    h.announced.step hstep, ?_, h.path, hpolled.trans h.polled, hcursor.trans h.cursor, ?_⟩
  · exact h.carried.step (within_kept _) hstep fun slot hmarks =>
      (h.marks hquiet hphase slot hmarks).elim
  · rw [hpolled, hoccupied]
    exact h.occupied

/-- The harvest visits the next slot. -/
theorem Touring.visit {p : Pass} {next : Next} {report : Harvest}
    (h : Touring s cap deeds visited a) (hcursor : s.cursor < s.capacity)
    (hmoves : b.phase ≠ a.phase) (hstep : Step a e b) (hscans : b.phase.Scans)
    (hvisits : Visits p next report a e b) (hsails : Sails s.cursor (some p.index) b)
    (hkeeps : ∀ i < a.capacity, i ≠ p.index → a.Awaits s.cursor i → b.Awaits s.cursor i) :
  Touring s cap (deeds ++ [deed a e b]) (visited ++ [p.index]) b
  := by
  obtain ⟨hnew, hpath⟩ := h.next hcursor hvisits.phase hvisits.bits hvisits.index
  have hunpolled : p.index ∉ polledSlots deeds := by
    rw [h.polled]
    exact fun hmem => hnew (List.mem_of_mem_filter hmem)
  have hfree : s.occupied p.index = a.occupied p.index := (h.occupied _ hunpolled).symm
  have hreported : ∀ report, e ≠ .reported report := by
    rintro report rfl
    rw [reported_idle hstep] at hscans
    exact hscans
  have hlast : (visited ++ [p.index]).getLast? = some p.index := List.getLast?_concat
  have hcounts := h.counts
  rw [hvisits.phase] at hcounts
  obtain ⟨hcap, hcount⟩ := hcounts
  have hpolled : polledSlots (deeds ++ [deed a e b]) = (visited ++ [p.index]).filter s.occupied ∧
      (∀ i ∉ polledSlots (deeds ++ [deed a e b]), b.occupied i = s.occupied i) ∧
      report.polled = (polledSlots (deeds ++ [deed a e b])).length ∧
      (polledSlots (deeds ++ [deed a e b])).length ≤ cap := by
    have hother : ∀ i ∉ polledSlots deeds, i ≠ p.index → b.occupied i = s.occupied i :=
      fun i hi hne => (hvisits.occupied i hne).trans (h.occupied i hi)
    rw [polledSlots_append, List.filter_append, h.polled]
    rcases hvisits.deed with
      ⟨hstale, hstale', hreport, hnever⟩ | ⟨hoccupied, hbelow, hreport, done, hdone⟩
    · have hdeed : polledSlots [deed a e b] = [] := by
        rw [deed_other hreported hnever]
        rfl
      have hdrop : [p.index].filter s.occupied = [] :=
        List.filter_singleton.trans (by rw [hfree, hstale]; rfl)
      rw [hdeed, hdrop, List.append_nil, ← h.polled]
      refine ⟨rfl, ?_, ?_, h.le⟩
      · intro i hi
        by_cases heq : i = p.index
        · rw [heq, hfree, hstale, hstale']
        · exact hother i hi heq
      · rw [hreport]
        exact hcount
    · have hdeed : polledSlots [deed a e b] = [p.index] := by
        rw [hdone]
        rfl
      have hkeep : [p.index].filter s.occupied = [p.index] :=
        List.filter_singleton.trans (by rw [hfree, hoccupied]; rfl)
      rw [hdeed, hkeep, ← h.polled, List.length_append]
      have hle := h.le
      refine ⟨rfl, ?_, ?_, ?_⟩
      · intro i hi
        rw [List.mem_append, List.mem_singleton, not_or] at hi
        exact hother i hi.1 hi.2
      · rw [hreport, hcount]
        rfl
      · show (polledSlots deeds).length + 1 ≤ cap
        omega
  refine ⟨⟨(slots_step hstep).trans h.slots, (stage_step hmoves hstep).trans h.stage,
    h.announced.step hstep, h.visit_carried hvisits.phase hvisits.bits hvisits.ready hvisits.phase',
    hpath, hpolled.1, ?_, hpolled.2.1⟩, hscans, ?_, h.cleared.step h.sails.steered hstep h.busy
    hmoves hscans, ?_, ?_, hpolled.2.2.2⟩
  · rw [hlast, hvisits.cursor, h.capacity]
    rfl
  · rw [hlast]
    exact hsails
  · intro i hi hold
    rw [List.mem_append, List.mem_singleton, not_or] at hold
    exact hkeeps i (((mem_order hcursor).mp hi).1.trans_eq h.capacity.symm) hold.2
      (h.awaits i hi hold.1)
  · rw [hvisits.phase']
    exact ⟨hcap, hpolled.2.2.1⟩

/-- While the harvest scans, a step visits the next slot or none. -/
theorem Touring.step (h : Touring s cap deeds visited a) (hcursor : s.cursor < s.capacity)
    (hquiet : ∀ n, s.stage n = .idle) (hmoves : b.phase ≠ a.phase) (hstep : Step a e b)
    (hscans : b.phase.Scans) :
  ∃ visited', Touring s cap (deeds ++ [deed a e b]) visited' b
  := by
  cases h.sails.step hstep h.busy hscans (h.announced.step hstep).tidy with
  | quiet hsails hstill hkeeps hcursor' hoccupied =>
    have hdeed : deed a e b = .other := by
      refine deed_other ?_ hstill.deed
      rintro report rfl
      rw [reported_idle hstep] at hscans
      exact hscans
    have htoured := h.toToured.still (d := deed a e b) hquiet h.not_marking hmoves hstep hcursor'
      hoccupied (by rw [hdeed]; rfl)
    have hsame : polledSlots (deeds ++ [deed a e b]) = polledSlots deeds :=
      htoured.polled.trans h.polled.symm
    refine ⟨visited, htoured, hscans, hsails, h.cleared.step h.sails.steered hstep h.busy hmoves
      hscans, ?_, ?_, ?_⟩
    · intro i hi hold
      exact hkeeps i (((mem_order hcursor).mp hi).1.trans_eq h.capacity.symm) (h.awaits i hi hold)
    · rw [hsame]
      exact hstill.counts _ _ h.counts
    · rw [hsame]
      exact h.le
  | visit hvisits hsails _ hkeeps =>
    exact ⟨_, h.visit hcursor hmoves hstep hscans hvisits hsails hkeeps⟩

end Tours

/-! ### What a harvest leaves -/

/-- What a harvest that began in `s` and returned in `s'` has done, where `passed` are the slots it
visited and `rest` those that it left. -/
structure Harvested (s : System ν) (cap : ℕ) (deeds : List Deed) (report : Harvest) (s' : System ν)
    (passed rest : List ℕ) : Prop where
  order : s.order = passed ++ rest
  polled : polledSlots deeds = passed.filter s.occupied
  /-- The first of the ready slots that hold a future were polled, and the others left. -/
  first : polledSlots deeds = (s.order.filter s.occupied).take cap
  left : rest.filter s.occupied = (s.order.filter s.occupied).drop cap
  /-- The harvest stops at a slot that holds a future. -/
  stops : ∀ i ∈ rest.head?, s.occupied i = true
  ready : ∀ i < s.capacity, s'.ready.isReady i = true ↔ i ∈ rest
  announced : 1 < s'.ready.wordCount → ∀ i ∈ rest, s'.ready.InSummary (i / WORD_BITS)
  cursor : s'.cursor = passed.getLast?.elim s.cursor (Circle.next s.capacity)
  occupied : ∀ i ∉ polledSlots deeds, s'.occupied i = s.occupied i
  count : report.polled = (polledSlots deeds).length
  more : report.moreReady = decide (cap < (s.order.filter s.occupied).length)

section Harvests

variable {deeds : List Deed} {visited rest : List ℕ} {cap : ℕ} {e : Event} {d : Deed}
  {report : Harvest}

/-- A harvest that was truncated leaves what it did not visit. -/
theorem Toured.truncated (h : Toured s deeds visited b) (hcursor : s.cursor < s.capacity)
    (hquiet : ∀ n, s.stage n = .idle) (hidle : b.phase = .idle)
    (horder : s.order = visited ++ i :: rest)
    (hoccupied : s.occupied i = true) (hfull : (polledSlots deeds).length = cap)
    (hcount : report.polled = (polledSlots deeds).length) (hmore : report.moreReady = true)
    (hretains : ∀ j ∈ i :: rest, b.Retains j) :
  Harvested s cap deeds report b visited (i :: rest)
  := by
  have hfilter : s.order.filter s.occupied = polledSlots deeds ++ (i :: rest).filter s.occupied := by
    rw [horder, List.filter_append, h.polled]
  have hleft : (i :: rest).filter s.occupied = i :: rest.filter s.occupied :=
    List.filter_cons_of_pos hoccupied
  have hrest : ∀ j ∈ i :: rest, j < s.capacity := by
    intro j hj
    apply ((mem_order hcursor).mp _).1
    rw [horder]
    exact List.mem_append_right _ hj
  have hready : ∀ j ∈ i :: rest, b.ready.isReady j = true := by
    intro j hj
    apply (hretains j hj).ready
    rw [hidle]
    exact id
  have hcapacity : b.capacity = s.capacity := h.slots
  refine ⟨horder, h.polled, ?_, ?_, ?_, ?_, ?_, h.cursor, h.occupied, hcount, ?_⟩
  · rw [hfilter, ← hfull, List.take_left]
  · rw [hfilter, ← hfull, List.drop_left]
  · rintro j ⟨⟩
    exact hoccupied
  · intro j hj
    refine ⟨fun hset => ?_, hready j⟩
    obtain ⟨hold, hnew⟩ := h.carried.ready hset
    have hmem := (mem_order hcursor).mpr ⟨hj, hold⟩
    rw [horder] at hmem
    exact (List.mem_append.mp hmem).resolve_left hnew
  · intro hmany j hj
    apply (h.announced.announces hidle ((hrest j hj).trans_eq hcapacity.symm) (hready j hj)
      hmany).resolve_right
    rintro ⟨n, hn⟩
    rw [h.stage, hquiet n] at hn
    cases hn
  · rw [hmore, hfilter, hleft, eq_comm, decide_eq_true_eq, List.length_append, List.length_cons]
    omega

/-- A harvest that was not truncated leaves nothing. -/
theorem Toured.finished (h : Toured s deeds s.order b) (hcursor : s.cursor < s.capacity)
    (hle : (polledSlots deeds).length ≤ cap) (hcount : report.polled = (polledSlots deeds).length)
    (hmore : report.moreReady = false) :
  Harvested s cap deeds report b s.order []
  := by
  refine ⟨(List.append_nil _).symm, h.polled, ?_, ?_, nofun, ?_, nofun, h.cursor, h.occupied,
    hcount, ?_⟩
  · rw [← h.polled, List.take_of_length_le hle]
  · rw [← h.polled, List.drop_of_length_le hle]
    rfl
  · intro j hj
    refine ⟨fun hset => ?_, nofun⟩
    obtain ⟨hold, hnew⟩ := h.carried.ready hset
    exact absurd ((mem_order hcursor).mpr ⟨hj, hold⟩) hnew
  · rw [hmore, ← h.polled, eq_comm, decide_eq_false_iff_not]
    omega

/-- Where a harvest stands that began in `s`. -/
inductive Tour (s : System ν) (cap : ℕ) (deeds : List Deed) (a : System ν) : Prop
  | scans {visited : List ℕ} : Touring s cap deeds visited a → Tour s cap deeds a
  | restores {visited rest : List ℕ} {i : ℕ} {p : Pass} {part : Restore} {hadWork : Bool} :
      Toured s deeds visited a → a.phase = .restoring p part false hadWork →
      p.report.polled = (polledSlots deeds).length → p.report.moreReady = true →
      s.order = visited ++ i :: rest → s.occupied i = true → (polledSlots deeds).length = cap →
      (∀ j ∈ i :: rest, a.Retains j) → Tour s cap deeds a
  | unwinds {p : Pass} {part : Restore} {hadWork : Bool} :
      a.phase = .restoring p part true hadWork → Tour s cap deeds a
  | checks {k : ℕ} {report : Harvest} : Toured s deeds s.order a → a.phase = .checking k report →
      report.polled = (polledSlots deeds).length → (polledSlots deeds).length ≤ cap →
      (∀ j < a.ready.summaries, a.ready.summary j = 0#64) →
      (1 < a.ready.wordCount → k < a.ready.summaries) → Tour s cap deeds a
  | rests : a.phase = .idle → Tour s cap deeds a

/-- When nothing is awaited any more, everything was visited. -/
theorem Touring.complete {k : ℕ} (h : Touring s cap deeds visited a) (hcursor : s.cursor < s.capacity)
    (hphase : a.phase = .checking k report) :
  visited = s.order
  := by
  obtain ⟨rest, hrest⟩ := h.path
  cases rest with
  | nil => rw [← hrest, List.append_nil]
  | cons i rest =>
    have hpairwise := order_pairwise hcursor
    rw [← hrest] at hpairwise
    have hnew : i ∉ visited := fun hmem =>
      lt_irrefl _ ((List.pairwise_append.mp hpairwise).2.2 i hmem i List.mem_cons_self)
    have hmem : i ∈ s.order := by
      rw [← hrest]
      exact List.mem_append_right _ List.mem_cons_self
    have hawaits := h.awaits i hmem hnew
    rw [System.Awaits, hphase] at hawaits
    exact hawaits.elim

/-- The bits of the only word name slots. -/
theorem single_valid {r : ReadySet} (hone : r.wordCount = 1)
    (hbit : (r.validMask 0).getLsbD i = true) :
  i < r.slots
  := by
  have hi := BitVec.lt_of_getLsbD hbit
  have hslots : r.slots ≤ 64 := by
    have hle := (slots_le r).1
    omega
  have hpos : 0 < r.slots := by
    rw [ReadySet.wordCount, divCeil, WORD_BITS] at hone
    omega
  rw [ReadySet.validMask, hone, WORD_BITS] at hbit
  by_cases hfull : r.slots = 64
  · omega
  · have hmod : r.slots % 64 = r.slots := Nat.mod_eq_of_lt (by omega)
    rw [hmod] at hbit
    simp only [Nat.zero_add, ne_eq, true_and] at hbit
    rw [if_pos (by omega), getLsbD_lowMask hi, decide_eq_true_eq] at hbit
    exact hbit

/-- Without bits left in the words and in the summary, no readiness is found. -/
theorem Toured.hasReady {k : ℕ} {more : Bool} (h : Toured s deeds s.order a)
    (hcursor : s.cursor < s.capacity)
    (hsummary : ∀ j < a.ready.summaries, a.ready.summary j = 0#64)
    (hk : 1 < a.ready.wordCount → k < a.ready.summaries) (hready : a.ready.hasReady k = some more) :
  more = false
  := by
  rw [ReadySet.hasReady] at hready
  split at hready
  · cases hready
    rfl
  · rename_i hone
    have hzero : a.ready.words 0 &&& a.ready.validMask 0 = 0#64 := by
      by_contra hne
      obtain ⟨i, hi, hbit⟩ := BitVec.exists_getLsbD hne
      rw [BitVec.getLsbD_and, Bool.and_eq_true] at hbit
      obtain ⟨hold, hnew⟩ := h.carried.words 0 i hbit.1
      rw [Nat.zero_mul, Nat.zero_add] at hold hnew
      have hlt : i < s.capacity := (single_valid hone hbit.2).trans_eq h.slots
      exact hnew ((mem_order hcursor).mpr ⟨hlt, hold⟩)
    rw [hzero] at hready
    cases hready
    rfl
  · rename_i _ hnone hone
    have hmany : 1 < a.ready.wordCount := Nat.one_lt_iff_ne_zero_and_ne_one.mpr ⟨hnone, hone⟩
    rw [hsummary k (hk hmany), BitVec.zero_and, if_neg (fun hne => hne rfl)] at hready
    split at hready
    · cases hready
    · cases hready
      rfl

variable [DecidableEq ν]

/-- A step of the owner that checks for more. -/
theorem checking_step {k : ℕ} (hphase : a.phase = .checking k report) (hmoves : b.phase ≠ a.phase)
    (hstep : Step a e b) :
  b.ready = a.ready ∧ b.cursor = a.cursor ∧ b.occupied = a.occupied ∧
    ((e = .other ∧ a.ready.hasReady k = none ∧ b.phase = .checking (k + 1) report) ∨
      ∃ more, a.ready.hasReady k = some more ∧ e = .reported { report with moreReady := more } ∧
        b.phase = .idle)
  := by
  cases hstep with
  | check hold hnone =>
    cases hphase.symm.trans hold
    exact ⟨rfl, rfl, rfl, Or.inl ⟨rfl, hnone, rfl⟩⟩
  | report hold hmore =>
    cases hphase.symm.trans hold
    exact ⟨rfl, rfl, rfl, Or.inr ⟨_, hmore, rfl, rfl⟩⟩
  | notifyClosed _ _ _ => exact absurd rfl hmoves
  | notify _ _ _ => exact absurd rfl hmoves
  | mark _ => exact absurd rfl hmoves
  | announce _ => exact absurd rfl hmoves
  | ring _ => exact absurd rfl hmoves
  | _ => simp_all

/-- What a step leads to: further in the tour, and to its result if the harvest returns. -/
def Leads (s : System ν) (cap : ℕ) (deeds : List Deed) (d : Deed) (b : System ν) : Prop :=
  Tour s cap (deeds ++ [d]) b ∧
    ∀ report, d = .returned report → ∃ passed rest, Harvested s cap deeds report b passed rest

theorem polledSlots_other (hd : ∀ i done, d ≠ .polled i done) :
  polledSlots [d] = []
  := by
  cases d with
  | polled i done => exact absurd rfl (hd i done)
  | returned report => rfl
  | other => rfl

/-- The guard puts back what it holds. -/
theorem Toured.restore {i : ℕ} {p : Pass} {part : Restore} {hadWork : Bool}
    (h : Toured s deeds visited a) (hcursor : s.cursor < s.capacity)
    (hquiet : ∀ n, s.stage n = .idle) (hphase : a.phase = .restoring p part false hadWork)
    (hcount : p.report.polled = (polledSlots deeds).length) (hmore : p.report.moreReady = true)
    (horder : s.order = visited ++ i :: rest) (hoccupied : s.occupied i = true)
    (hfull : (polledSlots deeds).length = cap) (hretains : ∀ j ∈ i :: rest, a.Retains j)
    (hmoves : b.phase ≠ a.phase) (hstep : Step a e b) :
  Leads s cap deeds (deed a e b) b
  := by
  obtain ⟨hocc, hcur, hcases⟩ := restoring_step hphase hstep
  have hnone : polledSlots [deed a e b] = [] :=
    polledSlots_other fun _ _ => deed_restoring hphase
  have hsame : polledSlots (deeds ++ [deed a e b]) = polledSlots deeds := by
    rw [polledSlots_append, hnone, List.append_nil]
  have hstill : Toured s (deeds ++ [deed a e b]) visited b := by
    refine h.still hquiet (fun slot hmarking => ?_) hmoves hstep hcur hocc hnone
    cases hphase.symm.trans hmarking
  have hretains' : ∀ j ∈ i :: rest, b.Retains j := by
    intro j hj
    refine (hretains j hj).restoring hphase ?_ hstep
    have hmem : j ∈ s.order := by
      rw [horder]
      exact List.mem_append_right _ hj
    exact ((mem_order hcursor).mp hmem).1.trans_eq h.slots.symm
  have hidle : b.phase = .idle → (∀ report, e = .reported report → report = p.report) →
      Leads s cap deeds (deed a e b) b := by
    intro hidle hreport
    refine ⟨.rests hidle, fun report hd => ?_⟩
    rw [hreport report (deed_returned hd)]
    refine ⟨visited, i :: rest, Toured.truncated ⟨hstill.slots, hstill.stage, hstill.announced,
      hstill.carried, h.path, h.polled, hstill.cursor, ?_⟩ hcursor hquiet hidle horder hoccupied hfull
      hcount hmore hretains'⟩
    rw [← hsame]
    exact hstill.occupied
  rcases hcases with ⟨part', hphase', hne⟩ | ⟨hphase', ⟨-, rfl⟩ | ⟨rfl, -⟩ | ⟨rfl, -⟩⟩
  · refine ⟨.restores hstill hphase' ?_ hmore horder hoccupied ?_ hretains', fun report hd => ?_⟩
    · rw [hsame]
      exact hcount
    · rw [hsame]
      exact hfull
    · exact absurd (deed_returned hd) (hne report)
  · refine hidle hphase' fun report heq => ?_
    cases heq
    rfl
  · exact hidle hphase' nofun
  · exact hidle hphase' fun report heq => absurd heq (rung_ne a report)

/-- The owner checks for more. -/
theorem Toured.check {k : ℕ} (h : Toured s deeds s.order a) (hcursor : s.cursor < s.capacity)
    (hquiet : ∀ n, s.stage n = .idle) (hphase : a.phase = .checking k report)
    (hcount : report.polled = (polledSlots deeds).length) (hle : (polledSlots deeds).length ≤ cap)
    (hsummary : ∀ j < a.ready.summaries, a.ready.summary j = 0#64)
    (hk : 1 < a.ready.wordCount → k < a.ready.summaries) (hmoves : b.phase ≠ a.phase)
    (hstep : Step a e b) :
  Leads s cap deeds (deed a e b) b
  := by
  obtain ⟨hready, hcur, hocc, hcases⟩ := checking_step hphase hmoves hstep
  have hnone : polledSlots [deed a e b] = [] := by
    refine polledSlots_other fun i done hpolled => ?_
    obtain ⟨_, _, _, _, hpolling, -⟩ := deed_polled hpolled
    cases hphase.symm.trans hpolling
  have hsame : polledSlots (deeds ++ [deed a e b]) = polledSlots deeds := by
    rw [polledSlots_append, hnone, List.append_nil]
  have hstill : Toured s (deeds ++ [deed a e b]) s.order b := by
    refine h.still hquiet (fun slot hmarking => ?_) hmoves hstep hcur hocc hnone
    cases hphase.symm.trans hmarking
  rcases hcases with ⟨rfl, hload, hphase'⟩ | ⟨more, hload, rfl, hphase'⟩
  · refine ⟨.checks hstill hphase' ?_ ?_ ?_ ?_, fun report hd => Event.noConfusion (deed_returned hd)⟩
    · rw [hsame]
      exact hcount
    · rw [hsame]
      exact hle
    · rw [hready]
      exact hsummary
    · rw [hready]
      exact fun _ => (hasReady_none hload).2.2
  · refine ⟨.rests hphase', fun report' hd => ?_⟩
    cases hd
    refine ⟨s.order, [], Toured.finished ⟨hstill.slots, hstill.stage, hstill.announced,
      hstill.carried, h.path, h.polled, hstill.cursor, ?_⟩ hcursor hle hcount
      (h.hasReady hcursor hsummary hk hload)⟩
    rw [← hsame]
    exact hstill.occupied

/-- The harvest ends its scan. -/
theorem Touring.ends (h : Touring s cap deeds visited a) (hcursor : s.cursor < s.capacity)
    (hquiet : ∀ n, s.stage n = .idle) (hmoves : b.phase ≠ a.phase) (hstep : Step a e b)
    (hends : ¬ b.phase.Scans) :
  Leads s cap deeds (deed a e b) b
  := by
  cases end_cases h.scans hstep hends with
  | @truncates p next hphase hbits hindex hoccupied hfull he hb =>
    obtain ⟨hnew, hpath⟩ := h.next hcursor hphase hbits hindex
    obtain ⟨rest, horder⟩ := hpath
    rw [List.append_assoc] at horder
    have hcounts := h.counts
    rw [hphase] at hcounts
    obtain ⟨hcap, hcount⟩ := hcounts
    have hphase' : b.phase = .restoring p.truncated .current false p.truncated.guard.hadWork := by
      rw [hb]
      rfl
    have hdeed : deed a e b = .other := by
      rw [he]
      apply deed_other fun _ => Event.noConfusion
      intro i done hpolled
      obtain ⟨_, _, _, _, -, hpolling, -⟩ := deed_polled hpolled
      cases hphase'.symm.trans hpolling
    have hsame : polledSlots (deeds ++ [.other]) = polledSlots deeds := by
      rw [polledSlots_append]
      exact List.append_nil _
    have hstill : Toured s (deeds ++ [.other]) visited b := by
      refine h.toToured.still hquiet h.not_marking hmoves hstep ?_ ?_ rfl
      · rw [hb]
        rfl
      · rw [hb]
        rfl
    rw [hdeed]
    refine ⟨.restores hstill hphase' ?_ rfl horder.symm ?_ ?_ ?_, fun report hd => Deed.noConfusion hd⟩
    · rw [hsame]
      exact hcount
    · rw [← hoccupied]
      refine (h.occupied _ ?_).symm
      rw [h.polled]
      exact fun hmem => hnew (List.mem_of_mem_filter hmem)
    · rw [hsame, ← hcount, hfull, hcap]
    · intro j hj
      have hmem : j ∈ s.order := by
        rw [← horder]
        exact List.mem_append_right _ hj
      have hold : j ∉ visited := by
        have hpairwise := order_pairwise hcursor
        rw [← horder] at hpairwise
        intro hin
        exact lt_irrefl _ ((List.pairwise_append.mp hpairwise).2.2 j hin j hj)
      have hlt := ((mem_order hcursor).mp hmem).1.trans_eq h.capacity.symm
      have hretains := h.sails.retains hphase hlt (h.awaits j hmem hold)
      rw [System.Retains, hphase] at hretains
      rw [System.Retains, hphase', hb]
      exact hretains
  | unwinds hphase' _ he =>
    refine ⟨.unwinds hphase', fun report hd => ?_⟩
    rw [he] at hd
    exact Event.noConfusion (deed_returned hd)
  | checks hphase =>
    have hcounts := h.counts
    have hsummary := h.cleared.summary
    have htoured := h.toToured
    rw [h.complete hcursor hphase] at htoured
    rw [hphase] at hcounts hsummary
    refine htoured.check hcursor hquiet hphase hcounts h.le hsummary ?_ hmoves hstep
    intro hmany
    rw [ReadySet.summaries, if_pos hmany, divCeil, WORD_BITS]
    omega

theorem Tour.step (h : Tour s cap deeds a) (hcursor : s.cursor < s.capacity)
    (hquiet : ∀ n, s.stage n = .idle) (howns : Owns a d b) :
  Leads s cap deeds d b
  := by
  obtain ⟨hbusy, hmoves, e, hstep, rfl⟩ := howns
  cases h with
  | scans htouring =>
    by_cases hscans : b.phase.Scans
    · obtain ⟨visited, htouring'⟩ := htouring.step hcursor hquiet hmoves hstep hscans
      refine ⟨.scans htouring', fun report hd => ?_⟩
      cases deed_returned hd
      rw [reported_idle hstep] at hscans
      exact hscans.elim
    · exact htouring.ends hcursor hquiet hmoves hstep hscans
  | restores htoured hphase hcount hmore horder hoccupied hfull hretains =>
    exact htoured.restore hcursor hquiet hphase hcount hmore horder hoccupied hfull hretains hmoves
      hstep
  | unwinds hphase =>
    obtain ⟨-, -, ⟨part', hphase', hne⟩ | ⟨hidle, ⟨hwake, -⟩ | ⟨rfl, -⟩ | ⟨rfl, -⟩⟩⟩ :=
      restoring_step hphase hstep
    · exact ⟨.unwinds hphase', fun report hd => absurd (deed_returned hd) (hne report)⟩
    · cases hwake
    · exact ⟨.rests hidle, fun report hd => Event.noConfusion (deed_returned hd)⟩
    · exact ⟨.rests hidle, fun report hd => absurd (deed_returned hd) (rung_ne a report)⟩
  | checks htoured hphase hcount hle hsummary hk =>
    exact htoured.check hcursor hquiet hphase hcount hle hsummary hk hmoves hstep
  | rests hidle => exact absurd hidle hbusy

/-- A harvest begins. -/
theorem begin_tour (hidle : s.phase = .idle) (hquiet : ∀ n, s.stage n = .idle)
    (hcursor : s.cursor < s.capacity)
    (hannounced : 1 < s.ready.wordCount → ∀ w < s.ready.wordCount, s.ready.words w ≠ 0#64 →
      s.ready.InSummary w) (hcap : 1 ≤ cap) :
  Touring s cap [] [] (s.setPhase (s.begin cap))
  := by
  have hcovered : Announced s := by
    refine ⟨?_, fun hsummaries w hw hwords => Or.inl (hannounced ?_ w hw hwords)⟩
    · rw [hidle]
      trivial
    · rw [ReadySet.summaries] at hsummaries
      by_contra hfew
      rw [if_neg hfew] at hsummaries
      exact hsummaries rfl
  have hstep : Step s .other (s.setPhase (s.begin cap)) := .harvest hidle
  have hcarried : Carried (Within fun i => s.ready.isReady i = true ∧ i ∉ ([] : List ℕ)) s := by
    refine ⟨?_, ?_⟩
    · intro w i hbit
      have hi := BitVec.lt_of_getLsbD hbit
      refine ⟨?_, List.not_mem_nil⟩
      have hdiv : (w * WORD_BITS + i) / WORD_BITS = w := by
        rw [WORD_BITS]
        omega
      have hmod : (w * WORD_BITS + i) % WORD_BITS = i := by
        rw [WORD_BITS]
        omega
      rw [ReadySet.isReady, hdiv, hmod]
      exact hbit
    · intro g hg
      rw [hidle] at hg
      cases hg
  have hmarks : ∀ slot, ¬ Marks s (s.setPhase (s.begin cap)) slot := by
    rintro slot (⟨n, hstage, -⟩ | hmarking)
    · rw [hquiet n] at hstage
      cases hstage
    · cases hidle.symm.trans hmarking
  have hcleared : Cleared (s.setPhase (s.begin cap)) := by
    obtain ⟨p, hguard, -, -, -, -, hcases⟩ := begin_phase s cap
    have hnew : ∀ g, some p.guard = some g → g.Carries (Vacated s.ready) := by
      intro g hg
      cases hg
      rw [hguard]
      exact ⟨Or.inl rfl, Or.inl rfl⟩
    rcases hcases with ⟨hnone, -⟩ | ⟨hone, hphase⟩ | ⟨-, hphase⟩
    · omega
    · rw [hphase]
      refine ⟨hnew, ?_⟩
      show s.ready.summaries = 0
      rw [ReadySet.summaries, hone]
      rfl
    · rw [hphase]
      exact ⟨hnew, fun k hk => absurd hk (Nat.not_lt_zero k)⟩
  refine ⟨⟨rfl, rfl, hcovered.step hstep, ?_, List.nil_prefix, rfl, rfl, fun _ _ => rfl⟩,
    begin_scans s cap, begin_sails cap hcursor, hcleared, ?_, begin_counts cap, Nat.zero_le cap⟩
  · exact hcarried.step (within_kept _) hstep fun slot h => (hmarks slot h).elim
  · intro i hi _
    obtain ⟨hlt, hready⟩ := (mem_order hcursor).mp hi
    refine begin_awaits (by omega) hcursor hlt hready fun hmany => ?_
    apply hannounced hmany
    · have hle := (slots_le s.ready).1
      rw [System.capacity] at hlt
      rw [WORD_BITS]
      omega
    · intro hzero
      rw [ReadySet.isReady, hzero, BitVec.getLsbD_zero] at hready
      cases hready

/-- A harvest that no wake disturbs visits the ready slots in circular order from the cursor and
polls the first of those that hold a future, as many as it may.  It does not run for ever, and
there is a run in which it returns. -/
theorem harvest_polls_in_circular_order (hidle : s.phase = .idle)
    (hquiet : ∀ n, s.stage n = .idle) (hcursor : s.cursor < s.capacity)
    (hannounced : 1 < s.ready.wordCount → ∀ w < s.ready.wordCount, s.ready.words w ≠ 0#64 →
      s.ready.InSummary w) (hcap : 1 ≤ cap) :
  (∃ deeds report s', Trail Owns (s.setPhase (s.begin cap)) (deeds ++ [.returned report]) s') ∧
    (¬ ∃ f : ℕ → System ν, f 0 = s.setPhase (s.begin cap) ∧ ∀ k, ∃ d, Owns (f k) d (f (k + 1))) ∧
    ∀ deeds report s', Trail Owns (s.setPhase (s.begin cap)) (deeds ++ [.returned report]) s' →
      ∃ passed rest, Harvested s cap deeds report s' passed rest
  := by
  refine ⟨harvest_returns (begin_scans s cap).harvests, ?_, ?_⟩
  · rintro ⟨f, -, hf⟩
    exact no_endless_run f hf
  · intro deeds report s' hrun
    obtain ⟨a, htrail, howns⟩ := hrun.last
    have htour : Tour s cap deeds a := by
      refine htrail.invariant (fun deeds a => Tour s cap deeds a)
        (.scans (begin_tour hidle hquiet hcursor hannounced hcap)) ?_
      intro deeds a d b _ ih howns
      exact (ih.step hcursor hquiet howns).1
    exact (htour.step hcursor hquiet howns).2 report rfl

end Harvests

/-- Two of the slots of three words are ready, and the cursor stands at the second. -/
theorem harvest_polls_in_circular_order_rotated :
  ∃ s : System Unit, s.capacity = 130 ∧ s.order = [70, 6] ∧
    (∃ deeds report s', Trail Owns (s.setPhase (s.begin 1)) (deeds ++ [.returned report]) s') ∧
    (¬ ∃ f : ℕ → System Unit, f 0 = s.setPhase (s.begin 1) ∧
      ∀ k, ∃ d, Owns (f k) d (f (k + 1))) ∧
    ∀ deeds report s', Trail Owns (s.setPhase (s.begin 1)) (deeds ++ [.returned report]) s' →
      ∃ passed rest, Harvested s 1 deeds report s' passed rest
  := by
  let s : System Unit := ⟨⟨fun w => if w < 2 then 64#64 else 0#64, fun _ => 3#64, 130⟩,
    ⟨none, false⟩, fun i => i = 6 || i = 70, [], 2, 70, .idle, fun _ => .idle⟩
  have hannounced : ∀ w < s.ready.wordCount, s.ready.words w ≠ 0#64 → s.ready.InSummary w := by
    intro w _ hne
    have hw : w = 0 ∨ w = 1 := by
      by_contra hlarge
      exact hne (if_neg (by omega))
    rw [ReadySet.InSummary]
    rcases hw with rfl | rfl <;> decide
  exact ⟨s, rfl, by decide +kernel,
    harvest_polls_in_circular_order rfl (fun _ => rfl) (by decide) (fun _ => hannounced) le_rfl⟩

end Grommet.Outstanding
