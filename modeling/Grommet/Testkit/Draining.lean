import Grommet.Testkit.Tracking

/-!
# The scheduler sweep never fails

On shutdown a sweep dispatches while it can and completes what it has dispatched, until nothing
is left to complete.  A class of which nothing more is dispatched has an empty ring or has used
up its budget, and stays so while items of other classes are dispatched.  When nothing is left
to complete, no budget is used at all, so every ring is empty, every key is idle, and the flush
of the idle keys leaves nothing.

A sweep returns a report for every seed, and in the report no key has waited for as many
dispatches of its class as there are keys.
-/

open Checked

namespace Grommet.Testkit

variable {keys CLASSES : ℕ}

/-- The scheduler of a sweep that is being drained. -/
structure Drained (cfg : Config CLASSES) (book : SweepBook CLASSES)
    (inflight : List (UInt64 × ClassId)) (b : SweepPages) (l : Ledger UInt64) : Prop where
  kept : ∃ own free, book.Represents cfg b own free
  good : b.Good CLASSES l
  undated : b.Undated
  inflight : inflight.Perm l.running
  flushing : l.flushing = []

/-- Nothing is dispatched of a class: its ring is empty, or its budget is used up. -/
def Closed (cfg : Config CLASSES) (b : SweepPages) (c : ClassId) : Prop :=
  ∀ hc : c.toNat < CLASSES, cfg.maxInflight ⟨_, hc⟩ ≤ b.inflight c ∨ b.ready c = []

variable {cfg : Config CLASSES} {σ : Sweep keys CLASSES} {book : SweepBook CLASSES}
  {inflight : List (UInt64 × ClassId)} {b b' : SweepPages} {l l' : Ledger UInt64}
  {key : UInt64} {c : ClassId} {fuel : ℕ}

theorem Tracks.drained (h : Tracks cfg σ b l) :
  Drained cfg σ.book σ.inflight b l
  := ⟨h.kept, h.good, h.undated, h.inflight, h.flushing⟩

/-- A dispatch opens no class. -/
theorem Closed.takes (h : Closed cfg b c) {c' : ClassId} {head : Item UInt64}
    (htakes : Book.Takes c' key head b b') (hg : b.Good CLASSES l)
    (hg' : b'.Good CLASSES { l with running := l.running ++ [(key, c')] }) :
  Closed cfg b' c
  := by
  intro hc
  rcases h hc with hfull | hnil
  · left
    apply hfull.trans
    rw [hg.inflight, hg'.inflight, List.countP_append]
    exact Nat.le_add_right _ _
  · right
    by_cases hcc : c = c'
    · subst hcc
      rw [htakes.ring] at hnil
      cases hnil
    · rw [htakes.others c hcc, hnil]

/-- The items of a class are dispatched until it is closed. -/
theorem Drained.drainClass (h : Drained cfg book inflight b l) (now : Duration)
    (hc : c.toNat < CLASSES) (hfuel : (b.ready c).length < fuel) :
  ∃ book' inflight' b' l', drainClass now c fuel book inflight = .ok (book', inflight') ∧
    Drained cfg book' inflight' b' l' ∧ book'.pending ≤ book.pending ∧ Closed cfg b' c ∧
    ∀ c', Closed cfg b c' → Closed cfg b' c'
  := by
  induction fuel generalizing book inflight b l with
  | zero => omega
  | succ fuel ih =>
    obtain ⟨own, free, hr⟩ := h.kept
    obtain ⟨book₁, own₁, free₁, hok, hr₁⟩ := hr.next h.good hc now
    have hgood := @Book.Inv.turn _ _ _ _ _ _ _ _ now cfg hc h.good
    obtain ⟨-, hpending⟩ := Scheduler.next_drains hok
    rw [Testkit.drainClass, hok, ok_bind]
    rcases h.undated.turn h.good cfg hc now with ⟨hclosed, hturn⟩ | ⟨key, state, head, hdisp, htakes⟩
    · rw [hturn] at hr₁ ⊢
      exact ⟨book₁, inflight, b, l, rfl,
        ⟨⟨own₁, free₁, hr₁⟩, h.good, h.undated, h.inflight, h.flushing⟩, hpending,
        fun _ => hclosed, fun _ => id⟩
    · rw [hdisp] at hgood ⊢
      have hlength : ((b.turn cfg c now).book.ready c).length < fuel := by
        rw [htakes.ring, List.length_cons] at hfuel
        omega
      obtain ⟨book', inflight', b', l', hok', h', hle, hclosed, hkeep⟩ :=
        @ih book₁ (inflight ++ [(key, c)]) _ _ ⟨⟨own₁, free₁, hr₁⟩, hgood,
          htakes.undated h.undated, h.inflight.append_right _, h.flushing⟩ hlength
      exact ⟨book', inflight', b', l', hok', h', hle.trans hpending, hclosed,
        fun c' hc' => hkeep c' (hc'.takes htakes h.good hgood)⟩

theorem Drained.drainClasses (h : Drained cfg book inflight b l) (now : Duration)
    (classes : List ClassId) (hclasses : ∀ c ∈ classes, c.toNat < CLASSES) :
  ∃ book' inflight' b' l', drainClasses now classes book inflight = .ok (book', inflight') ∧
    Drained cfg book' inflight' b' l' ∧ book'.pending ≤ book.pending ∧
    (∀ c ∈ classes, Closed cfg b' c) ∧ ∀ c', Closed cfg b c' → Closed cfg b' c'
  := by
  induction classes generalizing book inflight b l with
  | nil =>
    exact ⟨book, inflight, b, l, rfl, h, le_rfl, by rintro c ⟨⟩, fun _ => id⟩
  | cons c classes ih =>
    have hc := hclasses c List.mem_cons_self
    have hfuel : (b.ready c).length < ∑ i, book.snapshot.ready i + 1 := by
      obtain ⟨own, free, hr⟩ := h.kept
      rw [← hr.ready c hc]
      exact Nat.lt_succ_of_le (Finset.single_le_sum (f := book.snapshot.ready)
        (fun _ _ => Nat.zero_le _) (Finset.mem_univ _))
    obtain ⟨book₁, inflight₁, b₁, l₁, hok₁, h₁, hle₁, hclosed₁, hkeep₁⟩ :=
      h.drainClass now hc hfuel
    obtain ⟨book', inflight', b', l', hok', h', hle', hclosed', hkeep'⟩ :=
      ih h₁ fun c' hc' => hclasses c' (List.mem_cons_of_mem _ hc')
    refine ⟨book', inflight', b', l', ?_, h', hle'.trans hle₁, ?_,
      fun c' hc' => hkeep' c' (hkeep₁ c' hc')⟩
    · rw [Testkit.drainClasses, List.foldlM_cons, hok₁]
      exact hok'
    · intro c' hc'
      rcases List.mem_cons.mp hc' with rfl | hc'
      · exact hkeep' c' hclosed₁
      · exact hclosed' c' hc'

/-- Every dispatch is completed, and each completion counts an item out. -/
theorem Drained.completeAll (h : Drained cfg book inflight b l) (now : Duration) :
  ∃ book' b' l', completeAll now book inflight = .ok book' ∧ Drained cfg book' [] b' l' ∧
    book'.pending + inflight.length = book.pending
  := by
  induction inflight generalizing book b l with
  | nil => exact ⟨book, b, l, rfl, h, rfl⟩
  | cons e inflight ih =>
    obtain ⟨key, c⟩ := e
    have hmem : (key, c) ∈ l.running := h.inflight.mem_iff.mp List.mem_cons_self
    obtain ⟨own, free, hr⟩ := h.kept
    obtain ⟨book₁, hok, hr₁⟩ := @Scheduler.Represents.complete _ _ _ _ _ _ _ _ _ _ _ hr h.good
      ⟨key, c, .keep 0⟩ hmem now
    have hpresence := ((h.good.mem .inFlight key).mp (List.mem_map_of_mem hmem)).2
    rw [Book.presence, Option.map_eq_some_iff] at hpresence
    obtain ⟨page, hpage, -⟩ := hpresence
    have hqueue := @Book.complete_queue _ _ _ b _ ⟨key, c, .keep 0⟩ page hpage
    have herase := h.inflight.erase (key, c)
    rw [List.erase_cons_head] at herase
    obtain ⟨book', b', l', hok', h', hpending⟩ :=
      @ih book₁ _ _ ⟨⟨own, free, hr₁⟩, h.good.complete hmem, h.undated.of_queue hqueue, herase,
        h.flushing⟩
    refine ⟨book', b', l', ?_, h', ?_⟩
    · rw [Testkit.completeAll, List.foldlM_cons, hok]
      exact hok'
    · have hone := Scheduler.complete_pending hok
      rw [List.length_cons]
      omega

/-- A drained scheduler has nothing ready and nothing in flight. -/
theorem Drained.drain (h : Drained cfg book inflight b l) (now : Duration)
    (hbudget : ∀ i, 0 < cfg.maxInflight i) (hfuel : book.pending < fuel) :
  ∃ book' b' l', drain now fuel book inflight = .ok book' ∧ Drained cfg book' [] b' l' ∧
    ∀ c, b'.ready c = []
  := by
  induction fuel generalizing book inflight b l with
  | zero => omega
  | succ fuel ih =>
    have hrange : ∀ c ∈ (List.range CLASSES).map UInt8.ofNat, c.toNat < CLASSES := by
      intro c hc
      obtain ⟨i, hi, rfl⟩ := List.mem_map.mp hc
      rw [UInt8.toNat_ofNat']
      exact (Nat.mod_le _ _).trans_lt (List.mem_range.mp hi)
    obtain ⟨book₁, inflight₁, b₁, l₁, hok₁, h₁, hle₁, hclosed, -⟩ :=
      h.drainClasses now _ hrange
    rw [Testkit.drain, hok₁, ok_bind]
    simp only
    split
    · rename_i hnil
      subst hnil
      refine ⟨book₁, b₁, l₁, rfl, h₁, fun c => ?_⟩
      have hrunning : l₁.running = [] := h₁.inflight.symm.eq_nil
      by_cases hc : c.toNat < CLASSES
      · have hmem : c ∈ (List.range CLASSES).map UInt8.ofNat :=
          List.mem_map.mpr ⟨c.toNat, List.mem_range.mpr hc, UInt8.ofNat_toNat⟩
        rcases hclosed c hmem hc with hfull | hnil
        · rw [h₁.good.inflight, hrunning, List.countP_nil] at hfull
          exact absurd (hbudget _) (Nat.not_lt.mpr hfull)
        · exact hnil
      · rw [List.eq_nil_iff_forall_not_mem]
        intro k hk
        exact hc (class_of_mem_ready h₁.good hk)
    · rename_i hsome
      obtain ⟨book₂, b₂, l₂, hok₂, h₂, hpending⟩ := h₁.completeAll now
      have hpos := List.length_pos_of_ne_nil hsome
      obtain ⟨book', b', l', hok', h', hready⟩ := ih h₂ (by omega)
      refine ⟨book', b', l', ?_, h', hready⟩
      rw [hok₂]
      exact hok'

/-- A scheduler that has forgotten every key has nothing resident and nothing pending. -/
theorem empty_of_presence {own : UInt64 → List (ℕ × Item UInt64)} {free : List ℕ}
    (hr : book.Represents cfg b own free) (hg : b.Good CLASSES l) (hrunning : l.running = [])
    (hnone : ∀ k, b.presence k = none) :
  book.keys.keys.length = 0 ∧ book.pending = 0
  := by
  have hkeys : book.keys.keys = [] := by
    rw [List.eq_nil_iff_forall_not_mem]
    intro k hk
    have hpage : b.page k = none := by
      have hpresence := hnone k
      rwa [Book.presence, Option.map_eq_none_iff] at hpresence
    rw [← AList.mem_keys, ← AList.lookup_isSome, (hr.lookup_none hpage).1] at hk
    cases hk
  have hpending := hr.pending
  rw [hr.queued_eq, hkeys, hr.sum_inflight hg, hrunning] at hpending
  exact ⟨by rw [hkeys]; rfl, hpending⟩

/-- The shutdown leaves nothing. -/
theorem Drained.shutdown (h : Drained cfg book inflight b l) (now : Duration)
    (hbudget : ∀ i, 0 < cfg.maxInflight i) :
  ∃ evicted, shutdown now book inflight = .ok evicted
  := by
  obtain ⟨book₁, b₁, l₁, hok₁, h₁, hready⟩ := h.drain now hbudget (Nat.lt_succ_self _)
  obtain ⟨own, free, hr⟩ := h₁.kept
  have hrunning : l₁.running = [] := h₁.inflight.symm.eq_nil
  obtain ⟨book₂, hevict, hr₂⟩ :=
    hr.evictAllLoop h₁.good (book₁.idle + 1) (by rw [hr.idle.count]; omega) []
  rw [List.nil_append] at hevict
  have hg₂ := h₁.good.evict (m := b₁.idle.length)
  have hspent := Book.spent_evict h₁.good
    (fun k c hk => by
      have hmem := (h₁.good.mem (.ready c) k).mpr ⟨id, hk⟩
      rw [Book.standing, hready] at hmem
      cases hmem) hrunning h₁.flushing
  obtain ⟨book₃, b₃, hfinish, hr₃, hg₃, -, hspent₃, -⟩ :=
    @finishEvicted_eq_ok _ _ _ _ now (b₁.evict b₁.idle.length).2 _ _ _ hr₂ hg₂
      (by rw [h₁.flushing, List.nil_append]) (by
        intro k hk
        rw [(flushes_evict h₁.good _).queue]
        exact queue_of_evicted h₁.good h₁.flushing hk)
  have hnone : ∀ k, b₃.presence k = none := by
    intro k
    cases hp : b₃.presence k with
    | none => rfl
    | some p =>
      have hstanding := (hg₃.mem p k).mpr ⟨id, hp⟩
      rw [((hspent₃ hspent) k p hp).1] at hstanding
      cases hstanding
  obtain ⟨hresident, hpending⟩ := empty_of_presence hr₃ hg₃ hrunning hnone
  refine ⟨(b₁.evict b₁.idle.length).2.length, ?_⟩
  simp only [Testkit.shutdown, hok₁, ok_bind, Scheduler.evictAll, hevict, hfinish,
    hr₃.checkInvariants hg₃, decide_true, assert_true, Scheduler.snapshot, hresident, hpending,
    beq_self_eq_true]

/-- No more items were dispatched than admitted. -/
theorem Tracks.dispatched_le (h : Tracks cfg σ b l) (hcounts : Counts cfg σ) :
  σ.report.dispatched ≤ σ.report.admitted
  := by
  obtain ⟨own, free, hr⟩ := h.kept
  have hpending := hr.pending
  rw [hr.sum_inflight h.good, ← h.inflight.length_eq] at hpending
  have hcount := hcounts.pending
  omega

/-- A sweep returns a report whatever its seed, for a configuration with room in every class and
with no more pending items than the arena has nodes.  Every key that was dispatched had waited
for fewer dispatches of its class than there are keys, no more keys were idle at any time than
there are keys, and the arena has no more nodes than items that were admitted or may be
pending. -/
theorem schedulerSweep_reports (cfg : Config CLASSES) (spec : SweepSpec) (hclasses : 0 < CLASSES)
    (hkeys : 0 < spec.keys) (hbudget : ∀ i, 0 < cfg.maxInflight i)
    (hroom : cfg.maxPending < 2 ^ 32 ∨ spec.steps < 2 ^ 32) :
  ∃ report, schedulerSweep cfg spec = .ok report ∧
    report.worstDispatchGap < spec.keys.toNat ∧
    report.peakEvictionBacklog ≤ spec.keys.toNat ∧
    report.dispatched ≤ report.admitted ∧ report.admitted ≤ spec.steps ∧
    report.queueCapacity ≤ report.admitted ∧ report.queueCapacity ≤ cfg.maxPending
  := by
  have hpos : 0 < spec.keys.toNat := by
    simpa [UInt64.lt_iff_toNat_lt] using hkeys
  obtain ⟨σ, b, l, hsteps, h, hcounts, hadmitted⟩ :=
    (tracks_start cfg spec.keys.toNat spec).steps (counts_start cfg spec hpos) hpos hclasses
      spec.steps 0 (Nat.zero_le _) (by omega)
  obtain ⟨evicted, hshutdown⟩ := h.drained.shutdown σ.now hbudget
  refine ⟨{ σ.report with
    queueCapacity := σ.book.snapshot.queueCapacity
    evicted := σ.report.evicted + evicted }, ?_, hcounts.gap, hcounts.backlog,
    h.dispatched_le hcounts, hadmitted.trans (by omega), hcounts.capacity.2, hcounts.capacity.1⟩
  simp only [schedulerSweep, hkeys, decide_true, assert_true, ok_bind, hsteps, hcounts.gap.le,
    hshutdown]

/-- Two classes, three keys and at most four pending items. -/
theorem schedulerSweep_reports_small :
  ∃ report, schedulerSweep { Config.new (fun _ : Fin 2 => 1) with maxPending := 4 } ⟨3, 20000, 7⟩ =
    .ok report ∧ report.worstDispatchGap < 3
  := by
  obtain ⟨report, hok, hgap, -⟩ := schedulerSweep_reports
    { Config.new (fun _ : Fin 2 => 1) with maxPending := 4 } ⟨3, 20000, 7⟩ (by decide) (by decide)
    (fun _ => Nat.one_pos) (Or.inl (by decide))
  exact ⟨report, hok, hgap⟩

end Grommet.Testkit
