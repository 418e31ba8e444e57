import Grommet.Testkit.Owed
import Grommet.Core.Scheduler.Arena

/-!
# The steps of a sweep

The scheduler of a sweep stands for a book in which no item has a deadline and no key is being
flushed, the caller holds the dispatches of its ledger, and the model of each key agrees with
the book.  Every step keeps that, and so none of the checks of a step fails.
-/

open Checked

namespace Grommet.Testkit

variable {keys CLASSES : ℕ}

/-- A sweep between two steps, with the book that its scheduler holds. -/
structure Tracks (cfg : Config CLASSES) (σ : Sweep keys CLASSES) (b : SweepPages)
    (l : Ledger UInt64) : Prop where
  kept : ∃ own free, σ.book.Represents cfg b own free
  good : b.Good CLASSES l
  undated : b.Undated
  expired : b.expired = []
  within : b.Within fun k => k.toNat < keys
  inflight : σ.inflight.Perm l.running
  flushing : l.flushing = []
  owed : ∀ k (h : k.toNat < keys),
    Owed keys σ.dispatchedPerClass b (l.running.map Prod.fst) k (σ.model ⟨_, h⟩)

/-- What the report of a sweep says. -/
structure Counts (cfg : Config CLASSES) (σ : Sweep keys CLASSES) : Prop where
  pending : σ.book.pending + σ.report.dispatched ≤ σ.report.admitted + σ.inflight.length
  ran : σ.inflight.length ≤ σ.report.dispatched
  capacity : σ.book.slab.capacity ≤ cfg.maxPending ∧ σ.book.slab.capacity ≤ σ.report.admitted
  gap : σ.report.worstDispatchGap < keys
  backlog : σ.report.peakEvictionBacklog ≤ keys

variable {cfg : Config CLASSES} {σ : Sweep keys CLASSES} {b : SweepPages} {l : Ledger UInt64}
  {key : UInt64} {c : ClassId}

theorem tracks_start (cfg : Config CLASSES) (keys : ℕ) (spec : SweepSpec) :
  Tracks cfg (Sweep.start cfg spec : Sweep keys CLASSES) .empty ⟨[], []⟩
  := by
  refine ⟨⟨_, _, Scheduler.Represents.new cfg⟩, .empty, Book.undated_empty, rfl, Book.within_empty,
    List.Perm.refl _, rfl, fun k _ => owed_apart (fun c => ?_) rfl ?_ rfl⟩
  · rintro ⟨⟩
  · simp [Sweep.start]

theorem counts_start (cfg : Config CLASSES) (spec : SweepSpec) (hkeys : 0 < keys) :
  Counts cfg (Sweep.start cfg spec : Sweep keys CLASSES)
  := ⟨le_rfl, le_rfl, ⟨Nat.zero_le _, le_rfl⟩, hkeys, Nat.zero_le _⟩

/-- The models of all keys, when the one of a key changes. -/
theorem owed_update {counts : Fin CLASSES → ℕ} {running : List UInt64}
    {model : Fin keys → KeyModel} {entry : KeyModel} (hkey : key.toNat < keys)
    (hself : Owed keys counts b running key entry)
    (hothers : ∀ k (h : k.toNat < keys), k ≠ key → Owed keys counts b running k (model ⟨_, h⟩)) :
  ∀ k (h : k.toNat < keys),
    Owed keys counts b running k (Function.update model ⟨_, hkey⟩ entry ⟨_, h⟩)
  := by
  intro k hk
  by_cases hne : k = key
  · subst hne
    rw [Function.update_self]
    exact hself
  · rw [Function.update_of_ne (by simpa using fun h => hne (UInt64.toNat_inj.mp h))]
    exact hothers k hk hne

/-! ### Admission -/

theorem Counts.pending_le (h : Counts cfg σ) :
  σ.book.pending ≤ σ.report.admitted
  := by
  have hpending := h.pending
  have hran := h.ran
  omega

/-- A scheduler with room in its arena admits an item. -/
theorem Tracks.admits (h : Tracks cfg σ b l) (key roll : UInt64)
    (hroom : σ.book.pending < 2 ^ 32 - 1) (hc : c.toNat < CLASSES) :
  ∃ book own free, σ.book.admitItem ⟨key, c, none, roll⟩ = .ok book ∧
    book.Represents cfg (b.admitItem ⟨key, c, none, roll⟩) own free
  := by
  obtain ⟨own, free, hr⟩ := h.kept
  have hspec := @Scheduler.Represents.admitItem _ _ _ _ _ _ _ _ _ _ _ hr h.good
    ⟨key, c, none, roll⟩ hc
  rcases hspec with ⟨hfree, hlength, -⟩ | ⟨book, own', free', hok, hr'⟩
  · have hnil : σ.book.slab.free = Queue.NIL := by
      have hhead := hr.owns.freeHead
      rw [hfree] at hhead
      by_contra hne
      simp [ofSentinel, hne] at hhead
    have hcapacity := hr.capacity_le hnil
    rw [Queue.Slab.capacity, hlength, Queue.NIL] at hcapacity
    omega
  · exact ⟨book, own', free', hok, hr'⟩

/-- The model of a key whose item was admitted. -/
theorem Tracks.enqueue (h : Tracks cfg σ b l) (roll : UInt64) (hkey : key.toNat < keys)
    (hc : c.toNat < CLASSES) :
  ∃ entry, σ.enqueue (σ.model ⟨_, hkey⟩) c = .ok entry ∧
    Owed keys σ.dispatchedPerClass (b.admitItem ⟨key, c, none, roll⟩) (l.running.map Prod.fst) key
      entry
  := by
  have howed := h.owed key hkey
  have hqueue : (b.admitItem ⟨key, c, none, roll⟩).queue key = b.queue key ++ [⟨c, none, roll⟩] := by
    have hload := congrArg Prod.snd (congrFun (Book.load_admitItem b ⟨key, c, none, roll⟩) key)
    rw [Function.update_self] at hload
    exact hload
  have hqueued : (σ.model ⟨_, hkey⟩).queued ++ [c] =
      ((b.admitItem ⟨key, c, none, roll⟩).queue key).map Item.classId := by
    rw [hqueue, List.map_append, ← howed.queued]
    rfl
  have hrings := Book.admitItem_rings b ⟨key, c, none, roll⟩
  have hfree := howed.free_iff h.good h.flushing
  rw [Sweep.enqueue]
  split
  · rename_i hcond
    have hpresence := hfree.mp hcond
    have hhead : ((σ.model ⟨_, hkey⟩).queued ++ [c]).head? = some c := by
      rw [hqueued, hqueue, queue_of_free h.good hpresence]
      rfl
    rw [if_pos hpresence] at hrings
    simp only [hhead, expect_some, ok_bind, Sweep.join, inBounds_of_lt hc]
    rw [Bool.and_eq_true, Bool.not_eq_true'] at hcond
    refine ⟨_, rfl, owed_joined h.good h.within hkey hc ?_ hrings hqueued ?_ hcond.1 rfl⟩
    · intro c' hmem
      rw [presence_of_mem_ready h.good hmem] at hpresence
      rcases hpresence with hpresence | hpresence <;> cases hpresence
    · rw [← howed.running, hcond.1]
      rintro ⟨⟩
  · rename_i hcond
    rw [if_neg (mt hfree.mpr hcond)] at hrings
    refine ⟨_, rfl, hqueued, howed.running, ?_, ?_⟩
    · rw [hrings]
      exact howed.waiting
    · rw [hrings]
      exact howed.since

theorem Tracks.admitItem (h : Tracks cfg σ b l) (hcounts : Counts cfg σ) (roll : UInt64)
    (hopen : σ.book.isSaturated = false) (hroom : σ.book.pending < 2 ^ 32 - 1)
    (hkey : key.toNat < keys) (hc : c.toNat < CLASSES) :
  ∃ σ' b', σ.admitItem roll key c = .ok σ' ∧ Tracks cfg σ' b' l ∧ Counts cfg σ' ∧
    σ'.report.admitted = σ.report.admitted + 1
  := by
  obtain ⟨book, own, free, hok, hr⟩ := h.admits key roll hroom hc
  obtain ⟨entry, hentry, howed⟩ := h.enqueue roll hkey hc
  obtain ⟨hpending, hcapacity⟩ := Scheduler.admitItem_stock hok
  have hb := Book.admitItem_rings b ⟨key, c, none, roll⟩
  have hrun : σ.admitItem roll key c = .ok { σ with
      book := book
      model := Function.update σ.model ⟨_, hkey⟩ entry
      report := { σ.report with admitted := σ.report.admitted + 1 } } := by
    rw [Sweep.admitItem, inBounds_of_lt hkey, ok_bind]
    simp only [hentry, hok, ok_bind]
  refine ⟨_, b.admitItem ⟨key, c, none, roll⟩, hrun, ?_, ?_, rfl⟩
  · refine ⟨⟨own, free, hr⟩, h.good.admitItem hc, h.undated.admitItem rfl, ?_,
      h.within.admitItem hkey, h.inflight, h.flushing, owed_update hkey howed ?_⟩
    · rw [Book.admitItem_expired, h.expired]
    · intro k hk hne
      apply (h.owed k hk).beside (c := c) hne _ Iff.rfl
      · rw [hb]
        split
        · exact Or.inr rfl
        · exact Or.inl rfl
      · have hload := congrArg Prod.snd (congrFun (Book.load_admitItem b ⟨key, c, none, roll⟩) k)
        rw [Function.update_of_ne hne] at hload
        exact hload
  · have hcount := hcounts.pending
    have hbefore := hcounts.capacity
    have hle := hcounts.pending_le
    obtain ⟨own₀, free₀, hr₀⟩ := h.kept
    refine ⟨?_, hcounts.ran, ?_, hcounts.gap, hcounts.backlog⟩
    · simp only [hpending]
      omega
    · rw [Scheduler.isSaturated, decide_eq_false_iff_not, Nat.not_le, hr₀.config] at hopen
      simp only
      rcases hcapacity with hsame | ⟨hnil, hgrown⟩
      · rw [hsame]
        exact ⟨hbefore.1, hbefore.2.trans (Nat.le_succ _)⟩
      · have hfull := hr₀.capacity_le hnil
        rw [hgrown]
        exact ⟨by omega, by omega⟩

/-! ### Dispatch -/

/-- The first key of a ring is dispatched after less than `keys` dispatches of its class. -/
theorem Tracks.taken (h : Tracks cfg σ b l) (hc : c.toNat < CLASSES) {ring : List UInt64}
    (hr : b.ready c = key :: ring) :
  ∃ (hkey : key.toNat < keys) (since : ℕ), (σ.model ⟨_, hkey⟩).readyAt = some (c, since) ∧
    since ≤ σ.dispatchedPerClass ⟨_, hc⟩ ∧ σ.dispatchedPerClass ⟨_, hc⟩ - since < keys
  := by
  have hmem : key ∈ b.ready c := by
    rw [hr]
    exact List.mem_cons_self
  have hkey := toNat_lt_of_mem_ready h.good h.within key hmem
  obtain ⟨since, hreadyAt, hle, hlt⟩ := (h.owed key hkey).since c hc hmem
  exact ⟨hkey, since, hreadyAt, hle, by omega⟩

/-- The models of the keys after the first key of a ring was dispatched. -/
theorem Tracks.owed_takes (h : Tracks cfg σ b l) (hc : c.toNat < CLASSES) {head : Item UInt64}
    {b' : SweepPages} (hg : b'.Good CLASSES { l with running := l.running ++ [(key, c)] })
    (htakes : Book.Takes c key head b b') (hkey : key.toNat < keys) :
  ∀ k (hk : k.toNat < keys),
    Owed keys
      (Function.update σ.dispatchedPerClass ⟨_, hc⟩ (σ.dispatchedPerClass ⟨_, hc⟩ + 1)) b'
      ((l.running ++ [(key, c)]).map Prod.fst) k
      (Function.update σ.model ⟨_, hkey⟩
        { queued := (σ.model ⟨_, hkey⟩).queued.tail, inFlight := true, readyAt := none } ⟨_, hk⟩)
  := by
  apply owed_update hkey
  · have hrunning : key ∈ (l.running ++ [(key, c)]).map Prod.fst := by simp
    apply owed_apart
    · intro c' hmem
      have hready := presence_of_mem_ready hg hmem
      rw [((hg.mem .inFlight key).mp hrunning).2] at hready
      cases hready
    · rw [(h.owed key hkey).queued, htakes.first]
      rfl
    · exact iff_of_true rfl hrunning
    · rfl
  · intro k hk hne
    apply (h.owed k hk).frame (htakes.queues k hne)
    · simp [hne]
    · intro c'
      by_cases hcc : c' = c
      · subst hcc
        rw [htakes.ring, List.mem_cons]
        simp [hne]
      · rw [htakes.others c' hcc]
    · intro c' hc' hmem
      by_cases hcc : c' = c
      · subst hcc
        rw [Function.update_self, htakes.ring, List.idxOf_cons_ne _ (Ne.symm hne)]
        omega
      · rw [htakes.others c' hcc, Function.update_of_ne (by simpa [UInt8.toNat_inj] using hcc)]
        exact ⟨le_rfl, rfl⟩

theorem Tracks.dispatch (h : Tracks cfg σ b l) (hcounts : Counts cfg σ) (hc : c.toNat < CLASSES) :
  ∃ σ' b' l', σ.dispatch c = .ok σ' ∧ Tracks cfg σ' b' l' ∧ Counts cfg σ' ∧
    σ'.report.admitted = σ.report.admitted
  := by
  obtain ⟨own, free, hr⟩ := h.kept
  obtain ⟨book, own', free', hok, hr'⟩ := hr.next h.good hc σ.now
  obtain ⟨hcapacity, hpending⟩ := Scheduler.next_drains hok
  have hgood := @Book.Inv.turn _ _ _ _ _ _ _ _ σ.now cfg hc h.good
  have hexpired := Book.turn_expired (b := b) cfg c σ.now
  have hbefore := hcounts.pending
  rw [Sweep.dispatch, hok, ok_bind]
  rcases h.undated.turn h.good cfg hc σ.now with ⟨-, hturn⟩ | ⟨key, state, head, hdispatched, htakes⟩
  · rw [hturn] at hr' ⊢
    refine ⟨_, b, l, rfl, ⟨⟨own', free', hr'⟩, h.good, h.undated, h.expired, h.within, h.inflight,
      h.flushing, h.owed⟩, ?_, rfl⟩
    refine ⟨?_, hcounts.ran, ?_, hcounts.gap, hcounts.backlog⟩
    · simp only
      omega
    · simp only [hcapacity]
      exact hcounts.capacity
  · rw [hdispatched] at hgood ⊢
    obtain ⟨hkey, since, hreadyAt, hle, hgap⟩ := h.taken hc htakes.ring
    have hrun : ({ σ with book := book } : Sweep keys CLASSES).take c
        (Scheduler.toDispatch c (key, state, head)) = .ok { σ with
          book := book
          model := Function.update σ.model ⟨_, hkey⟩
            { queued := (σ.model ⟨_, hkey⟩).queued.tail, inFlight := true, readyAt := none }
          dispatchedPerClass :=
            Function.update σ.dispatchedPerClass ⟨_, hc⟩ (σ.dispatchedPerClass ⟨_, hc⟩ + 1)
          report := { σ.report with
            worstDispatchGap :=
              max σ.report.worstDispatchGap (σ.dispatchedPerClass ⟨_, hc⟩ - since)
            dispatched := σ.report.dispatched + 1 }
          inflight := σ.inflight ++ [(key, c)] } := by
      simp only [Sweep.take, Scheduler.toDispatch, inBounds_of_lt hkey, ok_bind, hreadyAt,
        expect_some, inBounds_of_lt hc, sub_of_le hle, beq_self_eq_true, assert_true]
    refine ⟨_, (b.turn cfg c σ.now).book, _, hrun, ⟨⟨own', free', hr'⟩, hgood,
      htakes.undated h.undated, ?_, ?_, h.inflight.append_right _, h.flushing,
      h.owed_takes hc hgood htakes hkey⟩, ?_, rfl⟩
    · rw [htakes.expired, h.expired]
    · apply h.within.of_pages
      intro j hj
      rw [← htakes.pages]
      exact hj
    · have hran := hcounts.ran
      refine ⟨?_, ?_, ?_, max_lt hcounts.gap hgap, hcounts.backlog⟩
      · simp only [List.length_append, List.length_singleton]
        omega
      · simp only [List.length_append, List.length_singleton]
        omega
      · simp only [hcapacity]
        exact hcounts.capacity

/-! ### Completion -/

/-- The model of a key whose dispatch was completed. -/
theorem Tracks.rejoin (h : Tracks cfg σ b l) (hmem : (key, c) ∈ l.running) (state : UInt64)
    (hkey : key.toNat < keys) {entry : KeyModel}
    (hentry : entry = { σ.model ⟨_, hkey⟩ with inFlight := false }) :
  ∃ entry', entry.queued.head?.elim (.ok entry) (σ.join entry) = .ok entry' ∧
    Owed keys σ.dispatchedPerClass (b.complete ⟨key, c, .keep state⟩)
      ((l.running.erase (key, c)).map Prod.fst) key entry'
  := by
  have hrunning : key ∈ l.running.map Prod.fst := List.mem_map_of_mem hmem
  have hpresence := ((h.good.mem .inFlight key).mp hrunning).2
  have hnot : ∀ c', key ∉ b.ready c' := by
    intro c' hready
    rw [presence_of_mem_ready h.good hready] at hpresence
    cases hpresence
  have hout : key ∉ (l.running.erase (key, c)).map Prod.fst := by
    rw [List.map_fst_erase (h.good.nodup .inFlight) hmem]
    exact (h.good.nodup .inFlight).not_mem_erase
  rw [Book.presence, Option.map_eq_some_iff] at hpresence
  obtain ⟨page, hpage, -⟩ := hpresence
  have howed := h.owed key hkey
  have hrings := @Book.complete_rings _ _ _ b _ ⟨key, c, .keep state⟩ page hpage
  have hqueue := @Book.complete_queue _ _ _ b _ ⟨key, c, .keep state⟩ page hpage
  have hqueued : entry.queued =
      ((b.complete ⟨key, c, .keep state⟩).queue key).map Item.classId := by
    rw [hqueue, hentry]
    exact howed.queued
  have hinFlight : entry.inFlight = false := by
    rw [hentry]
  cases hitems : b.queue key with
  | nil =>
    rw [hitems] at hrings
    rw [hqueued, hqueue, hitems]
    refine ⟨entry, rfl, owed_apart ?_ hqueued ?_ ?_⟩
    · intro c'
      rw [hrings]
      exact hnot c'
    · rw [hinFlight]
      exact iff_of_false (by rintro ⟨⟩) hout
    · rw [hentry]
      cases hreadyAt : (σ.model ⟨_, hkey⟩).readyAt with
      | none => rfl
      | some joined => exact (hnot _ (howed.waiting joined.1 joined.2 hreadyAt)).elim
  | cons head rest =>
    have hclass : head.classId.toNat < CLASSES := by
      apply h.good.classes key page hpage head
      rw [← Book.queue_of_page hpage, hitems]
      exact List.mem_cons_self
    rw [hitems] at hrings
    rw [hqueued, hqueue, hitems, List.map_cons, List.head?_cons, Option.elim_some, Sweep.join,
      inBounds_of_lt hclass, ok_bind]
    exact ⟨_, rfl, owed_joined h.good h.within hkey hclass hnot hrings hqueued hout hinFlight rfl⟩

theorem Tracks.complete (h : Tracks cfg σ b l) (hcounts : Counts cfg σ) (roll : UInt64)
    (hsome : σ.inflight ≠ []) :
  ∃ σ' b' l', σ.complete roll = .ok σ' ∧ Tracks cfg σ' b' l' ∧ Counts cfg σ' ∧
    σ'.report.admitted = σ.report.admitted
  := by
  have hlt : (roll >>> 32).toNat % σ.inflight.length < σ.inflight.length :=
    Nat.mod_lt _ (List.length_pos_of_ne_nil hsome)
  obtain ⟨inflight, hremove, hperm⟩ := swapRemove_of_lt hlt
  obtain ⟨⟨key, c⟩, htaken⟩ : ∃ e, σ.inflight[(roll >>> 32).toNat % σ.inflight.length] = e :=
    ⟨_, rfl⟩
  rw [htaken] at hremove hperm
  have hmem : (key, c) ∈ l.running := (h.inflight.symm.trans hperm).mem_iff.mpr List.mem_cons_self
  have hrest : inflight.Perm (l.running.erase (key, c)) := by
    have herase := (h.inflight.symm.trans hperm).erase (key, c)
    rw [List.erase_cons_head] at herase
    exact herase.symm
  obtain ⟨own, free, hr⟩ := h.kept
  obtain ⟨book, hok, hr'⟩ := @Scheduler.Represents.complete _ _ _ _ _ _ _ _ _ _ _ hr h.good
    ⟨key, c, .keep roll⟩ hmem σ.now
  have hpresence := ((h.good.mem .inFlight key).mp (List.mem_map_of_mem hmem)).2
  rw [Book.presence, Option.map_eq_some_iff] at hpresence
  obtain ⟨page, hpage, -⟩ := hpresence
  have hkey := h.within key page hpage
  obtain ⟨entry, hentry, howed⟩ := h.rejoin hmem roll hkey rfl
  have hrings := @Book.complete_rings _ _ _ b _ ⟨key, c, .keep roll⟩ page hpage
  have hqueue := @Book.complete_queue _ _ _ b _ ⟨key, c, .keep roll⟩ page hpage
  have hrun : σ.complete roll = .ok { σ with
      book := book
      inflight := inflight
      model := Function.update σ.model ⟨_, hkey⟩ entry } := by
    simp only [Sweep.complete, hremove, ok_bind, hok, inBounds_of_lt hkey]
    simp only at hentry
    rw [hentry, ok_bind]
  refine ⟨_, b.complete ⟨key, c, .keep roll⟩, _, hrun, ⟨⟨own, free, hr'⟩, h.good.complete hmem,
    h.undated.of_queue hqueue, ?_, h.within.complete, hrest, h.flushing,
    owed_update hkey howed ?_⟩, ?_, rfl⟩
  · rw [Book.complete_expired, h.expired]
  · intro k hk hne
    apply (h.owed k hk).beside (j := key) (c := ((b.queue key).head?.map Item.classId).getD 0) hne
    · rw [hqueue]
    · rw [List.map_fst_erase (h.good.nodup .inFlight) hmem, List.mem_erase_of_ne hne]
    · rw [hrings]
      cases (b.queue key).head? with
      | none => exact Or.inl rfl
      | some head => exact Or.inr rfl
  · have hpending := Scheduler.complete_pending hok
    have hlength := hperm.length_eq
    rw [List.length_cons] at hlength
    have hbefore := hcounts.pending
    have hran := hcounts.ran
    refine ⟨?_, ?_, ?_, hcounts.gap, hcounts.backlog⟩
    · simp only
      omega
    · simp only
      omega
    · simp only [(Scheduler.complete_drains hok).1]
      exact hcounts.capacity

/-! ### Flushing -/

/-- A flush of idle keys leaves the rings and the queues alone. -/
structure Flushes (b b' : SweepPages) : Prop where
  ready : b'.ready = b.ready
  queue : b'.queue = b.queue
  expired : b'.expired = b.expired
  within : ∀ F, b.Within F → b'.Within F

theorem Flushes.trans {b₁ b₂ : SweepPages} (h : Flushes b b₁) (h' : Flushes b₁ b₂) :
  Flushes b b₂
  := ⟨h'.ready.trans h.ready, h'.queue.trans h.queue, h'.expired.trans h.expired,
    fun F hF => h'.within F (h.within F hF)⟩

theorem flushes_evict (hg : b.Good CLASSES l) (m : ℕ) :
  Flushes b (b.evict m).1
  := ⟨(Book.evict_frame b m).1, Book.evict_queue hg, (Book.evict_frame b m).2,
    fun _ => Book.Within.evict⟩

theorem flushes_finishEvict (hqueue : b.queue key = []) :
  Flushes b (b.finishEvict key)
  := by
  refine ⟨?_, Book.finishEvict_queue hqueue, Book.finishEvict_expired b key,
    fun _ hF => hF.finishEvict hqueue⟩
  rw [Book.finishEvict_of_queue hqueue]
  rfl

/-- Nothing is queued behind the keys that an eviction handed out. -/
theorem queue_of_evicted (hg : b.Good CLASSES l) (hflushing : l.flushing = []) {m : ℕ}
    (hkey : key ∈ (b.evict m).2.map Prod.fst) :
  b.queue key = []
  := by
  have hg' := hg.evict (m := m)
  rw [hflushing, List.nil_append] at hg'
  have hpresence := ((hg'.mem .evicting key).mp hkey).2
  apply queue_of_free hg
  cases hp : b.presence key with
  | none => exact Or.inl rfl
  | some p =>
    have hstanding := (hg.mem p key).mpr ⟨id, hp⟩
    cases p with
    | idle => exact Or.inr rfl
    | ready c =>
      have hready : key ∈ (b.evict m).1.ready c := by
        rw [(flushes_evict hg m).ready]
        exact hstanding
      rw [presence_of_mem_ready hg' hready] at hpresence
      cases hpresence
    | inFlight =>
      rw [((hg'.mem .inFlight key).mp hstanding).2] at hpresence
      cases hpresence
    | evicting =>
      rw [Book.standing, hflushing] at hstanding
      cases hstanding

/-- The flush of every key that was handed out ends. -/
theorem finishEvicted_eq_ok {now : Duration} {evicted : List (UInt64 × UInt64)}
    {book : SweepBook CLASSES} {own : UInt64 → List (ℕ × Item UInt64)} {free : List ℕ}
    (hr : book.Represents cfg b own free) (hg : b.Good CLASSES l)
    (hflushing : l.flushing = evicted.map Prod.fst)
    (hqueue : ∀ k ∈ evicted.map Prod.fst, b.queue k = []) :
  ∃ book' b', finishEvicted now book evicted = .ok book' ∧ book'.Represents cfg b' own free ∧
    b'.Good CLASSES { l with flushing := [] } ∧ Flushes b b' ∧ (b.Spent → b'.Spent) ∧
    book'.stock = book.stock
  := by
  induction evicted generalizing book b l with
  | nil =>
    rw [List.map_nil] at hflushing
    refine ⟨book, b, rfl, hr, ?_, ⟨rfl, rfl, rfl, fun _ => id⟩, id, rfl⟩
    rw [← hflushing]
    exact hg
  | cons pushed rest ih =>
    have hmem : pushed.1 ∈ l.flushing := by
      rw [hflushing]
      exact List.mem_cons_self
    obtain ⟨book₁, hok, hr₁⟩ := hr.finishEvict hg hmem now
    have hflush := flushes_finishEvict (hqueue pushed.1 List.mem_cons_self)
    have hrest : l.flushing.erase pushed.1 = rest.map Prod.fst := by
      rw [hflushing, List.map_cons, List.erase_cons_head]
    obtain ⟨book', b', hok', hr', hg', hflush', hspent, hstock⟩ :=
      ih hr₁ (hg.finishEvict hmem) hrest (by
        intro k hk
        rw [hflush.queue]
        exact hqueue k (List.mem_cons_of_mem _ hk))
    refine ⟨book', b', ?_, hr', hg', hflush.trans hflush', fun h => hspent h.finishEvict,
      hstock.trans (Scheduler.finishEvict_stock hok)⟩
    rw [finishEvicted, List.foldlM_cons, hok]
    exact hok'

/-- A model is not concerned by a flush. -/
theorem Owed.flushes {counts : Fin CLASSES → ℕ} {running : List UInt64} {entry : KeyModel}
    {b' : SweepPages} (h : Owed keys counts b running key entry) (hflush : Flushes b b') :
  Owed keys counts b' running key entry
  := by
  apply h.frame (by rw [hflush.queue]) Iff.rfl
  · intro c
    rw [hflush.ready]
  · intro c hc _
    rw [hflush.ready]
    exact ⟨le_rfl, rfl⟩

/-- The idle list is no longer than the list of the resident keys. -/
theorem idle_le_resident {book : SweepBook CLASSES} {own : UInt64 → List (ℕ × Item UInt64)}
    {free : List ℕ} (hr : book.Represents cfg b own free) (hg : b.Good CLASSES l) :
  book.idle ≤ book.keys.keys.length
  := by
  rw [hr.idle.count]
  apply (List.subperm_of_subset (hg.nodup .idle) _).length_le
  intro k hk
  obtain ⟨page, hpage⟩ := Option.isSome_iff_exists.mp (hg.page_of_idle k hk)
  obtain ⟨slot, hslot, -⟩ := hr.lookup hpage
  rw [← AList.mem_keys, ← AList.lookup_isSome, hslot]
  rfl

theorem Tracks.settle (h : Tracks cfg σ b l) (hcounts : Counts cfg σ) (step : ℕ) :
  ∃ σ' b', σ.settle step = .ok σ' ∧ Tracks cfg σ' b' l ∧ Counts cfg σ' ∧
    σ'.report.admitted = σ.report.admitted
  := by
  obtain ⟨own, free, hr⟩ := h.kept
  obtain ⟨hr₁, hitem⟩ := hr.popExpired
  have hpop : b.popExpired = b := by
    rw [Book.popExpired, h.expired]
    exact congrArg (fun expired => { b with expired := expired }) h.expired.symm
  rw [hpop] at hr₁
  rw [h.expired, List.head?_nil] at hitem
  obtain ⟨m, book₁, hevict, hr₂⟩ := hr₁.evictLoop h.good σ.now σ.book.popExpired.1.cfg.evictIters []
  rw [List.nil_append] at hevict
  have hg₂ := h.good.evict (m := m)
  have hflushing : (l.flushing ++ (b.evict m).2.map Prod.fst) = (b.evict m).2.map Prod.fst := by
    rw [h.flushing, List.nil_append]
  obtain ⟨book', b', hfinish, hr', hg', hflush', -, hstock⟩ :=
    @finishEvicted_eq_ok _ _ _ _ σ.now _ _ _ _ hr₂ hg₂ hflushing (by
      intro k hk
      rw [(flushes_evict h.good m).queue]
      exact queue_of_evicted h.good h.flushing hk)
  have hflush := (flushes_evict h.good m).trans hflush'
  have hledger : ({ l with flushing := [] } : Ledger UInt64) = l := by
    rw [← h.flushing]
  simp only [hledger] at hg'
  have hstocks : book'.stock = σ.book.stock := by
    calc book'.stock
      _ = book₁.stock := hstock
      _ = σ.book.popExpired.1.stock := Scheduler.evictLoop_stock hevict
      _ = σ.book.stock := rfl
  rw [Scheduler.stock, Scheduler.stock, Prod.mk.injEq] at hstocks
  have hbacklog : book'.idle ≤ keys := by
    rw [hr'.idle.count]
    apply length_le_of_toNat_lt (hg'.nodup .idle)
    intro k hk
    obtain ⟨page, hpage⟩ := Option.isSome_iff_exists.mp (hg'.page_of_idle k hk)
    exact hflush.within _ h.within k page hpage
  have hrun : σ.settle step = .ok { σ with
      book := book'
      report := { σ.report with
        evicted := σ.report.evicted + (b.evict m).2.length
        peakEvictionBacklog := max σ.report.peakEvictionBacklog book'.idle } } := by
    have hresident := idle_le_resident hr' hg'
    simp only [Sweep.settle, hitem, Option.isNone_none, assert_true, ok_bind, Scheduler.evict, hevict,
      hfinish, hr'.checkInvariants hg', decide_true, Scheduler.snapshot, hresident]
  refine ⟨_, b', hrun, ⟨⟨own, free, hr'⟩, hg', h.undated.of_queue hflush.queue, ?_,
    hflush.within _ h.within, h.inflight, h.flushing,
    fun k hk => (h.owed k hk).flushes hflush⟩, ?_, rfl⟩
  · rw [hflush.expired, h.expired]
  · refine ⟨?_, hcounts.ran, ?_, hcounts.gap, max_le hcounts.backlog hbacklog⟩
    · simp only [hstocks.2]
      exact hcounts.pending
    · simp only [hstocks.1]
      exact hcounts.capacity

/-! ### Steps -/

/-- The call that a word chooses does not fail. -/
theorem Tracks.call (h : Tracks cfg σ b l) (hcounts : Counts cfg σ) (roll : UInt64)
    (hroom : σ.book.isSaturated = false → σ.book.pending < 2 ^ 32 - 1)
    (hkey : key.toNat < keys) (hc : c.toNat < CLASSES) :
  ∃ σ' b' l', σ.call roll key c = .ok σ' ∧ Tracks cfg σ' b' l' ∧ Counts cfg σ' ∧
    σ'.report.admitted ≤ σ.report.admitted + 1
  := by
  rw [Sweep.call]
  split
  · rename_i hopen
    obtain ⟨σ', b', hok, h', hcounts', hadmitted⟩ :=
      h.admitItem hcounts roll hopen.2 (hroom hopen.2) hkey hc
    exact ⟨σ', b', l, hok, h', hcounts', hadmitted.le⟩
  · split
    · obtain ⟨σ', b', l', hok, h', hcounts', hadmitted⟩ := h.dispatch hcounts hc
      exact ⟨σ', b', l', hok, h', hcounts', hadmitted.le.trans (Nat.le_succ _)⟩
    · split
      · rename_i hsome
        obtain ⟨σ', b', l', hok, h', hcounts', hadmitted⟩ := h.complete hcounts roll hsome
        exact ⟨σ', b', l', hok, h', hcounts', hadmitted.le.trans (Nat.le_succ _)⟩
      · exact ⟨σ, b, l, rfl, h, hcounts, Nat.le_succ _⟩

theorem Tracks.step (h : Tracks cfg σ b l) (hcounts : Counts cfg σ) (hkeys : 0 < keys)
    (hclasses : 0 < CLASSES) (step : ℕ)
    (hroom : σ.book.isSaturated = false → σ.book.pending < 2 ^ 32 - 1) :
  ∃ σ' b' l', σ.step step = .ok σ' ∧ Tracks cfg σ' b' l' ∧ Counts cfg σ' ∧
    σ'.report.admitted ≤ σ.report.admitted + 1
  := by
  rw [Sweep.step, rem_of_pos hkeys, ok_bind, rem_of_pos hclasses, ok_bind]
  have hkey : (UInt64.ofNat (σ.rng.next.toNat % keys)).toNat < keys := by
    rw [UInt64.toNat_ofNat']
    exact (Nat.mod_le _ _).trans_lt (Nat.mod_lt _ hkeys)
  have hc : (UInt8.ofNat ((σ.rng.next >>> 16).toNat % CLASSES)).toNat < CLASSES := by
    rw [UInt8.toNat_ofNat']
    exact (Nat.mod_le _ _).trans_lt (Nat.mod_lt _ hclasses)
  have hnext : Tracks cfg { σ with rng := ⟨σ.rng.next⟩, now := σ.now + 1000 } b l :=
    ⟨h.kept, h.good, h.undated, h.expired, h.within, h.inflight, h.flushing, h.owed⟩
  have hcountsNext : Counts cfg { σ with rng := ⟨σ.rng.next⟩, now := σ.now + 1000 } :=
    ⟨hcounts.pending, hcounts.ran, hcounts.capacity, hcounts.gap, hcounts.backlog⟩
  obtain ⟨σ₁, b₁, l₁, hcall, h₁, hcounts₁, hadmitted⟩ :=
    hnext.call hcountsNext σ.rng.next hroom hkey hc
  obtain ⟨σ', b', hsettle, h', hcounts', hsame⟩ := h₁.settle hcounts₁ step
  refine ⟨σ', b', l₁, ?_, h', hcounts', hsame.le.trans hadmitted⟩
  simp only [hcall, ok_bind]
  exact hsettle

/-- No step of a sweep fails, when a key and a class can be chosen and the arena has room for
what can be pending. -/
theorem Tracks.steps (h : Tracks cfg σ b l) (hcounts : Counts cfg σ) (hkeys : 0 < keys)
    (hclasses : 0 < CLASSES) (left step : ℕ) (hadmitted : σ.report.admitted ≤ step)
    (hroom : cfg.maxPending < 2 ^ 32 ∨ step + left < 2 ^ 32) :
  ∃ σ' b' l', σ.steps left step = .ok σ' ∧ Tracks cfg σ' b' l' ∧ Counts cfg σ' ∧
    σ'.report.admitted ≤ step + left
  := by
  induction left generalizing step σ b l with
  | zero => exact ⟨σ, b, l, rfl, h, hcounts, hadmitted⟩
  | succ left ih =>
    have hopen : σ.book.isSaturated = false → σ.book.pending < 2 ^ 32 - 1 := by
      intro hopen
      obtain ⟨own, free, hr⟩ := h.kept
      rw [Scheduler.isSaturated, decide_eq_false_iff_not, Nat.not_le, hr.config] at hopen
      have hpending := hcounts.pending_le
      omega
    obtain ⟨σ₁, b₁, l₁, hstep, h₁, hcounts₁, hadmitted₁⟩ :=
      h.step hcounts hkeys hclasses step hopen
    obtain ⟨σ', b', l', hsteps, h', hcounts', hadmitted'⟩ :=
      ih h₁ hcounts₁ (step + 1) (by omega) (by omega)
    refine ⟨σ', b', l', ?_, h', hcounts', by omega⟩
    rw [Sweep.steps, hstep]
    exact hsteps

end Grommet.Testkit
