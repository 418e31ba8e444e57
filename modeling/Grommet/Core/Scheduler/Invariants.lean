import Grommet.Core.Scheduler.Run

/-!
# The structural check never fails

A scheduler that holds an account passes `checkInvariants`, its ready keys stand once in
the ring of their first item, its idle keys stand once on the idle list, and no call of a
well-formed caller fails a check of the code, but for the arena running out of nodes.
-/

open Checked

namespace Grommet

open Queue

/-! ### Counting -/

section Counting

variable {α : Type}

/-- The members of a list, counted by an index in range. -/
theorem sum_countP_eq_length {n : ℕ} (f : α → ℕ) (l : List α) (h : ∀ x ∈ l, f x < n) :
  ∑ i : Fin n, l.countP (fun x => f x = i.val) = l.length
  := by
  induction l with
  | nil => simp
  | cons x l ih =>
    have hx : f x < n := h x (by simp)
    have hone : ∑ i : Fin n, (if f x = i.val then 1 else 0) = 1 := by
      rw [Finset.sum_eq_single ⟨f x, hx⟩]
      · simp
      · intro i _ hi
        rw [if_neg]
        intro heq
        apply hi
        apply Fin.ext heq.symm
      · simp
    simp only [List.countP_cons, decide_eq_true_eq, Finset.sum_add_distrib, hone,
      List.length_cons]
    rw [ih (fun y hy => h y (by simp [hy]))]

end Counting

namespace Scheduler

variable {K P S : Type} {CLASSES : ℕ} [DecidableEq K]

namespace Represents

variable {cfg : Config CLASSES} {s : Scheduler K P S CLASSES} {b : Book K P S}
  {own : K → List (ℕ × Item P)} {free : List ℕ} {k : K} {slot : Slot K S} {l : Ledger K}

/-- The in-flight counters add up to the dispatches that the caller holds. -/
theorem sum_inflight (h : s.Represents cfg b own free) (hg : b.Good CLASSES l) :
  ∑ i, s.inflight i = l.running.length
  := by
  rw [← sum_countP_eq_length (fun e : K × ClassId => e.2.toNat) l.running hg.running]
  apply Finset.sum_congr rfl
  intro i _
  rw [h.inflight, Book.inflightAt]
  by_cases hi : i.val < 256
  · rw [if_pos hi, hg.inflight]
    apply List.countP_congr
    intro e _
    have hiff : e.2 = UInt8.ofNat i.val ↔ e.2.toNat = i.val := by
      rw [← UInt8.toNat_inj, UInt8.toNat_ofNat_of_lt' hi]
    simp [hiff]
  · rw [if_neg hi, eq_comm, List.countP_eq_zero]
    intro e _ heq
    have hlt := e.2.toNat_lt
    simp only [decide_eq_true_eq] at heq
    omega

/-- The keys of a presence are those that stand where it says. -/
theorem total_presence (h : s.Represents cfg b own free) (hg : b.Good CLASSES l) (p : Presence)
    (f : Presence → Bool) (hf : ∀ q, f q = true ↔ q = p) :
  s.keys.total (presenceWeight f) = (b.standing l p).length
  := by
  apply AList.total_eq_length (p := fun slot : Slot K S => f slot.presence) (hg.nodup p)
  intro k
  rw [hg.mem, ← h.presence, Scheduler.presence, Option.map_eq_some_iff]
  simp only [hf, not_false_eq_true, true_and]

/-- The ring of an index is that of its class. -/
theorem ready_of_index (h : s.Represents cfg b own free) {i : Fin CLASSES} (hi : i.val < 256) :
  s.ready i = b.ready (UInt8.ofNat i.val)
  := by
  have hto : (UInt8.ofNat i.val).toNat = i.val := by
    rw [UInt8.toNat_ofNat_of_lt' hi]
  have hr := h.ready (UInt8.ofNat i.val) (by rw [hto]; apply i.isLt)
  have hidx : (⟨(UInt8.ofNat i.val).toNat, by rw [hto]; apply i.isLt⟩ : Fin CLASSES) = i :=
    Fin.ext hto
  rw [hidx] at hr
  exact hr

/-- The rings of the scheduler hold the ready keys of their class. -/
theorem mem_ready (h : s.Represents cfg b own free) (hg : b.Good CLASSES l) (i : Fin CLASSES) :
  k ∈ s.ready i ↔ i.val < 256 ∧ s.presence k = some (.ready (UInt8.ofNat i.val))
  := by
  by_cases hi : i.val < 256
  · rw [h.ready_of_index hi, h.presence]
    have hmem := hg.mem (.ready (UInt8.ofNat i.val)) k
    simpa [Book.standing, hi] using hmem
  · rw [h.readyHigh i (by omega)]
    simp [hi]

theorem nodup_ready (h : s.Represents cfg b own free) (hg : b.Good CLASSES l) (i : Fin CLASSES) :
  (s.ready i).Nodup
  := by
  by_cases hi : i.val < 256
  · rw [h.ready_of_index hi]
    apply hg.nodup (.ready (UInt8.ofNat i.val))
  · rw [h.readyHigh i (by omega)]
    apply List.nodup_nil

/-- A key stands in one ring at most. -/
theorem ready_disjoint (h : s.Represents cfg b own free) (hg : b.Good CLASSES l)
    {i j : Fin CLASSES} (hi : k ∈ s.ready i) (hj : k ∈ s.ready j) :
  i = j
  := by
  rw [h.mem_ready hg] at hi hj
  obtain ⟨hi₁, hi₂⟩ := hi
  obtain ⟨hj₁, hj₂⟩ := hj
  rw [hi₂, Option.some.injEq, Presence.ready.injEq, ← UInt8.toNat_inj,
    UInt8.toNat_ofNat_of_lt' hi₁, UInt8.toNat_ofNat_of_lt' hj₁] at hj₂
  apply Fin.ext hj₂

/-- The rings hold as many keys as there are ready ones. -/
theorem total_ready (h : s.Represents cfg b own free) (hg : b.Good CLASSES l) :
  ∑ i, (s.ready i).length = s.keys.total (presenceWeight Presence.isReady)
  := by
  have hlen : ∑ i, (s.ready i).length = ((List.finRange CLASSES).flatMap s.ready).length := by
    rw [List.length_flatMap, Fin.sum_univ_def]
  rw [hlen, eq_comm]
  apply AList.total_eq_length (p := fun slot : Slot K S => slot.presence.isReady)
  · rw [List.nodup_flatMap]
    constructor
    · intro i _
      apply h.nodup_ready hg
    · apply (List.nodup_finRange CLASSES).imp
      intro i j hij
      rw [Function.onFun, List.disjoint_left]
      intro k hk hk'
      apply hij (h.ready_disjoint hg hk hk')
  · intro k
    rw [List.mem_flatMap]
    constructor
    · rintro ⟨i, -, hk⟩
      obtain ⟨-, hp⟩ := (h.mem_ready hg i).mp hk
      rw [Scheduler.presence, Option.map_eq_some_iff] at hp
      obtain ⟨slot, hslot, hp⟩ := hp
      refine ⟨slot, hslot, ?_⟩
      rw [hp]
      rfl
    · rintro ⟨slot, hslot, hp⟩
      cases hpres : slot.presence with
      | ready c =>
        have hb : b.presence k = some (.ready c) := by
          rw [← h.presence, Scheduler.presence, hslot, Option.map_some, hpres]
        have hbk := hb
        rw [Book.presence, Option.map_eq_some_iff] at hbk
        obtain ⟨page, hpage, hpp⟩ := hbk
        have hok := hg.page k page id hpage
        simp only [Book.PageOk, hpp, Option.map_eq_some_iff] at hok
        obtain ⟨head, hhead, rfl⟩ := hok
        have hc := hg.classes k page hpage head (List.mem_of_head? hhead)
        refine ⟨⟨_, hc⟩, List.mem_finRange _, ?_⟩
        rw [h.ready]
        apply (hg.mem (.ready head.classId) k).mpr
        exact ⟨id, hb⟩
      | idle => simp [hpres, Presence.isReady] at hp
      | inFlight => simp [hpres, Presence.isReady] at hp
      | evicting => simp [hpres, Presence.isReady] at hp

/-- The first item of a ready key is of the class of its ring. -/
theorem front_of_ready (h : s.Represents cfg b own free) (hg : b.Good CLASSES l) {c : ClassId}
    (hslot : s.keys.lookup k = some slot) (hpres : slot.presence = .ready c) :
  ∃ item, s.slab.front slot.queue = .ok (some item) ∧ item.classId = c ∧
    (s.contents k).head? = some item
  := by
  have hb : b.presence k = some (.ready c) := by
    rw [← h.presence, Scheduler.presence, hslot, Option.map_some, hpres]
  rw [Book.presence, Option.map_eq_some_iff] at hb
  obtain ⟨page, hpage, hpp⟩ := hb
  have hok := hg.page k page id hpage
  simp only [Book.PageOk, hpp, Option.map_eq_some_iff] at hok
  obtain ⟨head, hhead, hclass⟩ := hok
  obtain ⟨slot', hslot', -, hq, -⟩ := h.lookup hpage
  have hfront := h.owns.front (i := k)
  rw [fifo_of_lookup hslot, ← List.head?_map, hq, hhead] at hfront
  refine ⟨head, hfront, hclass, ?_⟩
  rw [h.contents, Book.queue, hpage]
  apply hhead

/-! ### The check -/

/-- A ring of ready keys passes its check. -/
theorem checkRing (h : s.Represents cfg b own free) (hg : b.Good CLASSES l) (c : ClassId)
    (ring : List K) (hring : ∀ k ∈ ring, s.presence k = some (.ready c)) :
  s.checkRing c ring = .ok ()
  := by
  induction ring with
  | nil => rfl
  | cons k ring ih =>
    have hp := hring k (by simp)
    rw [Scheduler.presence, Option.map_eq_some_iff] at hp
    obtain ⟨slot, hslot, hpres⟩ := hp
    obtain ⟨item, hfront, hclass, -⟩ := h.front_of_ready hg hslot hpres
    have hrest := ih (fun j hj => hring j (by simp [hj]))
    simp [Scheduler.checkRing, hslot, hpres, hfront, hclass, hrest, bind, Except.bind]

theorem checkRings (h : s.Represents cfg b own free) (hg : b.Good CLASSES l)
    (indices : List (Fin CLASSES)) :
  s.checkRings indices = .ok ()
  := by
  induction indices with
  | nil => rfl
  | cons i indices ih =>
    have hring := h.checkRing hg (UInt8.ofNat i.val) (s.ready i) (by
      intro k hk
      apply ((h.mem_ready hg i).mp hk).2)
    rw [Scheduler.checkRings, hring, ih]
    rfl

/-- The slots pass their check. -/
theorem checkSlots (h : s.Represents cfg b own free) (hg : b.Good CLASSES l)
    (slots : List (Slot K S)) (hslots : ∀ slot ∈ slots, ∃ k, s.keys.lookup k = some slot) :
  Scheduler.checkSlots slots = .ok ()
  := by
  induction slots with
  | nil => rfl
  | cons slot slots ih =>
    have hrest := ih (fun x hx => hslots x (by simp [hx]))
    obtain ⟨k, hslot⟩ := hslots slot (by simp)
    have hpage : b.page k = some ⟨slot.resident, (own k).map Prod.snd, slot.presence⟩ := by
      rw [h.page, core_of_lookup hslot]
      rfl
    have hok := hg.page k _ id hpage
    cases hpres : slot.presence with
    | idle =>
      simp only [Book.PageOk, hpres] at hok
      have hempty : slot.queue.isEmpty = true := by
        rw [← fifo_of_lookup hslot, h.owns.isEmpty_iff]
        simpa using hok
      simp only [Scheduler.checkSlots, hpres, hempty, if_true, hrest]
    | ready c => simp only [Scheduler.checkSlots, hpres, hrest]
    | inFlight =>
      simp only [Book.PageOk, hpres] at hok
      simp only [Scheduler.checkSlots, hpres, hok, hrest]
      simp
    | evicting =>
      simp only [Book.PageOk, hpres] at hok
      simp only [Scheduler.checkSlots, hpres, hok, hrest]
      simp

/-- The idle keys are among the keys with slots. -/
theorem idle_le (h : s.Represents cfg b own free) (hg : b.Good CLASSES l) :
  b.idle.length ≤ s.keys.keys.length
  := by
  apply (List.Nodup.subperm (hg.nodup .idle) _).length_le
  intro j hj
  have hj := ((hg.mem .idle j).mp hj).2
  rw [← h.presence, Scheduler.presence, Option.map_eq_some_iff] at hj
  obtain ⟨slot, hslot, -⟩ := hj
  rw [← AList.mem_keys, ← AList.lookup_isSome, hslot]
  rfl

/-- The walk of the idle list from any of its members reaches its end. -/
theorem checkIdle (h : s.Represents cfg b own free) (hg : b.Good CLASSES l)
    (before after : List K) (hidle : b.idle = before ++ after) (fuel : ℕ)
    (hfuel : after.length < fuel) :
  s.checkIdle fuel before.length before.getLast? after.head? =
    .ok (b.idle.length, b.idle.getLast?)
  := by
  induction fuel generalizing before after with
  | zero => omega
  | succ fuel ih =>
    cases after with
    | nil =>
      rw [List.append_nil] at hidle
      rw [hidle]
      rfl
    | cons k after =>
      have hmem : k ∈ b.idle := by simp [hidle]
      have hpres := ((hg.mem .idle k).mp hmem).2
      rw [← h.presence, Scheduler.presence, Option.map_eq_some_iff] at hpres
      obtain ⟨slot, hslot, hpres⟩ := hpres
      have hthreads := h.idle.threads
      rw [hidle] at hthreads
      have hprev : slot.idlePrev = before.getLast? := by
        rw [← prevLink_of_lookup hslot, hthreads.prev_eq]
      have hnext : slot.idleNext = after.head? := by
        rw [← nextLink_of_lookup hslot, hthreads.next_eq]
      have hle : ¬ s.keys.keys.length < before.length := by
        have hlen := h.idle_le hg
        rw [hidle, List.length_append] at hlen
        omega
      have hrest := ih (before ++ [k]) after (by simp [hidle]) (by simpa using hfuel)
      simp only [List.length_append, List.length_singleton, List.getLast?_append,
        List.getLast?_singleton, Option.some_or] at hrest
      simp [Scheduler.checkIdle, hle, hslot, hpres, hprev, hnext, hrest, bind, Except.bind]

/-- The structural check passes. -/
theorem checkInvariants (h : s.Represents cfg b own free) (hg : b.Good CLASSES l) :
  s.checkInvariants = .ok ()
  := by
  have hpend : s.pending = (s.keys.total fun slot => slot.queue.len) + ∑ i, s.inflight i :=
    h.pending
  have hinf : s.keys.total (presenceWeight (· == .inFlight)) = ∑ i, s.inflight i := by
    rw [h.total_presence hg .inFlight _ (by simp), h.sum_inflight hg]
    simp [Book.standing]
  have hev : s.keys.total (presenceWeight (· == .evicting)) = s.evicting := by
    rw [h.total_presence hg .evicting _ (by simp), h.evicting, hg.evicting]
    rfl
  have hidle : s.keys.total (presenceWeight (· == .idle)) = b.idle.length := by
    rw [h.total_presence hg .idle _ (by simp)]
    rfl
  have hle := h.idle_le hg
  have hslots := h.checkSlots hg s.keys.values (by
    intro slot hslot
    obtain ⟨⟨k, slot'⟩, he, rfl⟩ := List.mem_map.mp hslot
    exact ⟨k, AList.mem_lookup_iff.mpr he⟩)
  have hwalk := h.checkIdle hg [] b.idle rfl (s.keys.keys.length + 2) (by omega)
  rw [← h.idle.head] at hwalk
  simp only [List.length_nil, List.getLast?_nil] at hwalk
  simp only [Scheduler.checkInvariants, ← hpend, hinf, hev, h.checkRings hg, h.total_ready hg,
    hslots, hwalk, h.idle.tail, h.idle.count, hidle]
  simp [bind, Except.bind, pure, Except.pure]

end Represents

/-! ### Whole runs -/

/-- After every call of a well-formed caller the structural check passes, a ready key
stands once, in the ring of the class of its first item and in no other ring, and the idle
list holds the idle keys once each.  No allowed call fails, if `next` is called for classes
that exist, but for an admission that finds the arena full. -/
theorem run_keeps_representation {cfg : Config CLASSES} {t : List (Event K P S)}
    {s : Scheduler K P S CLASSES} {l : Ledger K} (h : Run cfg t s l) :
  s.checkInvariants = .ok () ∧
  (∀ k c, s.presence k = some (.ready c) →
    (s.contents k).head?.map Item.classId = some c ∧
    ∃ hc : c.toNat < CLASSES, ∀ i, (s.ready i).count k = if i = ⟨c.toNat, hc⟩ then 1 else 0) ∧
  (∀ k i, k ∈ s.ready i → ∃ c, s.presence k = some (.ready c)) ∧
  (∀ k, s.idleList.count k = if s.presence k = some .idle then 1 else 0) ∧
  (∀ call, l.Allows CLASSES call → (∀ c now, call = .next c now → c.toNat < CLASSES) →
    (∃ s' e, s.perform call = .ok (s', e)) ∨
    ((∃ item, call = .admitItem item) ∧
      s.perform call = .error (.assertion Slab.exceeded)))
  := by
  obtain ⟨a, -, hholds⟩ := h.account
  obtain ⟨⟨own, free, hr⟩, rfl⟩ := id hholds
  have hg := a.good
  refine ⟨hr.checkInvariants hg, ?_, ?_, ?_, ?_⟩
  · intro k c hpres
    have hslot := hpres
    rw [Scheduler.presence, Option.map_eq_some_iff] at hslot
    obtain ⟨slot, hslot, hp⟩ := hslot
    obtain ⟨item, -, rfl, hhead⟩ := hr.front_of_ready hg hslot hp
    have hc : item.classId.toNat < CLASSES := by
      have hb := hpres
      rw [hr.presence, Book.presence, Option.map_eq_some_iff] at hb
      obtain ⟨page, hpage, -⟩ := hb
      apply hg.classes k page hpage item
      rw [hr.contents, Book.queue, hpage] at hhead
      apply List.mem_of_head? hhead
    have hmem : k ∈ s.ready ⟨item.classId.toNat, hc⟩ := by
      rw [hr.mem_ready hg]
      simpa [item.classId.toNat_lt] using hpres
    refine ⟨by rw [hhead, Option.map_some], hc, ?_⟩
    intro i
    split
    · subst i
      apply List.count_eq_one_of_mem (hr.nodup_ready hg _) hmem
    · rename_i hi
      apply List.count_eq_zero_of_not_mem
      intro hk
      apply hi (hr.ready_disjoint hg hk hmem)
  · intro k i hk
    exact ⟨_, ((hr.mem_ready hg i).mp hk).2⟩
  · intro k
    have hmem := hg.mem .idle k
    rw [← hr.presence] at hmem
    rw [hr.idleList]
    split
    · rename_i hp
      apply List.count_eq_one_of_mem (hg.nodup .idle) (hmem.mpr ⟨id, hp⟩)
    · rename_i hp
      apply List.count_eq_zero_of_not_mem
      intro hk
      apply hp (hmem.mp hk).2
  · intro call hallow hclass
    rcases hholds.perform hallow hclass with hfull | ⟨s', e, b', hok, -⟩
    · right
      apply hfull
    · left
      exact ⟨s', e, hok⟩

/-- A run over three keys, of which one is ready again, one is in flight and one rests. -/
theorem three_keys_run :
  ∃ (t : List (Event ℕ ℕ ℕ)) (s : Scheduler ℕ ℕ ℕ 2) (l : Ledger ℕ),
    Run (.new fun _ => 2) t s l ∧ t.length = 9 ∧ s.presence 7 = some (.ready 1) ∧
    s.presence 8 = some .inFlight ∧ s.presence 9 = some .idle
  := by
  have h₀ := Run.start (K := ℕ) (P := ℕ) (S := ℕ) (.new fun _ : Fin 2 => 2)
  have h₁ := h₀.call (.admitItem ⟨7, 0, none, 40⟩) (by decide) rfl
  have h₂ := h₁.call (.admitItem ⟨8, 0, none, 41⟩) (by decide) rfl
  have h₃ := h₂.call (.admitItem ⟨9, 0, some 9, 42⟩) (by decide) rfl
  have h₄ := h₃.call (.admitItem ⟨7, 1, none, 43⟩) (by decide) rfl
  have h₅ := h₄.call (.next 0 1) trivial rfl
  have h₆ := h₅.call (.complete ⟨7, 0, .keep 50⟩ 2) (by decide) rfl
  have h₇ := h₆.call (.next 0 3) trivial rfl
  have h₈ := h₇.call (.next 0 3) trivial rfl
  have h₉ := h₈.call (.complete ⟨9, 0, .keep 60⟩ 4) (by decide) rfl
  exact ⟨_, _, _, h₉, rfl, rfl, rfl, rfl⟩

/-- The check passes after the run over three keys, and the ready key can be dispatched. -/
theorem run_keeps_representation_admitted :
  ∃ (t : List (Event ℕ ℕ ℕ)) (s : Scheduler ℕ ℕ ℕ 2) (l : Ledger ℕ),
    Run (.new fun _ => 2) t s l ∧ t.length = 9 ∧ s.presence 7 = some (.ready 1) ∧
    s.presence 8 = some .inFlight ∧ s.presence 9 = some .idle ∧
    s.checkInvariants = .ok () ∧ ∃ s' e, s.perform (.next 1 5) = .ok (s', e)
  := by
  obtain ⟨t, s, l, hrun, hlength, hready, hinFlight, hidle⟩ := three_keys_run
  obtain ⟨hcheck, -, -, -, hcall⟩ := run_keeps_representation hrun
  refine ⟨t, s, l, hrun, hlength, hready, hinFlight, hidle, hcheck, ?_⟩
  rcases hcall (.next 1 5) trivial (by rintro c now h; cases h; decide) with hok | ⟨⟨_, h⟩, -⟩
  · exact hok
  · cases h

/-- A call of `next` for a class that does not exist indexes out of bounds, and nothing the
caller owes forbids it. -/
theorem next_beyond_classes_out_of_bounds :
  ∃ (s : Scheduler ℕ ℕ ℕ 1) (l : Ledger ℕ),
    Run (.new fun _ => 1) [] s l ∧ l.Allows 1 (.next 1 0 : Call ℕ ℕ ℕ) ∧
    s.perform (.next 1 0) = .error .bounds
  := ⟨_, _, .nil, trivial, rfl⟩

end Scheduler

end Grommet
