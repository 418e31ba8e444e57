import Grommet.Core.Scheduler.Refine

/-!
# Each operation is the operation of the book

One lemma per operation of the scheduler: from a scheduler that holds a good book, the
operation returns, and the scheduler it returns holds the book after the operation.
Admission is the one operation that may stop, when the arena has no node left.
-/

open Checked

namespace Grommet.Scheduler

open Queue

variable {K P S : Type} {CLASSES : ℕ} [DecidableEq K]

/-- What the caller is given for a dispatch of the book. -/
def toDispatch (c : ClassId) (d : K × Option S × Item P) : Dispatch K P S :=
  ⟨d.1, c, d.2.1, d.2.2.payload⟩

/-- What a visit of the first key of a ring leaves of the scheduler before it writes the slot of
the key: the ring without it, and the expired items of its queue discarded. -/
def dropped (s : Scheduler K P S CLASSES) (i : Fin CLASSES) (ring : List K) (slab : Slab (Item P))
    (k : K) (items : List (ℕ × Item P)) : Scheduler K P S CLASSES :=
  { s with
    ready := Function.update s.ready i ring
    slab := slab
    pending := s.pending - items.length
    expired := s.expired ++ items.map fun e => (k, e.2.classId, e.2.payload) }

/-- The first key of the ring of a class, with its page and its slot. -/
structure Heads (s : Scheduler K P S CLASSES) (b : Book K P S) (own : K → List (ℕ × Item P))
    (c : ClassId) (k : K) (ring : List K) (page : Page P S) (slot : Slot K S) : Prop where
  ready : b.ready c = k :: ring
  paged : b.page k = some page
  slotted : s.keys.lookup k = some slot
  resident : slot.resident = page.resident
  items : (own k).map Prod.snd = page.queue
  presence : slot.presence = page.presence

omit [DecidableEq K] in
/-- A visit discards the items at the head of a queue and leaves the others. -/
theorem length_visit (es : List (ℕ × Item P)) (c : ClassId) (now : Duration) :
  (es.takeWhile fun e => Book.gone c now e.2).length +
    (es.dropWhile fun e => Book.gone c now e.2).length = es.length
  := by
  rw [← List.length_append, List.takeWhile_append_dropWhile]

namespace Heads

variable {cfg : Config CLASSES} {s : Scheduler K P S CLASSES} {b : Book K P S}
  {own : K → List (ℕ × Item P)} {free : List ℕ} {k : K} {slot : Slot K S} {now : Duration}
  {c : ClassId} {ring : List K} {page : Page P S} {rest : List (ℕ × Item P)} {e : ℕ × Item P}

/-- The items at the head of a queue that a visit discards are those of the page. -/
theorem takeWhile (h : Heads s b own c k ring page slot) (now : Duration) :
  ((own k).takeWhile fun e => Book.gone c now e.2).map Prod.snd =
    page.queue.takeWhile (Book.gone c now)
  := by
  rw [← h.items, List.takeWhile_map]
  rfl

theorem dropWhile (h : Heads s b own c k ring page slot) (now : Duration) :
  ((own k).dropWhile fun e => Book.gone c now e.2).map Prod.snd =
    page.queue.dropWhile (Book.gone c now)
  := by
  rw [← h.items, List.dropWhile_map]
  rfl

theorem expired (h : Heads s b own c k ring page slot)
    (hr : s.Represents cfg b own free) (now : Duration) :
  s.expired ++ ((own k).takeWhile fun e => Book.gone c now e.2).map
      (fun e => (k, e.2.classId, e.2.payload)) =
    b.expired ++ (page.queue.takeWhile (Book.gone c now)).map
      (fun item => (k, item.classId, item.payload))
  := by
  rw [hr.expired, ← h.takeWhile, List.map_map]
  rfl

theorem candidate_cons (h : Heads s b own c k ring page slot)
    (hkept : ((own k).dropWhile fun e => Book.gone c now e.2) = e :: rest) (hc : e.2.classId = c) :
  Book.candidate c now page.queue = some e.2
  := by
  rw [Book.candidate, ← h.dropWhile, hkept]
  simp [hc]

theorem candidate_none (h : Heads s b own c k ring page slot)
    (hkept : ((own k).dropWhile fun e => Book.gone c now e.2) = rest)
    (hne : rest.head?.map (fun e => e.2.classId) ≠ some c) :
  Book.candidate c now page.queue = none
  := by
  rw [Book.candidate, ← h.dropWhile, hkept, Option.filter_eq_none_iff]
  intro item hitem hc
  rw [List.head?_map, Option.map_eq_some_iff] at hitem
  obtain ⟨e, he, rfl⟩ := hitem
  apply hne
  simpa [he] using hc

end Heads

namespace Represents

variable {cfg : Config CLASSES} {s s' : Scheduler K P S CLASSES} {b : Book K P S}
  {own : K → List (ℕ × Item P)} {free : List ℕ} {k : K} {slot slot' : Slot K S}
  {l : Ledger K} {now : Duration}

/-- The representation after a slot is written with the same queue and the same links. -/
theorem writeSlot (h : s.Represents cfg b own free) (slot' : Slot K S)
    (hslot : s.keys.lookup k = some slot) (hqueue : slot'.queue = slot.queue)
    (hprev : slot'.idlePrev = slot.idlePrev)
    (hnext : slot'.idleNext = slot.idleNext) :
  Represents cfg { s with keys := s.keys.insert k slot' }
    (b.write k (some ⟨slot'.resident, (own k).map Prod.snd, slot'.presence⟩)) own free
  := by
  have hq : slot'.queue = s.fifo k := by
    rw [hqueue, fifo_of_lookup hslot]
  rw [← Function.update_eq_self k own]
  apply h.write (k := k) _ _ slot' (own k) free
  · rfl
  · apply core_insert rfl
  · rw [Function.update_eq_self]
    rfl
  · rw [hq, Function.update_eq_self, Function.update_eq_self]
    apply h.owns
  · rw [nextLink_insert (s := s) (k := k) rfl, prevLink_insert (s := s) (k := k) rfl, hprev,
      hnext, ← nextLink_of_lookup hslot, ← prevLink_of_lookup hslot, Function.update_eq_self,
      Function.update_eq_self]
    apply h.idle
  · rfl
  · rfl
  · apply h.expired
  · apply h.inflight
  · rw [queued_relink (s := s) hslot rfl hqueue]
    apply h.pending
  · apply h.evicting

/-- The listed keys have slots. -/
theorem core_of_idle (h : s.Represents cfg b own free)
    (hpage : ∀ j ∈ b.idle, (b.page j).isSome) :
  ∀ j ∈ b.idle, (s.core j).isSome
  := by
  intro j hj
  have hp := hpage j hj
  rw [h.page, Option.isSome_map] at hp
  apply hp

/-- Settling a detached key and placing it is placing it in the book. -/
theorem settlePlace (h : s.Represents cfg b own free) (slot' : Slot K S)
    (hslot : s.keys.lookup k = some slot) (hpage : ∀ j ∈ b.idle, (b.page j).isSome) (hk : k ∉ b.idle)
    (hc : ∀ e ∈ own k, e.2.classId.toNat < CLASSES)
    (hqueue : slot'.queue = slot.queue) (hprev : slot'.idlePrev = slot.idlePrev)
    (hnext : slot'.idleNext = slot.idleNext) (now : Duration) :
  ∃ slot₂ target s', settle s.slab slot' = .ok (slot₂, target) ∧
    target = ((own k).map Prod.snd).head?.map Item.classId ∧
    place { s with keys := s.keys.insert k slot₂ } k target now = .ok s' ∧
    s'.Represents cfg (b.place k ⟨slot'.resident, (own k).map Prod.snd, slot'.presence⟩) own free
  := by
  have hfront : s.slab.front slot'.queue = .ok ((own k).head?.map Prod.snd) := by
    rw [hqueue, ← fifo_of_lookup hslot]
    apply h.owns.front
  cases hown : own k with
  | cons e rest =>
    rw [hown, List.head?_cons, Option.map_some] at hfront
    let slot₂ : Slot K S := { slot' with presence := .ready e.2.classId }
    have hw := h.writeSlot slot₂ hslot hqueue hprev hnext
    obtain ⟨s', hs', hr⟩ := hw.pushReady (k := k) (c := e.2.classId) (hc e (by simp [hown]))
    refine ⟨slot₂, some e.2.classId, s', ?_, by simp, hs', ?_⟩
    · rw [settle, hfront]
      rfl
    · rw [hown] at hr
      simpa [Book.place] using hr
  | nil =>
    rw [hown, List.head?_nil, Option.map_none] at hfront
    let slot₂ : Slot K S := { slot' with presence := .idle }
    have hw := h.writeSlot slot₂ hslot hqueue hprev hnext
    have hidle : ∀ j ∈ b.idle,
        (core { s with keys := s.keys.insert k slot₂ } j).isSome := by
      apply hw.core_of_idle
      intro j hj
      rw [Book.write_page_of_ne]
      · apply hpage j hj
      · rintro rfl
        apply hk hj
    have hlook : (s.keys.insert k slot₂).lookup k = some slot₂ := by
      simp
    obtain ⟨s', hs', hr, hcore, hqueued⟩ := idleLink_eq hw.idle hidle hk hlook rfl now
    refine ⟨slot₂, none, s', ?_, by simp, hs', ?_⟩
    · rw [settle, hfront]
      rfl
    · have hrest := hr.rest
      have hslab : s'.slab = s.slab := by
        rw [hrest]
      have hfifo : slot₂.queue = fifo { s with keys := s.keys.insert k slot₂ } k := by
        rw [fifo_insert (s := s) rfl, Function.update_self]
      rw [← Function.update_eq_self k own]
      apply hw.write (k := k) _ _ { slot₂ with idleSince := now } (own k) free
      · rw [hrest]
      · apply hcore
      · simp [Book.place, Book.write, slot₂, hown]
      · rw [hslab, hfifo, Function.update_eq_self, Function.update_eq_self]
        apply hw.owns
      · apply hr.idle
      · rw [hrest]
      · rfl
      · rw [hrest]
        apply h.expired
      · rw [hrest]
        apply h.inflight
      · rw [hqueued]
        rw [hrest]
        apply hw.pending
      · rw [hrest]
        apply h.evicting

/-- Settling and placing in one step. -/
theorem settleAndPlace (h : s.Represents cfg b own free) (slot' : Slot K S)
    (hslot : s.keys.lookup k = some slot) (hpage : ∀ j ∈ b.idle, (b.page j).isSome) (hk : k ∉ b.idle)
    (hc : ∀ e ∈ own k, e.2.classId.toNat < CLASSES)
    (hqueue : slot'.queue = slot.queue) (hprev : slot'.idlePrev = slot.idlePrev)
    (hnext : slot'.idleNext = slot.idleNext) (now : Duration) :
  ∃ s', s.settleAndPlace k slot' now = .ok s' ∧
    s'.Represents cfg (b.place k ⟨slot'.resident, (own k).map Prod.snd, slot'.presence⟩) own free
  := by
  obtain ⟨slot₂, target, s', hsettle, -, hplace, hr⟩ :=
    h.settlePlace slot' hslot hpage hk hc hqueue hprev hnext now
  use s'
  constructor
  · rw [Scheduler.settleAndPlace, hsettle]
    apply hplace
  · apply hr

/-- The representation after the in-flight count of a class changes. -/
theorem setInflight (h : s.Represents cfg b own free) {c : ClassId} (hc : c.toNat < CLASSES)
    (n pending : ℕ) (hp : pending + b.inflight c = s.pending + n) :
  Represents cfg
    { s with inflight := Function.update s.inflight ⟨_, hc⟩ n, pending := pending }
    { b with inflight := Function.update b.inflight c n } own free
  := by
  constructor
  · apply h.config
  · apply h.owns
  · apply h.page
  · apply h.idle
  · apply h.ready
  · apply h.readyHigh
  · apply h.expired
  · apply h.inflight_update hc n
    rfl
  · have hsum := sum_update_add s.inflight ⟨_, hc⟩ n
    have hpend := h.pending
    rw [h.inflight_class hc] at hsum
    change pending = s.queued + ∑ i, Function.update s.inflight ⟨_, hc⟩ n i
    omega
  · apply h.evicting

/-- The classes of the items a key owns are in range. -/
theorem classes_of_own (h : s.Represents cfg b own free) {hole : K → Prop}
    (hg : b.Inv CLASSES hole l) :
  ∀ e ∈ own k, e.2.classId.toNat < CLASSES
  := by
  intro e he
  cases hpage : b.page k with
  | none =>
    rw [(h.lookup_none hpage).2] at he
    cases he
  | some page =>
    obtain ⟨slot, -, -, hq, -⟩ := h.lookup hpage
    apply hg.classes k page hpage
    rw [← hq]
    apply List.mem_map_of_mem he

/-- A completion is the completion of the book. -/
theorem complete (h : s.Represents cfg b own free) (hg : b.Good CLASSES l)
    {completion : Completion K S} (hk : (completion.key, completion.classId) ∈ l.running)
    (now : Duration) :
  ∃ s', s.complete completion now = .ok s' ∧
    s'.Represents cfg (b.complete completion) own free
  := by
  have hc : completion.classId.toNat < CLASSES := hg.running _ hk
  obtain ⟨-, hpres⟩ := (hg.mem .inFlight completion.key).mp (List.mem_map_of_mem hk)
  have hnot : completion.key ∉ b.idle := by
    intro hmem
    have hidle := ((hg.mem .idle completion.key).mp hmem).2
    rw [hpres] at hidle
    cases hidle
  rw [Book.presence, Option.map_eq_some_iff] at hpres
  obtain ⟨page, hpage, hpres⟩ := hpres
  obtain ⟨slot, hslot, -, hq, hsp⟩ := h.lookup hpage
  have hone : 1 ≤ b.inflight completion.classId := by
    rw [hg.inflight, Nat.one_le_iff_ne_zero, ← Nat.pos_iff_ne_zero, List.countP_pos_iff]
    exact ⟨_, hk, by simp⟩
  have hinf := h.inflight_class hc
  have hpend : b.inflight completion.classId ≤ s.pending := by
    rw [h.pending, ← hinf]
    have hle := Finset.single_le_sum (f := s.inflight) (fun _ _ => Nat.zero_le _)
      (Finset.mem_univ ⟨_, hc⟩)
    omega
  have hset := h.setInflight hc (b.inflight completion.classId - 1) (s.pending - 1) (by omega)
  obtain ⟨s', hs', hr⟩ := hset.settleAndPlace { slot with resident := completion.state.intoOption }
    hslot hg.page_of_idle hnot (h.classes_of_own hg) rfl rfl rfl now
  use s'
  constructor
  · rw [Scheduler.complete, inBounds_of_lt hc]
    simp only [ok_bind]
    rw [hinf, sub_of_le hone, ok_bind, sub_of_le (by omega), ok_bind]
    simp only [hslot, expect_some, ok_bind]
    rw [assert_of (by simp [hsp, hpres]), ok_bind]
    apply hs'
  · simp only [Book.complete, hpage]
    rw [hq] at hr
    rw [← hsp]
    apply hr

section Admission

variable {slab : Slab (Item P)} {list : Fifo} {x : ℕ} {item : Item P} {free' : List ℕ}

/-- One more item is pending when one more is queued. -/
theorem pending_admitted (h : s.Represents cfg b own free)
    (howns : slab.Owns (Function.update s.fifo k list)
      (Function.update own k (own k ++ [(x, item)])) free') (slot' : Slot K S)
    (hqueue : slot'.queue = list) (s₁ : Scheduler K P S CLASSES)
    (hkeys : s₁.keys = s.keys.insert k slot') :
  s.pending + 1 = s₁.queued + ∑ i, s.inflight i
  := by
  have hw := h.queued_write s₁ hkeys
  have hlen := howns.len k
  have hpend := h.pending
  simp only [Function.update_self, List.length_append, List.length_singleton] at hlen
  rw [hqueue] at hw
  omega

/-- A key that was not there gets a slot in the ring of its item. -/
theorem admit_cold (h : s.Represents cfg b own free) (hpage : b.page k = none)
    (howns : slab.Owns (Function.update s.fifo k list)
      (Function.update own k (own k ++ [(x, item)])) free') (c : ClassId) :
  Represents cfg { s with
      pending := s.pending + 1
      slab := slab
      keys := s.keys.insert k { (Slot.cold : Slot K S) with queue := list, presence := .ready c } }
    (b.write k (some ⟨none, [item], .ready c⟩)) (Function.update own k (own k ++ [(x, item)])) free'
  := by
  obtain ⟨hslot, hown⟩ := h.lookup_none hpage
  let joined : Slot K S := { (Slot.cold : Slot K S) with queue := list, presence := .ready c }
  apply h.write (k := k) _ _ joined
  · rfl
  · apply core_insert rfl
  · rw [hown]
    rfl
  · apply howns
  · obtain ⟨hdn, hdp⟩ : s.nextLink k = none ∧ s.prevLink k = none := by
      simp [nextLink, prevLink, hslot]
    rw [nextLink_insert (s := s) (k := k) rfl, prevLink_insert (s := s) (k := k) rfl]
    simp only [Slot.cold]
    nth_rewrite 1 [← hdn]
    nth_rewrite 1 [← hdp]
    rw [Function.update_eq_self, Function.update_eq_self]
    apply h.idle
  · rfl
  · rfl
  · apply h.expired
  · apply h.inflight
  · exact h.pending_admitted howns joined rfl _ rfl
  · apply h.evicting

/-- An idle key leaves the idle order for the ring of its item. -/
theorem admit_idle (h : s.Represents cfg b own free) (hg : b.Good CLASSES l) {page : Page P S}
    (hpage : b.page k = some page) (hslot : s.keys.lookup k = some slot)
    (hidle : page.presence = .idle)
    (howns : slab.Owns (Function.update s.fifo k list)
      (Function.update own k (own k ++ [(x, item)])) free') (c : ClassId) :
  ∃ s₂, idleUnlink { s with
      pending := s.pending + 1
      slab := slab
      keys := s.keys.insert k
        (Slot.detach { slot with queue := list, presence := .ready c }) }
        { slot with queue := list } = .ok s₂ ∧
    s₂.Represents cfg ({ b with idle := b.idle.erase k }.write k
      (some ⟨page.resident, page.queue ++ [item], .ready c⟩))
      (Function.update own k (own k ++ [(x, item)])) free'
  := by
  obtain ⟨slot₀, hslot₀, hres, hq, -⟩ := h.lookup hpage
  cases hslot.symm.trans hslot₀
  let joined : Slot K S := { slot with queue := list, presence := .ready c }
  let s₁ : Scheduler K P S CLASSES := { s with
    pending := s.pending + 1, slab := slab, keys := s.keys.insert k joined.detach }
  have hmem : k ∈ b.idle := by
    apply (hg.mem .idle k).mpr
    refine ⟨id, ?_⟩
    rw [Book.presence, hpage, Option.map_some, hidle]
  obtain ⟨s₂, hs₂, hth, hcore, hqueued⟩ := idleUnlink_eq s₁ joined
    { slot with queue := list } h.idle
    (h.core_of_idle hg.page_of_idle) hmem hslot rfl rfl rfl rfl rfl rfl
  have hrest := hth.rest
  refine ⟨s₂, hs₂, ?_⟩
  apply h.write (k := k) _ _ joined
  · rw [hrest]
  · rw [hcore]
    have hkeys : s₁.keys = s.keys.insert k joined.detach := rfl
    apply core_insert hkeys
  · rw [← hq, ← hres]
    simp [Book.write, joined]
  · rw [hrest]
    apply howns
  · apply hth.idle
  · rw [hrest]
  · rfl
  · rw [hrest]
    apply h.expired
  · rw [hrest]
    apply h.inflight
  · rw [hqueued, hrest]
    exact h.pending_admitted howns joined.detach rfl s₁ rfl
  · rw [hrest]
    apply h.evicting

/-- Any other key keeps its place. -/
theorem admit_busy (h : s.Represents cfg b own free) {page : Page P S}
    (hpage : b.page k = some page) (hslot : s.keys.lookup k = some slot)
    (howns : slab.Owns (Function.update s.fifo k list)
      (Function.update own k (own k ++ [(x, item)])) free') :
  Represents cfg { s with
      pending := s.pending + 1
      slab := slab
      keys := s.keys.insert k { slot with queue := list } }
    (b.write k (some { page with queue := page.queue ++ [item] }))
    (Function.update own k (own k ++ [(x, item)])) free'
  := by
  obtain ⟨slot₀, hslot₀, hres, hq, hpres⟩ := h.lookup hpage
  cases hslot.symm.trans hslot₀
  let grown : Slot K S := { slot with queue := list }
  apply h.write (k := k) _ _ grown
  · rfl
  · apply core_insert rfl
  · rw [← hq, ← hres, ← hpres]
    simp [Book.write, grown]
  · apply howns
  · rw [nextLink_insert (s := s) (k := k) rfl, prevLink_insert (s := s) (k := k) rfl]
    simp only
    rw [← nextLink_of_lookup hslot, ← prevLink_of_lookup hslot, Function.update_eq_self,
      Function.update_eq_self]
    apply h.idle
  · rfl
  · rfl
  · apply h.expired
  · apply h.inflight
  · exact h.pending_admitted howns grown rfl _ rfl
  · apply h.evicting

end Admission

/-- Admission is the admission of the book, unless the arena has no node left. -/
theorem admitItem (h : s.Represents cfg b own free) (hg : b.Good CLASSES l) {a : Admit K P}
    (ha : a.classId.toNat < CLASSES) :
  (free = [] ∧ s.slab.nodes.length = NIL ∧
      s.admitItem a = .error (.assertion Slab.exceeded)) ∨
    ∃ s' own' free', s.admitItem a = .ok s' ∧ s'.Represents cfg (b.admitItem a) own' free'
  := by
  have hassert : assert (decide (a.classId.toNat < CLASSES)) "the class is outside 0..CLASSES"
      = .ok () := assert_of (by simpa using ha) _
  let item : Item P := ⟨a.classId, a.expiresAt, a.payload⟩
  cases hpage : b.page a.key with
  | none =>
    obtain ⟨hslot, hown⟩ := h.lookup_none hpage
    have hfifo : s.fifo a.key = (Slot.cold : Slot K S).queue := h.owns.eq_default hown
    rcases h.owns.pushBack a.key item with ⟨hf, hl, he⟩ | ⟨slab, list, x, free', hok, howns⟩
    · left
      refine ⟨hf, hl, ?_⟩
      rw [hfifo] at he
      simp only [Scheduler.admitItem, hassert, ok_bind, hslot, he, item, error_bind]
    · right
      rw [hfifo] at hok
      obtain ⟨s', hs', hr⟩ := (h.admit_cold hpage howns a.classId).pushReady (k := a.key) ha
      refine ⟨s', Function.update own a.key (own a.key ++ [(x, item)]), free', ?_, ?_⟩
      · simp only [Scheduler.admitItem, hassert, ok_bind, hslot]
        rw [hok]
        simp only [ok_bind]
        apply hs'
      · simp only [Book.admitItem, hpage]
        apply hr
  | some page =>
    obtain ⟨slot, hslot, -, -, hpres⟩ := h.lookup hpage
    have hfifo : s.fifo a.key = slot.queue := fifo_of_lookup hslot
    rcases h.owns.pushBack a.key item with ⟨hf, hl, he⟩ | ⟨slab, list, x, free', hok, howns⟩
    · left
      refine ⟨hf, hl, ?_⟩
      rw [hfifo] at he
      simp only [Scheduler.admitItem, hassert, ok_bind, hslot, he, item, error_bind]
    · right
      rw [hfifo] at hok
      by_cases hidle : page.presence = .idle
      · obtain ⟨s₂, hs₂, hr₂⟩ := h.admit_idle hg hpage hslot hidle howns a.classId
        obtain ⟨s', hs', hr⟩ := hr₂.pushReady (k := a.key) ha
        refine ⟨s', Function.update own a.key (own a.key ++ [(x, item)]), free', ?_, ?_⟩
        · simp only [Scheduler.admitItem, hassert, ok_bind, hslot]
          rw [hok]
          simp only [ok_bind, hpres, hidle, if_true]
          erw [hs₂]
          apply hs'
        · simp only [Book.admitItem, hpage, hidle, if_true]
          apply hr
      · have hbook : b.admitItem a =
            b.write a.key (some { page with queue := page.queue ++ [item] }) := by
          simp only [Book.admitItem, hpage, hidle, if_false]
          rfl
        rw [hbook]
        refine ⟨_, _, free', ?_, h.admit_busy hpage hslot howns⟩
        simp only [Scheduler.admitItem, hassert, ok_bind, hslot]
        rw [hok]
        simp only [ok_bind, hpres, hidle, if_false]

/-- Dropping the expired heads of a queue takes them from the arena, and takes the first
item after them when it is of the class of the ring. -/
theorem dropExpired {lists : K → Fifo} (howns : s.slab.Owns lists own free)
    (c : ClassId) (now : Duration) (fuel : ℕ) (hfuel : (own k).length < fuel)
    (hpend : ((own k).takeWhile fun e => Book.gone c now e.2).length ≤ s.pending) :
  ∃ slab queue free' taken rest,
    Scheduler.dropExpired c now k fuel s (lists k) = .ok
      ({ s with
        slab := slab,
        pending := s.pending - ((own k).takeWhile fun e => Book.gone c now e.2).length,
        expired := s.expired ++ ((own k).takeWhile fun e => Book.gone c now e.2).map
          fun e => (k, e.2.classId, e.2.payload) },
      queue, taken) ∧
    slab.Owns (Function.update lists k queue) (Function.update own k rest) free' ∧
    ((∃ e, ((own k).dropWhile fun e => Book.gone c now e.2) = e :: rest ∧ e.2.classId = c ∧
        taken = some e.2) ∨
      (((own k).dropWhile fun e => Book.gone c now e.2) = rest ∧
        rest.head?.map (fun e => e.2.classId) ≠ some c ∧ taken = none))
  := by
  induction fuel generalizing s lists own free with
  | zero => omega
  | succ fuel ih =>
    have hfront := howns.front (i := k)
    rw [Scheduler.dropExpired, hfront, ok_bind]
    cases hown : own k with
    | nil =>
      refine ⟨s.slab, lists k, free, none, [], ?_, ?_, ?_⟩
      · simp
      · rw [← hown, Function.update_eq_self, Function.update_eq_self]
        apply howns
      · right
        simp
    | cons e es =>
      simp only [List.head?_cons, Option.map_some]
      by_cases hc : e.2.classId = c
      · simp only [hc, ne_eq, not_true_eq_false, if_false]
        obtain ⟨slab₁, list₁, hpop, howns₁⟩ := howns.popFront hown
        cases hexp : e.2.isExpired now with
        | true =>
          have hgone : Book.gone c now e.2 = true := by
            simp [Book.gone, hc, hexp]
          rw [hown] at hpend hfuel
          simp only [List.takeWhile_cons, hgone, if_true, List.length_cons] at hpend hfuel
          simp only [if_true, hpop, ok_bind, expect_some]
          rw [sub_of_le (by omega), ok_bind]
          obtain ⟨slab, queue, free', taken, rest, hdrop, howns', hcase⟩ := ih
            (s := { s with
              slab := slab₁, pending := s.pending - 1,
              expired := s.expired ++ [(k, e.2.classId, e.2.payload)] })
            howns₁ (by simpa using hfuel) (by simp only [Function.update_self]; omega)
          rw [Function.update_self, Function.update_self] at hdrop
          rw [Function.update_self] at hcase
          rw [Function.update_idem, Function.update_idem] at howns'
          refine ⟨slab, queue, free', taken, rest, ?_, howns', ?_⟩
          · rw [hdrop]
            simp only [List.takeWhile_cons, hgone, if_true, List.length_cons, List.map_cons,
              List.append_assoc, List.singleton_append, Nat.sub_sub, Nat.add_comm 1]
          · simpa only [List.dropWhile_cons, hgone, if_true] using hcase
        | false =>
          have hgone : Book.gone c now e.2 = false := by
            simp [Book.gone, hexp]
          refine ⟨slab₁, list₁, e.1 :: free, some e.2, es, ?_, howns₁, ?_⟩
          · simp [hpop, hgone]
          · left
            exact ⟨e, by simp [hgone], hc, rfl⟩
      · have hgone : Book.gone c now e.2 = false := by
          simp [Book.gone, hc]
        refine ⟨s.slab, lists k, free, none, e :: es, ?_, ?_, ?_⟩
        · simp [hc, hgone]
        · rw [← hown, Function.update_eq_self, Function.update_eq_self]
          apply howns
        · right
          simp [hgone, hc]

/-- The representation after a ring is replaced. -/
theorem setReady (h : s.Represents cfg b own free) {c : ClassId} (hc : c.toNat < CLASSES)
    (ring : List K) :
  Represents cfg { s with ready := Function.update s.ready ⟨_, hc⟩ ring }
    { b with ready := Function.update b.ready c ring } own free
  := by
  constructor
  · apply h.config
  · apply h.owns
  · apply h.page
  · apply h.idle
  · intro c' hc'
    by_cases hcc : c' = c
    · subst hcc
      simp
    · have hne : (⟨c'.toNat, hc'⟩ : Fin CLASSES) ≠ ⟨c.toNat, hc⟩ := by
        intro heq
        apply hcc
        apply UInt8.toNat_inj.mp (Fin.mk.inj heq)
      simp only [Function.update_of_ne hne, Function.update_of_ne hcc]
      apply h.ready
  · intro i hi
    have hne : i ≠ ⟨c.toNat, hc⟩ := by
      rintro rfl
      have hlt := c.toNat_lt
      simp only at hi
      omega
    simp only [Function.update_of_ne hne]
    apply h.readyHigh i hi
  · apply h.expired
  · apply h.inflight
  · apply h.pending
  · apply h.evicting

/-- The items a key owns are among the pending ones. -/
theorem own_le_pending (h : s.Represents cfg b own free) (hslot : s.keys.lookup k = some slot) :
  (own k).length ≤ s.pending
  := by
  have hle := AList.le_total (w := fun slot : Slot K S => slot.queue.len) hslot
  have hlen := h.owns.len k
  rw [fifo_of_lookup hslot] at hlen
  rw [h.pending, queued]
  omega

/-- The parts of a representation after a key's queue loses its first items: `m` of them
were discarded, and `n` of them are in flight in class `c`. -/
theorem shorten (h : s.Represents cfg b own free) (hslot : s.keys.lookup k = some slot)
    (s' : Scheduler K P S CLASSES) (b' : Book K P S) (slot' : Slot K S)
    (rest : List (ℕ × Item P)) (free' : List ℕ)
    (hcfg : s'.cfg = s.cfg) (hkeys : s'.keys = s.keys.insert k slot')
    (hprev : slot'.idlePrev = slot.idlePrev) (hnext : slot'.idleNext = slot.idleNext)
    (hpage : b'.page = Function.update b.page k
      (some ⟨slot'.resident, rest.map Prod.snd, slot'.presence⟩))
    (howns : s'.slab.Owns (Function.update s.fifo k slot'.queue) (Function.update own k rest) free')
    (hidle : s'.idleHead = s.idleHead ∧ s'.idleTail = s.idleTail ∧ s'.idle = s.idle)
    (hidle' : b'.idle = b.idle) (hready : s'.ready = s.ready) (hready' : b'.ready = b.ready)
    (hexpired : s'.expired = b'.expired)
    (hinflight : ∀ i : Fin CLASSES, s'.inflight i = b'.inflightAt i.val)
    (hpending : s'.pending + (own k).length + ∑ i, s.inflight i =
      s.pending + rest.length + ∑ i, s'.inflight i)
    (hevicting : s'.evicting = b'.evicting) :
  s'.Represents cfg b' (Function.update own k rest) free'
  := by
  have hlen := howns.len k
  rw [Function.update_self, Function.update_self] at hlen
  have hqueued := h.queued_write s' hkeys
  have hpend := h.pending
  apply h.write (k := k) s' b' slot' rest free' hcfg (core_insert hkeys) hpage howns
  · rw [nextLink_insert hkeys, prevLink_insert hkeys, hprev, hnext, hidle.1, hidle.2.1, hidle.2.2,
      hidle', ← nextLink_of_lookup hslot, ← prevLink_of_lookup hslot, Function.update_eq_self,
      Function.update_eq_self]
    apply h.idle
  · apply hready
  · apply hready'
  · apply hexpired
  · apply hinflight
  · omega
  · apply hevicting

omit [DecidableEq K] in
/-- A key that is not idle is not on the idle order. -/
theorem notMem_idle (hg : b.Good CLASSES l) {p : Presence} (hp : p ≠ .idle)
    (hk : b.presence k = some p) :
  k ∉ b.idle
  := by
  intro hmem
  have hidle := ((hg.mem .idle k).mp hmem).2
  rw [hk, Option.some.injEq] at hidle
  apply hp hidle

section Visit

variable {c : ClassId} {ring : List K} {page : Page P S} {slab : Slab (Item P)} {queue : Fifo}
  {rest : List (ℕ × Item P)} {free' : List ℕ} {e : ℕ × Item P}

/-- The first item that has not expired is of the class of the ring, and is dispatched. -/
theorem dispatched (h : s.Represents cfg b own free) (hheads : Heads s b own c k ring page slot)
    (hc : c.toNat < CLASSES)
    (howns : slab.Owns (Function.update s.fifo k queue) (Function.update own k rest) free')
    (hkept : ((own k).dropWhile fun e => Book.gone c now e.2) = e :: rest) :
  Represents cfg
    { s.dropped ⟨_, hc⟩ ring slab k ((own k).takeWhile fun e => Book.gone c now e.2) with
      keys := s.keys.insert k { slot with queue := queue, presence := .inFlight, resident := none }
      inflight := Function.update s.inflight ⟨_, hc⟩ (s.inflight ⟨_, hc⟩ + 1) }
    (b.dispatch c now k page ring) (Function.update own k rest) free'
  := by
  have hlen := length_visit (own k) c now
  have hown := h.own_le_pending hheads.slotted
  apply (h.setReady hc ring).shorten hheads.slotted _ _
    { slot with queue := queue, presence := .inFlight, resident := none } rest free'
  · rfl
  · rfl
  · rfl
  · rfl
  · simp [Book.dispatch, Book.discard, Book.write, ← hheads.dropWhile, hkept]
  · exact howns
  · exact ⟨rfl, rfl, rfl⟩
  · rfl
  · rfl
  · rfl
  · exact hheads.expired h now
  · apply h.inflight_update hc
    rw [h.inflight_class hc]
    rfl
  · have hsum := sum_update_add s.inflight ⟨_, hc⟩ (s.inflight ⟨_, hc⟩ + 1)
    rw [hkept, List.length_cons] at hlen
    simp only [dropped]
    omega
  · apply h.evicting

/-- No item of the class of the ring is left at the head of the queue: the key is placed by what
is left. -/
theorem skipped (h : s.Represents cfg b own free) (hg : b.Good CLASSES l)
    (hheads : Heads s b own c k ring page slot) (hc : c.toNat < CLASSES)
    (howns : slab.Owns (Function.update s.fifo k queue) (Function.update own k rest) free')
    (hkept : ((own k).dropWhile fun e => Book.gone c now e.2) = rest)
    (hne : rest.head?.map (fun e => e.2.classId) ≠ some c) :
  ∃ slot₂ target s', settle slab { slot with queue := queue } = .ok (slot₂, target) ∧
    (target != some c) = true ∧
    place { s.dropped ⟨_, hc⟩ ring slab k ((own k).takeWhile fun e => Book.gone c now e.2) with
      keys := s.keys.insert k slot₂ } k target now = .ok s' ∧
    s'.Represents cfg (b.passOver c now k page ring) (Function.update own k rest) free'
  := by
  have hlen := length_visit (own k) c now
  have hown := h.own_le_pending hheads.slotted
  let slot₁ : Slot K S := { slot with queue := queue }
  let b₁ := ({ b with ready := Function.update b.ready c ring }.discard k
    (page.queue.takeWhile (Book.gone c now))).write k
      (some ⟨slot₁.resident, rest.map Prod.snd, slot₁.presence⟩)
  have hr₁ : Represents cfg
      { s.dropped ⟨_, hc⟩ ring slab k ((own k).takeWhile fun e => Book.gone c now e.2) with
        keys := s.keys.insert k slot₁ } b₁ (Function.update own k rest) free' := by
    apply (h.setReady hc ring).shorten hheads.slotted _ _ slot₁ rest free'
    · rfl
    · rfl
    · rfl
    · rfl
    · rfl
    · exact howns
    · exact ⟨rfl, rfl, rfl⟩
    · rfl
    · rfl
    · rfl
    · exact hheads.expired h now
    · apply h.inflight
    · rw [hkept] at hlen
      simp only [dropped]
      omega
    · apply h.evicting
  have hready : b.presence k = some (.ready c) := by
    obtain ⟨page', hpage', hpres⟩ := hg.page_of_ready hheads.ready
    rw [Book.presence, hpage', Option.map_some, hpres]
  have hnot : k ∉ b.idle := notMem_idle hg (by rintro ⟨⟩) hready
  have hpage₁ : ∀ j ∈ b₁.idle, (b₁.page j).isSome := by
    intro j hj
    rw [Book.write_page_of_ne]
    · apply hg.page_of_idle j hj
    · rintro rfl
      exact hnot hj
  have hclass : ∀ e ∈ Function.update own k rest k, e.2.classId.toNat < CLASSES := by
    intro e he
    rw [Function.update_self, ← hkept] at he
    apply h.classes_of_own hg e ((List.dropWhile_sublist _).subset he)
  obtain ⟨slot₂, target, s₂, hsettle, htarget, hplace, hr₂⟩ :=
    hr₁.settlePlace slot₁ (AList.lookup_insert _) hpage₁ hnot hclass rfl rfl rfl now
  rw [Function.update_self] at htarget hr₂
  have hbook : b₁.place k ⟨slot₁.resident, rest.map Prod.snd, slot₁.presence⟩ =
      b.passOver c now k page ring := by
    rw [Book.passOver, ← hheads.dropWhile, hkept]
    simp only [slot₁, b₁, hheads.resident, hheads.presence]
    apply Book.write_place
  rw [hbook] at hr₂
  refine ⟨slot₂, target, s₂, hsettle, ?_, ?_, hr₂⟩
  · rw [htarget, bne_iff_ne]
    simpa [List.head?_map] using hne
  · simpa only [AList.insert_insert] using hplace

end Visit

/-- The dispatch loop is the visit of the ring. -/
theorem nextLoop (h : s.Represents cfg b own free) (hg : b.Good CLASSES l) {c : ClassId}
    (hc : c.toNat < CLASSES) (now : Duration) {ring : List K} (hr : b.ready c = ring) (fuel : ℕ)
    (hfuel : ring.length < fuel) :
  ∃ s' own' free', Scheduler.nextLoop c ⟨_, hc⟩ now fuel s =
      .ok (s', (b.visit c now ring).dispatched.map (toDispatch c)) ∧
    s'.Represents cfg (b.visit c now ring).book own' free'
  := by
  induction ring generalizing s b own free fuel with
  | nil =>
    obtain ⟨fuel, rfl⟩ : ∃ n, fuel = n + 1 := ⟨fuel - 1, by simp at hfuel; omega⟩
    refine ⟨s, own, free, ?_, ?_⟩
    · simp [Scheduler.nextLoop, h.ready c hc, hr, Book.visit]
    · simpa [Book.visit] using h
  | cons k ring ih =>
    obtain ⟨fuel, rfl⟩ : ∃ n, fuel = n + 1 := ⟨fuel - 1, by simp at hfuel; omega⟩
    obtain ⟨page, hpage, -⟩ := hg.page_of_ready hr
    obtain ⟨slot, hslot, hres, hq, hsp⟩ := h.lookup hpage
    have hheads : Heads s b own c k ring page slot := ⟨hr, hpage, hslot, hres, hq, hsp⟩
    have hown : (own k).length ≤ s.pending := h.own_le_pending hslot
    have hlen := length_visit (own k) c now
    have hfifo : s.fifo k = slot.queue := fifo_of_lookup hslot
    obtain ⟨slab, queue, free', taken, rest, hdrop, howns, hcase⟩ := dropExpired
      (s := { s with ready := Function.update s.ready ⟨_, hc⟩ ring }) (k := k) h.owns c now
      (slot.queue.len + 1)
      (by
        rw [← hfifo, h.owns.len k]
        omega)
      (by
        change _ ≤ s.pending
        omega)
    rw [hfifo] at hdrop
    rw [Scheduler.nextLoop, h.ready c hc, hr]
    simp only [hslot, expect_some, ok_bind, hdrop]
    rcases hcase with ⟨e, hkept, hec, rfl⟩ | ⟨hkept, hne, rfl⟩
    · simp only [Book.visit, hpage, hheads.candidate_cons hkept hec, Option.map_some]
      rw [toDispatch, ← hres]
      exact ⟨_, _, free', rfl, h.dispatched hheads hc howns hkept⟩
    · have hcand := hheads.candidate_none hkept hne
      obtain ⟨slot₂, target, s₂, hsettle, hassert, hplace, hr₂⟩ :=
        h.skipped hg hheads hc howns hkept hne
      obtain ⟨s', own', free₂, hs', hr'⟩ := ih hr₂ (hg.passOver now hr hpage)
        (Book.Inv.passOver_ready now hcand) fuel (by simpa using hfuel)
      refine ⟨s', own', free₂, ?_, ?_⟩
      · rw [dropped] at hplace
        simp only [hsettle, ok_bind]
        rw [assert_of hassert, ok_bind, hplace, ok_bind, hs']
        simp only [Book.visit, hpage, hcand]
      · simpa only [Book.visit, hpage, hcand] using hr'

/-- What `next` does to the book: nothing when the class is at its budget. -/
theorem next (h : s.Represents cfg b own free) (hg : b.Good CLASSES l) {c : ClassId}
    (hc : c.toNat < CLASSES) (now : Duration) :
  ∃ s' own' free', s.next c now =
      .ok (s', (b.turn cfg c now).dispatched.map (toDispatch c)) ∧
    s'.Represents cfg (b.turn cfg c now).book own' free'
  := by
  rw [Scheduler.next, inBounds_of_lt hc, ok_bind]
  simp only [h.config, h.inflight_class hc, h.ready c hc, Book.turn, hc, dif_pos]
  by_cases hbudget : cfg.maxInflight ⟨_, hc⟩ ≤ b.inflight c
  · simp only [hbudget, if_true]
    exact ⟨s, own, free, rfl, h⟩
  · simp only [hbudget, if_false]
    apply h.nextLoop hg hc now rfl
    omega

/-- Taking a discarded item is taking it from the book. -/
theorem popExpired (h : s.Represents cfg b own free) :
  s.popExpired.1.Represents cfg b.popExpired own free ∧ s.popExpired.2 = b.expired.head?
  := by
  constructor
  · constructor
    · apply h.config
    · apply h.owns
    · apply h.page
    · apply h.idle
    · apply h.ready
    · apply h.readyHigh
    · change s.expired.tail = b.expired.tail
      rw [h.expired]
    · apply h.inflight
    · apply h.pending
    · apply h.evicting
  · rw [Scheduler.popExpired, h.expired]

/-! ### Eviction -/

/-- The head of the idle list is the oldest idle key. -/
theorem idleHead (h : s.Represents cfg b own free) :
  s.idleHead = b.idle.head?
  := h.idle.head

/-- Detaching the oldest idle key takes it from the idle order. -/
theorem idleUnlinkHead (h : s.Represents cfg b own free) {rest : List K}
    (hidle : b.idle = k :: rest) (hpage : ∀ j ∈ b.idle, (b.page j).isSome) :
  ∃ s', s.idleUnlinkHead = .ok s' ∧ s'.Represents cfg { b with idle := rest } own free
  := by
  have hmem : k ∈ b.idle := by simp [hidle]
  have hcore := h.core_of_idle hpage
  obtain ⟨slot, hslot⟩ := core_isSome_iff.mp (hcore k hmem)
  have hprev : slot.idlePrev = none := by
    have hthreads := h.idle.threads
    rw [hidle] at hthreads
    rw [← prevLink_of_lookup hslot]
    simpa using hthreads.prev_eq (a := [])
  obtain ⟨s', hs', hth, hcore', hqueued⟩ := idleUnlink_eq
    { s with keys := s.keys.insert k slot.detach } slot slot h.idle hcore hmem hslot
    rfl rfl rfl rfl rfl rfl
  rw [hidle, List.erase_cons_head] at hth
  have hrest := hth.rest
  have hfifo : slot.queue = s.fifo k := (fifo_of_lookup hslot).symm
  have hsame : s'.core = s.core := by
    rw [hcore', core_insert (s := s) (k := k) rfl, Function.update_eq_self_iff,
      core_of_lookup hslot]
    rfl
  use s'
  constructor
  · have hhead : expect s.idleHead "the caller observed a listed key" = .ok k := by
      rw [h.idleHead, hidle]
      rfl
    rw [Scheduler.idleUnlinkHead, hhead, ok_bind, hslot, expect_some, ok_bind,
      assert_of (by simp [hprev]), ok_bind, hs']
  · constructor
    · rw [hrest]
      apply h.config
    · have hfifos : s'.fifo = s.fifo := by
        funext j
        rw [fifo, hsame, fifo]
      rw [hfifos, hrest]
      apply h.owns
    · rw [hsame]
      apply h.page
    · apply hth.idle
    · rw [hrest]
      apply h.ready
    · rw [hrest]
      apply h.readyHigh
    · rw [hrest]
      apply h.expired
    · rw [hrest]
      apply h.inflight
    · have hq : queued { s with keys := s.keys.insert k slot.detach } = s.queued := by
        apply queued_relink hslot
        · rfl
        · rfl
      rw [hqueued, hq, hrest]
      apply h.pending
    · rw [hrest]
      apply h.evicting

/-- Detaching and releasing the oldest idle key is its release in the book. -/
theorem release (h : s.Represents cfg b own free) (hg : b.Good CLASSES l) {rest : List K}
    (hidle : b.idle = k :: rest) (out : List (K × S)) :
  ∃ s₁ s', s.idleUnlinkHead = .ok s₁ ∧ s₁.release k out = .ok (s', out ++ b.release.2) ∧
    s'.Represents cfg b.release.1 own free
  := by
  obtain ⟨-, hpres⟩ := (hg.mem .idle k).mp (by simp [Book.standing, hidle])
  rw [Book.presence, Option.map_eq_some_iff] at hpres
  obtain ⟨page, hpage, hpres⟩ := hpres
  obtain ⟨s₁, hs₁, hr₁⟩ := h.idleUnlinkHead hidle hg.page_of_idle
  have hpage₁ : Book.page { b with idle := rest } k = some page := hpage
  obtain ⟨slot, hslot, hres, hq, hsp⟩ := hr₁.lookup hpage₁
  have hnot : k ∉ rest := by
    have hnodup := hg.nodup .idle
    simp only [Book.standing, hidle, List.nodup_cons] at hnodup
    apply hnodup.1
  have hassert : (slot.presence == .idle) = true := by
    simp [hsp, hpres]
  cases hstate : page.resident with
  | some state =>
    let slot₂ : Slot K S := { slot with resident := none, presence := .evicting }
    have hw := hr₁.writeSlot slot₂ hslot rfl rfl rfl
    refine ⟨s₁, { s₁ with keys := s₁.keys.insert k slot₂, evicting := s₁.evicting + 1 },
      hs₁, ?_, ?_⟩
    · rw [Scheduler.release, hslot, expect_some, ok_bind, assert_of hassert, ok_bind]
      simp only [hres, hstate, Book.release, hidle, hpage]
      rfl
    · simp only [Book.release, hidle, hpage, hstate]
      rw [hq] at hw
      constructor
      · apply hw.config
      · apply hw.owns
      · apply hw.page
      · apply hw.idle
      · apply hw.ready
      · apply hw.readyHigh
      · apply hw.expired
      · apply hw.inflight
      · apply hw.pending
      · change s₁.evicting + 1 = b.evicting + 1
        rw [hr₁.evicting]
  | none =>
    have hok := hg.page k page id hpage
    simp only [Book.PageOk, hpres] at hok
    have hown : own k = [] := by
      rw [hok, List.map_eq_nil_iff] at hq
      apply hq
    refine ⟨s₁, { s₁ with keys := s₁.keys.erase k }, hs₁, ?_, ?_⟩
    · rw [Scheduler.release, hslot, expect_some, ok_bind, assert_of hassert, ok_bind]
      simp only [hres, hstate, Book.release, hidle, hpage, List.append_nil]
    · simp only [Book.release, hidle, hpage, hstate]
      apply hr₁.erase hnot hown hslot

/-- The keys being flushed are among the keys with slots. -/
theorem evicting_le (h : s.Represents cfg b own free) (hg : b.Good CLASSES l) :
  s.evicting ≤ s.keys.keys.length
  := by
  rw [h.evicting, hg.evicting]
  apply (List.Nodup.subperm (hg.nodup .evicting) _).length_le
  intro k hk
  obtain ⟨-, hpres⟩ := (hg.mem .evicting k).mp hk
  rw [Book.presence, Option.map_eq_some_iff] at hpres
  obtain ⟨page, hpage, -⟩ := hpres
  obtain ⟨slot, hslot, -⟩ := h.lookup hpage
  rw [← AList.mem_keys, ← AList.lookup_isSome, hslot]
  rfl

/-- The sweep releases some number of the oldest idle keys. -/
theorem evictLoop (h : s.Represents cfg b own free) (hg : b.Good CLASSES l) (now : Duration)
    (iters : ℕ) (out : List (K × S)) :
  ∃ m s', Scheduler.evictLoop now iters s out = .ok (s', out ++ (b.evict m).2) ∧
    s'.Represents cfg (b.evict m).1 own free
  := by
  induction iters generalizing s b l out with
  | zero =>
    use 0, s
    simpa [Scheduler.evictLoop, Book.evict] using h
  | succ iters ih =>
    have hhead := h.idleHead
    cases hidle : b.idle with
    | nil =>
      use 0, s
      rw [hidle] at hhead
      simpa [Scheduler.evictLoop, hhead, Book.evict] using h
    | cons k rest =>
      rw [hidle, List.head?_cons] at hhead
      obtain ⟨slot, hslot⟩ := core_isSome_iff.mp
        (h.core_of_idle hg.page_of_idle k (by simp [hidle]))
      rw [Scheduler.evictLoop, hhead]
      simp only [hslot, expect_some, ok_bind]
      rw [sub_of_le (h.evicting_le hg), ok_bind]
      split
      · use 0, s
        simpa [Book.evict] using h
      · obtain ⟨s₁, s₂, hs₁, hs₂, hr₂⟩ := h.release hg hidle out
        obtain ⟨m, s', hs', hr'⟩ := ih hr₂ hg.release (out ++ b.release.2)
        use m + 1, s'
        constructor
        · rw [hs₁, ok_bind, hs₂, ok_bind, hs', List.append_assoc]
          rfl
        · apply hr'

/-- The final sweep releases every idle key. -/
theorem evictAllLoop (h : s.Represents cfg b own free) (hg : b.Good CLASSES l) (fuel : ℕ)
    (hfuel : b.idle.length < fuel) (out : List (K × S)) :
  ∃ s', Scheduler.evictAllLoop fuel s out = .ok (s', out ++ (b.evict b.idle.length).2) ∧
    s'.Represents cfg (b.evict b.idle.length).1 own free
  := by
  induction fuel generalizing s b l out with
  | zero => omega
  | succ fuel ih =>
    have hhead := h.idleHead
    cases hidle : b.idle with
    | nil =>
      use s
      rw [hidle] at hhead
      simpa [Scheduler.evictAllLoop, hhead, Book.evict] using h
    | cons k rest =>
      rw [hidle, List.head?_cons] at hhead
      rw [Scheduler.evictAllLoop, hhead]
      obtain ⟨s₁, s₂, hs₁, hs₂, hr₂⟩ := h.release hg hidle out
      have hrest := hg.release_idle hidle
      rw [hidle, List.length_cons] at hfuel
      obtain ⟨s', hs', hr'⟩ := ih hr₂ hg.release (by rw [hrest]; omega) (out ++ b.release.2)
      rw [hrest] at hs' hr'
      use s'
      constructor
      · simp only
        rw [hs₁, ok_bind, hs₂, ok_bind, hs', List.append_assoc]
        rfl
      · apply hr'

/-- The end of a flush is its end in the book. -/
theorem finishEvict (h : s.Represents cfg b own free) (hg : b.Good CLASSES l)
    (hk : k ∈ l.flushing) (now : Duration) :
  ∃ s', s.finishEvict k now = .ok s' ∧ s'.Represents cfg (b.finishEvict k) own free
  := by
  obtain ⟨-, hpres⟩ := (hg.mem .evicting k).mp hk
  have hnot : k ∉ b.idle := notMem_idle hg (p := .evicting) (by simp) hpres
  rw [Book.presence, Option.map_eq_some_iff] at hpres
  obtain ⟨page, hpage, hpres⟩ := hpres
  obtain ⟨slot, hslot, hres, hq, hsp⟩ := h.lookup hpage
  have hone : 1 ≤ s.evicting := by
    rw [h.evicting, hg.evicting]
    apply List.length_pos_of_mem hk
  have hset : Represents cfg { s with evicting := s.evicting - 1 }
      { b with evicting := b.evicting - 1 } own free := by
    constructor
    · apply h.config
    · apply h.owns
    · apply h.page
    · apply h.idle
    · apply h.ready
    · apply h.readyHigh
    · apply h.expired
    · apply h.inflight
    · apply h.pending
    · simp only
      rw [h.evicting]
  have hempty : slot.queue.isEmpty = true ↔ page.queue = [] := by
    rw [← fifo_of_lookup hslot, h.owns.isEmpty_iff, ← hq, List.map_eq_nil_iff]
  have hassert : (slot.presence == .evicting) = true := by
    simp [hsp, hpres]
  rw [Scheduler.finishEvict, sub_of_le hone, ok_bind]
  simp only [hslot, Book.finishEvict, hpage]
  rw [assert_of hassert, ok_bind]
  by_cases hqueue : page.queue = []
  · rw [if_pos (hempty.mpr hqueue), if_pos hqueue]
    have hown : own k = [] := by
      rw [hqueue, List.map_eq_nil_iff] at hq
      apply hq
    exact ⟨_, rfl, hset.erase hnot hown hslot⟩
  · rw [if_neg (fun he => hqueue (hempty.mp he)), if_neg hqueue]
    obtain ⟨s', hs', hr⟩ := hset.settleAndPlace slot hslot hg.page_of_idle hnot
      (h.classes_of_own hg) rfl rfl rfl now
    rw [hq, hres, hsp] at hr
    exact ⟨s', hs', hr⟩

end Represents

end Grommet.Scheduler
