import Grommet.Core.Queue.Shared
import Grommet.Core.Scheduler.Idling

/-!
# The size of the queue slab

An admission that finds no free node adds one to the slab, and no other call changes how many
there are.  Without a free node every node holds a queued item, so that a scheduler that never
has more than a number of items pending never has more nodes.
-/

open Checked

namespace Grommet

namespace Scheduler

variable {K P S : Type} {CLASSES : ℕ}

/-- The slab with the number of pending items. -/
def stock (s : Scheduler K P S CLASSES) : Queue.Slab (Item P) × ℕ := (s.slab, s.pending)

variable [DecidableEq K] {s s₁ s' : Scheduler K P S CLASSES} {k : K} {slot : Slot K S}
  {now : Duration}

/-! ### Calls that leave the queues alone -/

theorem Links.stock (h : s.Links s') :
  s'.stock = s.stock
  := by
  rw [h.rest]
  rfl

omit [DecidableEq K] in
theorem pushReady_stock {c : ClassId} (h : s.pushReady c k = .ok s') :
  s'.stock = s.stock
  := by
  rw [pushReady, bind_eq_ok] at h
  obtain ⟨_, -, h⟩ := h
  cases h
  rfl

theorem place_stock {target : Option ClassId} (h : s.place k target now = .ok s') :
  s'.stock = s.stock
  := by
  cases target with
  | some c => exact pushReady_stock h
  | none =>
    rw [place, idleLink, bind_eq_ok] at h
    obtain ⟨slot, -, h⟩ := h
    simp only [bind_eq_ok] at h
    obtain ⟨_, -, _, -, s₁, hs₁, h⟩ := h
    cases h
    exact (linkNext_links hs₁).stock

theorem settleAndPlace_stock (h : s.settleAndPlace k slot now = .ok s') :
  s'.stock = s.stock
  := by
  rw [settleAndPlace, bind_eq_ok] at h
  obtain ⟨⟨slot', target⟩, -, h⟩ := h
  have hsame := place_stock h
  exact hsame

theorem release_stock {out out' : List (K × S)} (h : s.release k out = .ok (s', out')) :
  s'.stock = s.stock
  := by
  simp only [release, bind_eq_ok] at h
  obtain ⟨slot, -, _, -, h⟩ := h
  split at h
  · cases h
    rfl
  · cases h
    rfl

theorem evictLoop_stock {iters : ℕ} {out out' : List (K × S)}
    (h : evictLoop now iters s out = .ok (s', out')) :
  s'.stock = s.stock
  := by
  induction iters generalizing s out with
  | zero =>
    cases h
    rfl
  | succ iters ih =>
    rw [evictLoop] at h
    split at h
    · cases h
      rfl
    · simp only [bind_eq_ok] at h
      obtain ⟨slot, -, resident, -, h⟩ := h
      split at h
      · cases h
        rfl
      · simp only [bind_eq_ok] at h
        obtain ⟨s₁, hs₁, ⟨s₂, out₂⟩, hs₂, h⟩ := h
        rw [ih h, release_stock hs₂, (idleUnlinkHead_links hs₁).stock]

theorem evictAllLoop_stock {fuel : ℕ} {out out' : List (K × S)}
    (h : evictAllLoop fuel s out = .ok (s', out')) :
  s'.stock = s.stock
  := by
  induction fuel generalizing s out with
  | zero => cases h
  | succ fuel ih =>
    rw [evictAllLoop] at h
    split at h
    · cases h
      rfl
    · simp only [bind_eq_ok] at h
      obtain ⟨s₁, hs₁, ⟨s₂, out₂⟩, hs₂, h⟩ := h
      rw [ih h, release_stock hs₂, (idleUnlinkHead_links hs₁).stock]

theorem finishEvict_stock (h : s.finishEvict k now = .ok s') :
  s'.stock = s.stock
  := by
  rw [finishEvict, bind_eq_ok] at h
  obtain ⟨evicting, -, h⟩ := h
  simp only at h
  split at h
  · cases h
  · rw [bind_eq_ok] at h
    obtain ⟨_, -, h⟩ := h
    split at h
    · cases h
      rfl
    · have hsame := settleAndPlace_stock h
      exact hsame

/-! ### Calls that take items out -/

/-- The slab has as many nodes as before, and no more items are pending. -/
def Drains (s s' : Scheduler K P S CLASSES) : Prop :=
  s'.slab.capacity = s.slab.capacity ∧ s'.pending ≤ s.pending

omit [DecidableEq K] in
theorem Drains.of_stock (h : s'.stock = s.stock) :
  s.Drains s'
  := by
  rw [stock, stock, Prod.mk.injEq] at h
  rw [Drains, h.1, h.2]
  exact ⟨rfl, le_rfl⟩

omit [DecidableEq K] in
theorem Drains.trans (h₁ : s.Drains s₁) (h₂ : s₁.Drains s') :
  s.Drains s'
  := ⟨h₂.1.trans h₁.1, h₂.2.trans h₁.2⟩

theorem complete_drains {completion : Completion K S} (h : s.complete completion now = .ok s') :
  s.Drains s'
  := by
  simp only [complete, bind_eq_ok, sub_eq_ok] at h
  obtain ⟨_, -, inflight, -, pending, ⟨-, hpending⟩, slot, -, _, -, h⟩ := h
  apply Drains.trans _ (.of_stock (settleAndPlace_stock h))
  refine ⟨rfl, ?_⟩
  simp only
  omega

/-- A completion counts its item out. -/
theorem complete_pending {completion : Completion K S} (h : s.complete completion now = .ok s') :
  s'.pending + 1 = s.pending
  := by
  simp only [complete, bind_eq_ok, sub_eq_ok] at h
  obtain ⟨_, -, inflight, -, pending, ⟨hle, hpending⟩, slot, -, _, -, h⟩ := h
  have hstock := settleAndPlace_stock h
  rw [stock, stock, Prod.mk.injEq] at hstock
  rw [hstock.2]
  simp only
  omega

omit [DecidableEq K] in
theorem dropExpired_drains {c : ClassId} {fuel : ℕ} {queue queue' : Queue.Fifo}
    {item : Option (Item P)} (h : dropExpired c now k fuel s queue = .ok (s', queue', item)) :
  s.Drains s'
  := by
  induction fuel generalizing s queue with
  | zero => cases h
  | succ fuel ih =>
    rw [dropExpired, bind_eq_ok] at h
    obtain ⟨front, -, h⟩ := h
    split at h
    · cases h
      exact .of_stock rfl
    · split at h
      · cases h
        exact .of_stock rfl
      · split at h
        · simp only [bind_eq_ok, sub_eq_ok] at h
          obtain ⟨⟨slab, queue₁, front⟩, hpop, item, -, pending, ⟨-, hpending⟩, h⟩ := h
          apply Drains.trans _ (ih h)
          refine ⟨Queue.Slab.popFront_capacity hpop, ?_⟩
          simp only
          omega
        · rw [bind_eq_ok] at h
          obtain ⟨⟨slab, queue₁, front⟩, hpop, h⟩ := h
          cases h
          exact ⟨Queue.Slab.popFront_capacity hpop, le_rfl⟩

theorem nextLoop_drains {c : ClassId} {i : Fin CLASSES} {fuel : ℕ}
    {dispatch : Option (Dispatch K P S)} (h : nextLoop c i now fuel s = .ok (s', dispatch)) :
  s.Drains s'
  := by
  induction fuel generalizing s with
  | zero => cases h
  | succ fuel ih =>
    rw [nextLoop] at h
    split at h
    · cases h
      exact .of_stock rfl
    · simp only [bind_eq_ok] at h
      obtain ⟨slot, -, ⟨s₁, queue, taken⟩, hdrop, h⟩ := h
      have hdrains := dropExpired_drains hdrop
      split at h
      · cases h
        exact hdrains
      · simp only [bind_eq_ok] at h
        obtain ⟨⟨slot', target⟩, -, _, -, s₂, hplace, h⟩ := h
        have hsame := place_stock hplace
        apply Drains.trans _ (ih h)
        apply hdrains.trans (.of_stock hsame)

theorem next_drains {c : ClassId} {dispatch : Option (Dispatch K P S)}
    (h : s.next c now = .ok (s', dispatch)) :
  s.Drains s'
  := by
  rw [next, bind_eq_ok] at h
  obtain ⟨⟨hc⟩, -, h⟩ := h
  simp only at h
  split at h
  · cases h
    exact .of_stock rfl
  · exact nextLoop_drains h

/-! ### Admission -/

/-- An admission adds an item, and a node when no node is free. -/
theorem admitItem_stock {item : Admit K P} (h : s.admitItem item = .ok s') :
  s'.pending = s.pending + 1 ∧ (s'.slab.capacity = s.slab.capacity ∨
    s.slab.free = Queue.NIL ∧ s'.slab.capacity = s.slab.capacity + 1)
  := by
  rw [admitItem, bind_eq_ok] at h
  obtain ⟨_, -, h⟩ := h
  rw [bind_eq_ok] at h
  obtain ⟨⟨slab, queue⟩, hpush, h⟩ := h
  have hcase := Queue.Slab.pushBack_capacity hpush
  have hstock : s'.stock = (slab, s.pending + 1) := by
    simp only at h
    cases hslot : s.keys.lookup item.key with
    | none =>
      rw [hslot] at h
      simp only [Slot.cold, if_true, Bool.false_eq_true, if_false] at h
      have hsame := pushReady_stock h
      exact hsame
    | some slot =>
      rw [hslot] at h
      simp only [if_true] at h
      split at h
      · rw [bind_eq_ok] at h
        obtain ⟨s₁, hs₁, h⟩ := h
        have hsame := (idleUnlink_links hs₁).stock
        rw [pushReady_stock h]
        exact hsame
      · cases h
        rfl
  rw [stock, Prod.mk.injEq] at hstock
  obtain ⟨rfl, hpending⟩ := hstock
  exact ⟨hpending, hcase⟩

/-- The slots count the items that the slab holds. -/
theorem Represents.queued_eq {cfg : Config CLASSES} {b : Book K P S}
    {own : K → List (ℕ × Item P)} {free : List ℕ} (h : s.Represents cfg b own free) :
  s.queued = (s.keys.keys.flatMap fun k => (own k).map Prod.fst).length
  := by
  rw [List.length_flatMap, queued, AList.total, AList.values, AList.keys, List.keys, List.map_map,
    List.map_map]
  congr 1
  apply List.map_congr_left
  rintro ⟨k, slot⟩ hmem
  have hslot : s.keys.lookup k = some slot := AList.mem_lookup_iff.mpr hmem
  have hlen := h.owns.len k
  rw [fifo_of_lookup hslot] at hlen
  simpa using hlen

/-- A slab without a free node holds an item in every node. -/
theorem Represents.capacity_le {cfg : Config CLASSES} {b : Book K P S}
    {own : K → List (ℕ × Item P)} {free : List ℕ} (h : s.Represents cfg b own free)
    (hfree : s.slab.free = Queue.NIL) :
  s.slab.capacity ≤ s.pending
  := by
  have hnil : free = [] := by
    rw [← List.head?_eq_none_iff, ← h.owns.freeHead, hfree]
    rfl
  have hcovered : List.range s.slab.capacity ⊆
      s.keys.keys.flatMap fun k => (own k).map Prod.fst := by
    intro x hx
    rw [List.mem_range] at hx
    rw [List.mem_flatMap]
    rcases (h.owns.range x).mp hx with hmem | ⟨k, hk⟩
    · rw [hnil] at hmem
      cases hmem
    · refine ⟨k, ?_, hk⟩
      rw [← AList.mem_keys, ← AList.lookup_isSome, Option.isSome_iff_ne_none]
      intro hnone
      have hpage : b.page k = none := by
        rw [h.page, core, hnone]
        rfl
      rw [(h.lookup_none hpage).2] at hk
      cases hk
  have hle := (List.subperm_of_subset List.nodup_range hcovered).length_le
  rw [List.length_range, ← h.queued_eq] at hle
  have hpending := h.pending
  omega

end Scheduler

end Grommet
