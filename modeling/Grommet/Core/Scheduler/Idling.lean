import Grommet.Core.Scheduler.Conserving
import Grommet.Core.Scheduler.Spent

/-!
# Since when keys have been idle

A slot keeps the time at which its key last went idle.  A key goes idle in a call of `next`
that passes over it or in the call that completes it, and that call appends it to the idle
list.  The other calls take keys from the list and put none on it.  So the list is in the order
of the calls, and in the order of the times as far as these do not decrease.

`Watch` is a scheduler with a record of the call that last made each key idle.
-/

open Checked

namespace Grommet

variable {K P S : Type} {CLASSES : ℕ}

/-- Since when the key of a slot has been idle, if it is. -/
def Slot.idling (slot : Slot K S) : Option Duration :=
  if slot.presence = .idle then some slot.idleSince else none

namespace Scheduler

variable [DecidableEq K]

/-- Since when a key has been idle, if it is. -/
def idling (s : Scheduler K P S CLASSES) (k : K) : Option Duration :=
  (s.core k).bind Slot.idling

/-- `s'` differs from `s` only in links, if at all. -/
structure Links (s s' : Scheduler K P S CLASSES) : Prop where
  rest : s' = { s with
    keys := s'.keys, idleHead := s'.idleHead, idleTail := s'.idleTail, idle := s'.idle }
  core : s'.core = s.core

variable {s s₁ s₂ s' : Scheduler K P S CLASSES} {k : K} {slot : Slot K S} {now : Duration}

theorem Links.trans (h₁ : s.Links s₁) (h₂ : s₁.Links s₂) :
  s.Links s₂
  := by
  constructor
  · rw [h₂.rest, h₁.rest]
  · rw [h₂.core, h₁.core]

theorem Links.idling (h : s.Links s') :
  s'.idling = s.idling
  := by
  funext k
  rw [Scheduler.idling, h.core, Scheduler.idling]

/-- A slot is found with its core. -/
theorem idling_of_lookup (h : s.keys.lookup k = some slot) :
  s.idling k = slot.idling
  := by
  rw [idling, core_of_lookup h]
  rfl

theorem idling_insert (h : s'.keys = s.keys.insert k slot) :
  s'.idling = Function.update s.idling k slot.idling
  := by
  funext j
  rw [idling, core_insert h]
  by_cases hj : j = k
  · subst hj
    simp only [Function.update_self, Option.bind_some]
    rfl
  · rw [Function.update_of_ne hj, Function.update_of_ne hj, idling]

/-- A key has been idle since some time exactly when it is idle. -/
theorem idling_isSome_iff :
  (s.idling k).isSome ↔ s.presence k = some .idle
  := by
  rw [idling, core, Scheduler.presence]
  cases s.keys.lookup k with
  | none => simp
  | some slot =>
    by_cases hidle : slot.presence = .idle
    · simp [Slot.idling, Slot.detach, hidle]
    · simp [Slot.idling, Slot.detach, hidle]

/-! ### What the calls do to it -/

theorem modifySlot_links {message : String} {f : Slot K S → Slot K S}
    (hf : ∀ slot, (f slot).detach = slot.detach) (h : s.modifySlot k message f = .ok s') :
  s.Links s'
  := by
  rw [modifySlot, bind_eq_ok] at h
  obtain ⟨slot, hslot, hs'⟩ := h
  rw [expect_eq_ok] at hslot
  cases hs'
  constructor
  · rfl
  · rw [core_insert rfl, hf, Function.update_eq_self_iff, core_of_lookup hslot]

theorem linkNext_links {prev next : Option K} (h : s.linkNext prev next = .ok s') :
  s.Links s'
  := by
  cases prev with
  | none =>
    cases h
    exact ⟨rfl, rfl⟩
  | some key =>
    apply modifySlot_links _ h
    intro slot
    rfl

theorem linkPrev_links {prev next : Option K} (h : s.linkPrev prev next = .ok s') :
  s.Links s'
  := by
  cases next with
  | none =>
    cases h
    exact ⟨rfl, rfl⟩
  | some key =>
    apply modifySlot_links _ h
    intro slot
    rfl

theorem idleUnlink_links (h : s.idleUnlink slot = .ok s') :
  s.Links s'
  := by
  rw [idleUnlink, bind_eq_ok] at h
  obtain ⟨idle, -, hpatch⟩ := h
  rw [idlePatch, bind_eq_ok] at hpatch
  obtain ⟨s₁, hs₁, hs'⟩ := hpatch
  have hcount : s.Links { s with idle := idle } := ⟨rfl, rfl⟩
  apply (hcount.trans (linkNext_links hs₁)).trans (linkPrev_links hs')

/-- Detaching the oldest idle key changes links only. -/
theorem idleUnlinkHead_links (h : s.idleUnlinkHead = .ok s') :
  s.Links s'
  := by
  rw [idleUnlinkHead, bind_eq_ok] at h
  obtain ⟨key, -, h⟩ := h
  rw [bind_eq_ok] at h
  obtain ⟨slot, hslot, h⟩ := h
  rw [expect_eq_ok] at hslot
  rw [bind_eq_ok] at h
  obtain ⟨_, -, h⟩ := h
  apply Links.trans _ (idleUnlink_links h)
  constructor
  · rfl
  · rw [core_insert (s := s) (k := key) rfl, Function.update_eq_self_iff, core_of_lookup hslot]
    rfl

/-- A key that joins the idle list has been idle since then. -/
theorem idleLink_idling (h : s.idleLink k now = .ok s') :
  s'.idling = Function.update s.idling k (some now)
  := by
  rw [idleLink, bind_eq_ok] at h
  obtain ⟨slot, hslot, h⟩ := h
  simp only [bind_eq_ok, assert_eq_ok, beq_iff_eq, exists_and_left] at h
  obtain ⟨hidle, -, -, -, s₁, hs₁, hs'⟩ := h
  cases hs'
  have hlinks := linkNext_links hs₁
  have hsame : idling { s₁ with idleTail := some k, idle := s₁.idle + 1 } = s₁.idling := rfl
  rw [hsame, hlinks.idling, idling_insert (s := s) (k := k) rfl]
  simp [Slot.idling, hidle]

omit [DecidableEq K] in
theorem pushReady_keys {c : ClassId} (h : s.pushReady c k = .ok s') :
  s'.keys = s.keys
  := by
  rw [pushReady, bind_eq_ok] at h
  obtain ⟨_, -, hs'⟩ := h
  cases hs'
  rfl

theorem idling_congr (h : s'.keys = s.keys) :
  s'.idling = s.idling
  := by
  funext k
  rw [idling, core, h, idling, core]

/-- A key that is settled has been idle since then, or is not idle. -/
theorem settleAndPlace_idling (h : s.settleAndPlace k slot now = .ok s') :
  s'.idling = Function.update s.idling k none ∨ s'.idling = Function.update s.idling k (some now)
  := by
  rw [settleAndPlace, bind_eq_ok] at h
  obtain ⟨⟨slot', target⟩, hsettle, hplace⟩ := h
  rw [settle, bind_eq_ok] at hsettle
  obtain ⟨front, -, hsettle⟩ := hsettle
  cases front with
  | some head =>
    cases hsettle
    left
    rw [idling_congr (pushReady_keys hplace), idling_insert (s := s) (k := k) rfl]
    rfl
  | none =>
    cases hsettle
    right
    rw [idleLink_idling hplace, idling_insert (s := s) (k := k) rfl, Function.update_idem]

/-- An admission leaves the key of the item busy, and the others as they were. -/
theorem admitItem_idling {item : Admit K P} (h : s.admitItem item = .ok s') :
  s'.idling = Function.update s.idling item.key none
  := by
  rw [admitItem, bind_eq_ok] at h
  obtain ⟨_, -, h⟩ := h
  rw [bind_eq_ok] at h
  obtain ⟨⟨slab, queue⟩, -, h⟩ := h
  simp only at h
  cases hslot : s.keys.lookup item.key with
  | none =>
    rw [hslot] at h
    simp only [Slot.cold, if_true, Bool.false_eq_true, if_false] at h
    rw [idling_congr (pushReady_keys h), idling_insert (s := s) (k := item.key) rfl]
    rfl
  | some slot =>
    rw [hslot] at h
    simp only [if_true] at h
    split at h
    · rw [bind_eq_ok] at h
      obtain ⟨s₁, hs₁, hs'⟩ := h
      rw [idling_congr (pushReady_keys hs'), (idleUnlink_links hs₁).idling,
        idling_insert (s := s) (k := item.key) rfl]
      rfl
    · rename_i hbusy
      cases h
      rw [idling_insert (s := s) (k := item.key) rfl]
      simp [Slot.idling, hbusy]

/-- A completion finds its key busy. -/
theorem complete_idling {completion : Completion K S} (h : s.complete completion now = .ok s') :
  s.idling completion.key = none ∧
  (s'.idling = s.idling ∨ s'.idling = Function.update s.idling completion.key (some now))
  := by
  simp only [complete, bind_eq_ok, assert_eq_ok, expect_eq_ok] at h
  obtain ⟨_, -, inflight, -, pending, -, slot, hslot, _, hpresence, hplace⟩ := h
  have hbusy : s.idling completion.key = none := by
    rw [idling_of_lookup hslot, Slot.idling, beq_iff_eq.mp hpresence]
    rfl
  refine ⟨hbusy, ?_⟩
  rcases settleAndPlace_idling hplace with hs' | hs'
  · left
    rw [hs', ← hbusy]
    apply Function.update_eq_self
  · right
    rw [hs']
    rfl

omit [DecidableEq K] in
/-- Dropping expired items leaves the slots as they are. -/
theorem dropExpired_frame {c : ClassId} {fuel : ℕ} {queue queue' : Queue.Fifo}
    {item : Option (Item P)} (h : dropExpired c now k fuel s queue = .ok (s', queue', item)) :
  s'.keys = s.keys ∧ s'.ready = s.ready
  := by
  induction fuel generalizing s queue with
  | zero => cases h
  | succ fuel ih =>
    rw [dropExpired, bind_eq_ok] at h
    obtain ⟨front, -, h⟩ := h
    cases front with
    | none =>
      cases h
      exact ⟨rfl, rfl⟩
    | some head =>
      simp only at h
      split at h
      · cases h
        exact ⟨rfl, rfl⟩
      · split at h
        · simp only [bind_eq_ok] at h
          obtain ⟨_, -, _, -, _, -, h⟩ := h
          apply ih h
        · rw [bind_eq_ok] at h
          obtain ⟨_, -, h⟩ := h
          cases h
          exact ⟨rfl, rfl⟩

omit [DecidableEq K] in
theorem pushReady_ready {c c' : ClassId} {i : Fin CLASSES} (h : s.pushReady c' k = .ok s')
    (hc : c' ≠ c) (hi : i.val = c.toNat) :
  s'.ready i = s.ready i
  := by
  rw [pushReady, bind_eq_ok] at h
  obtain ⟨⟨hbound⟩, -, hs'⟩ := h
  cases hs'
  apply Function.update_of_ne
  rintro rfl
  apply hc
  rw [← UInt8.toNat_inj, ← hi]

/-- A key that is placed elsewhere does not join the ring of a class. -/
theorem place_ready {c : ClassId} {i : Fin CLASSES} {target : Option ClassId}
    (h : s.place k target now = .ok s') (htarget : target ≠ some c) (hi : i.val = c.toNat) :
  s'.ready i = s.ready i
  := by
  cases target with
  | some c' =>
    apply pushReady_ready h _ hi
    rintro rfl
    apply htarget rfl
  | none =>
    rw [place, idleLink, bind_eq_ok] at h
    obtain ⟨slot, -, h⟩ := h
    simp only [bind_eq_ok] at h
    obtain ⟨_, -, _, -, s₁, hs₁, hs'⟩ := h
    cases hs'
    rw [(linkNext_links hs₁).rest]

/-- The dispatch loop leaves keys alone that are not in its ring.  The others are busy
afterwards, idle since then, or as they were. -/
theorem nextLoop_idling {c : ClassId} {i : Fin CLASSES} {fuel : ℕ}
    {dispatch : Option (Dispatch K P S)} (h : nextLoop c i now fuel s = .ok (s', dispatch))
    (hi : i.val = c.toNat) (j : K) :
  s'.idling j = s.idling j ∨ j ∈ s.ready i ∧ (s'.idling j = none ∨ s'.idling j = some now)
  := by
  induction fuel generalizing s with
  | zero => cases h
  | succ fuel ih =>
    rw [nextLoop] at h
    cases hring : s.ready i with
    | nil =>
      rw [hring] at h
      cases h
      left
      rfl
    | cons key ring =>
      rw [hring] at h
      simp only [bind_eq_ok] at h
      obtain ⟨slot, -, ⟨s₁, queue, taken⟩, hdrop, h⟩ := h
      obtain ⟨hkeys, hready⟩ := dropExpired_frame hdrop
      have hsame : s₁.idling = s.idling := idling_congr hkeys
      cases taken with
      | some item =>
        cases h
        rw [idling_insert (s := s₁) (k := key) rfl, hsame]
        by_cases hj : j = key
        · subst hj
          right
          simp [Slot.idling]
        · left
          rw [Function.update_of_ne hj]
      | none =>
        simp only [bind_eq_ok, assert_eq_ok] at h
        obtain ⟨⟨slot', target⟩, hsettle, _, htarget, s₂, hplace, h⟩ := h
        simp only at htarget hplace
        have hplaced : s₁.settleAndPlace key { slot with queue := queue } now = .ok s₂ := by
          rw [settleAndPlace, hsettle, ok_bind]
          apply hplace
        have hring₂ : s₂.ready i = ring := by
          rw [place_ready hplace (by simpa using htarget) hi]
          simp [hready]
        have hother : j ≠ key → s₂.idling j = s.idling j := by
          intro hj
          rcases settleAndPlace_idling hplaced with hs₂ | hs₂
          · rw [hs₂, Function.update_of_ne hj, hsame]
          · rw [hs₂, Function.update_of_ne hj, hsame]
        rcases ih h with hj | ⟨hj, hnew⟩
        · by_cases hkey : j = key
          · subst hkey
            right
            refine ⟨by simp, ?_⟩
            rw [hj]
            rcases settleAndPlace_idling hplaced with hs₂ | hs₂
            · left
              rw [hs₂, Function.update_self]
            · right
              rw [hs₂, Function.update_self]
          · left
            rw [hj, hother hkey]
        · right
          rw [hring₂] at hj
          exact ⟨List.mem_cons_of_mem _ hj, hnew⟩

/-- A released key is no longer idle. -/
theorem release_idling {out out' : List (K × S)} (h : s.release k out = .ok (s', out')) :
  s'.idling = Function.update s.idling k none
  := by
  simp only [release, bind_eq_ok, expect_eq_ok] at h
  obtain ⟨slot, -, _, -, h⟩ := h
  cases hresident : slot.resident with
  | some state =>
    rw [hresident] at h
    cases h
    rw [idling_insert (s := s) (k := k) rfl]
    rfl
  | none =>
    rw [hresident] at h
    cases h
    funext j
    rw [idling, core, AList.lookup_erase_eq]
    by_cases hj : j = k
    · subst hj
      simp
    · rw [Function.update_of_ne hj, Function.update_of_ne hj]
      rfl

/-- After a release, other releases follow. -/
theorem idling_of_released {j : K} (h : s₁.idling = Function.update s.idling k none)
    (hrest : s'.idling j = s₁.idling j ∨ s'.idling j = none) :
  s'.idling j = s.idling j ∨ s'.idling j = none
  := by
  rcases hrest with hj | hj
  · rw [hj, h]
    by_cases hk : j = k
    · subst hk
      right
      rw [Function.update_self]
    · left
      rw [Function.update_of_ne hk]
  · right
    apply hj

/-- A sweep releases keys and leaves the others as they were. -/
theorem evictLoop_idling {iters : ℕ} {out out' : List (K × S)}
    (h : evictLoop now iters s out = .ok (s', out')) (j : K) :
  s'.idling j = s.idling j ∨ s'.idling j = none
  := by
  induction iters generalizing s out with
  | zero =>
    cases h
    left
    rfl
  | succ iters ih =>
    rw [evictLoop] at h
    cases hhead : s.idleHead with
    | none =>
      rw [hhead] at h
      cases h
      left
      rfl
    | some key =>
      rw [hhead] at h
      simp only [bind_eq_ok] at h
      obtain ⟨slot, -, resident, -, h⟩ := h
      split at h
      · cases h
        left
        rfl
      · simp only [bind_eq_ok] at h
        obtain ⟨s₁, hs₁, ⟨s₂, out₂⟩, hs₂, h⟩ := h
        have hsame : s₂.idling = Function.update s.idling key none := by
          rw [release_idling hs₂, (idleUnlinkHead_links hs₁).idling]
        apply idling_of_released hsame (ih h)

/-- The final sweep releases keys and leaves the others as they were. -/
theorem evictAllLoop_idling {fuel : ℕ} {out out' : List (K × S)}
    (h : evictAllLoop fuel s out = .ok (s', out')) (j : K) :
  s'.idling j = s.idling j ∨ s'.idling j = none
  := by
  induction fuel generalizing s out with
  | zero => cases h
  | succ fuel ih =>
    rw [evictAllLoop] at h
    cases hhead : s.idleHead with
    | none =>
      rw [hhead] at h
      cases h
      left
      rfl
    | some key =>
      rw [hhead] at h
      simp only [bind_eq_ok] at h
      obtain ⟨s₁, hs₁, ⟨s₂, out₂⟩, hs₂, h⟩ := h
      have hsame : s₂.idling = Function.update s.idling key none := by
        rw [release_idling hs₂, (idleUnlinkHead_links hs₁).idling]
      apply idling_of_released hsame (ih h)

/-- The end of a flush finds its key busy. -/
theorem finishEvict_idling (h : s.finishEvict k now = .ok s') :
  s.idling k = none ∧
  (s'.idling = s.idling ∨ s'.idling = Function.update s.idling k (some now))
  := by
  rw [finishEvict, bind_eq_ok] at h
  obtain ⟨evicting, -, h⟩ := h
  simp only at h
  cases hslot : s.keys.lookup k with
  | none =>
    rw [hslot] at h
    cases h
  | some slot =>
    rw [hslot] at h
    simp only [bind_eq_ok, assert_eq_ok] at h
    obtain ⟨_, hpresence, h⟩ := h
    have hbusy : s.idling k = none := by
      rw [idling_of_lookup hslot, Slot.idling, beq_iff_eq.mp hpresence]
      rfl
    refine ⟨hbusy, ?_⟩
    split at h
    · cases h
      left
      funext j
      rw [idling, core, AList.lookup_erase_eq]
      by_cases hj : j = k
      · subst hj
        simp [hbusy]
      · rw [Function.update_of_ne hj]
        rfl
    · rcases settleAndPlace_idling h with hs' | hs'
      · left
        rw [hs', ← hbusy]
        apply Function.update_eq_self
      · right
        rw [hs']
        rfl

end Scheduler

/-- The time that a call was made at. -/
def Event.time : Event K P S → Option Duration
  | .next _ now _ _ => some now
  | .complete _ now => some now
  | .evict now _ => some now
  | .finishEvict _ now => some now
  | _ => none

namespace Scheduler

variable [DecidableEq K] {cfg : Config CLASSES} {s s' : Scheduler K P S CLASSES} {k : K}

/-- After an update at one key, which was busy. -/
theorem idling_of_update {now : Duration} (hbusy : s.idling k = none)
    (h : s'.idling = s.idling ∨ s'.idling = Function.update s.idling k (some now)) (j : K) :
  s'.idling j = s.idling j ∨ s.idling j = none ∧ s'.idling j = some now
  := by
  rcases h with h | h
  · left
    rw [h]
  · by_cases hj : j = k
    · subst hj
      right
      rw [h, Function.update_self]
      exact ⟨hbusy, rfl⟩
    · left
      rw [h, Function.update_of_ne hj]

/-- A call leaves a key as it was, or busy, or lets a busy key go idle. -/
theorem perform_idling {call : Call K P S} {e : Event K P S} (h : s.perform call = .ok (s', e))
    (hready : ∀ i, ∀ k ∈ s.ready i, s.idling k = none) (j : K) :
  s'.idling j = s.idling j ∨ s'.idling j = none ∨
    s.idling j = none ∧ ∃ now ∈ e.time, s'.idling j = some now
  := by
  cases call with
  | admitItem item =>
    simp only [perform, bind_eq_ok] at h
    obtain ⟨s₁, hs₁, h⟩ := h
    cases h
    rw [admitItem_idling hs₁]
    by_cases hj : j = item.key
    · subst hj
      right
      left
      rw [Function.update_self]
    · left
      rw [Function.update_of_ne hj]
  | next c now =>
    simp only [perform, bind_eq_ok] at h
    obtain ⟨⟨s₁, dispatch⟩, hs₁, h⟩ := h
    cases h
    rw [Scheduler.next, bind_eq_ok] at hs₁
    obtain ⟨⟨hc⟩, -, hs₁⟩ := hs₁
    simp only at hs₁
    split at hs₁
    · cases hs₁
      left
      rfl
    · rcases nextLoop_idling hs₁ rfl j with hj | ⟨hj, hbusy | hnew⟩
      · left
        apply hj
      · right
        left
        apply hbusy
      · right
        right
        exact ⟨hready _ j hj, now, rfl, hnew⟩
  | popExpired =>
    cases h
    left
    rfl
  | complete completion now =>
    simp only [perform, bind_eq_ok] at h
    obtain ⟨s₁, hs₁, h⟩ := h
    cases h
    obtain ⟨hbusy, hnew⟩ := complete_idling hs₁
    rcases idling_of_update hbusy hnew j with hj | ⟨hj, hnew⟩
    · left
      apply hj
    · right
      right
      exact ⟨hj, now, rfl, hnew⟩
  | evict now out =>
    simp only [perform, Scheduler.evict, bind_eq_ok] at h
    obtain ⟨⟨s₁, out'⟩, hs₁, h⟩ := h
    cases h
    rcases evictLoop_idling hs₁ j with hj | hj
    · left
      apply hj
    · right
      left
      apply hj
  | evictAll out =>
    simp only [perform, Scheduler.evictAll, bind_eq_ok] at h
    obtain ⟨⟨s₁, out'⟩, hs₁, h⟩ := h
    cases h
    rcases evictAllLoop_idling hs₁ j with hj | hj
    · left
      apply hj
    · right
      left
      apply hj
  | finishEvict key now =>
    simp only [perform, bind_eq_ok] at h
    obtain ⟨s₁, hs₁, h⟩ := h
    cases h
    obtain ⟨hbusy, hnew⟩ := finishEvict_idling hs₁
    rcases idling_of_update hbusy hnew j with hj | ⟨hj, hnew⟩
    · left
      apply hj
    · right
      right
      exact ⟨hj, now, rfl, hnew⟩

end Scheduler

/-! ### The order of the idle list -/

namespace Book

variable [DecidableEq K] {b : Book K P S} {l : Ledger K} {c : ClassId} {k : K} {now : Duration}

/-- Placing a key appends it to the idle order, if it does anything to it. -/
theorem place_idle (b : Book K P S) (k : K) (page : Page P S) :
  (b.place k page).idle = b.idle ∨ (b.place k page).idle = b.idle ++ [k]
  := by
  rw [place]
  cases page.queue.head? with
  | some head =>
    left
    rfl
  | none =>
    right
    rfl

/-- What an operation does to the idle order: it takes keys out and appends keys that were not
idle. -/
def Requeues (b b' : Book K P S) : Prop :=
  ∃ kept fresh, b'.idle = kept ++ fresh ∧ kept.Sublist b.idle ∧ ∀ k ∈ fresh, k ∉ b.idle

omit [DecidableEq K] in
theorem Requeues.of_eq {b' : Book K P S} (h : b'.idle = b.idle) :
  b.Requeues b'
  := ⟨b.idle, [], by simp [h], List.Sublist.refl _, by simp⟩

omit [DecidableEq K] in
theorem Requeues.of_sublist {b' : Book K P S} (h : b'.idle.Sublist b.idle) :
  b.Requeues b'
  := ⟨b'.idle, [], by simp, h, by simp⟩

omit [DecidableEq K] in
/-- A key that stands elsewhere is not in the idle order. -/
theorem Inv.notMem_idle (hg : b.Good CLASSES l) {p : Presence} (hp : p ≠ .idle)
    (hk : k ∈ b.standing l p) :
  k ∉ b.idle
  := by
  intro hidle
  have hpresence := ((hg.mem p k).mp hk).2
  rw [((hg.mem .idle k).mp hidle).2, Option.some.injEq] at hpresence
  apply hp hpresence.symm

end Book

/-- Every event takes keys out of the idle order and appends keys that were not idle. -/
theorem Account.Step.requeues [DecidableEq K] {cfg : Config CLASSES} {x y : Account K P S CLASSES}
    {e : Event K P S} (hstep : x.Step cfg e y) :
  x.book.Requeues y.book
  := by
  obtain ⟨hmoves, -⟩ := hstep
  have hg := x.good
  cases e with
  | admitItem item =>
    rw [hmoves.2]
    apply Book.Requeues.of_sublist
    rw [Book.admitItem]
    cases x.book.page item.key with
    | none => apply List.Sublist.refl
    | some page =>
      simp only
      split
      · apply List.erase_sublist
      · apply List.Sublist.refl
  | next c now discarded dispatch =>
    obtain ⟨hc, hbook, -, -⟩ := hmoves
    rw [hbook, Book.turn, dif_pos hc]
    split
    · apply Book.Requeues.of_eq rfl
    · obtain ⟨skipped, rest, hring, hvisit⟩ :
          ∃ skipped rest, x.book.ready c = skipped ++ rest ∧
            Book.Visit c now x.book (x.book.visit c now (x.book.ready c)) skipped rest :=
        Book.visit_spec hg rfl
      refine ⟨_, _, hvisit.idle, List.Sublist.refl _, ?_⟩
      intro k hk
      apply hg.notMem_idle (by simp : Presence.ready c ≠ .idle)
      rw [Book.standing, hring]
      apply List.mem_append_left _ (List.mem_of_mem_filter hk)
  | popExpired item =>
    rw [hmoves.1]
    apply Book.Requeues.of_eq rfl
  | complete completion now =>
    obtain ⟨hrunning, hbook⟩ := hmoves
    have hbusy : completion.key ∉ x.book.idle := by
      apply hg.notMem_idle (by simp : Presence.inFlight ≠ .idle)
      apply List.mem_map.mpr ⟨_, hrunning, rfl⟩
    rw [hbook, Book.complete]
    cases x.book.page completion.key with
    | none => apply Book.Requeues.of_eq rfl
    | some page =>
      simp only
      rcases Book.place_idle { x.book with inflight := _ } completion.key
        { page with resident := completion.state.intoOption } with h | h
      · apply Book.Requeues.of_eq h
      · refine ⟨_, _, h, List.Sublist.refl _, ?_⟩
        intro k hk
        rw [List.mem_singleton.mp hk]
        apply hbusy
  | evict now pushed =>
    obtain ⟨m, hbook, -⟩ := hmoves
    rw [hbook]
    apply Book.Requeues.of_sublist
    rw [Book.evict_idle hg]
    apply List.drop_sublist
  | evictAll pushed =>
    rw [hmoves.1]
    apply Book.Requeues.of_sublist
    rw [Book.evict_idle hg]
    apply List.drop_sublist
  | finishEvict key now =>
    obtain ⟨hflushing, hbook⟩ := hmoves
    have hbusy : key ∉ x.book.idle := hg.notMem_idle (by simp : Presence.evicting ≠ .idle) hflushing
    rw [hbook, Book.finishEvict]
    cases x.book.page key with
    | none => apply Book.Requeues.of_eq rfl
    | some page =>
      simp only
      split
      · apply Book.Requeues.of_eq rfl
      · rcases Book.place_idle { x.book with evicting := _ } key page with h | h
        · apply Book.Requeues.of_eq h
        · refine ⟨_, _, h, List.Sublist.refl _, ?_⟩
          intro k hk
          rw [List.mem_singleton.mp hk]
          apply hbusy

/-! ### Watching a scheduler -/

/-- A scheduler and its caller, with the number of the calls so far and the time of the last
one that was made at a time, and for each key the number and the time of the call that last
made it idle. -/
structure Watch (K P S : Type) (CLASSES : ℕ) where
  scheduler : Scheduler K P S CLASSES
  ledger : Ledger K
  calls : ℕ
  clock : Duration
  idled : K → ℕ × Duration

namespace Watch

variable [DecidableEq K] {cfg : Config CLASSES} {w w' : Watch K P S CLASSES} {e : Event K P S}
  {t : List (Event K P S)} {k : K}

/-- A watch of a fresh scheduler. -/
def start (cfg : Config CLASSES) : Watch K P S CLASSES where
  scheduler := .new cfg
  ledger := ⟨[], []⟩
  calls := 0
  clock := 0
  idled := fun _ => (0, 0)

/-- A call of a well-formed caller whose clock does not go back. -/
def Step (w : Watch K P S CLASSES) (e : Event K P S) (w' : Watch K P S CLASSES) : Prop :=
  Scheduler.Step (w.scheduler, w.ledger) e (w'.scheduler, w'.ledger) ∧
  (∀ now ∈ e.time, w.clock ≤ now) ∧
  w'.calls = w.calls + 1 ∧ w'.clock = e.time.getD w.clock ∧
  ∀ k, w'.idled k =
    if w'.scheduler.presence k = some .idle ∧ w.scheduler.presence k ≠ some .idle then
      (w'.calls, w'.clock)
    else
      w.idled k

/-- The idle list is in the order of the calls that made the keys idle, and the slots hold the
times of these calls. -/
structure Inv (w : Watch K P S CLASSES) : Prop where
  since : ∀ k, w.scheduler.presence k = some .idle → w.scheduler.idling k = some (w.idled k).2
  past : ∀ k, w.scheduler.presence k = some .idle →
    (w.idled k).1 ≤ w.calls ∧ (w.idled k).2 ≤ w.clock
  order : w.scheduler.idleList.Pairwise fun j k =>
    (w.idled j).1 ≤ (w.idled k).1 ∧ (w.idled j).2 ≤ (w.idled k).2

/-- Watching does not interfere. -/
theorem run_of_trail (h : Trail Step (start cfg) t w) :
  Scheduler.Run cfg t w.scheduler w.ledger
  := by
  induction h with
  | nil => apply Trail.nil
  | snoc _ hstep ih => apply ih.snoc hstep.1

/-- A run whose clock does not go back can be watched. -/
theorem trail_of_run {s : Scheduler K P S CLASSES} {l : Ledger K} (h : Scheduler.Run cfg t s l)
    (htimes : (t.filterMap Event.time).Pairwise (· ≤ ·)) :
  ∃ w : Watch K P S CLASSES, Trail Step (start cfg) t w ∧ w.scheduler = s ∧ w.ledger = l ∧
    (w.clock = 0 ∨ w.clock ∈ t.filterMap Event.time)
  := by
  unfold Scheduler.Run at h
  generalize hx : (s, l) = x at h
  induction h generalizing s l with
  | nil =>
    cases hx
    refine ⟨start cfg, .nil, rfl, rfl, ?_⟩
    left
    rfl
  | @snoc t x₁ x₂ e _ hstep ih =>
    subst hx
    rw [List.filterMap_append, List.pairwise_append] at htimes
    obtain ⟨hbefore, -, hlast⟩ := htimes
    obtain ⟨w, htrail, hscheduler, hledger, hclock⟩ := ih (s := x₁.1) (l := x₁.2) hbefore rfl
    let idled := fun k =>
      if s.presence k = some .idle ∧ w.scheduler.presence k ≠ some .idle then
        (w.calls + 1, e.time.getD w.clock)
      else
        w.idled k
    refine ⟨⟨s, l, w.calls + 1, e.time.getD w.clock, idled⟩, htrail.snoc ⟨?_, ?_, rfl, rfl, ?_⟩,
      rfl, rfl, ?_⟩
    · rw [hscheduler, hledger]
      apply hstep
    · intro now hnow
      rcases hclock with hclock | hclock
      · rw [hclock]
        apply Nat.zero_le
      · apply hlast _ hclock
        rw [Option.mem_def] at hnow
        simp [hnow]
    · intro k
      rfl
    · cases htime : e.time with
      | none =>
        rw [List.filterMap_append]
        rcases hclock with hclock | hclock
        · left
          apply hclock
        · right
          apply List.mem_append_left _ hclock
      | some now =>
        right
        simp [htime]

/-- A call lets the keys that it makes idle be idle since its time, and leaves the idle ones. -/
theorem Step.since (hstep : w.Step e w') (h : w.Inv) {a : Account K P S CLASSES}
    (ha : Scheduler.Holds cfg (w.scheduler, w.ledger) a)
    (hk : w'.scheduler.presence k = some .idle) :
  w'.scheduler.idling k = some (w'.idled k).2
  := by
  obtain ⟨⟨call, hallow, hperform, -⟩, -, -, hclock, hidled⟩ := hstep
  obtain ⟨⟨own, free, hr⟩, -⟩ := ha
  have hready : ∀ i, ∀ k ∈ w.scheduler.ready i, w.scheduler.idling k = none := by
    intro i k hk
    rw [← Option.not_isSome_iff_eq_none, Scheduler.idling_isSome_iff]
    rw [((hr.mem_ready a.good i).mp hk).2]
    simp
  have hidle := Scheduler.idling_isSome_iff.mpr hk
  rw [hidled]
  by_cases hbefore : w.scheduler.presence k = some .idle
  · rw [if_neg (by simp [hbefore]), ← h.since k hbefore]
    rcases Scheduler.perform_idling hperform hready k with hsame | hbusy | ⟨hbusy, -⟩
    · apply hsame
    · rw [hbusy] at hidle
      cases hidle
    · rw [h.since k hbefore] at hbusy
      cases hbusy
  · rw [if_pos ⟨hk, hbefore⟩]
    rw [← Scheduler.idling_isSome_iff, Option.not_isSome_iff_eq_none] at hbefore
    rcases Scheduler.perform_idling hperform hready k with hsame | hbusy | ⟨-, now, hnow, hsince⟩
    · rw [hsame, hbefore] at hidle
      cases hidle
    · rw [hbusy] at hidle
      cases hidle
    · rw [Option.mem_def] at hnow
      rw [hsince, hclock, hnow, Option.getD_some]

/-- Every call keeps the order of the idle list. -/
theorem Inv.step (h : w.Inv) {a : Account K P S CLASSES}
    (ha : Scheduler.Holds cfg (w.scheduler, w.ledger) a) (hstep : w.Step e w') :
  w'.Inv
  := by
  have hsince : ∀ k, w'.scheduler.presence k = some .idle →
      w'.scheduler.idling k = some (w'.idled k).2 := fun k hk => hstep.since h ha hk
  obtain ⟨a', hsteps, ⟨own', free', hr'⟩, -⟩ := ha.step hstep.1
  obtain ⟨-, htime, hcalls, hclock, hidled⟩ := hstep
  obtain ⟨⟨own, free, hr⟩, -⟩ := ha
  have hlater : w.clock ≤ w'.clock := by
    rw [hclock]
    cases hnow : e.time with
    | none => apply le_refl
    | some now => apply htime now hnow
  have hpast : ∀ k, w'.scheduler.presence k = some .idle →
      (w'.idled k).1 ≤ w'.calls ∧ (w'.idled k).2 ≤ w'.clock := by
    intro k hk
    rw [hidled]
    split
    · exact ⟨le_refl _, le_refl _⟩
    · rename_i hbefore
      obtain ⟨hc, ht⟩ := h.past k (by simpa [hk] using hbefore)
      exact ⟨by omega, ht.trans hlater⟩
  refine ⟨hsince, hpast, ?_⟩
  have hmem : ∀ k, k ∈ a'.book.idle → w'.scheduler.presence k = some .idle := by
    intro k hk
    rw [hr'.presence]
    apply ((a'.good.mem .idle k).mp hk).2
  have hmem₀ : ∀ k, k ∈ a.book.idle ↔ w.scheduler.presence k = some .idle := by
    intro k
    rw [hr.presence]
    have hiff := a.good.mem .idle k
    rw [not_false_eq_true, true_and] at hiff
    apply hiff
  obtain ⟨kept, fresh, hidle, hkept, hfresh⟩ := hsteps.requeues
  have hold : ∀ k ∈ kept, w'.idled k = w.idled k := by
    intro k hk
    rw [hidled, if_neg]
    simp [(hmem₀ k).mp (hkept.subset hk)]
  have hnew : ∀ k ∈ fresh, w'.idled k = (w'.calls, w'.clock) := by
    intro k hk
    rw [hidled, if_pos]
    refine ⟨hmem k (by simp [hidle, hk]), ?_⟩
    intro hbefore
    apply hfresh k hk ((hmem₀ k).mpr hbefore)
  have horder := h.order
  rw [hr.idleList] at horder
  rw [hr'.idleList, hidle, List.pairwise_append]
  refine ⟨?_, ?_, ?_⟩
  · apply (horder.sublist hkept).imp_of_mem
    intro j k hj hk hjk
    rw [hold j hj, hold k hk]
    apply hjk
  · apply List.pairwise_of_forall_mem_list
    intro j hj k hk
    rw [hnew j hj, hnew k hk]
    exact ⟨le_refl _, le_refl _⟩
  · intro j hj k hk
    rw [hnew k hk]
    apply hpast j (hmem j (by simp [hidle, hj]))

theorem inv_of_trail (h : Trail Step (start cfg) t w) :
  w.Inv
  := by
  apply h.invariant (fun _ w => w.Inv)
  · constructor
    · simp [start, Scheduler.presence, Scheduler.new]
    · simp [start, Scheduler.presence, Scheduler.new]
    · have hnil : (start cfg : Watch K P S CLASSES).scheduler.idleList = [] :=
        (Scheduler.Represents.new cfg).idleList
      rw [hnil]
      apply List.Pairwise.nil
  · intro t w e w' htrail hw hstep
    obtain ⟨a, -, ha⟩ := (run_of_trail htrail).account
    apply hw.step ha hstep

end Watch

end Grommet
