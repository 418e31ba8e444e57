import Grommet.Core.Scheduler.Operations

/-!
# The scheduler keeps the book

`Represents cfg s b own free` says that the scheduler `s` holds the book `b`: its arena
threads the queues, its slots hold the pages, and its links thread the idle order.  Every
operation of the scheduler is the operation of the book, so none of its checks can fail,
but for the arena running out of nodes.
-/

open Checked

namespace Grommet

open Queue

namespace Scheduler

variable {K P S : Type} {CLASSES : ℕ} [DecidableEq K]

/-- What a slot holds beside its links. -/
def core (s : Scheduler K P S CLASSES) (k : K) : Option (Slot K S) :=
  (s.keys.lookup k).map Slot.detach

/-- The queue of a key, which is empty when the key has no slot. -/
def fifo (s : Scheduler K P S CLASSES) (k : K) : Fifo :=
  ((s.core k).map Slot.queue).getD {}

/-- The newer neighbour of a key on the idle list. -/
def nextLink (s : Scheduler K P S CLASSES) (k : K) : Option K :=
  (s.keys.lookup k).bind Slot.idleNext

/-- The older neighbour of a key on the idle list. -/
def prevLink (s : Scheduler K P S CLASSES) (k : K) : Option K :=
  (s.keys.lookup k).bind Slot.idlePrev

/-- The number of queued items the slots account for. -/
def queued (s : Scheduler K P S CLASSES) : ℕ :=
  s.keys.total fun slot => slot.queue.len

/-- The items queued behind a key, first to last. -/
def contents (s : Scheduler K P S CLASSES) (k : K) : List (Item P) :=
  s.slab.contents (s.fifo k)

/-- The presence of a key. -/
def presence (s : Scheduler K P S CLASSES) (k : K) : Option Presence :=
  (s.keys.lookup k).map Slot.presence

/-- The state a key holds. -/
def resident (s : Scheduler K P S CLASSES) (k : K) : Option S :=
  (s.keys.lookup k).bind Slot.resident

/-- The keys on the idle list, oldest first. -/
def idleList (s : Scheduler K P S CLASSES) : List K :=
  walk s.nextLink s.idle s.idleHead

/-- The scheduler `s` with limits `cfg` holds the book `b`, with the nodes of its arena
owned as in `own` and `free`. -/
structure Represents (cfg : Config CLASSES) (s : Scheduler K P S CLASSES) (b : Book K P S)
    (own : K → List (ℕ × Item P)) (free : List ℕ) : Prop where
  config : s.cfg = cfg
  owns : s.slab.Owns s.fifo own free
  page : ∀ k, b.page k =
    (s.core k).map fun slot => ⟨slot.resident, (own k).map Prod.snd, slot.presence⟩
  idle : Threaded s.nextLink s.prevLink s.idleHead s.idleTail s.idle b.idle
  ready : ∀ c : ClassId, ∀ h : c.toNat < CLASSES, s.ready ⟨c.toNat, h⟩ = b.ready c
  readyHigh : ∀ i : Fin CLASSES, 256 ≤ i.val → s.ready i = []
  expired : s.expired = b.expired
  inflight : ∀ i : Fin CLASSES, s.inflight i = b.inflightAt i.val
  pending : s.pending = s.queued + ∑ i, s.inflight i
  evicting : s.evicting = b.evicting

/-- A fresh scheduler holds the empty book. -/
theorem Represents.new (cfg : Config CLASSES) :
  Represents cfg (Scheduler.new cfg : Scheduler K P S CLASSES) .empty (fun _ => []) []
  := by
  constructor
  · rfl
  · apply Slab.Owns.empty cfg.queueReserve
  · intro k
    rfl
  · constructor
    · apply Threads.nil
    · simp [Book.empty]
    · rfl
    · rfl
    · rfl
    · intro k _
      exact ⟨rfl, rfl⟩
  · intro c h
    rfl
  · intro i _
    rfl
  · rfl
  · intro i
    simp [Scheduler.new, Book.inflightAt, Book.empty]
  · have hqueued : (Scheduler.new cfg : Scheduler K P S CLASSES).queued = 0 := rfl
    rw [hqueued]
    simp [Scheduler.new]
  · rfl

/-! ### Writing slots -/

section Write

variable {s s' : Scheduler K P S CLASSES} {k : K} {slot slot' : Slot K S}

theorem core_insert (h : s'.keys = s.keys.insert k slot') :
  s'.core = Function.update s.core k (some slot'.detach)
  := by
  funext j
  rw [core, h, AList.lookup_insert_eq]
  by_cases hj : j = k
  · subst hj
    simp
  · simp [Function.update_of_ne hj, core]

theorem fifo_insert (h : s'.keys = s.keys.insert k slot') :
  s'.fifo = Function.update s.fifo k slot'.queue
  := by
  funext j
  rw [fifo, core_insert h]
  by_cases hj : j = k
  · subst hj
    simp [Slot.detach]
  · simp [Function.update_of_ne hj, fifo]

theorem nextLink_insert (h : s'.keys = s.keys.insert k slot') :
  s'.nextLink = Function.update s.nextLink k slot'.idleNext
  := by
  funext j
  rw [nextLink, h, AList.lookup_insert_eq]
  by_cases hj : j = k
  · subst hj
    simp
  · simp [Function.update_of_ne hj, nextLink]

theorem prevLink_insert (h : s'.keys = s.keys.insert k slot') :
  s'.prevLink = Function.update s.prevLink k slot'.idlePrev
  := by
  funext j
  rw [prevLink, h, AList.lookup_insert_eq]
  by_cases hj : j = k
  · subst hj
    simp
  · simp [Function.update_of_ne hj, prevLink]

theorem queued_insert (hk : s.keys.lookup k = some slot)
    (h : s'.keys = s.keys.insert k slot') :
  s'.queued + slot.queue.len = s.queued + slot'.queue.len
  := by
  rw [queued, h]
  apply AList.total_insert hk

/-- Writing a slot with the same queue keeps the number of queued items. -/
theorem queued_relink (hk : s.keys.lookup k = some slot)
    (h : s'.keys = s.keys.insert k slot') (hq : slot'.queue = slot.queue) :
  s'.queued = s.queued
  := by
  have hins := queued_insert hk h
  rw [hq] at hins
  omega

theorem core_of_lookup (hk : s.keys.lookup k = some slot) :
  s.core k = some slot.detach
  := by
  rw [core, hk]
  rfl

theorem fifo_of_lookup (hk : s.keys.lookup k = some slot) :
  s.fifo k = slot.queue
  := by
  rw [fifo, core_of_lookup hk]
  rfl

theorem nextLink_of_lookup (hk : s.keys.lookup k = some slot) :
  s.nextLink k = slot.idleNext
  := by
  rw [nextLink, hk]
  rfl

theorem prevLink_of_lookup (hk : s.keys.lookup k = some slot) :
  s.prevLink k = slot.idlePrev
  := by
  rw [prevLink, hk]
  rfl

/-- `s'` is `s` with other links and other ends of the idle list. -/
structure Relinked (s s' : Scheduler K P S CLASSES) (head tail : Option K)
    (next prev : K → Option K) : Prop where
  rest : s' = { s with keys := s'.keys, idleHead := head, idleTail := tail }
  core : s'.core = s.core
  nextLink : s'.nextLink = next
  prevLink : s'.prevLink = prev
  queued : s'.queued = s.queued

/-- Writing a listed key's newer neighbour changes that link only. -/
theorem modifySlot_next (hk : s.keys.lookup k = some slot) (message : String) (next : Option K) :
  ∃ s', s.modifySlot k message ({ · with idleNext := next }) = .ok s' ∧
    s.Relinked s' s.idleHead s.idleTail (Function.update s.nextLink k next) s.prevLink
  := by
  use { s with keys := s.keys.insert k { slot with idleNext := next } }
  constructor
  · rw [modifySlot, hk]
    rfl
  · constructor
    · rfl
    · rw [core_insert rfl, Function.update_eq_self_iff, core_of_lookup hk]
      rfl
    · rw [nextLink_insert rfl]
    · rw [prevLink_insert rfl, Function.update_eq_self_iff, prevLink_of_lookup hk]
    · apply queued_relink hk
      · rfl
      · rfl

/-- Writing a listed key's older neighbour changes that link only. -/
theorem modifySlot_prev (hk : s.keys.lookup k = some slot) (message : String) (prev : Option K) :
  ∃ s', s.modifySlot k message ({ · with idlePrev := prev }) = .ok s' ∧
    s.Relinked s' s.idleHead s.idleTail s.nextLink (Function.update s.prevLink k prev)
  := by
  use { s with keys := s.keys.insert k { slot with idlePrev := prev } }
  constructor
  · rw [modifySlot, hk]
    rfl
  · constructor
    · rfl
    · rw [core_insert rfl, Function.update_eq_self_iff, core_of_lookup hk]
      rfl
    · rw [nextLink_insert rfl, Function.update_eq_self_iff, nextLink_of_lookup hk]
    · rw [prevLink_insert rfl]
    · apply queued_relink hk
      · rfl
      · rfl

/-- A key has a slot exactly when it has a core. -/
theorem core_isSome_iff :
  (s.core k).isSome ↔ ∃ slot, s.keys.lookup k = some slot
  := by
  rw [core, Option.isSome_map, Option.isSome_iff_exists]

/-- Naming a neighbour changes one link, or the head. -/
theorem linkNext_eq (prev next : Option K) (hprev : ∀ j ∈ prev, (s.core j).isSome) :
  ∃ s', s.linkNext prev next = .ok s' ∧
    s.Relinked s' (if prev.isNone then next else s.idleHead) s.idleTail
      (fun j => if prev = some j then next else s.nextLink j) s.prevLink
  := by
  cases prev with
  | none =>
    use { s with idleHead := next }
    constructor
    · rfl
    · constructor
      · rfl
      · rfl
      · simp only [reduceCtorEq, if_false]
        rfl
      · rfl
      · rfl
  | some p =>
    obtain ⟨slot, hslot⟩ := core_isSome_iff.mp (hprev p rfl)
    obtain ⟨s', hs', hr⟩ := modifySlot_next hslot "a listed key has a slot" next
    use s', hs'
    constructor
    · apply hr.rest
    · apply hr.core
    · rw [hr.nextLink]
      funext j
      simp [Function.update_apply, eq_comm]
    · apply hr.prevLink
    · apply hr.queued

/-- Naming a neighbour changes one link, or the tail. -/
theorem linkPrev_eq (prev next : Option K) (hnext : ∀ j ∈ next, (s.core j).isSome) :
  ∃ s', s.linkPrev prev next = .ok s' ∧
    s.Relinked s' s.idleHead (if next.isNone then prev else s.idleTail)
      s.nextLink (fun j => if next = some j then prev else s.prevLink j)
  := by
  cases next with
  | none =>
    use { s with idleTail := prev }
    constructor
    · rfl
    · constructor
      · rfl
      · rfl
      · rfl
      · simp only [reduceCtorEq, if_false]
        rfl
      · rfl
  | some n =>
    obtain ⟨slot, hslot⟩ := core_isSome_iff.mp (hnext n rfl)
    obtain ⟨s', hs', hr⟩ := modifySlot_prev hslot "a listed key has a slot" prev
    use s', hs'
    constructor
    · apply hr.rest
    · apply hr.core
    · apply hr.nextLink
    · rw [hr.prevLink]
      funext j
      simp [Function.update_apply, eq_comm]
    · apply hr.queued

/-- Closing the idle list over a detached slot joins its neighbours. -/
theorem idlePatch_eq (prev next : Option K) (hprev : ∀ j ∈ prev, (s.core j).isSome)
    (hnext : ∀ j ∈ next, (s.core j).isSome) :
  ∃ s', s.idlePatch prev next = .ok s' ∧
    s.Relinked s' (if prev.isNone then next else s.idleHead)
      (if next.isNone then prev else s.idleTail)
      (fun j => if prev = some j then next else s.nextLink j)
      (fun j => if next = some j then prev else s.prevLink j)
  := by
  obtain ⟨s₁, hs₁, hr₁⟩ := linkNext_eq prev next hprev
  obtain ⟨s₂, hs₂, hr₂⟩ := linkPrev_eq (s := s₁) prev next (by
    rw [hr₁.core]
    apply hnext)
  use s₂
  constructor
  · rw [idlePatch, hs₁, ok_bind, hs₂]
  · constructor
    · rw [hr₂.rest, hr₁.rest]
    · rw [hr₂.core, hr₁.core]
    · rw [hr₂.nextLink, hr₁.nextLink]
    · rw [hr₂.prevLink, hr₁.prevLink]
    · rw [hr₂.queued, hr₁.queued]

/-- `s'` differs from `s` only in its slots and in its idle list, which is `l`. -/
structure Rethreaded (s s' : Scheduler K P S CLASSES) (l : List K) : Prop where
  rest : s' = { s with
    keys := s'.keys, idleHead := s'.idleHead, idleTail := s'.idleTail, idle := s'.idle }
  idle : Threaded s'.nextLink s'.prevLink s'.idleHead s'.idleTail s'.idle l

/-- Unlinking a member whose slot was just detached removes it from the idle list. -/
theorem idleUnlink_eq {l : List K} (s₁ : Scheduler K P S CLASSES) (slot' links : Slot K S)
    (h : Threaded s.nextLink s.prevLink s.idleHead s.idleTail s.idle l)
    (hl : ∀ j ∈ l, (s.core j).isSome) (hk : k ∈ l) (hslot : s.keys.lookup k = some slot)
    (hkeys : s₁.keys = s.keys.insert k slot'.detach)
    (hhead : s₁.idleHead = s.idleHead) (htail : s₁.idleTail = s.idleTail)
    (hidle : s₁.idle = s.idle) (hprev : links.idlePrev = slot.idlePrev)
    (hnext : links.idleNext = slot.idleNext) :
  ∃ s', s₁.idleUnlink links = .ok s' ∧ s₁.Rethreaded s' (l.erase k) ∧ s'.core = s₁.core ∧
    s'.queued = s₁.queued
  := by
  have hcore : ∀ j ∈ l, (s₁.core j).isSome := by
    intro j hj
    rw [core_insert hkeys]
    by_cases hjk : j = k
    · simp [hjk]
    · rw [Function.update_of_ne hjk]
      apply hl j hj
  have hpk := prevLink_of_lookup hslot
  have hnk := nextLink_of_lookup hslot
  obtain ⟨a, b, rfl⟩ := List.append_of_mem hk
  have hpa := h.threads.prev_eq
  have hnb := h.threads.next_eq
  have hrem := h.remove hk
  have hcount := h.count
  let s₂ := { s₁ with idle := s₁.idle - 1 }
  have hcore₂ : s₂.core = s₁.core := rfl
  obtain ⟨s', hs', hr⟩ := idlePatch_eq (s := s₂) links.idlePrev links.idleNext
    (by
      intro j hj
      rw [hcore₂]
      apply hcore j
      rw [hprev, ← hpk, hpa] at hj
      simp [List.mem_of_getLast? hj])
    (by
      intro j hj
      rw [hcore₂]
      apply hcore j
      rw [hnext, ← hnk, hnb] at hj
      simp [List.mem_of_head? hj])
  use s'
  refine ⟨?_, ⟨?_, ?_⟩, ?_, ?_⟩
  · have hle : 1 ≤ s₁.idle := by
      rw [hidle, hcount, List.length_append, List.length_cons]
      omega
    rw [idleUnlink, sub_of_le hle, ok_bind]
    apply hs'
  · have hrest := hr.rest
    rw [hrest]
  · have hnext₂ : s₂.nextLink = Function.update s.nextLink k none := nextLink_insert hkeys
    have hprev₂ : s₂.prevLink = Function.update s.prevLink k none := prevLink_insert hkeys
    have hh : s'.idleHead =
        if (s.prevLink k).isNone then s.nextLink k else s.idleHead := by
      rw [hr.rest]
      simp only [s₂]
      rw [hprev, hnext, hhead, hpk, hnk]
    have ht : s'.idleTail =
        if (s.nextLink k).isNone then s.prevLink k else s.idleTail := by
      rw [hr.rest]
      simp only [s₂]
      rw [hprev, hnext, htail, hpk, hnk]
    have hi : s'.idle = s.idle - 1 := by
      rw [hr.rest, ← hidle]
    rw [hh, ht, hi, hr.nextLink, hr.prevLink, hnext₂, hprev₂, hprev, hnext, ← hpk, ← hnk]
    have hkp : s.prevLink k ≠ some k := by
      rw [hpa]
      intro heq
      obtain ⟨-, -, hdisj⟩ := List.nodup_append.mp h.nodup
      apply hdisj k (List.mem_of_getLast? heq) k (by simp) rfl
    have hkn : s.nextLink k ≠ some k := by
      rw [hnb]
      intro heq
      obtain ⟨-, hnd, -⟩ := List.nodup_append.mp h.nodup
      apply (List.nodup_cons.mp hnd).1 (List.mem_of_head? heq)
    convert hrem using 1
    · funext j
      by_cases hjk : j = k
      · subst hjk
        simp [hkp]
      · simp [hjk]
    · funext j
      by_cases hjk : j = k
      · subst hjk
        simp [hkn]
      · simp [hjk]
  · rw [hr.core, hcore₂]
  · rw [hr.queued]
    rfl

/-- Linking a settled idle key appends it to the idle list. -/
theorem idleLink_eq {l : List K}
    (h : Threaded s.nextLink s.prevLink s.idleHead s.idleTail s.idle l)
    (hl : ∀ j ∈ l, (s.core j).isSome) (hk : k ∉ l) (hslot : s.keys.lookup k = some slot)
    (hidle : slot.presence = .idle) (now : Duration) :
  ∃ s', s.idleLink k now = .ok s' ∧ s.Rethreaded s' (l ++ [k]) ∧
    s'.core = Function.update s.core k (some { slot.detach with idleSince := now }) ∧
    s'.queued = s.queued
  := by
  obtain ⟨hdn, hdp⟩ := h.detached k hk
  rw [nextLink_of_lookup hslot] at hdn
  rw [prevLink_of_lookup hslot] at hdp
  let slot₁ : Slot K S := { slot with idleSince := now, idlePrev := s.idleTail }
  let s₁ := { s with keys := s.keys.insert k slot₁ }
  have hcore₁ : s₁.core = Function.update s.core k (some { slot.detach with idleSince := now }) := by
    rw [core_insert (s := s) (k := k) rfl]
    rfl
  have hnext₁ : s₁.nextLink = s.nextLink := by
    rw [nextLink_insert (s := s) (k := k) rfl, Function.update_eq_self_iff,
      nextLink_of_lookup hslot]
  have hprev₁ : s₁.prevLink = Function.update s.prevLink k s.idleTail := by
    rw [prevLink_insert (s := s) (k := k) rfl]
  obtain ⟨s₂, hs₂, hr⟩ := linkNext_eq (s := s₁) s.idleTail (some k) (by
    intro j hj
    rw [hcore₁]
    by_cases hjk : j = k
    · simp [hjk]
    · rw [Function.update_of_ne hjk]
      apply hl j
      rw [h.tail] at hj
      apply List.mem_of_getLast? hj)
  use { s₂ with idleTail := some k, idle := s₂.idle + 1 }
  refine ⟨?_, ⟨?_, ?_⟩, ?_, ?_⟩
  · rw [idleLink, hslot]
    simp only [expect_some, ok_bind]
    rw [assert_of (by simp [hidle]), ok_bind, assert_of (by simp [hdn, hdp]), ok_bind]
    erw [hs₂]
    rfl
  · rw [hr.rest]
  · have happ := h.append hk
    have hh : s₂.idleHead = if s.idleTail.isNone then some k else s.idleHead := by
      rw [hr.rest]
    have hi : s₂.idle = s.idle := by
      rw [hr.rest]
    have hn : nextLink { s₂ with idleTail := some k, idle := s₂.idle + 1 } =
        fun j => if s.idleTail = some j then some k else s.nextLink j := by
      rw [← hnext₁]
      apply hr.nextLink
    have hp : prevLink { s₂ with idleTail := some k, idle := s₂.idle + 1 } =
        Function.update s.prevLink k s.idleTail := by
      rw [← hprev₁]
      apply hr.prevLink
    rw [hn, hp]
    simp only
    rw [hh, hi]
    apply happ
  · rw [← hcore₁]
    apply hr.core
  · have hq₁ : s₁.queued = s.queued := by
      apply queued_relink hslot
      · rfl
      · rfl
    rw [← hq₁]
    apply hr.queued

end Write

/-! ### Assembling a representation -/

namespace Represents

variable {cfg : Config CLASSES} {s s' : Scheduler K P S CLASSES} {b : Book K P S}
  {own : K → List (ℕ × Item P)} {free : List ℕ} {k : K} {slot slot' : Slot K S}

/-- The in-flight count of a class. -/
theorem inflight_class (h : s.Represents cfg b own free) {c : ClassId} (hc : c.toNat < CLASSES) :
  s.inflight ⟨c.toNat, hc⟩ = b.inflight c
  := by
  rw [h.inflight, Book.inflightAt, if_pos c.toNat_lt, UInt8.ofNat_toNat]

/-- Writing the in-flight count of a class. -/
theorem inflight_update (h : s.Represents cfg b own free) {c : ClassId} (hc : c.toNat < CLASSES)
    (n : ℕ) (b' : Book K P S) (hb : b'.inflight = Function.update b.inflight c n)
    (i : Fin CLASSES) :
  Function.update s.inflight ⟨c.toNat, hc⟩ n i = b'.inflightAt i.val
  := by
  by_cases hi : i = ⟨c.toNat, hc⟩
  · subst hi
    rw [Function.update_self, Book.inflightAt, if_pos c.toNat_lt, UInt8.ofNat_toNat, hb,
      Function.update_self]
  · rw [Function.update_of_ne hi, h.inflight, Book.inflightAt, Book.inflightAt, hb]
    by_cases hlt : i.val < 256
    · have hne : UInt8.ofNat i.val ≠ c := by
        rintro rfl
        apply hi
        apply Fin.ext
        simp [Nat.mod_eq_of_lt hlt]
      rw [Function.update_of_ne hne]
    · rw [if_neg hlt, if_neg hlt]

/-- A key with a page has the slot of that page. -/
theorem lookup (h : s.Represents cfg b own free) {page : Page P S} (hk : b.page k = some page) :
  ∃ slot, s.keys.lookup k = some slot ∧ slot.resident = page.resident ∧
    (own k).map Prod.snd = page.queue ∧ slot.presence = page.presence
  := by
  rw [h.page, core, Option.map_map, Option.map_eq_some_iff] at hk
  obtain ⟨slot, hslot, rfl⟩ := hk
  exact ⟨slot, hslot, rfl, rfl, rfl⟩

/-- A key without a page has no slot and owns no node. -/
theorem lookup_none (h : s.Represents cfg b own free) (hk : b.page k = none) :
  s.keys.lookup k = none ∧ own k = []
  := by
  rw [h.page, core, Option.map_map, Option.map_eq_none_iff] at hk
  refine ⟨hk, ?_⟩
  have hlen := h.owns.len k
  rw [fifo, core, hk] at hlen
  apply List.length_eq_zero_iff.mp hlen.symm

/-- The queue of a key is the queue of its page. -/
theorem contents (h : s.Represents cfg b own free) :
  s.contents k = b.queue k
  := by
  rw [Scheduler.contents, h.owns.contents, Book.queue]
  cases hpage : b.page k with
  | none =>
    rw [(h.lookup_none hpage).2]
    rfl
  | some page =>
    obtain ⟨slot, -, -, hq, -⟩ := h.lookup hpage
    rw [hq]
    rfl

/-- The presence of a key is the presence of its page. -/
theorem presence (h : s.Represents cfg b own free) :
  s.presence k = b.presence k
  := by
  rw [Scheduler.presence, Book.presence, h.page, core, Option.map_map, Option.map_map]
  rfl

/-- The state of a key is the state of its page. -/
theorem resident (h : s.Represents cfg b own free) :
  s.resident k = b.resident k
  := by
  rw [Scheduler.resident, Book.resident, h.page, core, Option.map_map]
  cases s.keys.lookup k <;> rfl

/-- The idle list is the idle order. -/
theorem idleList (h : s.Represents cfg b own free) :
  s.idleList = b.idle
  := by
  rw [Scheduler.idleList, h.idle.count, h.idle.head, h.idle.threads.forward.walk_eq]

/-- The number of queued items after a slot is written. -/
theorem queued_write (h : s.Represents cfg b own free) (s' : Scheduler K P S CLASSES)
    (hkeys : s'.keys = s.keys.insert k slot') :
  s'.queued + (own k).length = s.queued + slot'.queue.len
  := by
  rw [← h.owns.len k]
  cases hslot : s.keys.lookup k with
  | some slot =>
    rw [fifo_of_lookup hslot]
    apply queued_insert hslot hkeys
  | none =>
    have hnot : k ∉ s.keys := AList.lookup_eq_none.mp hslot
    rw [queued, hkeys, AList.total_insert_of_notMem hnot, fifo, core, hslot, queued]
    simp only [Option.map_none, Option.getD_none]
    omega

/-- The parts of a representation after the slot of one key is written. -/
theorem write (h : s.Represents cfg b own free) (s' : Scheduler K P S CLASSES) (b' : Book K P S)
    (slot' : Slot K S) (l : List (ℕ × Item P)) (free' : List ℕ)
    (hcfg : s'.cfg = s.cfg) (hcore : s'.core = Function.update s.core k (some slot'.detach))
    (hpage : b'.page = Function.update b.page k
      (some ⟨slot'.resident, l.map Prod.snd, slot'.presence⟩))
    (howns : s'.slab.Owns (Function.update s.fifo k slot'.queue) (Function.update own k l) free')
    (hidle : Threaded s'.nextLink s'.prevLink s'.idleHead s'.idleTail s'.idle b'.idle)
    (hready : s'.ready = s.ready) (hready' : b'.ready = b.ready)
    (hexpired : s'.expired = b'.expired)
    (hinflight : ∀ i : Fin CLASSES, s'.inflight i = b'.inflightAt i.val)
    (hpending : s'.pending = s'.queued + ∑ i, s'.inflight i)
    (hevicting : s'.evicting = b'.evicting) :
  s'.Represents cfg b' (Function.update own k l) free'
  := by
  constructor
  · rw [hcfg, h.config]
  · have hfifo : s'.fifo = Function.update s.fifo k slot'.queue := by
      funext j
      rw [fifo, hcore]
      by_cases hj : j = k
      · subst hj
        simp [Slot.detach]
      · simp [Function.update_of_ne hj, fifo]
    rw [hfifo]
    apply howns
  · intro j
    rw [hcore, hpage]
    by_cases hj : j = k
    · subst hj
      simp [Slot.detach]
    · simp only [Function.update_of_ne hj]
      apply h.page
  · apply hidle
  · rw [hready, hready']
    apply h.ready
  · rw [hready]
    apply h.readyHigh
  · apply hexpired
  · apply hinflight
  · apply hpending
  · apply hevicting

/-- The representation after an empty detached key is erased. -/
theorem erase (h : s.Represents cfg b own free) (hk : k ∉ b.idle) (hown : own k = [])
    (hslot : s.keys.lookup k = some slot) :
  Represents cfg { s with keys := s.keys.erase k } (b.write k none) own free
  := by
  have hcore : core { s with keys := s.keys.erase k } = Function.update s.core k none := by
    funext j
    rw [core, AList.lookup_erase_eq]
    by_cases hj : j = k
    · subst hj
      simp
    · simp [Function.update_of_ne hj, core]
  obtain ⟨hdn, hdp⟩ := h.idle.detached k hk
  constructor
  · apply h.config
  · have hfifo : fifo { s with keys := s.keys.erase k } = s.fifo := by
      funext j
      rw [fifo, hcore]
      by_cases hj : j = k
      · subst hj
        rw [h.owns.eq_default hown]
        simp
      · simp [Function.update_of_ne hj, fifo]
    rw [hfifo]
    apply h.owns
  · intro j
    rw [hcore]
    by_cases hj : j = k
    · subst hj
      simp
    · rw [Book.write_page_of_ne hj, Function.update_of_ne hj]
      apply h.page
  · have hnext : nextLink { s with keys := s.keys.erase k } = s.nextLink := by
      funext j
      rw [nextLink, AList.lookup_erase_eq]
      by_cases hj : j = k
      · subst hj
        simp [hdn]
      · simp [Function.update_of_ne hj, nextLink]
    have hprev : prevLink { s with keys := s.keys.erase k } = s.prevLink := by
      funext j
      rw [prevLink, AList.lookup_erase_eq]
      by_cases hj : j = k
      · subst hj
        simp [hdp]
      · simp [Function.update_of_ne hj, prevLink]
    rw [hnext, hprev]
    apply h.idle
  · apply h.ready
  · apply h.readyHigh
  · apply h.expired
  · apply h.inflight
  · have hlen : slot.queue.len = 0 := by
      rw [← fifo_of_lookup hslot, h.owns.len k, hown]
      rfl
    have htotal := AList.total_erase (w := fun slot : Slot K S => slot.queue.len) hslot
    have hqueued : queued { s with keys := s.keys.erase k } = s.queued := by
      rw [queued, queued, ← htotal, hlen, Nat.zero_add]
    rw [hqueued]
    apply h.pending
  · apply h.evicting

/-- The representation after a key joins a ring. -/
theorem pushReady (h : s.Represents cfg b own free) {c : ClassId} (hc : c.toNat < CLASSES) :
  ∃ s', s.pushReady c k = .ok s' ∧ s'.Represents cfg (b.join k c) own free
  := by
  use { s with
    ready := Function.update s.ready ⟨_, hc⟩ (s.ready ⟨_, hc⟩ ++ [k]) }
  constructor
  · rw [Scheduler.pushReady, inBounds_of_lt hc]
    rfl
  · constructor
    · apply h.config
    · apply h.owns
    · apply h.page
    · apply h.idle
    · intro c' hc'
      by_cases hcc : c' = c
      · subst hcc
        simp [Book.join, h.ready]
      · have hne : (⟨c'.toNat, hc'⟩ : Fin CLASSES) ≠ ⟨c.toNat, hc⟩ := by
          intro heq
          apply hcc
          apply UInt8.toNat_inj.mp (Fin.mk.inj heq)
        simp only [Function.update_of_ne hne, Book.join, Function.update_of_ne hcc]
        apply h.ready
    · intro i hi
      have hne : i ≠ ⟨c.toNat, hc⟩ := by
        rintro rfl
        have hlt := c.toNat_lt
        simp only at hi
        omega
      simp only [Function.update_of_ne hne]
      apply h.readyHigh i hi
    · apply h.expired
    · apply h.inflight
    · apply h.pending
    · apply h.evicting

end Represents

end Scheduler

end Grommet
