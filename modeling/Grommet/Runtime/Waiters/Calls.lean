import Grommet.Library.Lists
import Grommet.Library.Trail
import Grommet.Library.Valued
import Grommet.Runtime.Waiters.Registry
import Mathlib.Data.List.Count
import Mathlib.Order.Nat

/-!
# Calls of the queue of parked callers

The calls that are made on the queue, each under the lock, and what they answer.  Whatever
the tickets that are presented, every registration has its entry in the order of arrival,
and a slot that is not free is occupied.  So no call fails, but for one that would park more
callers at once than slots can be numbered.
-/

open Checked

namespace Grommet.Waiters

variable {inner inner' : Inner} {w w' : Waiters} {order : List Ticket} {ticket t : Ticket}
  {v : Waker} {slot g : ℕ} {s : Slot}

inductive Call where
  | park (waker : Waker)
  | refresh (ticket : Ticket) (waker : Waker)
  | cancel (ticket : Ticket)
  | wakeOne
  | close
  deriving DecidableEq

inductive Reply where
  | parked (ticket : Ticket)
  | refused
  /-- The call did not return. -/
  | panicked
  | refreshed
  | cancelled (live : Bool)
  | woken (waker : Option Waker)
  | closed (woken : List Waker)
  deriving DecidableEq

/-- What a call of `park` that panics leaves behind: it has taken its generation. -/
def overflowed (w : Waiters) : Waiters :=
  { w with inner := { w.inner with nextGeneration := wrappingSucc w.inner.nextGeneration } }

/-- One call and its reply. -/
inductive CallStep (w : Waiters) : Call × Reply → Waiters → Prop
  | park {w' : Waiters} {v : Waker} {ticket : Ticket} : w.park v = .ok (w', .ok ticket) →
      CallStep w (.park v, .parked ticket) w'
  | refused {w' : Waiters} {v : Waker} {e : Closed} : w.park v = .ok (w', .error e) →
      CallStep w (.park v, .refused) w'
  | overflow {v : Waker} :
      w.park v = .error (.expect "a mailbox parks fewer than 2^32 senders at once") →
      CallStep w (.park v, .panicked) w.overflowed
  | refresh {t : Ticket} {v : Waker} : CallStep w (.refresh t v, .refreshed) (w.refresh t v)
  | cancel {w' : Waiters} {t : Ticket} {live : Bool} : w.cancel t = .ok (w', live) →
      CallStep w (.cancel t, .cancelled live) w'
  | wakeOne {w' : Waiters} {woken : Option Waker} : w.wakeOne = .ok (w', woken) →
      CallStep w (.wakeOne, .woken woken) w'
  | close {w' : Waiters} {woken : List Waker} : w.close = .ok (w', woken) →
      CallStep w (.close, .closed woken) w'

/-- Calls made one after the other, when none of them panics. -/
def perform (w : Waiters) : List Call → Checked (Waiters × List (Call × Reply))
  | [] => .ok (w, [])
  | .park v :: calls => do
      let (w, result) ← w.park v
      let (w, trace) ← w.perform calls
      let reply := match result with
        | .ok ticket => .parked ticket
        | .error _ => .refused
      .ok (w, (.park v, reply) :: trace)
  | .refresh t v :: calls => do
      let (w, trace) ← (w.refresh t v).perform calls
      .ok (w, (.refresh t v, .refreshed) :: trace)
  | .cancel t :: calls => do
      let (w, live) ← w.cancel t
      let (w, trace) ← w.perform calls
      .ok (w, (.cancel t, .cancelled live) :: trace)
  | .wakeOne :: calls => do
      let (w, woken) ← w.wakeOne
      let (w, trace) ← w.perform calls
      .ok (w, (.wakeOne, .woken woken) :: trace)
  | .close :: calls => do
      let (w, woken) ← w.close
      let (w, trace) ← w.perform calls
      .ok (w, (.close, .closed woken) :: trace)

theorem trail_of_perform {calls : List Call} {trace : List (Call × Reply)}
    (h : w.perform calls = .ok (w', trace)) :
  Trail CallStep w trace w'
  := by
  induction calls generalizing w trace with
  | nil =>
    cases h
    exact .nil
  | cons call calls ih =>
    cases call with
    | park v =>
      obtain ⟨⟨w₁, result⟩, hpark, h⟩ := bind_eq_ok.mp h
      obtain ⟨⟨w₂, rest⟩, hrest, h⟩ := bind_eq_ok.mp h
      cases h
      cases result with
      | ok ticket => exact .cons (.park hpark) (ih hrest)
      | error e => exact .cons (.refused hpark) (ih hrest)
    | refresh t v =>
      obtain ⟨⟨w₁, rest⟩, hrest, h⟩ := bind_eq_ok.mp h
      cases h
      exact .cons .refresh (ih hrest)
    | cancel t =>
      obtain ⟨⟨w₁, live⟩, hcancel, h⟩ := bind_eq_ok.mp h
      obtain ⟨⟨w₂, rest⟩, hrest, h⟩ := bind_eq_ok.mp h
      cases h
      exact .cons (.cancel hcancel) (ih hrest)
    | wakeOne =>
      obtain ⟨⟨w₁, woken⟩, hwake, h⟩ := bind_eq_ok.mp h
      obtain ⟨⟨w₂, rest⟩, hrest, h⟩ := bind_eq_ok.mp h
      cases h
      exact .cons (.wakeOne hwake) (ih hrest)
    | close =>
      obtain ⟨⟨w₁, woken⟩, hclose, h⟩ := bind_eq_ok.mp h
      obtain ⟨⟨w₂, rest⟩, hrest, h⟩ := bind_eq_ok.mp h
      cases h
      exact .cons (.close hclose) (ih hrest)

/-! ### Registrations and their entries -/

/-- The number of slots that hold a registration. -/
def Inner.occupied (inner : Inner) : ℕ := inner.slots.countP fun s => s.waker.isSome

/-- Every registration has an entry in the order of arrival, and every slot is occupied or
free. -/
structure Inner.Keeps (inner : Inner) (order : List Ticket) : Prop where
  sound : inner.Sound
  range : ∀ t ∈ order, t.slot < inner.slots.length
  listed : ∀ t v, inner.waker t = some v → t ∈ order
  count : inner.occupied + inner.free.length = inner.slots.length
  fits : inner.slots.length ≤ 2 ^ 32

/-- The entries belong to the slots, whatever else there is. -/
theorem Inner.Keeps.of_slots (h : inner.Keeps order) (hslots : inner'.slots = inner.slots)
    (hfree : inner'.free = inner.free) :
  inner'.Keeps order
  := by
  obtain ⟨slots, free, _, _, _⟩ := inner
  obtain ⟨slots', free', _, _, _⟩ := inner'
  cases hslots
  cases hfree
  exact ⟨⟨h.sound.idle, h.sound.nodup⟩, h.range, h.listed, h.count, h.fits⟩

theorem not_live (h : inner.waker t = none) :
  ¬ inner.live t = true
  := by
  rw [live_iff, h]
  rintro ⟨v, hv⟩
  cases hv

theorem Inner.Keeps.tail (h : inner.Keeps (t :: order)) (hover : inner.waker t = none) :
  inner.Keeps order
  := by
  refine ⟨h.sound, fun u hu => h.range u (List.mem_cons_of_mem _ hu), ?_, h.count, h.fits⟩
  intro u v hu
  rcases List.mem_cons.mp (h.listed u v hu) with rfl | hmem
  · rw [hover] at hu
    cases hu
  · exact hmem

/-- What the end of a registration leaves as it is. -/
structure Inner.Ends (inner inner' : Inner) : Prop where
  slots : inner'.slots.length = inner.slots.length
  generation : inner'.nextGeneration = inner.nextGeneration
  closed : inner'.closed = inner.closed

theorem Inner.Ends.trans {inner'' : Inner} (h : inner.Ends inner') (h' : inner'.Ends inner'') :
  inner.Ends inner''
  := ⟨h'.slots.trans h.slots, h'.generation.trans h.generation, h'.closed.trans h.closed⟩

/-- A registration that ends leaves its entry behind. -/
theorem Inner.Keeps.retire (h : inner.Keeps order) (hlive : inner.waker t = some v) :
  ∃ inner', inner.retire t.slot = .ok (inner', some v) ∧ inner'.Keeps order ∧
    inner.Ends inner' ∧ inner'.order = inner.order ∧
    inner'.waker = Function.update inner.waker t none ∧
    inner'.occupied + 1 = inner.occupied ∧ inner'.free.length = inner.free.length + 1
  := by
  obtain ⟨s, hs, hg, hv⟩ := slot_of_waker hlive
  obtain ⟨inner', hretire, hsound, hnext, horder, hwaker⟩ := h.sound.retire hs hv
  have hupdate : inner'.waker = Function.update inner.waker t none := by
    rw [hwaker, hg]
  have hretire' := hretire
  rw [Inner.retire, Inner.slot, hs] at hretire'
  simp only [ok_bind, hv] at hretire'
  cases hretire'
  have hcount := List.countP_set_add (fun s => s.waker.isSome)
    (b := ⟨none, wrappingSucc s.generation⟩) hs
  rw [hv] at hcount
  have hoccupied : Inner.occupied { inner with
      slots := inner.slots.set t.slot ⟨none, wrappingSucc s.generation⟩
      free := t.slot :: inner.free } + 1 = inner.occupied := hcount
  have hlength : (inner.slots.set t.slot ⟨none, wrappingSucc s.generation⟩).length
      = inner.slots.length := List.length_set
  refine ⟨_, hretire, ⟨hsound, ?_, ?_, ?_, ?_⟩, ⟨hlength, rfl, rfl⟩, rfl, hupdate, hoccupied, rfl⟩
  · intro u hu
    apply (h.range u hu).trans_eq hlength.symm
  · intro u v' hu
    rw [hupdate, Function.update_apply] at hu
    split at hu
    · cases hu
    · exact h.listed u v' hu
  · have hsum := h.count
    show _ + (inner.free.length + 1) = _
    rw [hlength]
    omega
  · exact hlength.trans_le h.fits

/-- A slot that is free, or that can be added, is given out. -/
theorem Inner.Keeps.register (h : inner.Keeps order) (hroom : inner.occupied < 2 ^ 32) (v : Waker)
    (g : ℕ) :
  ∃ inner' slot, inner.register v g = .ok (inner', slot) ∧
    inner'.Keeps (order ++ [⟨slot, g⟩]) ∧ (∀ g', inner.waker ⟨slot, g'⟩ = none) ∧
    inner'.waker = Function.update inner.waker ⟨slot, g⟩ (some v) ∧
    inner'.nextGeneration = inner.nextGeneration ∧ inner'.closed = inner.closed ∧
    inner'.order = inner.order ∧ inner'.occupied = inner.occupied + 1 ∧
    inner'.free.length = inner.free.length - 1 ∧
    inner'.slots.length ≤ max inner.slots.length (inner.occupied + 1)
  := by
  have hlisted : ∀ {inner' : Inner} {slot : ℕ},
      inner'.waker = Function.update inner.waker ⟨slot, g⟩ (some v) →
      ∀ t u, inner'.waker t = some u → t ∈ order ++ [⟨slot, g⟩] := by
    intro inner' slot hwaker t u hu
    rw [hwaker, Function.update_apply] at hu
    split at hu
    · rename_i ht
      rw [ht]
      exact List.mem_append_right _ List.mem_cons_self
    · exact List.mem_append_left _ (h.listed t u hu)
  have hsum := h.count
  cases hfree : inner.free with
  | cons slot free =>
    obtain ⟨s, hs, hnone⟩ := h.sound.idle slot (by simp [hfree])
    have hlt := (List.getElem?_eq_some_iff.mp hs).1
    have hreg : inner.register v g = .ok ({ inner with
        slots := inner.slots.set slot ⟨some v, g⟩, free := free }, slot) := by
      rw [Inner.register, hfree]
      simp only [Inner.slot, hs, ok_bind]
    obtain ⟨hsound, -, -, hwaker⟩ := h.sound.register hreg
    have hcount := List.countP_set_add (fun s => s.waker.isSome) (b := ⟨some v, g⟩) hs
    rw [hnone] at hcount
    have hoccupied : Inner.occupied { inner with
        slots := inner.slots.set slot ⟨some v, g⟩, free := free } = inner.occupied + 1 := hcount
    have hlength : (inner.slots.set slot ⟨some v, g⟩).length = inner.slots.length :=
      List.length_set
    rw [hfree, List.length_cons] at hsum
    refine ⟨_, slot, hreg, ⟨hsound, ?_, hlisted hwaker, ?_, hlength.trans_le h.fits⟩, ?_, hwaker,
      rfl, rfl, rfl, hoccupied, rfl, hlength.trans_le (le_max_left _ _)⟩
    · intro t ht
      rcases List.mem_append.mp ht with ht | ht
      · exact (h.range t ht).trans_eq hlength.symm
      · cases List.mem_singleton.mp ht
        exact hlt.trans_eq hlength.symm
    · rw [hoccupied, hlength]
      show _ + free.length = _
      omega
    · intro g'
      rw [waker_of_slot (show inner.slots[Ticket.slot ⟨slot, g'⟩]? = some _ from hs), hnone,
        ite_self]
  | nil =>
    rw [hfree, List.length_nil, Nat.add_zero] at hsum
    have hreg : inner.register v g = .ok ({ inner with
        slots := inner.slots ++ [⟨some v, g⟩] }, inner.slots.length) := by
      rw [Inner.register, hfree]
      simp only
      rw [if_pos (by omega), expect_some, ok_bind]
    obtain ⟨hsound, -, -, hwaker⟩ := h.sound.register hreg
    have hoccupied : Inner.occupied { inner with
        slots := inner.slots ++ [⟨some v, g⟩] } = inner.occupied + 1 := List.countP_append
    have hlength : (inner.slots ++ [(⟨some v, g⟩ : Slot)]).length = inner.slots.length + 1 :=
      List.length_append
    refine ⟨_, inner.slots.length, hreg, ⟨hsound, ?_, hlisted hwaker, ?_, ?_⟩, ?_, hwaker, rfl, rfl,
      rfl, hoccupied, ?_, ?_⟩
    · intro t ht
      show t.slot < (inner.slots ++ [(⟨some v, g⟩ : Slot)]).length
      rw [hlength]
      rcases List.mem_append.mp ht with ht | ht
      · exact Nat.lt_succ_of_lt (h.range t ht)
      · cases List.mem_singleton.mp ht
        exact Nat.lt_succ_self _
    · rw [hoccupied, hlength]
      show _ + inner.free.length = _
      rw [hfree, List.length_nil]
      omega
    · rw [hlength]
      omega
    · intro g'
      rw [Inner.waker, List.getElem?_eq_none (le_refl _)]
    · show inner.free.length = _
      rw [hfree]
      rfl
    · rw [hlength]
      omega

/-- With every slot occupied and no number for another, no slot is given out. -/
theorem Inner.Keeps.overflow (h : inner.Keeps order) (hfull : 2 ^ 32 ≤ inner.occupied) (v : Waker)
    (g : ℕ) :
  inner.register v g = .error (.expect "a mailbox parks fewer than 2^32 senders at once")
  := by
  have hsum := h.count
  have hfits := h.fits
  have hfree : inner.free = [] := List.length_eq_zero_iff.mp (by omega)
  rw [Inner.register, hfree]
  simp only
  rw [if_neg (by omega)]
  rfl

/-! ### Compaction -/

/-- What compaction makes of the order of arrival. -/
def Inner.compacted (inner : Inner) : Inner :=
  if inner.order.length ≤ 8 ∨ inner.order.length < inner.free.length * 2 then
    inner
  else
    { inner with order := inner.order.filter inner.live }

theorem Inner.Keeps.compact (h : inner.Keeps inner.order) :
  inner.compact = .ok inner.compacted
  := by
  rw [Inner.compact, Inner.compacted]
  split
  · rfl
  · rw [if_pos]
    rw [List.all_eq_true]
    intro t ht
    exact decide_eq_true (h.range t ht)

theorem compacted_other (inner : Inner) :
  inner.compacted.waker = inner.waker ∧ inner.compacted.occupied = inner.occupied ∧
    inner.compacted.slots = inner.slots ∧ inner.compacted.free = inner.free ∧
    inner.compacted.nextGeneration = inner.nextGeneration ∧
    inner.compacted.closed = inner.closed
  := by
  rw [Inner.compacted]
  split <;> exact ⟨rfl, rfl, rfl, rfl, rfl, rfl⟩

/-- An entry that compaction leaves was there. -/
theorem compacted_sublist :
  inner.compacted.order.Sublist inner.order
  := by
  rw [Inner.compacted]
  split
  · exact List.Sublist.refl _
  · exact List.filter_sublist

theorem compacted_valued :
  inner.compacted.order.valued inner.waker = inner.order.valued inner.waker
  := by
  rw [Inner.compacted]
  split
  · rfl
  · apply List.valued_filter
    intro t v hv
    exact live_iff.mpr ⟨v, hv⟩

theorem Inner.Keeps.compacted (h : inner.Keeps inner.order) :
  inner.compacted.Keeps inner.compacted.order
  := by
  obtain ⟨hwaker, hoccupied, hslots, hfree, -, -⟩ := compacted_other inner
  refine ⟨⟨?_, ?_⟩, ?_, ?_, ?_, ?_⟩
  · rw [hfree, hslots]
    exact h.sound.idle
  · rw [hfree]
    exact h.sound.nodup
  · intro t ht
    rw [hslots]
    exact h.range t (compacted_sublist.subset ht)
  · intro t v hv
    rw [hwaker] at hv
    have hmem : (t, v) ∈ inner.order.valued inner.waker :=
      List.mem_valued.mpr ⟨h.listed t v hv, hv⟩
    rw [← compacted_valued] at hmem
    exact (List.mem_valued.mp hmem).1
  · rw [hoccupied, hfree, hslots]
    exact h.count
  · rw [hslots]
    exact h.fits

/-! ### Taking entries off the order -/

/-- The entries before the first that is live are taken off, and its registration ends. -/
theorem Inner.Keeps.wakeLoop (h : inner.Keeps order) :
  (inner.wakeLoop order = .ok ({ inner with order := [] }, none) ∧ ∀ t, inner.waker t = none) ∨
  ∃ dead t v rest inner', order = dead ++ t :: rest ∧ (∀ d ∈ dead, inner.waker d = none) ∧
    inner.waker t = some v ∧
    inner.wakeLoop order = .ok ({ inner' with order := rest }, some v) ∧
    Inner.Keeps { inner' with order := rest } rest ∧ inner.Ends inner' ∧
    inner'.waker = Function.update inner.waker t none
  := by
  induction order with
  | nil =>
    left
    refine ⟨rfl, ?_⟩
    intro t
    cases ht : inner.waker t with
    | none => rfl
    | some v => cases h.listed t v ht
  | cons t order ih =>
    have hrange := h.range t List.mem_cons_self
    cases hlive : inner.waker t with
    | none =>
      have hskip : inner.wakeLoop (t :: order) = inner.wakeLoop order := by
        have hs := List.getElem?_eq_getElem hrange
        rw [Inner.wakeLoop, Inner.slot, hs]
        simp only [ok_bind]
        split
        · rfl
        · rename_i hg
          rw [waker_of_slot hs, if_pos (not_not.mp hg)] at hlive
          rw [Inner.retire, Inner.slot, hs]
          simp only [ok_bind, hlive]
      rcases ih (h.tail hlive) with ⟨hloop, hnone⟩ | ⟨dead, u, v, rest, inner', rfl, hdead, hrest⟩
      · exact Or.inl ⟨hskip.trans hloop, hnone⟩
      · right
        rw [hskip]
        refine ⟨t :: dead, u, v, rest, inner', rfl, ?_, hrest⟩
        intro d hd
        rcases List.mem_cons.mp hd with rfl | hd
        · exact hlive
        · exact hdead d hd
    | some v =>
      obtain ⟨s, hs, hg, -⟩ := slot_of_waker hlive
      obtain ⟨inner', hretire, hkeeps, hends, -, hwaker, -⟩ := h.retire hlive
      have hover : inner'.waker t = none := by
        rw [hwaker]
        exact Function.update_self ..
      have htail := hkeeps.tail hover
      right
      refine ⟨[], t, v, order, inner', rfl, fun d hd => ?_, hlive, ?_, htail.of_slots rfl rfl,
        hends, hwaker⟩
      · cases hd
      · rw [Inner.wakeLoop, Inner.slot, hs]
        simp only [ok_bind]
        rw [if_neg (not_not.mpr hg), hretire]
        rfl

/-- All entries are taken off, and all registrations end. -/
theorem Inner.Keeps.closeLoop (h : inner.Keeps order) :
  ∃ inner' woken, inner.closeLoop order = .ok (inner', woken) ∧ inner'.Keeps [] ∧
    inner'.order = [] ∧ inner.Ends inner' ∧
    (order.Nodup → woken = (order.valued inner.waker).map Prod.snd)
  := by
  induction order generalizing inner with
  | nil =>
    exact ⟨_, _, rfl, h.of_slots rfl rfl, rfl, ⟨rfl, rfl, rfl⟩, fun _ => rfl⟩
  | cons t order ih =>
    have hrange := h.range t List.mem_cons_self
    cases hlive : inner.waker t with
    | none =>
      have hs := List.getElem?_eq_getElem hrange
      obtain ⟨inner', woken, hloop, hkeeps, horder, hends, hwoken⟩ := ih (h.tail hlive)
      refine ⟨inner', woken, ?_, hkeeps, horder, hends, fun hnodup => ?_⟩
      · rw [Inner.closeLoop, Inner.slot, hs]
        simp only [ok_bind]
        split
        · exact hloop
        · rename_i hg
          rw [waker_of_slot hs, if_pos (not_not.mp hg)] at hlive
          rw [Inner.retire, Inner.slot, hs]
          simp only [ok_bind, hlive]
          rw [hloop]
          rfl
      · rw [List.valued_cons_none hlive]
        exact hwoken (List.nodup_cons.mp hnodup).2
    | some v =>
      obtain ⟨s, hs, hg, -⟩ := slot_of_waker hlive
      obtain ⟨inner₁, hretire, hkeeps₁, hends₁, -, hwaker₁, -⟩ := h.retire hlive
      have hover : inner₁.waker t = none := by
        rw [hwaker₁]
        exact Function.update_self ..
      obtain ⟨inner', woken, hloop, hkeeps, horder, hends, hwoken⟩ := ih (hkeeps₁.tail hover)
      refine ⟨inner', v :: woken, ?_, hkeeps, horder, hends₁.trans hends, fun hnodup => ?_⟩
      · rw [Inner.closeLoop, Inner.slot, hs]
        simp only [ok_bind]
        rw [if_neg (not_not.mpr hg), hretire]
        simp only [ok_bind]
        rw [hloop]
        rfl
      · obtain ⟨hout, hnodup⟩ := List.nodup_cons.mp hnodup
        rw [hwoken hnodup, hwaker₁, List.valued_update_of_not_mem hout, List.valued_cons_some hlive,
          List.map_cons]

/-! ### The calls -/

/-- What holds between the calls. -/
structure Kept (w : Waiters) : Prop where
  keeps : w.inner.Keeps w.inner.order
  published : w.waiting = w.inner.occupied
  ended : w.inner.closed = true → w.inner.order = []

theorem kept_new :
  new.Kept
  := by
  refine ⟨⟨⟨?_, List.nodup_nil⟩, ?_, ?_, rfl, Nat.zero_le _⟩, rfl, fun _ => rfl⟩
  · intro slot hslot
    cases hslot
  · intro t ht
    cases ht
  · intro t v hv
    cases hv

theorem Inner.Keeps.publish (h : inner.Keeps order) :
  publish inner = .ok ⟨inner, inner.occupied⟩
  := by
  have hsum := h.count
  rw [Waiters.publish, sub_of_le (by omega)]
  have heq : inner.slots.length - inner.free.length = inner.occupied := by omega
  rw [heq]
  rfl

theorem park_closed (h : w.inner.closed = true) (v : Waker) :
  w.park v = .ok (w, .error .closed)
  := if_pos h

/-- A caller parks behind the others. -/
theorem Kept.park (h : w.Kept) (hopen : w.inner.closed = false) (hroom : w.waiting < 2 ^ 32)
    (v : Waker) :
  ∃ (inner : Inner) (ticket : Ticket),
    w.park v = .ok (⟨inner.compacted, inner.occupied⟩, .ok ticket) ∧
    inner.Keeps inner.order ∧ inner.order = w.inner.order ++ [ticket] ∧
    ticket.generation = w.inner.nextGeneration ∧ w.inner.waker ticket = none ∧
    inner.waker = Function.update w.inner.waker ticket (some v) ∧
    inner.nextGeneration = wrappingSucc w.inner.nextGeneration ∧ inner.closed = false ∧
    inner.occupied = w.waiting + 1 ∧ inner.free.length = w.inner.free.length - 1 ∧
    inner.slots.length ≤ max w.inner.slots.length (w.waiting + 1)
  := by
  rw [h.published] at hroom ⊢
  have hkeeps : Inner.Keeps { w.inner with
      nextGeneration := wrappingSucc w.inner.nextGeneration } w.inner.order :=
    h.keeps.of_slots rfl rfl
  obtain ⟨inner₁, slot, hregister, hkeeps₁, hidle, hwaker, hnext, hclosed, horder, hoccupied, hfree,
    hslots⟩ := hkeeps.register hroom v w.inner.nextGeneration
  have hkeeps₂ : Inner.Keeps
      { inner₁ with order := inner₁.order ++ [⟨slot, w.inner.nextGeneration⟩] }
      (inner₁.order ++ [⟨slot, w.inner.nextGeneration⟩]) := by
    rw [horder]
    exact hkeeps₁.of_slots rfl rfl
  refine ⟨_, ⟨slot, w.inner.nextGeneration⟩, ?_, hkeeps₂, by rw [horder], rfl,
    hidle _, hwaker, hnext, hclosed.trans hopen, hoccupied, hfree, hslots⟩
  have hoccupied₂ := (compacted_other
    { inner₁ with order := inner₁.order ++ [⟨slot, w.inner.nextGeneration⟩] }).2.1
  rw [Waiters.park, hopen]
  simp only [Bool.false_eq_true, if_false]
  rw [hregister]
  simp only [ok_bind]
  rw [hkeeps₂.compact]
  simp only [ok_bind]
  rw [hkeeps₂.compacted.publish, hoccupied₂]
  rfl

/-- A caller that finds all slots taken does not park. -/
theorem Kept.park_full (h : w.Kept) (hopen : w.inner.closed = false) (hfull : 2 ^ 32 ≤ w.waiting)
    (v : Waker) :
  w.park v = .error (.expect "a mailbox parks fewer than 2^32 senders at once")
  := by
  rw [h.published] at hfull
  have hkeeps : Inner.Keeps { w.inner with
      nextGeneration := wrappingSucc w.inner.nextGeneration } w.inner.order :=
    h.keeps.of_slots rfl rfl
  rw [Waiters.park, hopen]
  simp only [Bool.false_eq_true, if_false]
  rw [hkeeps.overflow hfull]
  rfl

/-- A caller parks, or finds the queue closed or full. -/
theorem Kept.park_cases (h : w.Kept) (v : Waker) :
  (w.inner.closed = true ∧ w.park v = .ok (w, .error .closed)) ∨
  (w.inner.closed = false ∧ w.waiting < 2 ^ 32 ∧ ∃ w' ticket, w.park v = .ok (w', .ok ticket)) ∨
  (w.inner.closed = false ∧ 2 ^ 32 ≤ w.waiting ∧
    w.park v = .error (.expect "a mailbox parks fewer than 2^32 senders at once"))
  := by
  cases hclosed : w.inner.closed with
  | true => exact Or.inl ⟨rfl, park_closed hclosed v⟩
  | false =>
    by_cases hfew : w.waiting < 2 ^ 32
    · obtain ⟨inner, ticket, hpark, -⟩ := h.park hclosed hfew v
      exact Or.inr (Or.inl ⟨rfl, hfew, _, ticket, hpark⟩)
    · have hfull := Nat.le_of_not_lt hfew
      exact Or.inr (Or.inr ⟨rfl, hfull, h.park_full hclosed hfull v⟩)

theorem refresh_over (h : w.inner.waker t = none) (v : Waker) :
  w.refresh t v = w
  := if_neg (not_live h)

/-- A registration that is refreshed stays where it is. -/
theorem Kept.refresh (h : w.Kept) (t : Ticket) (v : Waker) :
  (w.refresh t v).Kept ∧ (w.refresh t v).inner.order = w.inner.order ∧
    w.inner.Ends (w.refresh t v).inner
  := by
  cases hlive : w.inner.waker t with
  | none =>
    rw [refresh_over hlive]
    exact ⟨h, rfl, rfl, rfl, rfl⟩
  | some u =>
    obtain ⟨hsound, -, hwaker⟩ := refresh_spec t v h.keeps.sound
    obtain ⟨s, hs, hg, hu⟩ := slot_of_waker hlive
    rw [if_pos (live_iff.mpr ⟨u, hlive⟩)] at hwaker
    rw [Waiters.refresh, if_pos (live_iff.mpr ⟨u, hlive⟩)] at hsound hwaker ⊢
    have hmodify : w.inner.slots.modify t.slot (fun entry =>
        if entry.waker = some v then entry else { entry with waker := some v })
        = w.inner.slots.set t.slot { s with waker := some v } := by
      rw [List.modify_eq_set_getElem?, hs]
      show w.inner.slots.set t.slot (if s.waker = some v then s else { s with waker := some v }) = _
      split
      · rename_i hsame
        rw [← hsame]
      · rfl
    rw [hmodify] at hsound hwaker ⊢
    have hlength : (w.inner.slots.set t.slot { s with waker := some v }).length
        = w.inner.slots.length := List.length_set
    have hcount := List.countP_set_add (fun s => s.waker.isSome) (b := { s with waker := some v }) hs
    rw [hu] at hcount
    have hoccupied : (w.inner.slots.set t.slot { s with waker := some v }).countP
        (fun s => s.waker.isSome) = w.inner.occupied := Nat.add_right_cancel hcount
    refine ⟨⟨⟨hsound, ?_, ?_, ?_, ?_⟩, ?_, h.ended⟩, rfl, hlength, rfl, rfl⟩
    · intro t' ht'
      exact (h.keeps.range t' ht').trans_eq hlength.symm
    · intro t' v' ht'
      rw [hwaker, Function.update_apply] at ht'
      split at ht'
      · rename_i heq
        rw [heq]
        exact h.keeps.listed t u hlive
      · exact h.keeps.listed t' v' ht'
    · show List.countP _ _ + w.inner.free.length = _
      rw [hoccupied, hlength]
      exact h.keeps.count
    · exact hlength.trans_le h.keeps.fits
    · exact h.published.trans hoccupied.symm

theorem cancel_over (h : w.inner.waker t = none) :
  w.cancel t = .ok (w, false)
  := if_neg (not_live h)

theorem Kept.cancel (h : w.Kept) (hlive : w.inner.waker t = some v) :
  ∃ inner : Inner, w.cancel t = .ok (⟨inner.compacted, inner.occupied⟩, true) ∧
    inner.Keeps inner.order ∧ inner.order = w.inner.order ∧
    inner.waker = Function.update w.inner.waker t none ∧ w.inner.Ends inner ∧
    inner.occupied + 1 = w.waiting ∧ inner.free.length = w.inner.free.length + 1
  := by
  obtain ⟨inner, hretire, hkeeps, hends, horder, hwaker, hoccupied, hfree⟩ := h.keeps.retire hlive
  have hkeeps' : inner.Keeps inner.order := by
    rw [horder]
    exact hkeeps
  refine ⟨inner, ?_, hkeeps', horder, hwaker, hends, hoccupied.trans h.published.symm, hfree⟩
  have hoccupied' := (compacted_other inner).2.1
  rw [Waiters.cancel, if_pos (live_iff.mpr ⟨v, hlive⟩), hretire]
  simp only [ok_bind]
  rw [hkeeps'.compact]
  simp only [ok_bind]
  rw [hkeeps'.compacted.publish, hoccupied']
  rfl

/-- With nobody parked, nobody is woken. -/
theorem Kept.wakeOne (h : w.Kept) :
  (w.wakeOne = .ok (⟨{ w.inner with order := [] }, w.waiting⟩, none) ∧
    ∀ t, w.inner.waker t = none) ∨
  ∃ (dead : List Ticket) (t : Ticket) (v : Waker) (rest : List Ticket) (inner : Inner),
    w.inner.order = dead ++ t :: rest ∧
    (∀ d ∈ dead, w.inner.waker d = none) ∧ w.inner.waker t = some v ∧
    w.wakeOne = .ok (⟨{ inner with order := rest }, inner.occupied⟩, some v) ∧
    Inner.Keeps { inner with order := rest } rest ∧ w.inner.Ends inner ∧
    inner.waker = Function.update w.inner.waker t none
  := by
  rw [Waiters.wakeOne]
  rcases h.keeps.wakeLoop with ⟨hloop, hnone⟩ | ⟨dead, t, v, rest, inner, horder, hdead, hlive, hloop,
    hkeeps, hends, hwaker⟩
  · left
    refine ⟨?_, hnone⟩
    have hkeeps : Inner.Keeps { w.inner with order := [] } w.inner.order :=
      h.keeps.of_slots rfl rfl
    rw [hloop]
    simp only [ok_bind]
    rw [hkeeps.publish, h.published]
    rfl
  · right
    refine ⟨dead, t, v, rest, inner, horder, hdead, hlive, ?_, hkeeps, hends, hwaker⟩
    rw [hloop]
    simp only [ok_bind]
    rw [hkeeps.publish]
    rfl

theorem Kept.close (h : w.Kept) :
  ∃ (inner : Inner) (woken : List Waker),
    w.close = .ok (⟨inner, inner.occupied⟩, woken) ∧ inner.Keeps [] ∧
    inner.order = [] ∧ inner.closed = true ∧ inner.slots.length = w.inner.slots.length ∧
    inner.nextGeneration = w.inner.nextGeneration ∧
    (w.inner.order.Nodup → woken = (w.inner.order.valued w.inner.waker).map Prod.snd)
  := by
  have hkeeps : Inner.Keeps { w.inner with closed := true } w.inner.order :=
    h.keeps.of_slots rfl rfl
  obtain ⟨inner, woken, hloop, hkeeps', horder, hends, hwoken⟩ := hkeeps.closeLoop
  refine ⟨inner, woken, ?_, hkeeps', horder, hends.closed, hends.slots, hends.generation, hwoken⟩
  rw [Waiters.close, hloop]
  simp only [ok_bind]
  rw [hkeeps'.publish]
  rfl

/-- A queue that is closed stays closed. -/
theorem Kept.closed {e : Call × Reply} (h : w.Kept) (hclosed : w.inner.closed = true)
    (hstep : CallStep w e w') :
  w'.inner.closed = true
  := by
  cases hstep with
  | @park w' v ticket hpark => cases hpark.symm.trans (park_closed hclosed v)
  | @refused w' v e hpark =>
    cases hpark.symm.trans (park_closed hclosed v)
    exact hclosed
  | overflow => exact hclosed
  | @refresh t v => exact (h.refresh t v).2.2.closed.trans hclosed
  | @cancel w' t live hcancel =>
    cases hlive : w.inner.waker t with
    | none =>
      cases hcancel.symm.trans (cancel_over hlive)
      exact hclosed
    | some v =>
      obtain ⟨inner, hcancel', -, -, -, hends, -⟩ := h.cancel hlive
      cases hcancel.symm.trans hcancel'
      obtain ⟨-, -, -, -, -, hsame⟩ := compacted_other inner
      exact hsame.trans (hends.closed.trans hclosed)
  | wakeOne hwake =>
    rcases h.wakeOne with ⟨hwake', -⟩ | ⟨dead, t, v, rest, inner, -, -, -, hwake', -, hends, -⟩
    · cases hwake.symm.trans hwake'
      exact hclosed
    · cases hwake.symm.trans hwake'
      exact hends.closed.trans hclosed
  | close hclose =>
    obtain ⟨inner, woken, hclose', -, -, hend, -⟩ := h.close
    cases hclose.symm.trans hclose'
    exact hend

theorem Kept.close_closed {woken : List Waker} (h : w.Kept)
    (hstep : CallStep w (.close, .closed woken) w') :
  w'.inner.closed = true
  := by
  cases hstep with
  | close hclose =>
    obtain ⟨inner, woken', hclose', -, -, hend, -⟩ := h.close
    cases hclose.symm.trans hclose'
    exact hend

/-- No call breaks what holds between the calls. -/
theorem Kept.step {e : Call × Reply} (h : w.Kept) (hstep : CallStep w e w') :
  w'.Kept
  := by
  have hcompacted : ∀ {inner : Inner}, inner.Keeps inner.order →
      (inner.closed = true → inner.order = []) →
      Kept ⟨inner.compacted, inner.occupied⟩ := by
    intro inner hkeeps hover
    obtain ⟨-, hoccupied, -, -, -, hclosed⟩ := compacted_other inner
    refine ⟨hkeeps.compacted, hoccupied.symm, fun hend => ?_⟩
    have hsublist : inner.compacted.order.Sublist inner.order := compacted_sublist
    rw [hover (hclosed.symm.trans hend)] at hsublist
    exact List.sublist_nil.mp hsublist
  cases hstep with
  | @park w' v ticket hpark =>
    rcases h.park_cases v with ⟨-, hpark'⟩ | ⟨hopen, hfew, -⟩ | ⟨-, -, hpark'⟩
    · cases hpark.symm.trans hpark'
    · obtain ⟨inner, ticket', hpark', hkeeps, -, -, -, -, -, hclosed, -⟩ := h.park hopen hfew v
      cases hpark.symm.trans hpark'
      refine hcompacted hkeeps fun hend => ?_
      cases hclosed.symm.trans hend
    · cases hpark.symm.trans hpark'
  | @refused w' v e hpark =>
    rcases h.park_cases v with ⟨-, hpark'⟩ | ⟨-, -, w₁, ticket, hpark'⟩ | ⟨-, -, hpark'⟩
    · cases hpark.symm.trans hpark'
      exact h
    · cases hpark.symm.trans hpark'
    · cases hpark.symm.trans hpark'
  | overflow => exact ⟨h.keeps.of_slots rfl rfl, h.published, h.ended⟩
  | @refresh t v => exact (h.refresh t v).1
  | @cancel w' t live hcancel =>
    cases hlive : w.inner.waker t with
    | none =>
      cases hcancel.symm.trans (cancel_over hlive)
      exact h
    | some v =>
      obtain ⟨inner, hcancel', hkeeps, horder, -, hends, -⟩ := h.cancel hlive
      cases hcancel.symm.trans hcancel'
      refine hcompacted hkeeps fun hend => ?_
      rw [horder]
      exact h.ended (hends.closed.symm.trans hend)
  | wakeOne hwake =>
    rcases h.wakeOne with ⟨hwake', hnone⟩ | ⟨dead, t, v, rest, inner, horder, -, -, hwake', hkeeps,
      hends, -⟩
    · cases hwake.symm.trans hwake'
      refine ⟨⟨⟨h.keeps.sound.idle, h.keeps.sound.nodup⟩, ?_, ?_, h.keeps.count, h.keeps.fits⟩,
        h.published, fun _ => rfl⟩
      · intro t ht
        cases ht
      · intro t v hv
        cases (hnone t).symm.trans hv
    · cases hwake.symm.trans hwake'
      refine ⟨hkeeps, rfl, fun hend => ?_⟩
      rw [h.ended (hends.closed.symm.trans hend)] at horder
      cases (List.append_eq_nil_iff.mp horder.symm).2
  | close hclose =>
    obtain ⟨inner, woken, hclose', hkeeps, horder, -⟩ := h.close
    cases hclose.symm.trans hclose'
    refine ⟨?_, rfl, fun _ => horder⟩
    show inner.Keeps inner.order
    rw [horder]
    exact hkeeps

/-- Every call is answered. -/
theorem Kept.answers (h : w.Kept) (call : Call) :
  ∃ reply w', CallStep w (call, reply) w'
  := by
  cases call with
  | park v =>
    rcases h.park_cases v with ⟨-, hpark⟩ | ⟨-, -, w', ticket, hpark⟩ | ⟨-, -, hpark⟩
    · exact ⟨_, _, .refused hpark⟩
    · exact ⟨_, _, .park hpark⟩
    · exact ⟨_, _, .overflow hpark⟩
  | refresh t v => exact ⟨_, _, .refresh⟩
  | cancel t =>
    cases hlive : w.inner.waker t with
    | none => exact ⟨_, _, .cancel (cancel_over hlive)⟩
    | some v =>
      obtain ⟨inner, hcancel, -⟩ := h.cancel hlive
      exact ⟨_, _, .cancel hcancel⟩
  | wakeOne =>
    rcases h.wakeOne with ⟨hwake, -⟩ | ⟨dead, t, v, rest, inner, -, -, -, hwake, -⟩
    · exact ⟨_, _, .wakeOne hwake⟩
    · exact ⟨_, _, .wakeOne hwake⟩
  | close =>
    obtain ⟨inner, woken, hclose, -⟩ := h.close
    exact ⟨_, _, .close hclose⟩

end Grommet.Waiters
