import Grommet.Runtime.Waiters.Model
import Mathlib.Logic.Function.Basic

/-!
# Tickets and wakers

What the operations on the queue of parked callers do to the wakers of the tickets.  As long
as the generations do not wrap, a ticket is live from the operation that issued it to the
one that ended it, and every other operation leaves its waker alone.
-/

open Checked

namespace Grommet.Waiters

variable {inner inner' : Inner} {w w' : Waiters} {ticket t : Ticket} {v : Waker} {slot g : ℕ}
  {s : Slot}

theorem live_iff :
  inner.live ticket = true ↔ ∃ v, inner.waker ticket = some v
  := by
  rw [Inner.live, Inner.waker]
  cases inner.slots[ticket.slot]? with
  | none => simp
  | some entry =>
    by_cases hg : entry.generation = ticket.generation
    · simp [hg, Option.isSome_iff_exists]
    · simp [hg]

/-- The free slots hold no registration. -/
structure Inner.Sound (inner : Inner) : Prop where
  idle : ∀ slot ∈ inner.free, ∃ s, inner.slots[slot]? = some s ∧ s.waker = none
  nodup : inner.free.Nodup

/-- The waker of a ticket, by its slot. -/
theorem waker_of_slot (hs : inner.slots[ticket.slot]? = some s) :
  inner.waker ticket = if s.generation = ticket.generation then s.waker else none
  := by
  rw [Inner.waker, hs]

/-- A ticket is live in the slot that it names. -/
theorem slot_of_waker (h : inner.waker t = some v) :
  ∃ s, inner.slots[t.slot]? = some s ∧ s.generation = t.generation ∧ s.waker = some v
  := by
  cases hs : inner.slots[t.slot]? with
  | none =>
    rw [Inner.waker, hs] at h
    cases h
  | some s =>
    rw [waker_of_slot hs, Option.ite_none_right_eq_some] at h
    exact ⟨s, rfl, h⟩

theorem slot_eq_ok (h : inner.slot slot = .ok s) :
  inner.slots[slot]? = some s
  := by
  rw [Inner.slot] at h
  split at h
  · rename_i hs
    cases h
    exact hs
  · cases h

/-- An occupied slot is not free. -/
theorem Inner.Sound.not_free (h : inner.Sound) (hs : inner.slots[slot]? = some s)
    (hv : s.waker = some v) :
  slot ∉ inner.free
  := by
  intro hmem
  obtain ⟨s', hs', hnone⟩ := h.idle slot hmem
  rw [hs, Option.some_inj] at hs'
  rw [← hs', hv] at hnone
  cases hnone

/-- Writing one slot changes the wakers of its tickets only. -/
theorem waker_set (hs : inner.slots[slot]? = some s)
    (hslots : inner'.slots = inner.slots.set slot ⟨none, g⟩)
    (t : Ticket) :
  inner'.waker t = if t.slot = slot then none else inner.waker t
  := by
  have hlt := (List.getElem?_eq_some_iff.mp hs).1
  rw [Inner.waker, hslots, List.getElem?_set]
  by_cases ht : slot = t.slot
  · rw [if_pos ht, if_pos hlt, if_pos ht.symm]
    simp
  · rw [if_neg ht, if_neg (Ne.symm ht), Inner.waker]

/-- Retiring the registration in a slot ends the ticket that was live there. -/
theorem Inner.Sound.retire (h : inner.Sound) (hs : inner.slots[slot]? = some s)
    (hv : s.waker = some v) :
  ∃ inner', inner.retire slot = .ok (inner', some v) ∧ inner'.Sound ∧
    inner'.nextGeneration = inner.nextGeneration ∧ inner'.order = inner.order ∧
    inner'.waker = Function.update inner.waker ⟨slot, s.generation⟩ none
  := by
  have hlt := (List.getElem?_eq_some_iff.mp hs).1
  refine ⟨{ inner with
      slots := inner.slots.set slot ⟨none, wrappingSucc s.generation⟩
      free := slot :: inner.free }, ?_, ⟨?_, ?_⟩, rfl, rfl, ?_⟩
  · rw [Inner.retire, Inner.slot, hs]
    simp only [ok_bind, hv]
  · intro j hj
    rcases List.mem_cons.mp hj with rfl | hj
    · exact ⟨_, List.getElem?_set_self hlt, rfl⟩
    · obtain ⟨s', hs', hnone⟩ := h.idle j hj
      refine ⟨s', ?_, hnone⟩
      rw [List.getElem?_set_ne, hs']
      rintro rfl
      apply h.not_free hs hv hj
  · exact List.nodup_cons.mpr ⟨h.not_free hs hv, h.nodup⟩
  · funext t
    rw [waker_set hs rfl, Function.update_apply]
    by_cases ht : t.slot = slot
    · rw [if_pos ht]
      split
      · rfl
      · rename_i hne
        subst ht
        rw [waker_of_slot hs, if_neg]
        intro heq
        apply hne
        rw [heq]
    · rw [if_neg ht, if_neg]
      rintro rfl
      exact ht rfl

/-- A registration makes one more ticket live. -/
theorem Inner.Sound.register (h : inner.Sound) (hreg : inner.register v g = .ok (inner', slot)) :
  inner'.Sound ∧ inner'.nextGeneration = inner.nextGeneration ∧ inner'.order = inner.order ∧
    inner'.waker = Function.update inner.waker ⟨slot, g⟩ (some v)
  := by
  rw [Inner.register] at hreg
  cases hfree : inner.free with
  | cons j free =>
    rw [hfree] at hreg
    simp only at hreg
    rw [bind_eq_ok] at hreg
    obtain ⟨s, -, hreg⟩ := hreg
    cases hreg
    obtain ⟨s, hs, hnone⟩ := h.idle slot (by simp [hfree])
    have hlt := (List.getElem?_eq_some_iff.mp hs).1
    have hnodup := h.nodup
    rw [hfree] at hnodup
    obtain ⟨hout, hnodup⟩ := List.nodup_cons.mp hnodup
    refine ⟨⟨?_, hnodup⟩, rfl, rfl, ?_⟩
    · intro k hk
      obtain ⟨s', hs', hidle⟩ := h.idle k (by rw [hfree]; exact List.mem_cons_of_mem _ hk)
      refine ⟨s', ?_, hidle⟩
      rw [List.getElem?_set_ne, hs']
      rintro rfl
      exact hout hk
    · funext t
      rw [Inner.waker, List.getElem?_set, Function.update_apply]
      by_cases ht : slot = t.slot
      · rw [if_pos ht, if_pos hlt]
        subst ht
        rw [waker_of_slot hs, hnone]
        simp only
        by_cases hg : g = t.generation
        · rw [if_pos hg, if_pos (by rw [hg])]
        · rw [if_neg hg, if_neg, ite_self]
          intro heq
          apply hg
          rw [heq]
      · rw [if_neg ht, if_neg, Inner.waker]
        intro heq
        apply ht
        rw [heq]
  | nil =>
    rw [hfree] at hreg
    simp only at hreg
    rw [bind_eq_ok] at hreg
    obtain ⟨j, hj, hreg⟩ := hreg
    rw [expect_eq_ok, Option.ite_none_right_eq_some, Option.some_inj] at hj
    obtain ⟨-, rfl⟩ := hj
    cases hreg
    refine ⟨⟨?_, List.nodup_nil⟩, rfl, rfl, ?_⟩
    · intro k hk
      cases hk
    · funext t
      rw [Inner.waker, Function.update_apply]
      by_cases ht : t.slot = inner.slots.length
      · have hnone : inner.waker t = none := by
          rw [Inner.waker, List.getElem?_eq_none (by omega)]
        rw [ht, List.getElem?_concat_length, hnone]
        simp only
        by_cases hg : g = t.generation
        · rw [if_pos hg, if_pos (by rw [hg, ← ht])]
        · rw [if_neg hg, if_neg]
          intro heq
          apply hg
          rw [heq]
      · rw [if_neg]
        · rw [Inner.waker]
          by_cases hlt : t.slot < inner.slots.length
          · rw [List.getElem?_append_left hlt]
          · rw [List.getElem?_eq_none (by simp; omega), List.getElem?_eq_none (by omega)]
        · intro heq
          apply ht
          rw [heq]

/-- Compaction touches the order of arrival only. -/
theorem Inner.Sound.compact (h : inner.Sound) (hcompact : inner.compact = .ok inner') :
  inner'.Sound ∧ inner'.nextGeneration = inner.nextGeneration ∧ inner'.waker = inner.waker
  := by
  rw [Inner.compact] at hcompact
  split at hcompact
  · cases hcompact
    exact ⟨h, rfl, rfl⟩
  · split at hcompact
    · cases hcompact
      exact ⟨⟨h.idle, h.nodup⟩, rfl, rfl⟩
    · cases hcompact

/-- Registrations may only end, and only those end whose wakers are woken. -/
structure Wakes (inner inner' : Inner) (woken : List Waker) : Prop where
  sound : inner'.Sound
  generation : inner'.nextGeneration = inner.nextGeneration
  ends : ∀ t, inner'.waker t = inner.waker t ∨
    (inner'.waker t = none ∧ ∃ v ∈ woken, inner.waker t = some v)

theorem Wakes.refl (h : inner.Sound) :
  Wakes inner inner []
  := ⟨h, rfl, fun _ => Or.inl rfl⟩

theorem Wakes.trans {inner'' : Inner} {a b : List Waker} (h : Wakes inner inner' a)
    (h' : Wakes inner' inner'' b) :
  Wakes inner inner'' (a ++ b)
  := by
  refine ⟨h'.sound, h'.generation.trans h.generation, ?_⟩
  intro t
  rcases h.ends t with heq | ⟨hnone, v, hv, hwaker⟩
  · rcases h'.ends t with heq' | ⟨hnone', v, hv, hwaker⟩
    · exact Or.inl (heq'.trans heq)
    · exact Or.inr ⟨hnone', v, List.mem_append_right _ hv, heq ▸ hwaker⟩
  · right
    refine ⟨?_, v, List.mem_append_left _ hv, hwaker⟩
    rcases h'.ends t with heq' | ⟨hnone', -⟩
    · rw [heq', hnone]
    · exact hnone'

/-- The wakers do not depend on the order of arrival and on whether the queue is closed. -/
theorem Wakes.congr {woken : List Waker} (h : Wakes inner inner' woken) (order : List Ticket)
    (closed : Bool) :
  Wakes inner { inner' with order := order, closed := closed } woken
  := ⟨⟨h.sound.idle, h.sound.nodup⟩, h.generation, h.ends⟩

/-- Retiring the registration of an entry of the order wakes its waker. -/
theorem Wakes.retire {waker : Option Waker} (h : inner.Sound)
    (hretire : inner.retire slot = .ok (inner', waker)) :
  Wakes inner inner' waker.toList
  := by
  cases hs : inner.slots[slot]? with
  | none =>
    rw [Inner.retire, Inner.slot, hs] at hretire
    cases hretire
  | some s =>
    cases hv : s.waker with
    | none =>
      rw [Inner.retire, Inner.slot, hs] at hretire
      simp only [ok_bind, hv] at hretire
      cases hretire
      apply Wakes.refl h
    | some v =>
      obtain ⟨inner₁, hretire₁, hsound, hgeneration, -, hwaker⟩ := h.retire hs hv
      rw [hretire] at hretire₁
      cases hretire₁
      refine ⟨hsound, hgeneration, ?_⟩
      intro t
      rw [hwaker, Function.update_apply]
      by_cases ht : t = ⟨slot, s.generation⟩
      · right
        refine ⟨if_pos ht, v, by simp, ?_⟩
        rw [ht, waker_of_slot hs, if_pos rfl, hv]
      · exact Or.inl (if_neg ht)

theorem Wakes.wakeLoop {woken : Option Waker} (order : List Ticket) (h : inner.Sound)
    (hloop : inner.wakeLoop order = .ok (inner', woken)) :
  Wakes inner inner' woken.toList
  := by
  induction order generalizing inner with
  | nil =>
    rw [Inner.wakeLoop] at hloop
    cases hloop
    apply (Wakes.refl h).congr
  | cons ticket order ih =>
    rw [Inner.wakeLoop, bind_eq_ok] at hloop
    obtain ⟨entry, -, hloop⟩ := hloop
    split at hloop
    · apply ih h hloop
    · rw [bind_eq_ok] at hloop
      obtain ⟨⟨inner₁, waker⟩, hretire, hloop⟩ := hloop
      have hwakes := Wakes.retire h hretire
      cases waker with
      | none => exact hwakes.trans (ih hwakes.sound hloop)
      | some v =>
        cases hloop
        apply hwakes.congr

theorem Wakes.closeLoop {woken : List Waker} (order : List Ticket) (h : inner.Sound)
    (hloop : inner.closeLoop order = .ok (inner', woken)) :
  Wakes inner inner' woken
  := by
  induction order generalizing inner woken with
  | nil =>
    rw [Inner.closeLoop] at hloop
    cases hloop
    apply (Wakes.refl h).congr
  | cons ticket order ih =>
    rw [Inner.closeLoop, bind_eq_ok] at hloop
    obtain ⟨entry, -, hloop⟩ := hloop
    split at hloop
    · apply ih h hloop
    · rw [bind_eq_ok] at hloop
      obtain ⟨⟨inner₁, waker⟩, hretire, hloop⟩ := hloop
      simp only at hloop
      rw [bind_eq_ok] at hloop
      obtain ⟨⟨inner₂, rest⟩, hrest, hloop⟩ := hloop
      cases hloop
      have hwakes := Wakes.retire h hretire
      exact hwakes.trans (ih hwakes.sound hrest)

/-! ### The operations -/

theorem publish_inner (h : publish inner = .ok w) :
  w.inner = inner
  := by
  rw [publish, bind_eq_ok] at h
  obtain ⟨live, -, h⟩ := h
  cases h
  rfl

theorem wakeOne_eq_ok {woken : Option Waker} (h : w.wakeOne = .ok (w', woken)) :
  w.inner.wakeLoop w.inner.order = .ok (w'.inner, woken)
  := by
  rw [wakeOne, bind_eq_ok] at h
  obtain ⟨⟨inner, waker⟩, hloop, h⟩ := h
  obtain ⟨w₁, hpublish, h⟩ := bind_eq_ok.mp h
  cases h
  rw [publish_inner hpublish]
  exact hloop

theorem close_eq_ok {woken : List Waker} (h : w.close = .ok (w', woken)) :
  Inner.closeLoop { w.inner with closed := true } w.inner.order = .ok (w'.inner, woken)
  := by
  rw [close, bind_eq_ok] at h
  obtain ⟨⟨inner, wakers⟩, hloop, h⟩ := h
  obtain ⟨w₁, hpublish, h⟩ := bind_eq_ok.mp h
  cases h
  rw [publish_inner hpublish]
  exact hloop

/-- A closed list issues no ticket; another one registers, lists the ticket and compacts. -/
theorem park_eq_ok {result : Except Closed Ticket} (h : w.park v = .ok (w', result)) :
  (result = .error .closed ∧ w' = w) ∨
    ∃ inner slot, Inner.register { w.inner with
        nextGeneration := wrappingSucc w.inner.nextGeneration } v w.inner.nextGeneration =
        .ok (inner, slot) ∧
      Inner.compact { inner with order := inner.order ++ [⟨slot, w.inner.nextGeneration⟩] } =
        .ok w'.inner ∧
      result = .ok ⟨slot, w.inner.nextGeneration⟩
  := by
  rw [park] at h
  split at h
  · cases h
    exact Or.inl ⟨rfl, rfl⟩
  · obtain ⟨⟨inner, slot⟩, hregister, h⟩ := bind_eq_ok.mp h
    obtain ⟨inner₁, hcompact, h⟩ := bind_eq_ok.mp h
    obtain ⟨w₁, hpublish, h⟩ := bind_eq_ok.mp h
    cases h
    rw [publish_inner hpublish]
    exact Or.inr ⟨inner, slot, hregister, hcompact, rfl⟩

/-- A live ticket is retired before the list is compacted; another one changes nothing. -/
theorem cancel_eq_ok {b : Bool} (h : w.cancel ticket = .ok (w', b)) :
  w' = w ∨ w.inner.live ticket = true ∧ ∃ inner waker,
    w.inner.retire ticket.slot = .ok (inner, waker) ∧ inner.compact = .ok w'.inner
  := by
  rw [cancel] at h
  split at h
  · rename_i hlive
    obtain ⟨⟨inner, waker⟩, hretire, h⟩ := bind_eq_ok.mp h
    obtain ⟨inner₁, hcompact, h⟩ := bind_eq_ok.mp h
    obtain ⟨w₁, hpublish, h⟩ := bind_eq_ok.mp h
    cases h
    rw [publish_inner hpublish]
    exact Or.inr ⟨hlive, inner, waker, hretire, hcompact⟩
  · cases h
    exact Or.inl rfl

theorem wakeOne_wakes {woken : Option Waker} (h : w.inner.Sound)
    (hwake : w.wakeOne = .ok (w', woken)) :
  Wakes w.inner w'.inner woken.toList
  := Wakes.wakeLoop _ h (wakeOne_eq_ok hwake)

theorem close_wakes {woken : List Waker} (h : w.inner.Sound) (hclose : w.close = .ok (w', woken)) :
  Wakes w.inner w'.inner woken
  := by
  have hwakes := Wakes.closeLoop w.inner.order
    (show Inner.Sound { w.inner with closed := true } from ⟨h.idle, h.nodup⟩) (close_eq_ok hclose)
  exact ⟨hwakes.sound, hwakes.generation, hwakes.ends⟩

/-- Parking issues a ticket with a new generation and makes it live. -/
theorem park_spec {result : Except Closed Ticket} (h : w.inner.Sound)
    (hroom : w.inner.nextGeneration + 1 < 2 ^ 64) (hpark : w.park v = .ok (w', result)) :
  w'.inner.Sound ∧
    ((∃ e, result = .error e ∧ w' = w) ∨
      ∃ ticket, result = .ok ticket ∧ ticket.generation = w.inner.nextGeneration ∧
        w'.inner.nextGeneration = w.inner.nextGeneration + 1 ∧
        w'.inner.waker = Function.update w.inner.waker ticket (some v))
  := by
  rcases park_eq_ok hpark with ⟨rfl, rfl⟩ | ⟨inner, slot, hregister, hcompact, rfl⟩
  · exact ⟨h, Or.inl ⟨_, rfl, rfl⟩⟩
  · have hsound : Inner.Sound { w.inner with
        nextGeneration := wrappingSucc w.inner.nextGeneration } := ⟨h.idle, h.nodup⟩
    obtain ⟨hsound₁, hnext₁, -, hwaker₁⟩ := hsound.register hregister
    have hsound₁' : Inner.Sound { inner with
        order := inner.order ++ [⟨slot, w.inner.nextGeneration⟩] } :=
      ⟨hsound₁.idle, hsound₁.nodup⟩
    obtain ⟨hsound₂, hnext₂, hwaker₂⟩ := hsound₁'.compact hcompact
    refine ⟨hsound₂, Or.inr ⟨_, rfl, rfl, ?_, ?_⟩⟩
    · rw [hnext₂, hnext₁]
      apply Nat.mod_eq_of_lt hroom
    · rw [hwaker₂]
      exact hwaker₁

/-- Refreshing points a live ticket at its new waker. -/
theorem refresh_spec (ticket : Ticket) (v : Waker) (h : w.inner.Sound) :
  (w.refresh ticket v).inner.Sound ∧
    (w.refresh ticket v).inner.nextGeneration = w.inner.nextGeneration ∧
    (w.refresh ticket v).inner.waker =
      if w.inner.live ticket then Function.update w.inner.waker ticket (some v)
      else w.inner.waker
  := by
  rw [refresh]
  split
  · rename_i hlive
    obtain ⟨u, hu⟩ := live_iff.mp hlive
    obtain ⟨s, hs, hg, hwaker⟩ := slot_of_waker hu
    refine ⟨⟨?_, h.nodup⟩, rfl, ?_⟩
    · intro j hj
      obtain ⟨s', hs', hnone⟩ := h.idle j hj
      have hne : ticket.slot ≠ j := by
        rintro rfl
        apply h.not_free hs hwaker hj
      refine ⟨s', ?_, hnone⟩
      simp [hne, hs']
    · funext t
      rw [Inner.waker, List.getElem?_modify, Function.update_apply]
      by_cases ht : ticket.slot = t.slot
      · rw [← ht, hs]
        simp only [if_true, Option.map_eq_map, Option.map_some]
        have hgeneration : (if s.waker = some v then s else { s with waker := some v }).generation
            = s.generation := by
          split <;> rfl
        have hset : (if s.waker = some v then s else { s with waker := some v }).waker = some v := by
          split
          · assumption
          · rfl
        rw [hgeneration, hset]
        by_cases hgt : s.generation = t.generation
        · rw [if_pos hgt, if_pos]
          cases t
          cases ticket
          simp_all
        · rw [if_neg hgt, if_neg, waker_of_slot (ht ▸ hs), if_neg hgt]
          rintro rfl
          exact hgt hg
      · simp only [ht, if_false, Option.map_eq_map, Option.map_id']
        rw [if_neg]
        · rfl
        · rintro rfl
          exact ht rfl
  · exact ⟨h, rfl, rfl⟩

/-- Cancelling ends the ticket, if it was live. -/
theorem cancel_spec {b : Bool} (h : w.inner.Sound) (hcancel : w.cancel ticket = .ok (w', b)) :
  w'.inner.Sound ∧ w'.inner.nextGeneration = w.inner.nextGeneration ∧
    ∀ t, t ≠ ticket → w'.inner.waker t = w.inner.waker t
  := by
  rcases cancel_eq_ok hcancel with rfl | ⟨hlive, inner, waker, hretire, hcompact⟩
  · exact ⟨h, rfl, fun _ _ => rfl⟩
  · obtain ⟨u, hu⟩ := live_iff.mp hlive
    obtain ⟨s, hs, hg, hwaker⟩ := slot_of_waker hu
    obtain ⟨inner₁, hretire₁, hsound, hnext, -, hwaker₁⟩ := h.retire hs hwaker
    rw [hretire] at hretire₁
    cases hretire₁
    obtain ⟨hsound₂, hnext₂, hwaker₂⟩ := hsound.compact hcompact
    refine ⟨hsound₂, hnext₂.trans hnext, ?_⟩
    intro t ht
    rw [hwaker₂, hwaker₁, hg]
    apply Function.update_of_ne ht

end Grommet.Waiters
