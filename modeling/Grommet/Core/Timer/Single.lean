import Grommet.Core.Timer.Clock
import Grommet.Core.Timer.Progress

/-!
# A wheel with one timer

A wheel that holds no timer accepts one for every tick within its reach, as long as a slab
position has a generation left.  The wheel is then due at its cursor exactly when the timer is.
-/

open Checked

namespace Grommet.Timer

variable {T : Type}

namespace Wheel

/-- The wheel holds no timer. -/
def Bare (w : Wheel T) : Prop := ∀ s ∈ w.contents, s.token = none

/-- The wheel holds one timer, for the given tick. -/
def Sole (w : Wheel T) (d : ℕ) : Prop :=
  ∃ (i : ℕ) (s : Content T), w.contents[i]? = some s ∧ s.token.isSome ∧ s.deadline = d ∧
    ∀ (j : ℕ) (s' : Content T), w.contents[j]? = some s' → s'.token.isSome → j = i

/-- A slab position has a generation left. -/
def Spare (w : Wheel T) : Prop := ∃ s ∈ w.contents, s.generation ≠ U64_MAX

/-- The one timer has one tick. -/
theorem Sole.unique {w : Wheel T} {d d' : ℕ} (h : w.Sole d) (h' : w.Sole d') :
  d = d'
  := by
  obtain ⟨i, s, hs, htoken, rfl, -⟩ := h
  obtain ⟨i', s', hs', -, rfl, honly⟩ := h'
  have hsame := honly i s hs htoken
  subst hsame
  rw [hs, Option.some.injEq] at hs'
  rw [hs']

namespace Good

variable {w w' : Wheel T} {d n : ℕ} {t : T}

/-- A wheel without timers has a free position as long as one has a generation left. -/
theorem free_ne_nil_iff (h : w.Good) (hbare : w.Bare) :
  w.free ≠ NIL ↔ w.Spare
  := by
  obtain ⟨lists, free, hlinks⟩ := h.links
  have hhead : w.free = NIL ↔ free = [] := by
    rw [← ofSentinel_eq_none_iff, hlinks.free_head, List.head?_eq_none_iff]
  rw [ne_eq, hhead]
  constructor
  · intro hfree
    obtain ⟨i, hi⟩ := List.exists_mem_of_ne_nil _ hfree
    obtain ⟨c, hc, htoken, hlevel⟩ := (hlinks.free_iff i).mp hi
    refine ⟨c.content, List.mem_of_getElem? (contents_getElem? hc), ?_⟩
    rcases (hlinks.valid i c hc).idle htoken with ⟨-, hgeneration⟩ | ⟨hretired, -⟩
    · apply hgeneration
    · rw [hlevel] at hretired
      cases hretired
  · rintro ⟨s, hs, hgeneration⟩ rfl
    obtain ⟨c, hc, rfl⟩ := List.mem_map.mp hs
    obtain ⟨i, hi⟩ := List.mem_iff_getElem?.mp hc
    have htoken : c.token = none := hbare _ hs
    rcases (hlinks.valid i c hi).idle htoken with ⟨hlevel, -⟩ | ⟨-, hretired⟩
    · have hmem := (hlinks.free_iff i).mpr ⟨c, hi, htoken, hlevel⟩
      cases hmem
    · apply hgeneration hretired

/-- An accepted timer is the only one. -/
theorem insert_sole (h : w.Good) (hbare : w.Bare) {id : TimerId}
    (hinsert : w.tryInsertAt d t = .ok (w', .ok id)) :
  w'.Good ∧ w'.cursor = w.cursor ∧ w'.Sole d
  := by
  rcases h.tryInsertAt d t with
    ⟨kind, hfail, -⟩ | ⟨w₁, id₁, i, s, hok, hgood, hcursor, -, -, hs, -, hcontents⟩
  · rw [hinsert] at hfail
    cases hfail
  · rw [hinsert] at hok
    cases hok
    have hlt := (List.getElem?_eq_some_iff.mp hs).1
    refine ⟨hgood, hcursor, i, _, by rw [hcontents, List.getElem?_set_self hlt], rfl, rfl, ?_⟩
    intro j s' hj htoken
    by_contra hne
    rw [hcontents, List.getElem?_set_ne (Ne.symm hne)] at hj
    rw [hbare s' (List.mem_of_getElem? hj)] at htoken
    cases htoken

/-- A wheel without timers accepts one exactly for a tick within its reach, when a position has
a generation left. -/
theorem insert_iff (h : w.Good) (hbare : w.Bare) :
  (∃ w' id, w.tryInsertAt d t = .ok (w', .ok id)) ↔
    d ≤ MAX_TICK ∧ d ≤ w.cursor + MAX_DELAY_TICKS ∧ w.Spare
  := by
  rw [← h.free_ne_nil_iff hbare]
  constructor
  · rintro ⟨w', id, hok⟩
    rw [Wheel.tryInsertAt] at hok
    by_cases hmax : MAX_TICK < d
    · rw [if_pos hmax] at hok
      cases hok
    rw [if_neg hmax] at hok
    by_cases hfits : deadlineFits w.cursor d = true
    swap
    · rw [if_pos (by simpa using hfits)] at hok
      cases hok
    rw [if_neg (by simpa using hfits)] at hok
    by_cases hfull : w.free = NIL
    · rw [if_pos hfull] at hok
      cases hok
    exact ⟨Nat.not_lt.mp hmax, deadlineFits_iff.mp hfits, hfull⟩
  · rintro ⟨hmax, hfits, hfree⟩
    rcases h.tryInsertAt d t with ⟨kind, hfail, -⟩ | ⟨w', id, i, s, hok, -⟩
    · have hfits' : deadlineFits w.cursor d = true := deadlineFits_iff.mpr hfits
      rw [Wheel.tryInsertAt, if_neg (Nat.not_lt.mpr hmax), if_neg (by simpa using hfits'),
        if_neg hfree, bind_eq_ok] at hfail
      obtain ⟨⟨w₁, i⟩, -, hfail⟩ := hfail
      simp only [bind_eq_ok] at hfail
      obtain ⟨_, -, _, -, _, -, hfail⟩ := hfail
      cases hfail
    · exact ⟨w', id, hok⟩

/-- An advance leaves the only timer, or fires it. -/
theorem advance_sole (h : w.Good) (hsole : w.Sole d) (hcursor : w.cursor ≤ n) (hn : n ≤ MAX_TICK) :
  ∃ w' tokens, w.advanceTo n = .ok (w', tokens) ∧ w'.Good ∧ w'.cursor = n ∧
    (w'.Spare ↔ w.Spare) ∧
    (d ≤ n ∧ w'.Bare ∧ (∃ t, tokens = [t]) ∨ n < d ∧ w'.Sole d ∧ tokens = [])
  := by
  obtain ⟨w', tokens, fired, hadvance, hgood, hcursor', -, hcontents, hsweeps⟩ :=
    h.advanceTo hcursor hn
  obtain ⟨i, s, hs, htoken, rfl, honly⟩ := hsole
  have hspare : w'.Spare ↔ w.Spare := by
    have hsame : ∀ s : Content T, (s.lapsed n).generation = s.generation := by
      intro s
      rw [Content.lapsed]
      split <;> rfl
    rw [Spare, Spare, hcontents]
    simp only [List.mem_map]
    constructor
    · rintro ⟨_, ⟨s, hmem, rfl⟩, hgeneration⟩
      exact ⟨s, hmem, by rwa [hsame] at hgeneration⟩
    · rintro ⟨s, hmem, hgeneration⟩
      exact ⟨_, ⟨s, hmem, rfl⟩, by rwa [hsame]⟩
  have hmem : ∀ j, j ∈ fired ↔ j = i ∧ s.deadline ≤ n := by
    intro j
    rw [hsweeps.mem_iff]
    constructor
    · rintro ⟨c, hc, hlive, hdue⟩
      have hj := honly j c.content (contents_getElem? hc) hlive
      subst hj
      rw [contents_getElem? hc, Option.some.injEq] at hs
      subst hs
      exact ⟨rfl, hdue⟩
    · rintro ⟨rfl, hdue⟩
      rw [contents, List.getElem?_map, Option.map_eq_some_iff] at hs
      obtain ⟨c, hc, rfl⟩ := hs
      exact ⟨c, hc, htoken, hdue⟩
  refine ⟨w', tokens, hadvance, hgood, hcursor', hspare, ?_⟩
  by_cases hdue : s.deadline ≤ n
  · left
    refine ⟨hdue, ?_, ?_⟩
    · intro s' hs'
      rw [hcontents] at hs'
      obtain ⟨s₀, hs₀, rfl⟩ := List.mem_map.mp hs'
      obtain ⟨j, hj⟩ := List.mem_iff_getElem?.mp hs₀
      by_cases hlive : s₀.token.isSome
      · have hji := honly j s₀ hj hlive
        subst hji
        rw [hj, Option.some.injEq] at hs
        subst hs
        rw [Content.lapsed, if_pos hdue]
      · rw [Option.not_isSome_iff_eq_none] at hlive
        rw [Content.lapsed]
        split
        · rfl
        · apply hlive
    · have hfired : fired = [i] := by
        rw [← List.perm_singleton]
        apply (List.perm_ext_iff_of_nodup hsweeps.nodup (List.nodup_singleton i)).mpr
        intro j
        rw [hmem, List.mem_singleton]
        simp [hdue]
      have hlength := congrArg List.length hsweeps.tokens_eq
      rw [hfired, List.length_map, List.length_map, List.length_singleton] at hlength
      apply List.length_eq_one_iff.mp hlength
  · right
    refine ⟨Nat.not_le.mp hdue, ?_, ?_⟩
    · refine ⟨i, s, ?_, htoken, rfl, ?_⟩
      · rw [hcontents, List.getElem?_map, hs, Option.map_some, Content.lapsed, if_neg hdue]
      · intro j s' hj hlive
        rw [hcontents, List.getElem?_map, Option.map_eq_some_iff] at hj
        obtain ⟨s₀, hs₀, rfl⟩ := hj
        apply honly j s₀ hs₀
        rw [Content.lapsed] at hlive
        split at hlive
        · cases hlive
        · apply hlive
    · have hfired : fired = [] := by
        rw [List.eq_nil_iff_forall_not_mem]
        intro j hj
        apply hdue ((hmem j).mp hj).2
      have hlength := congrArg List.length hsweeps.tokens_eq
      rw [hfired, List.length_map, List.map_nil, List.length_nil] at hlength
      apply List.length_eq_zero_iff.mp hlength

/-- The wheel is due at its cursor exactly when its only timer is. -/
theorem due_sole (h : w.Good) (hsole : w.Sole d) :
  w.nextEvent ≤ w.cursor ↔ d ≤ w.cursor
  := by
  obtain ⟨i, s, hs, htoken, rfl, honly⟩ := hsole
  rw [contents, List.getElem?_map, Option.map_eq_some_iff] at hs
  obtain ⟨c, hc, rfl⟩ := hs
  have hmem := List.mem_of_getElem? hc
  have hfiled := h.filed c hmem htoken
  change _ ↔ c.deadline ≤ w.cursor
  constructor
  · intro hevent
    by_contra hlate
    have hne : w.nextEvent ≠ U64_MAX := by
      have hcursor := h.cursor
      have hmax : MAX_TICK < U64_MAX := by decide
      omega
    obtain ⟨c', hc', hlive, hwakeup⟩ := h.exists_event hne
    obtain ⟨j, hj⟩ := List.mem_iff_getElem?.mp hc'
    have hji := honly j c'.content (contents_getElem? hj) hlive
    subst hji
    rw [hc, Option.some.injEq] at hj
    subst hj
    have hlt := hfiled.lt_wakeup (Nat.not_le.mp hlate)
    omega
  · intro hdue
    have hle := (h.event_le hmem htoken).trans hfiled.wakeup_bounds.2
    omega

end Good

end Wheel

end Grommet.Timer
