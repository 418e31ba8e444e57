import Grommet.Core.Timer.Agenda

/-!
# Advancing skips empty time

The loop of `advance_to_with` goes from event to event.  After an event at a tick, every timer
is filed in a slot that comes up later, so the next event is strictly later.  At an event the
slot that comes up fires some timer, or all its timers move to lower levels; as a timer cannot
move down more often than there are levels, the number of events is bounded by the number of
timers, however far away the target is.
-/

open Checked

namespace Grommet.Timer

variable {T : Type} {w w' : Wheel T} {target : ℕ} {tokens : List T}

/-- One event of an advance. -/
def Wheel.Turn (target : ℕ) (w : Wheel T) (tokens : List T) (w' : Wheel T) : Prop :=
  w.nextEvent ≠ U64_MAX ∧ w.nextEvent ≤ target ∧ w.turn = .ok (w', tokens)

/-- All timers of an occupied slot have moved to lower levels. -/
def Wheel.Lowers (w w' : Wheel T) : Prop :=
  ∃ p, w.Occupied p ∧ ∀ (i : ℕ) (c : Core T), w.cores[i]? = some c → c.token.isSome →
    c.position = p → ∃ c', w'.cores[i]? = some c' ∧ c'.content = c.content ∧ c'.level < c.level

/-- A timer that is not due comes up after the cursor. -/
theorem Filed.lt_wakeup {c d level slot : ℕ} (h : Filed c d level slot) (hd : c < d) :
  c < slotWakeup c level slot
  := by
  rcases h.wakeup with ⟨-, hle, -⟩ | ⟨-, -, heq⟩
  · omega
  · rw [heq]
    by_cases hpos : 0 < level
    · exact h.ahead hpos
    · have hzero : level = 0 := by omega
      rw [hzero, windowStart, width_zero, Nat.div_one, Nat.mul_one]
      exact hd

namespace Wheel.Good

/-- After an event no timer is due. -/
theorem turn_late (h : w.Good) (hturn : w.Turn target tokens w') :
  w'.Good ∧ w'.cursor = w.nextEvent ∧
    w'.cores = w.cores.map (fun c => (c.swept w.nextEvent).expired w.nextEvent) ∧
    w'.Each fun c => w'.cursor < c.deadline
  := by
  obtain ⟨hevent, -, hturn⟩ := hturn
  obtain ⟨w₁, tokens₁, fired, hturn', hgood, hcursor, -, hcores, -⟩ := h.turn hevent
  rw [hturn, Except.ok.injEq, Prod.mk.injEq] at hturn'
  obtain ⟨rfl, rfl⟩ := hturn'
  refine ⟨hgood, hcursor, hcores, ?_⟩
  intro c hc htoken
  rw [hcores, List.mem_map] at hc
  obtain ⟨c, -, rfl⟩ := hc
  obtain ⟨hdeadline, htoken'⟩ := c.turn_spec w.nextEvent
  rw [hcursor, hdeadline]
  by_contra hle
  rw [htoken', if_pos (Nat.not_lt.mp hle)] at htoken
  cases htoken

/-- The next event comes strictly later. -/
theorem turn_later (h : w.Good) (hturn : w.Turn target tokens w') :
  w'.cursor < w'.nextEvent
  := by
  obtain ⟨hgood, -, -, hlate⟩ := h.turn_late hturn
  by_cases hevent : w'.nextEvent = U64_MAX
  · rw [hevent]
    exact lt_of_le_of_lt hgood.cursor (by decide)
  · obtain ⟨c, hc, htoken, heq⟩ := hgood.exists_event hevent
    rw [← heq]
    exact (hgood.filed c hc htoken).lt_wakeup (hlate c hc htoken)

/-- An event fires a timer, or moves all timers of a slot down. -/
theorem turn_works (h : w.Good) (hturn : w.Turn target tokens w') :
  tokens ≠ [] ∨ w.Lowers w'
  := by
  obtain ⟨-, -, hcores, -⟩ := h.turn_late hturn
  obtain ⟨hevent, -, hturn⟩ := hturn
  obtain ⟨w₁, tokens₁, fired, hturn', -, -, -, -, hfires⟩ := h.turn hevent
  rw [hturn, Except.ok.injEq, Prod.mk.injEq] at hturn'
  obtain ⟨rfl, rfl⟩ := hturn'
  by_cases htokens : tokens = []
  · right
    have hnone : fired = [] := by
      have hlength := congrArg List.length hfires.tokens_eq
      rw [htokens, List.length_map, List.length_map] at hlength
      exact List.eq_nil_of_length_eq_zero hlength.symm
    obtain ⟨lists, free, hlinks⟩ := h.links
    obtain ⟨p, hp, hocc, heq⟩ := h.event.attained.resolve_left hevent
    refine ⟨p, hocc, ?_⟩
    intro i c hc htoken hposition
    have hlate : w.nextEvent < c.deadline := by
      by_contra hle
      have hmem := (hfires.mem_iff i).mpr ⟨c, hc, htoken, Nat.not_lt.mp hle⟩
      rw [hnone] at hmem
      cases hmem
    have hwakeup : slotWakeup w.cursor c.level c.slot = w.nextEvent := by
      rw [heq, ← hposition, Core.position]
    refine ⟨(c.swept w.nextEvent).expired w.nextEvent, ?_, ?_, ?_⟩
    · rw [hcores, List.getElem?_map, hc, Option.map_some]
    · rw [c.content_turn, Content.lapsed, if_neg]
      exact Nat.not_le.mpr hlate
    · have hlive : ¬ (c.swept w.nextEvent).Due w.nextEvent := by
        rw [Core.Due, (c.swept_content w.nextEvent).1]
        intro hdue
        omega
      rw [Core.expired, if_neg hlive]
      exact Core.NearAt.swept_level_lt (h.filed c (List.mem_of_getElem? hc) htoken).toNear htoken
        h.cursor_le_event hwakeup hlate
  · exact Or.inl htokens

/-- The events of an advance use up the weight of the timers. -/
theorem turns {ts : List (List T)} (h : w.Good) (hturns : Trail (Wheel.Turn target) w ts w') :
  w'.Good ∧ ts.length + (w'.cores.map Core.weight).sum ≤ (w.cores.map Core.weight).sum
  := by
  apply hturns.invariant (fun ts w' => w'.Good ∧
    ts.length + (w'.cores.map Core.weight).sum ≤ (w.cores.map Core.weight).sum) ⟨h, by simp⟩
  rintro ts w₁ tokens w₂ - ⟨hgood, hle⟩ hturn
  obtain ⟨hgood', -, hcores, -⟩ := hgood.turn_late hturn
  refine ⟨hgood', ?_⟩
  have hlt := hgood.weight_lt rfl hturn.1 hcores
  rw [List.length_append, List.length_singleton]
  omega

/-- The loop goes from event to event until the next one is after the target. -/
theorem advanceLoop_turns {fuel : ℕ} (h : w.Good) (hfuel : (w.cores.map Core.weight).sum < fuel) :
  ∃ ts w₁, Trail (Wheel.Turn target) w ts w₁ ∧
    (w₁.nextEvent = U64_MAX ∨ target < w₁.nextEvent) ∧
    Wheel.advanceLoop target fuel w = .ok ({ w₁ with cursor := target }, ts.flatten)
  := by
  induction fuel generalizing w with
  | zero => omega
  | succ fuel ih =>
    rw [Wheel.advanceLoop]
    by_cases hstop : w.nextEvent = U64_MAX ∨ target < w.nextEvent
    · exact ⟨[], w, Trail.nil, hstop, if_pos hstop⟩
    · obtain ⟨hevent, hle⟩ := not_or.mp hstop
      obtain ⟨w₁, tokens₁, -, hturn, h₁, -, -, hcores₁, -⟩ := h.turn hevent
      have hweight := h.weight_lt rfl hevent hcores₁
      obtain ⟨ts, w₂, htrail, hend, hloop⟩ := ih h₁ (by omega)
      have hfirst : Trail (Wheel.Turn target) w ([] ++ [tokens₁]) w₁ :=
        Trail.nil.snoc ⟨hevent, Nat.not_lt.mp hle, hturn⟩
      refine ⟨[tokens₁] ++ ts, w₂, hfirst.trans htrail, hend, ?_⟩
      rw [if_neg hstop, hturn, ok_bind]
      simp only
      rw [hloop, ok_bind, List.singleton_append, List.flatten_cons]

end Wheel.Good

/-- What the loop of an advance does at each of its events, and how many there are. -/
structure Wheel.Progress (w : Wheel T) (target : ℕ) : Prop where
  /-- An event after another one is at a strictly later tick. -/
  later : ∀ ts w₁ tokens w₂, Trail (Wheel.Turn target) w ts w₁ → w₁.Turn target tokens w₂ →
    ts ≠ [] → w₁.cursor < w₂.cursor
  /-- An event fires a timer or moves all timers of an occupied slot to lower levels. -/
  works : ∀ ts w₁ tokens w₂, Trail (Wheel.Turn target) w ts w₁ → w₁.Turn target tokens w₂ →
    tokens ≠ [] ∨ w₁.Lowers w₂
  bounded : ∀ ts w₁, Trail (Wheel.Turn target) w ts w₁ → ts.length ≤ LEVELS * w.live
  /-- The loop ends after its events, unless the target is before the cursor. -/
  ends : target < w.cursor ∧ w.advanceTo target = .ok (w, []) ∨
    ∃ ts w₁, Trail (Wheel.Turn target) w ts w₁ ∧
      (w₁.nextEvent = U64_MAX ∨ target < w₁.nextEvent) ∧
      w.advanceTo target = .ok ({ w₁ with cursor := target }, ts.flatten)

/-- In every wheel that a run reaches, and for every target, an advance goes from event to
event, each later than the one before and each with some progress, and there are at most eight
for each timer. -/
theorem advance_skips_empty_time {next wheelId after capacity start : ℕ} {w₀ : Wheel T}
    {trace : List (Op T × Answer T)} (hnext : NEXT_WHEEL_ID ≤ next)
    (hid : allocateWheelId next = .ok (wheelId, after))
    (hstart : Wheel.withCapacityAtTick capacity start wheelId = .ok w₀)
    (hrun : Trail Wheel.Step w₀ trace w) (htarget : target ≤ MAX_TICK) :
  w.Progress target
  := by
  have h := good_of_run hnext hid hstart hrun
  refine ⟨?_, ?_, ?_, ?_⟩
  · intro ts w₁ tokens w₂ htrail hturn hts
    obtain ⟨ts, tokens', rfl⟩ := (List.eq_nil_or_concat ts).resolve_left hts
    rw [List.concat_eq_append] at htrail
    obtain ⟨w', htrail, hlast⟩ := htrail.last
    have hgood := (h.turns htrail).1
    have hcursor := ((hgood.turn_late hlast).1.turn_late hturn).2.1
    rw [hcursor]
    exact hgood.turn_later hlast
  · intro ts w₁ tokens w₂ htrail hturn
    exact (h.turns htrail).1.turn_works hturn
  · intro ts w₁ htrail
    have hle := (h.turns htrail).2
    have hweight := h.weight_le_live
    omega
  · rw [Wheel.advanceTo, assert_of (by simpa using htarget), ok_bind]
    by_cases hback : target < w.cursor
    · exact Or.inl ⟨hback, if_pos (Or.inr hback)⟩
    · right
      rw [if_neg (by omega)]
      by_cases hquiet : target < w.nextEvent
      · exact ⟨[], w, Trail.nil, Or.inr hquiet, if_pos hquiet⟩
      · rw [if_neg hquiet]
        apply h.advanceLoop_turns
        have hweight := h.weight_le_live
        omega

/-- A timer for tick one hundred moves down at tick sixty-four. -/
theorem advance_skips_empty_time_cascaded :
  ∃ w₀ w w₁ : Wheel ℕ, ∃ id, Wheel.withCapacityAtTick 1 0 1 = .ok w₀ ∧
    w₀.perform (.tryInsertAt 100 7) = .ok (w, .inserted (.ok id)) ∧
    w.Turn 200 [] w₁ ∧ w₁.cursor = 64 ∧ w.Progress 200
  := by
  have hrun : ∃ w₀ w w₁ : Wheel ℕ, ∃ id, Wheel.withCapacityAtTick 1 0 1 = .ok w₀ ∧
      w₀.perform (.tryInsertAt 100 7) = .ok (w, .inserted (.ok id)) ∧
      w.Turn 200 [] w₁ ∧ w₁.cursor = 64 :=
    ⟨_, _, _, _, rfl, rfl, ⟨by decide, by decide, rfl⟩, rfl⟩
  obtain ⟨w₀, w, w₁, id, hstart, hinsert, hturn, hcursor⟩ := hrun
  have htrail : Trail Wheel.Step w₀ ([] ++ [(.tryInsertAt 100 7, .inserted (.ok id))]) w :=
    Trail.nil.snoc hinsert
  have hid : allocateWheelId 1 = .ok (1, 2) := rfl
  exact ⟨w₀, w, w₁, id, hstart, hinsert, hturn, hcursor,
    advance_skips_empty_time le_rfl hid hstart htrail (by decide)⟩

end Grommet.Timer
