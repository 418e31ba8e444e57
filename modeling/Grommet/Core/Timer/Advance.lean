import Grommet.Core.Timer.Sweep
import Mathlib.Algebra.BigOperators.Ring.List
import Mathlib.Algebra.Order.BigOperators.Group.List
import Mathlib.Algebra.Order.Group.Nat

/-!
# Advancing the wheel

A wheel is good when its lists are, every timer is filed for the cursor and the cached event
is exact.  One event of a good wheel fires the timers due at it, leaves all others and moves
some timer to a lower level, so an advance meets at most eight events for each timer.  It
fires the timers due at its target in the order of their deadlines.
-/

open Checked

namespace Grommet.Timer

variable {T : Type} {w w' : Wheel T} {c : Core T} {cursor k : ℕ}

/-! ### What a cascade does to one entry -/

/-- The slot of the entry comes up no later than its timer is due. -/
def Core.NearAt (cursor : ℕ) (c : Core T) : Prop :=
  Near cursor c.deadline c.level c.slot

theorem Core.NearAt.fits (h : c.NearAt cursor) :
  c.Fits cursor
  := ⟨h.deadline, Near.fits h⟩

theorem Core.NearAt.replaced (h : c.NearAt cursor) :
  (c.replaced cursor).FiledAt cursor
  := filed_place h.cursor h.deadline (Near.fits h)

theorem Core.NearAt.settled (h : c.NearAt cursor) :
  (c.settled cursor k).NearAt cursor
  := by
  rw [Core.settled]
  split
  · exact h.replaced.toNear
  · exact h

/-- One level of a cascade leaves no entry of that level unfiled. -/
theorem Core.NearAt.settled_filed (h : c.NearAt cursor) (htoken : c.token.isSome)
    (hfiled : k < c.level → c.FiledAt cursor) (hk : k - 1 < (c.settled cursor k).level) :
  (c.settled cursor k).FiledAt cursor
  := by
  rw [Core.settled] at hk ⊢
  split
  · exact h.replaced
  · rename_i hunder
    rw [if_neg hunder] at hk
    by_cases hlevel : k < c.level
    · exact hfiled hlevel
    · have heq : c.level = k ∨ c.level = 0 := by omega
      rcases heq with heq | hzero
      · apply Near.filed_of_ne h
        intro hslot
        apply hunder
        refine ⟨htoken, ?_⟩
        rw [Core.position, hslot, heq]
      · apply Near.filed h (Or.inr hzero)

/-- A cascade from some level on files every entry up to that level. -/
theorem Core.NearAt.swept_from (n : ℕ) (h : c.NearAt cursor) (htoken : c.token.isSome)
    (hfiled : n < c.level → c.FiledAt cursor) :
  ((downFrom n).foldl (Core.settled cursor) c).FiledAt cursor
  := by
  induction n generalizing c with
  | zero =>
    by_cases hzero : c.level = 0
    · apply Near.filed h (Or.inr hzero)
    · apply hfiled (by omega)
  | succ n ih =>
    rw [downFrom, List.foldl_cons]
    apply ih h.settled
    · rw [(c.settled_content cursor (n + 1)).2.1]
      exact htoken
    · intro hlevel
      apply h.settled_filed htoken hfiled
      simpa using hlevel

/-- After a cascade every near entry is filed. -/
theorem Core.NearAt.swept (h : c.NearAt cursor) (htoken : c.token.isSome) :
  (c.swept cursor).FiledAt cursor
  := by
  apply h.swept_from _ htoken
  intro hlevel
  have hdepth := h.depth
  omega

theorem Core.swept_content (c : Core T) (cursor : ℕ) :
  (c.swept cursor).deadline = c.deadline ∧ (c.swept cursor).token = c.token ∧
    (c.swept cursor).generation = c.generation
  := by
  rw [Core.swept]
  generalize downFrom (LEVELS - 1) = levels
  induction levels generalizing c with
  | nil => exact ⟨rfl, rfl, rfl⟩
  | cons k levels ih =>
    obtain ⟨hdeadline, htoken, hgeneration⟩ := ih (c.settled cursor k)
    obtain ⟨hdeadline', htoken', hgeneration'⟩ := c.settled_content cursor k
    exact ⟨hdeadline.trans hdeadline', htoken.trans htoken', hgeneration.trans hgeneration'⟩

/-- Filing again moves no entry up, and moves it down when its window is reached. -/
theorem Core.NearAt.settled_level (h : c.NearAt cursor) (hk : 0 < k) :
  (c.settled cursor k).level ≤ c.level
  := by
  rw [Core.settled]
  split
  · rename_i hunder
    obtain ⟨hlevel, hslot⟩ := Prod.mk.inj hunder.2
    apply (Near.place_level h _ (by omega)).1
    rw [hslot, hlevel]
  · exact le_rfl

/-- A cascade moves no entry up, and moves those down whose window starts at the cursor. -/
theorem Core.NearAt.foldl_level (levels : List ℕ) (h : c.NearAt cursor)
    (hpos : ∀ k ∈ levels, 0 < k) :
  (levels.foldl (Core.settled cursor) c).level ≤ c.level ∧
    (c.token.isSome → c.level ∈ levels → c.slot = digit c.level cursor →
      windowStart (width c.level) c.deadline = cursor →
      (levels.foldl (Core.settled cursor) c).level < c.level)
  := by
  induction levels generalizing c with
  | nil => simp
  | cons k levels ih =>
    obtain ⟨hle, hlt⟩ := ih (c := c.settled cursor k) h.settled fun j hj => hpos j (by simp [hj])
    have hfirst := h.settled_level (hpos k (by simp))
    rw [List.foldl_cons]
    refine ⟨hle.trans hfirst, ?_⟩
    intro htoken hmem hslot hstart
    by_cases hk : c.level = k
    · have hunder : c.Under cursor k := by
        refine ⟨htoken, ?_⟩
        rw [Core.position, hslot, hk]
      apply lt_of_le_of_lt hle
      rw [Core.settled, if_pos hunder]
      have hlevel : 0 < c.level := by
        rw [hk]
        apply hpos k (by simp)
      apply (Near.place_level h hslot hlevel).2 hstart
    · have hout : c.settled cursor k = c := by
        rw [Core.settled, if_neg]
        intro hunder
        apply hk (Prod.mk.inj hunder.2).1
      rw [hout] at hlt ⊢
      apply hlt htoken _ hslot hstart
      exact (List.mem_cons.mp hmem).resolve_left hk

theorem mem_downFrom {n : ℕ} :
  k ∈ downFrom n ↔ 0 < k ∧ k ≤ n
  := by
  induction n with
  | zero =>
    simp only [downFrom, List.not_mem_nil, false_iff]
    omega
  | succ n ih =>
    rw [downFrom, List.mem_cons, ih]
    omega

/-- The number of levels an entry has left to go. -/
def Core.weight (c : Core T) : ℕ := if c.token.isSome then c.level + 1 else 0

theorem Core.weight_expired_le (c : Core T) (tick : ℕ) :
  (c.expired tick).weight ≤ c.weight
  := by
  rw [Core.expired]
  split
  · exact Nat.zero_le _
  · exact le_rfl

/-- One event takes no entry further away. -/
theorem Core.NearAt.weight_le (h : c.token.isSome → c.NearAt cursor) :
  ((c.swept cursor).expired cursor).weight ≤ c.weight
  := by
  apply (Core.weight_expired_le _ _).trans
  rw [Core.weight, (c.swept_content cursor).2.1, Core.weight]
  split
  · rename_i htoken
    have hle := ((h htoken).foldl_level (downFrom (LEVELS - 1))
      fun k hk => (mem_downFrom.mp hk).1).1
    rw [Core.swept]
    omega
  · exact le_rfl

/-- A cascade moves the entries down whose slot comes up before they are due. -/
theorem Core.NearAt.swept_level_lt {before : ℕ} (h : c.NearAt before) (htoken : c.token.isSome)
    (hbefore : before ≤ cursor) (hwakeup : slotWakeup before c.level c.slot = cursor)
    (hlate : cursor < c.deadline) :
  (c.swept cursor).level < c.level
  := by
  have hnear : c.NearAt cursor := Near.advance h hbefore hwakeup.ge
  rcases Near.wakeup h with ⟨-, hpast, -, -⟩ | ⟨hslot, -, hstart⟩
  · omega
  · rw [hwakeup] at hstart
    have hpos : 0 < c.level := by
      by_contra hzero
      have hlevel : c.level = 0 := by omega
      rw [hlevel, windowStart, width_zero, Nat.div_one, Nat.mul_one] at hstart
      omega
    have hdigit : c.slot = digit c.level cursor := by
      rw [hslot, digit, digit, hstart, windowStart, Nat.mul_div_cancel _ (width_pos _)]
    exact (hnear.foldl_level (downFrom (LEVELS - 1))
      fun k hk => (mem_downFrom.mp hk).1).2 htoken
      (mem_downFrom.mpr ⟨hpos, by have hdepth := h.depth; omega⟩) hdigit hstart.symm

/-- An event takes the entries whose slot comes up closer. -/
theorem Core.NearAt.weight_lt {before : ℕ} (h : c.NearAt before) (htoken : c.token.isSome)
    (hbefore : before ≤ cursor) (hwakeup : slotWakeup before c.level c.slot = cursor) :
  ((c.swept cursor).expired cursor).weight < c.weight
  := by
  have hweight : c.weight = c.level + 1 := if_pos htoken
  by_cases hdue : c.deadline ≤ cursor
  · have hfires : (c.swept cursor).Due cursor := by
      obtain ⟨hdeadline, htoken', -⟩ := c.swept_content cursor
      rw [Core.Due, hdeadline, htoken']
      exact ⟨htoken, hdue⟩
    rw [Core.expired, if_pos hfires, hweight]
    exact Nat.succ_pos _
  · have hlt := h.swept_level_lt htoken hbefore hwakeup (Nat.not_le.mp hdue)
    apply lt_of_le_of_lt (Core.weight_expired_le _ _)
    rw [Core.weight, (c.swept_content cursor).2.1, if_pos htoken, hweight]
    omega

/-! ### Good wheels -/

/-- The lists are threaded, every timer is filed for the cursor and the event is exact. -/
structure Wheel.Good (w : Wheel T) : Prop where
  links : ∃ lists free, Links w lists [] free
  filed : w.Each (Core.FiledAt w.cursor)
  event : w.Exact
  cursor : w.cursor ≤ MAX_TICK
  wheel : w.wheelId ≠ 0 ∧ w.wheelId < 2 ^ 32

/-- The lists do not depend on the cursor and the cached event. -/
theorem Links.at_event {lists : ℕ × ℕ → List ℕ} {loose free : List ℕ}
    (h : Links w lists loose free) (cursor event : ℕ) :
  Links { w with cursor := cursor, nextEvent := event } lists loose free
  := ⟨h.size, h.buckets, h.occupied, h.range, h.filed, h.loose_live, h.loose_nodup, h.free_chain,
    h.free_head, h.free_nodup, h.free_iff, h.valid, h.count, h.waste⟩

namespace Wheel.Good

/-- The event is no later than the wakeup of any timer. -/
theorem event_le (h : w.Good) (hc : c ∈ w.cores) (htoken : c.token.isSome) :
  w.nextEvent ≤ slotWakeup w.cursor c.level c.slot
  := by
  obtain ⟨lists, free, hlinks⟩ := h.links
  obtain ⟨i, hi⟩ := List.mem_iff_getElem?.mp hc
  apply h.event.le_wakeup c.position (h.filed c hc htoken).depth
  rw [hlinks.occupied]
  apply List.ne_nil_of_mem ((hlinks.filed c.position i).mpr ⟨by simp, c, hi, htoken, rfl⟩)

/-- The event is the wakeup of some timer. -/
theorem exists_event (h : w.Good) (hevent : w.nextEvent ≠ U64_MAX) :
  ∃ c ∈ w.cores, c.token.isSome ∧ slotWakeup w.cursor c.level c.slot = w.nextEvent
  := by
  obtain ⟨lists, free, hlinks⟩ := h.links
  obtain ⟨p, -, hocc, heq⟩ := h.event.attained.resolve_left hevent
  rw [hlinks.occupied] at hocc
  obtain ⟨i, hi⟩ := List.exists_mem_of_ne_nil _ hocc
  obtain ⟨-, c, hc, htoken, rfl⟩ := (hlinks.filed p i).mp hi
  exact ⟨c, List.mem_of_getElem? hc, htoken, heq.symm⟩

theorem cursor_le_event (h : w.Good) :
  w.cursor ≤ w.nextEvent
  := by
  by_cases hevent : w.nextEvent = U64_MAX
  · rw [hevent]
    apply h.cursor.trans (by decide)
  · obtain ⟨c, hc, htoken, heq⟩ := h.exists_event hevent
    rw [← heq]
    apply (h.filed c hc htoken).wakeup_bounds.1

theorem event_le_max (h : w.Good) (hevent : w.nextEvent ≠ U64_MAX) :
  w.nextEvent ≤ MAX_TICK
  := by
  have hle := h.event.le_bound
  have hmax : MAX_TICK + 1 = U64_MAX := by decide
  omega

/-- When the cursor moves to the event, every timer stays near. -/
theorem near_event (h : w.Good) :
  w.Each (Core.NearAt w.nextEvent)
  := by
  intro c hc htoken
  apply (h.filed c hc htoken).advance h.cursor_le_event (h.event_le hc htoken)

/-- One event: the timers due at it fire, all others are filed for it. -/
theorem turn (h : w.Good) (hevent : w.nextEvent ≠ U64_MAX) :
  ∃ w' tokens fired, w.turn = .ok (w', tokens) ∧ w'.Good ∧ w'.cursor = w.nextEvent ∧
    w'.wheelId = w.wheelId ∧
    w'.cores = w.cores.map (fun c => (c.swept w.nextEvent).expired w.nextEvent) ∧
    Fires w w.nextEvent fired tokens
  := by
  obtain ⟨lists, free, hlinks⟩ := h.links
  have hmax := h.event_le_max hevent
  have hnear := h.near_event
  obtain ⟨w₁, lists₁, hcascade, hlinks₁, hcursor₁, hid₁, hcores₁⟩ :=
    (hlinks.at_event w.nextEvent w.nextEvent).cascade hmax
      fun c hc htoken => (hnear c hc htoken).fits
  have hfiled₁ : w₁.Each (Core.FiledAt w₁.cursor) := by
    intro c hc htoken
    rw [hcores₁, List.mem_map] at hc
    obtain ⟨c, hc, rfl⟩ := hc
    rw [(c.swept_content _).2.1] at htoken
    rw [hcursor₁]
    apply (hnear c hc htoken).swept htoken
  obtain ⟨w₂, tokens, fired, free₂, hfire, ⟨lists₂, hlinks₂⟩, hcursor₂, hid₂, hcores₂, hfires⟩ :=
    hlinks₁.fire hfiled₁
  have hcursor : w₂.cursor = w.nextEvent := hcursor₂.trans hcursor₁
  have hcores : w₂.cores =
      w.cores.map (fun c => (c.swept w.nextEvent).expired w.nextEvent) := by
    rw [hcores₂, hcores₁, hcursor₁, List.map_map]
    rfl
  refine ⟨w₂.refresh, tokens, fired, ?_, ?_, hcursor, hid₂.trans hid₁, hcores, ?_⟩
  · rw [Wheel.turn, assert_of (by simpa using h.cursor_le_event), ok_bind, hcascade, ok_bind, hfire,
      ok_bind]
  · refine ⟨⟨lists₂, free₂, hlinks₂.at_event w₂.cursor _⟩, ?_, exact_refresh w₂, ?_, ?_⟩
    · intro c hmem htoken
      have hc : c ∈ w₂.cores := hmem
      rw [hcores, List.mem_map] at hc
      obtain ⟨c, hc, rfl⟩ := hc
      have hlive : ¬ (c.swept w.nextEvent).Due w.nextEvent := by
        intro hdue
        rw [Core.expired, if_pos hdue] at htoken
        cases htoken
      rw [Core.expired, if_neg hlive] at htoken ⊢
      rw [(c.swept_content _).2.1] at htoken
      rw [show w₂.refresh.cursor = w.nextEvent from hcursor]
      apply (hnear c hc htoken).swept htoken
    · rw [show w₂.refresh.cursor = w.nextEvent from hcursor]
      exact hmax
    · rw [show w₂.refresh.wheelId = w.wheelId from hid₂.trans hid₁]
      exact h.wheel
  · rw [hcursor₁] at hfires
    refine ⟨hfires.nodup, ?_, ?_⟩
    · intro i
      rw [hfires.mem_iff, hcores₁, List.getElem?_map]
      show (∃ c, w.cores[i]?.map (Core.swept w.nextEvent) = some c ∧ c.Due w.nextEvent) ↔ _
      cases w.cores[i]? with
      | none => simp
      | some c =>
        obtain ⟨hdeadline, htoken, -⟩ := c.swept_content w.nextEvent
        simp [Core.Due, hdeadline, htoken]
    · rw [hfires.tokens_eq]
      apply List.map_congr_left
      intro i _
      rw [Wheel.token, Wheel.token, hcores₁, List.getElem?_map]
      show (w.cores[i]?.map (Core.swept w.nextEvent)).bind Core.token = _
      cases w.cores[i]? with
      | none => rfl
      | some c => exact (c.swept_content w.nextEvent).2.1

/-- Between events the cursor moves freely. -/
theorem rest {target : ℕ} (h : w.Good) (hcursor : w.cursor ≤ target)
    (htarget : target < w.nextEvent) (hmax : target ≤ MAX_TICK) :
  { w with cursor := target }.Good ∧ w.Each fun c => target < c.deadline
  := by
  obtain ⟨lists, free, hlinks⟩ := h.links
  have hahead : w.Each fun c => c.NearAt target ∧ target < c.deadline ∧
      slotWakeup target c.level c.slot = slotWakeup w.cursor c.level c.slot := by
    intro c hc htoken
    have hnear := (h.filed c hc htoken).toNear
    have hle := h.event_le hc htoken
    have hnear' : c.NearAt target := hnear.advance hcursor (by omega)
    rcases hnear.wakeup with ⟨-, -, -, heq⟩ | ⟨hslot, -, heq⟩
    · omega
    · have hlate : windowStart (width c.level) c.deadline ≤ c.deadline := windowStart_le
      rcases Near.wakeup hnear' with ⟨-, hpast, -⟩ | ⟨-, -, heq'⟩
      · omega
      · exact ⟨hnear', by omega, heq'.trans heq.symm⟩
  have hslots : ∀ p, w.Occupied p →
      slotWakeup target p.1 p.2 = slotWakeup w.cursor p.1 p.2 := by
    intro p hocc
    rw [hlinks.occupied] at hocc
    obtain ⟨i, hi⟩ := List.exists_mem_of_ne_nil _ hocc
    obtain ⟨-, c, hc, htoken, rfl⟩ := (hlinks.filed p i).mp hi
    exact (hahead c (List.mem_of_getElem? hc) htoken).2.2
  refine ⟨⟨⟨lists, free, hlinks.at_event target w.nextEvent⟩, ?_, ?_, hmax, h.wheel⟩, ?_⟩
  · intro c hc htoken
    obtain ⟨hnear, -, heq⟩ := hahead c hc htoken
    apply Near.filed hnear
    left
    rw [heq]
    apply lt_of_lt_of_le htarget (h.event_le hc htoken)
  · refine ⟨h.event.le_bound, ?_, ?_⟩
    · intro p hp hocc
      apply (h.event.le_wakeup p hp hocc).trans_eq
      exact (hslots p hocc).symm
    · apply h.event.attained.imp_right
      rintro ⟨p, hp, hocc, heq⟩
      exact ⟨p, hp, hocc, heq.trans (hslots p hocc).symm⟩
  · intro c hc htoken
    exact (hahead c hc htoken).2.1

/-- An event of a good wheel brings some timer closer. -/
theorem weight_lt {event : ℕ} (h : w.Good) (hevent : w.nextEvent = event) (hne : event ≠ U64_MAX)
    (hcores : w'.cores = w.cores.map (fun c => (c.swept event).expired event)) :
  (w'.cores.map Core.weight).sum < (w.cores.map Core.weight).sum
  := by
  subst hevent
  rw [hcores, List.map_map]
  apply List.sum_lt_sum
  · intro c hc
    apply Core.NearAt.weight_le (h.near_event c hc)
  · obtain ⟨c, hc, htoken, heq⟩ := h.exists_event hne
    refine ⟨c, hc, ?_⟩
    apply Core.NearAt.weight_lt (h.filed c hc htoken).toNear htoken h.cursor_le_event heq

/-- No timer is more than the number of levels away. -/
theorem weight_le_live (h : w.Good) :
  (w.cores.map Core.weight).sum ≤ LEVELS * w.live
  := by
  obtain ⟨lists, free, hlinks⟩ := h.links
  rw [hlinks.count, ← List.sum_map_mul_left]
  apply List.sum_le_sum
  intro c hc
  rw [Core.weight, Core.load]
  split
  · rename_i htoken
    have hdepth := (h.filed c hc htoken).depth
    omega
  · omega

end Wheel.Good

/-! ### Advancing -/

/-- What a slab position holds, wherever it is filed. -/
structure Content (T : Type) where
  deadline : ℕ
  generation : ℕ
  token : Option T

def Core.content (c : Core T) : Content T := ⟨c.deadline, c.generation, c.token⟩

/-- The content after the timers due at a tick fired. -/
def Content.lapsed (tick : ℕ) (s : Content T) : Content T :=
  if s.deadline ≤ tick then { s with token := none } else s

/-- What the slab positions of a wheel hold. -/
def Wheel.contents (w : Wheel T) : List (Content T) := w.cores.map Core.content

theorem Core.content_turn (c : Core T) (tick : ℕ) :
  ((c.swept tick).expired tick).content = c.content.lapsed tick
  := by
  obtain ⟨hdeadline, htoken, hgeneration⟩ := c.swept_content tick
  have hcontent : (c.swept tick).content = c.content := by
    rw [Core.content, hdeadline, htoken, hgeneration, Core.content]
  rw [← hcontent, Core.expired, Content.lapsed]
  generalize c.swept tick = c
  by_cases hdue : c.deadline ≤ tick
  · rw [if_pos (show c.content.deadline ≤ tick from hdue)]
    split
    · rfl
    · rename_i hnot
      cases htoken : c.token with
      | none =>
        rw [Core.content, htoken]
      | some t =>
        exact (hnot ⟨by rw [htoken]; rfl, hdue⟩).elim
  · rw [if_neg (fun h : c.Due tick => hdue h.2), if_neg (show ¬ c.content.deadline ≤ tick from hdue)]

theorem Content.lapsed_lapsed {t₁ t₂ : ℕ} (h : t₁ ≤ t₂) (s : Content T) :
  (s.lapsed t₁).lapsed t₂ = s.lapsed t₂
  := by
  by_cases h₁ : s.deadline ≤ t₁
  · rw [Content.lapsed, Content.lapsed, if_pos h₁, if_pos (h₁.trans h), Content.lapsed,
      if_pos (h₁.trans h)]
  · rw [Content.lapsed, Content.lapsed, if_neg h₁]
    rfl

/-- A slab position after an event. -/
theorem Core.turn_spec (c : Core T) (tick : ℕ) :
  ((c.swept tick).expired tick).deadline = c.deadline ∧
    ((c.swept tick).expired tick).token = if c.deadline ≤ tick then none else c.token
  := by
  have hcontent := c.content_turn tick
  rw [Content.lapsed] at hcontent
  constructor
  · apply (congrArg Content.deadline hcontent).trans
    split <;> rfl
  · apply (congrArg Content.token hcontent).trans
    by_cases hdue : c.deadline ≤ tick
    · rw [if_pos hdue, if_pos (show c.content.deadline ≤ tick from hdue)]
    · rw [if_neg hdue, if_neg (show ¬ c.content.deadline ≤ tick from hdue)]
      rfl

/-- The timers due at a target, in the order of their deadlines.  Overdue ones count from
the cursor. -/
structure Sweeps (w : Wheel T) (target : ℕ) (fired : List ℕ) (tokens : List T) : Prop
    extends Fires w target fired tokens where
  sorted : fired.Pairwise fun i j => ∀ c c', w.cores[i]? = some c → w.cores[j]? = some c' →
    max c.deadline w.cursor ≤ max c'.deadline w.cursor

/-- The timers of an event come before those of the events after it. -/
theorem Sweeps.cons {event target : ℕ} {fired fired' : List ℕ} {tokens tokens' : List T}
    (h : w.Good) (hevent : w.nextEvent = event) (htarget : event ≤ target)
    (hcores : w'.cores = w.cores.map (fun c => (c.swept event).expired event))
    (hcursor : w'.cursor = event) (hfires : Fires w event fired tokens)
    (hrest : Sweeps w' target fired' tokens') :
  Sweeps w target (fired ++ fired') (tokens ++ tokens')
  := by
  subst hevent
  have hlate : ∀ i c, w.cores[i]? = some c →
      (i ∈ fired' ↔ c.Due target ∧ w.nextEvent < c.deadline) := by
    intro i c hc
    obtain ⟨hdeadline, htoken⟩ := c.turn_spec w.nextEvent
    rw [hrest.mem_iff, hcores, List.getElem?_map, hc]
    simp only [Option.map_some, Option.some_inj, exists_eq_left', Core.Due, hdeadline, htoken]
    split
    · simp
      omega
    · rename_i hgt
      simp [Nat.not_le.mp hgt]
  have hsome : ∀ i ∈ fired', ∃ c, w.cores[i]? = some c := by
    intro i hi
    obtain ⟨c, hc, -⟩ := (hrest.mem_iff i).mp hi
    rw [hcores, List.getElem?_map, Option.map_eq_some_iff] at hc
    obtain ⟨c, hc, -⟩ := hc
    exact ⟨c, hc⟩
  have hearly : ∀ i ∈ fired, ∀ c, w.cores[i]? = some c → max c.deadline w.cursor = w.nextEvent := by
    intro i hi c hc
    obtain ⟨c', hc', htoken, hdue⟩ := (hfires.mem_iff i).mp hi
    rw [hc, Option.some_inj] at hc'
    rw [← hc'] at htoken hdue
    have hmem := List.mem_of_getElem? hc
    have hle := (h.event_le hmem htoken).trans (h.filed c hmem htoken).wakeup_bounds.2
    have hcursor := h.cursor_le_event
    omega
  constructor
  · constructor
    · rw [List.nodup_append]
      refine ⟨hfires.nodup, hrest.nodup, ?_⟩
      rintro i hi j hj rfl
      obtain ⟨c, hc, -, hdue⟩ := (hfires.mem_iff i).mp hi
      have hgt := ((hlate i c hc).mp hj).2
      omega
    · intro i
      rw [List.mem_append]
      constructor
      · rintro (hi | hi)
        · obtain ⟨c, hc, htoken, hdue⟩ := (hfires.mem_iff i).mp hi
          exact ⟨c, hc, htoken, hdue.trans htarget⟩
        · obtain ⟨c, hc⟩ := hsome i hi
          exact ⟨c, hc, ((hlate i c hc).mp hi).1⟩
      · rintro ⟨c, hc, hdue⟩
        by_cases hle : c.deadline ≤ w.nextEvent
        · exact Or.inl ((hfires.mem_iff i).mpr ⟨c, hc, hdue.1, hle⟩)
        · exact Or.inr ((hlate i c hc).mpr ⟨hdue, by omega⟩)
    · rw [List.map_append, List.map_append, hfires.tokens_eq, hrest.tokens_eq]
      congr 1
      apply List.map_congr_left
      intro i hi
      obtain ⟨c, hc⟩ := hsome i hi
      have hgt := ((hlate i c hc).mp hi).2
      rw [Wheel.token, Wheel.token, hcores, List.getElem?_map, hc]
      simp only [Option.map_some, Option.bind_some]
      rw [(c.turn_spec w.nextEvent).2, if_neg (by omega)]
  · rw [List.pairwise_append]
    refine ⟨?_, ?_, ?_⟩
    · apply List.Pairwise.imp_of_mem _ hfires.nodup
      intro i j hi hj _ c c' hc hc'
      rw [hearly i hi c hc, hearly j hj c' hc']
    · apply List.Pairwise.imp_of_mem _ hrest.sorted
      intro i j hi hj hsorted c c' hc hc'
      have hle := hsorted ((c.swept w.nextEvent).expired w.nextEvent)
        ((c'.swept w.nextEvent).expired w.nextEvent)
        (by rw [hcores, List.getElem?_map, hc, Option.map_some])
        (by rw [hcores, List.getElem?_map, hc', Option.map_some])
      rw [(c.turn_spec w.nextEvent).1, (c'.turn_spec w.nextEvent).1, hcursor] at hle
      have hi' := ((hlate i c hc).mp hi).2
      have hj' := ((hlate j c' hc').mp hj).2
      have hbefore := h.cursor_le_event
      omega
    · intro i hi j hj c c' hc hc'
      have hgt := ((hlate j c' hc').mp hj).2
      rw [hearly i hi c hc]
      omega

namespace Wheel.Good

variable {target fuel : ℕ}

/-- No timer is due between events. -/
theorem sweeps_nil (h : w.Each fun c => target < c.deadline) :
  Sweeps w target [] []
  := by
  refine ⟨⟨List.nodup_nil, ?_, rfl⟩, List.Pairwise.nil⟩
  intro i
  simp only [List.not_mem_nil, false_iff, not_exists, not_and]
  intro c hc hdue
  have hlate := h c (List.mem_of_getElem? hc) hdue.1
  have hle := hdue.2
  omega

theorem contents_lapsed (h : w.Each fun c => target < c.deadline) :
  w.contents.map (Content.lapsed target) = w.contents
  := by
  rw [Wheel.contents, List.map_map]
  apply List.map_congr_left
  intro c hc
  rw [Function.comp_apply, Content.lapsed]
  split
  · rename_i hle
    cases htoken : c.token with
    | none => rw [Core.content, htoken]
    | some t =>
      have hlate := h c hc (by rw [htoken]; rfl)
      simp only [Core.content] at hle
      omega
  · rfl

/-- The events up to a target fire the timers due at it. -/
theorem advanceLoop (h : w.Good) (hcursor : w.cursor ≤ target) (hmax : target ≤ MAX_TICK)
    (hfuel : (w.cores.map Core.weight).sum < fuel) :
  ∃ w' tokens fired, Wheel.advanceLoop target fuel w = .ok (w', tokens) ∧ w'.Good ∧
    w'.cursor = target ∧ w'.wheelId = w.wheelId ∧
    w'.contents = w.contents.map (Content.lapsed target) ∧ Sweeps w target fired tokens
  := by
  induction fuel generalizing w with
  | zero => omega
  | succ fuel ih =>
    rw [Wheel.advanceLoop]
    by_cases hstop : w.nextEvent = U64_MAX ∨ target < w.nextEvent
    · have hlt : target < w.nextEvent := by
        have hword : MAX_TICK < U64_MAX := by decide
        omega
      obtain ⟨hgood, hlate⟩ := h.rest hcursor hlt hmax
      rw [if_pos hstop]
      exact ⟨_, [], [], rfl, hgood, rfl, rfl, (contents_lapsed hlate).symm, sweeps_nil hlate⟩
    · obtain ⟨hevent, hle⟩ := not_or.mp hstop
      obtain ⟨w₁, tokens₁, fired₁, hturn, h₁, hcursor₁, hid₁, hcores₁, hfires₁⟩ := h.turn hevent
      have hweight := h.weight_lt rfl hevent hcores₁
      obtain ⟨w', tokens, fired, hloop, h', hcursor', hid', hcontents', hsweeps⟩ :=
        ih h₁ (by omega) (by omega)
      rw [if_neg hstop, hturn, ok_bind]
      simp only
      rw [hloop, ok_bind]
      refine ⟨w', tokens₁ ++ tokens, fired₁ ++ fired, rfl, h', hcursor', hid'.trans hid₁, ?_,
        Sweeps.cons h rfl (by omega) hcores₁ hcursor₁ hfires₁ hsweeps⟩
      rw [hcontents', Wheel.contents, hcores₁, Wheel.contents, List.map_map, List.map_map,
        List.map_map]
      apply List.map_congr_left
      intro c _
      simp only [Function.comp_apply]
      rw [c.content_turn, Content.lapsed_lapsed (by omega)]

/-- An advance fires the timers due at its target, in the order of their deadlines. -/
theorem advanceTo (h : w.Good) (hcursor : w.cursor ≤ target) (hmax : target ≤ MAX_TICK) :
  ∃ w' tokens fired, w.advanceTo target = .ok (w', tokens) ∧ w'.Good ∧
    w'.cursor = target ∧ w'.wheelId = w.wheelId ∧
    w'.contents = w.contents.map (Content.lapsed target) ∧ Sweeps w target fired tokens
  := by
  have hproceed : ¬ (MAX_TICK < target ∨ target < w.cursor) := by omega
  rw [Wheel.advanceTo, assert_of (by simpa using hmax), ok_bind, if_neg hproceed]
  by_cases hquiet : target < w.nextEvent
  · obtain ⟨hgood, hlate⟩ := h.rest hcursor hquiet hmax
    rw [if_pos hquiet]
    exact ⟨_, [], [], rfl, hgood, rfl, rfl, (contents_lapsed hlate).symm, sweeps_nil hlate⟩
  · rw [if_neg hquiet]
    apply h.advanceLoop hcursor hmax
    have hweight := h.weight_le_live
    omega

end Wheel.Good

end Grommet.Timer
