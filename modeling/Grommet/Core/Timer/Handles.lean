import Grommet.Core.Timer.Agenda

/-!
# Handles

A process makes any number of wheels and calls them in any order.  A handle that an insertion
returned is good for the wheel that issued it, while its timer is neither fired nor cancelled;
every wheel refuses every other handle.  Which timers are live is read off from the calls
alone: a chart keeps the cursor of a wheel and the deadlines of its timers.

The generation of a slab position only grows, and grows whenever the position is issued, so
that no two insertions return the same handle.
-/

open Checked

namespace Grommet.Timer

variable {T : Type}

namespace TimerId

/-- The opaque integer representation. -/
def get (id : TimerId) : ℕ := id.raw

/-- Reconstruct a previously stored handle. -/
def fromRaw (raw : ℕ) : Option TimerId := do
  let id ← ofNat raw
  let _ ← id.parts
  some id

/-- The stored handles are those with parts. -/
theorem fromRaw_eq_some {raw : ℕ} {id : TimerId} :
  fromRaw raw = some id ↔ id.get = raw ∧ id.parts.isSome
  := by
  simp only [fromRaw, Option.bind_eq_bind, Option.bind_eq_some_iff, Option.some_inj]
  constructor
  · rintro ⟨id', hraw, parts, hparts, rfl⟩
    rw [ofNat, Option.dite_none_right_eq_some] at hraw
    obtain ⟨hword, heq⟩ := hraw
    rw [Option.some_inj] at heq
    rw [hparts, ← heq]
    exact ⟨rfl, rfl⟩
  · rintro ⟨rfl, hparts⟩
    obtain ⟨parts, hparts⟩ := Option.isSome_iff_exists.mp hparts
    refine ⟨id, ?_, parts, hparts, rfl⟩
    rw [ofNat, dif_pos (show id.get ≠ 0 ∧ id.get < 2 ^ 128 from ⟨id.nonzero, id.bound⟩)]
    rfl

end TimerId

namespace Wheel

/-- Whether a handle names a live timer of this wheel. -/
def contains (w : Wheel T) (id : TimerId) : Bool := (w.liveIndex id).isSome

/-- The wheel accepts the handle. -/
structure Accepts (w : Wheel T) (id : TimerId) : Prop where
  contains : w.contains id = true
  cancel : ∃ w' t, w.cancel id = .ok (w', some t)
  rescheduleAt : ∀ d ≤ MAX_TICK, deadlineFits w.cursor d = true →
    ∃ w', w.rescheduleAt id d = .ok (w', .ok ())

/-- The wheel refuses the handle, and no call with it changes the wheel. -/
structure Refuses (w : Wheel T) (id : TimerId) : Prop where
  contains : w.contains id = false
  cancel : w.cancel id = .ok (w, none)
  rescheduleAt : ∀ d, ∃ e, w.rescheduleAt id d = .ok (w, .error e) ∧
    (d ≤ MAX_TICK → deadlineFits w.cursor d = true → e = .staleId)

/-- The generations of the slab positions. -/
def generations (w : Wheel T) : List ℕ := w.entries.map Entry.generation

end Wheel

/-- The handle that an insertion returned. -/
def Answer.issued : Answer T → Option TimerId
  | .inserted (.ok id) => some id
  | _ => none

/-! ### Charts -/

/-- The deadlines of the live timers of a wheel, as its calls tell them. -/
structure Chart where
  cursor : ℕ
  deadline : TimerId → Option ℕ

/-- Take down a call: an insertion starts a timer, a cancellation ends it, and an advance ends
the timers that are due. -/
def Chart.note (chart : Chart) : Op T → Answer T → Chart
  | .tryInsertAt d _, .inserted (.ok id) =>
      { chart with deadline := Function.update chart.deadline id (some d) }
  | .cancel id, .cancelled (some _) =>
      { chart with deadline := Function.update chart.deadline id none }
  | .rescheduleAt id d, .rescheduled (.ok ()) =>
      { chart with deadline := Function.update chart.deadline id (some d) }
  | .advanceTo target, .fired _ =>
      if target < chart.cursor then
        chart
      else
        ⟨target, fun id => (chart.deadline id).filter fun d => target < d⟩
  | _, _ => chart

/-! ### Processes -/

/-- What happens to the wheels of a process. -/
inductive Deed (T : Type) where
  | opened (capacity start : ℕ)
  | called (k : ℕ) (op : Op T) (answer : Answer T)

/-- The wheels of a process, and the wheel id that is next. -/
structure Process (T : Type) where
  next : ℕ
  wheels : List (Wheel T)

namespace Process

/-- A process that has made no wheel. -/
def new : Process T := ⟨NEXT_WHEEL_ID, []⟩

/-- A wheel is made, or one of the wheels is called. -/
inductive Step (p : Process T) : Deed T → Process T → Prop
  | opened {capacity start id next : ℕ} {w : Wheel T} :
      allocateWheelId p.next = .ok (id, next) →
      Wheel.withCapacityAtTick capacity start id = .ok w →
      Step p (.opened capacity start) ⟨next, p.wheels ++ [w]⟩
  | called {k : ℕ} {op : Op T} {answer : Answer T} {w w' : Wheel T} :
      p.wheels[k]? = some w → w.perform op = .ok (w', answer) →
      Step p (.called k op answer) { p with wheels := p.wheels.set k w' }

end Process

/-- The handle that a deed returned, with the wheel that issued it. -/
def Deed.issued : Deed T → Option (ℕ × TimerId)
  | .opened _ _ => none
  | .called k _ answer => answer.issued.map fun id => (k, id)

/-- The handles that were returned, with the wheels that issued them. -/
def issued (trace : List (Deed T)) : List (ℕ × TimerId) := trace.filterMap Deed.issued

/-- Take down a deed in the charts of the wheels. -/
def note (charts : List Chart) : Deed T → List Chart
  | .opened _ start => charts ++ [⟨start, fun _ => none⟩]
  | .called k op answer => charts.modify k fun chart => chart.note op answer

/-- The charts of the wheels. -/
def charts (trace : List (Deed T)) : List Chart := trace.foldl note []

/-- The timer of a handle has been neither fired nor cancelled. -/
def Live (trace : List (Deed T)) (k : ℕ) (id : TimerId) : Prop :=
  ∃ chart d, (charts trace)[k]? = some chart ∧ chart.deadline id = some d

/-! ### One wheel -/

section OneWheel

variable {w w' : Wheel T} {id : TimerId} {i : ℕ} {op : Op T} {answer : Answer T}

theorem generations_eq :
  w.generations = w.contents.map Content.generation
  := by
  rw [Wheel.generations, Wheel.contents, Wheel.cores, List.map_map, List.map_map]
  rfl

theorem Wheel.Good.accepts (h : w.Good) (hlive : w.liveIndex id = some i) :
  w.Accepts id
  := by
  refine ⟨?_, ?_, ?_⟩
  · rw [Wheel.contains, hlive]
    rfl
  · obtain ⟨w', s, t, hcancel, -⟩ := h.cancel hlive
    exact ⟨w', t, hcancel⟩
  · intro d hmax hfits
    rw [deadlineFits_iff] at hfits
    obtain ⟨w', s, hreschedule, -⟩ := h.rescheduleAt hlive hmax hfits
    exact ⟨w', hreschedule⟩

theorem Wheel.refuses (hlive : w.liveIndex id = none) :
  w.Refuses id
  := by
  refine ⟨?_, ?_, ?_⟩
  · rw [Wheel.contains, hlive]
    rfl
  · rw [Wheel.cancel, hlive]
  · intro d
    rw [Wheel.rescheduleAt]
    by_cases hmax : MAX_TICK < d
    · rw [if_pos hmax]
      exact ⟨_, rfl, fun hle => absurd hmax (Nat.not_lt.mpr hle)⟩
    rw [if_neg hmax]
    cases hfits : deadlineFits w.cursor d with
    | false => exact ⟨_, rfl, fun _ htrue => by cases htrue⟩
    | true =>
      rw [hlive]
      exact ⟨_, rfl, fun _ _ => rfl⟩

/-- A reschedule changes nothing, or the deadline of one position. -/
theorem Wheel.rescheduleAt_cases {d : ℕ} {result : Except RescheduleError Unit} (h : w.Good)
    (hreschedule : w.rescheduleAt id d = .ok (w', result)) :
  w' = w ∨ ∃ i s, w'.wheelId = w.wheelId ∧ w.contents[i]? = some s ∧
    w'.contents = w.contents.set i { s with deadline := d }
  := by
  cases hlive : w.liveIndex id with
  | none =>
    obtain ⟨e, heq, -⟩ := (Wheel.refuses hlive).rescheduleAt d
    rw [heq, Except.ok.injEq, Prod.mk.injEq] at hreschedule
    exact Or.inl hreschedule.1.symm
  | some i =>
    by_cases hmax : MAX_TICK < d
    · rw [Wheel.rescheduleAt, if_pos hmax, Except.ok.injEq, Prod.mk.injEq] at hreschedule
      exact Or.inl hreschedule.1.symm
    by_cases hfits : d ≤ w.cursor + MAX_DELAY_TICKS
    · obtain ⟨w₁, s, heq, -, -, hwheel, hs, hcontents⟩ :=
        h.rescheduleAt hlive (Nat.not_lt.mp hmax) hfits
      rw [heq, Except.ok.injEq, Prod.mk.injEq] at hreschedule
      obtain ⟨rfl, -⟩ := hreschedule
      exact Or.inr ⟨i, s, hwheel, hs, hcontents⟩
    · rw [Wheel.rescheduleAt, if_neg hmax, if_pos (by simpa [← deadlineFits_iff] using hfits),
        Except.ok.injEq, Prod.mk.injEq] at hreschedule
      exact Or.inl hreschedule.1.symm

/-- A call issues a handle of the next generation of one position, or leaves the generations
as they are. -/
theorem Wheel.Good.generations_step (h : w.Good) (hstep : w.perform op = .ok (w', answer)) :
  w'.wheelId = w.wheelId ∧
    ((answer.issued = none ∧ w'.generations = w.generations) ∨
      ∃ id i g, answer.issued = some id ∧ id.parts = some (w.wheelId, g + 1, i) ∧
        w.generations[i]? = some g ∧ w'.generations = w.generations.set i (g + 1))
  := by
  have hadmissible := admissible_of_returns hstep
  have hset : ∀ {i : ℕ} {s s' : Content T}, w'.contents = w.contents.set i s' →
      w.contents[i]? = some s → w.generations[i]? = some s.generation ∧
      w'.generations = w.generations.set i s'.generation := by
    intro i s s' hcontents hs
    rw [generations_eq, generations_eq, hcontents, List.map_set, List.getElem?_map, hs]
    exact ⟨rfl, rfl⟩
  have hsame : ∀ {i g : ℕ}, w.generations[i]? = some g → w.generations.set i g = w.generations := by
    intro i g hg
    obtain ⟨hlt, rfl⟩ := List.getElem?_eq_some_iff.mp hg
    rw [List.set_getElem_self]
  cases op with
  | tryInsertAt d t =>
    rw [Wheel.perform] at hstep
    rcases h.tryInsertAt d t with
      ⟨kind, hinsert, -⟩ | ⟨w₁, id, i, s, hinsert, -, -, hwheel, hparts, hs, -, hcontents⟩
    · rw [hinsert, ok_bind, Except.ok.injEq, Prod.mk.injEq] at hstep
      obtain ⟨rfl, rfl⟩ := hstep
      exact ⟨rfl, Or.inl ⟨rfl, rfl⟩⟩
    · rw [hinsert, ok_bind, Except.ok.injEq, Prod.mk.injEq] at hstep
      obtain ⟨rfl, rfl⟩ := hstep
      obtain ⟨hg, hgenerations⟩ := hset hcontents hs
      exact ⟨hwheel, Or.inr ⟨id, i, s.generation, rfl, hparts, hg, hgenerations⟩⟩
  | cancel id =>
    rw [Wheel.perform] at hstep
    cases hlive : w.liveIndex id with
    | none =>
      rw [(Wheel.refuses hlive).cancel, ok_bind, Except.ok.injEq, Prod.mk.injEq] at hstep
      obtain ⟨rfl, rfl⟩ := hstep
      exact ⟨rfl, Or.inl ⟨rfl, rfl⟩⟩
    | some i =>
      obtain ⟨w₁, s, t, hcancel, -, -, hwheel, hs, -, hcontents⟩ := h.cancel hlive
      rw [hcancel, ok_bind, Except.ok.injEq, Prod.mk.injEq] at hstep
      obtain ⟨rfl, rfl⟩ := hstep
      obtain ⟨hg, hgenerations⟩ := hset hcontents hs
      exact ⟨hwheel, Or.inl ⟨rfl, hgenerations.trans (hsame hg)⟩⟩
  | rescheduleAt id d =>
    rw [Wheel.perform, bind_eq_ok] at hstep
    obtain ⟨⟨w₁, result⟩, hreschedule, heq⟩ := hstep
    rw [Except.ok.injEq, Prod.mk.injEq] at heq
    obtain ⟨rfl, rfl⟩ := heq
    rcases Wheel.rescheduleAt_cases h hreschedule with rfl | ⟨i, s, hwheel, hs, hcontents⟩
    · exact ⟨rfl, Or.inl ⟨rfl, rfl⟩⟩
    · obtain ⟨hg, hgenerations⟩ := hset hcontents hs
      exact ⟨hwheel, Or.inl ⟨rfl, hgenerations.trans (hsame hg)⟩⟩
  | advanceTo target =>
    rw [Wheel.perform] at hstep
    have hmax : decide (target ≤ MAX_TICK) = true := decide_eq_true hadmissible
    by_cases hback : target < w.cursor
    · rw [Wheel.advanceTo, assert_of hmax, ok_bind, if_pos (Or.inr hback),
        ok_bind, Except.ok.injEq, Prod.mk.injEq] at hstep
      obtain ⟨rfl, rfl⟩ := hstep
      exact ⟨rfl, Or.inl ⟨rfl, rfl⟩⟩
    · obtain ⟨w₁, tokens, fired, hadvance, -, -, hwheel, hlapsed, -⟩ :=
        h.advanceTo (Nat.not_lt.mp hback) hadmissible
      rw [hadvance, ok_bind, Except.ok.injEq, Prod.mk.injEq] at hstep
      obtain ⟨rfl, rfl⟩ := hstep
      refine ⟨hwheel, Or.inl ⟨rfl, ?_⟩⟩
      rw [generations_eq, generations_eq, hlapsed, List.map_map]
      apply List.map_congr_left
      intro s _
      rw [Function.comp_apply, Content.lapsed]
      split <;> rfl

end OneWheel

/-! ### The handles that were issued -/

section Runs

variable {w w' : Wheel T} {id : TimerId} {op : Op T} {answer : Answer T} {a a' : Agenda T}
  {p p' : Process T} {trace : List (Deed T)} {deed : Deed T}

def Agenda.chart (a : Agenda T) : Chart := ⟨a.cursor, fun id => (a.timers id).map Prod.fst⟩

/-- A call is taken down as it changes the agenda. -/
theorem Agenda.Step.chart (h : a.Step (op, answer) a') :
  a'.chart = a.chart.note op answer
  := by
  have hupdate : ∀ (timers : TimerId → Option (ℕ × T)) (id : TimerId) (x : Option (ℕ × T)),
      (fun id' => (Function.update timers id x id').map Prod.fst) =
        Function.update (fun id' => (timers id').map Prod.fst) id (x.map Prod.fst) := by
    intro timers id x
    funext id'
    by_cases heq : id' = id
    · rw [heq, Function.update_self, Function.update_self]
    · rw [Function.update_of_ne heq, Function.update_of_ne heq]
  cases h with
  | inserted _ =>
    rw [Agenda.chart, hupdate]
    rfl
  | insertRefused _ => rfl
  | cancelled _ =>
    rw [Agenda.chart, hupdate]
    rfl
  | cancelRefused _ => rfl
  | rescheduled _ =>
    rw [Agenda.chart, hupdate]
    rfl
  | rescheduleRefused _ => rfl
  | @advanced target _ _ hcursor _ =>
    rw [Chart.note, if_neg (show ¬ target < a.chart.cursor from Nat.not_lt.mpr hcursor)]
    rw [Agenda.chart, Agenda.chart]
    congr
    funext id
    simp only
    cases a.timers id with
    | none => rfl
    | some timer =>
      rw [Option.filter_some, Option.map_some, Option.filter_some]
      split <;> rfl
  | @backwards target hback => exact (if_pos hback).symm

/-- A timer was there before the call, or the call issued its handle. -/
theorem Agenda.Step.known (h : a.Step (op, answer) a') (hlive : (a'.timers id).isSome) :
  (a.timers id).isSome ∨ answer.issued = some id
  := by
  have hupdate : ∀ {timers : TimerId → Option (ℕ × T)} {id' : TimerId} {x : Option (ℕ × T)},
      (Function.update timers id' x id).isSome → (timers id).isSome ∨ (id' = id ∧ x.isSome) := by
    intro timers id' x hsome
    by_cases heq : id = id'
    · subst heq
      rw [Function.update_self] at hsome
      exact Or.inr ⟨rfl, hsome⟩
    · rw [Function.update_of_ne heq] at hsome
      exact Or.inl hsome
  cases h with
  | inserted _ =>
    apply (hupdate hlive).imp_right
    rintro ⟨rfl, -⟩
    rfl
  | insertRefused _ => exact Or.inl hlive
  | cancelled _ =>
    apply (hupdate hlive).imp_right
    rintro ⟨-, hnone⟩
    cases hnone
  | cancelRefused _ => exact Or.inl hlive
  | rescheduled hold =>
    left
    rcases hupdate hlive with hsome | ⟨rfl, -⟩
    · exact hsome
    · rw [hold]
      rfl
  | rescheduleRefused _ => exact Or.inl hlive
  | advanced _ _ =>
    left
    obtain ⟨timer, htimer⟩ := Option.isSome_iff_exists.mp hlive
    rw [Option.filter_eq_some_iff] at htimer
    rw [htimer.1]
    rfl
  | backwards _ => exact Or.inl hlive

/-- A position was issued with the generation of the handle, or a later one. -/
def Wheel.Spent (w : Wheel T) (id : TimerId) : Prop :=
  ∃ g i g', id.parts = some (w.wheelId, g, i) ∧ w.generations[i]? = some g' ∧ g ≤ g'

/-- Generations only grow. -/
theorem Wheel.Good.generations_le {i g : ℕ} (h : w.Good) (hstep : w.perform op = .ok (w', answer))
    (hg : w.generations[i]? = some g) :
  ∃ g', w'.generations[i]? = some g' ∧ g ≤ g'
  := by
  obtain ⟨-, ⟨-, heq⟩ | ⟨id, j, g', -, -, hg', heq⟩⟩ := h.generations_step hstep
  · exact ⟨g, heq ▸ hg, le_rfl⟩
  · by_cases hj : j = i
    · subst hj
      rw [hg', Option.some_inj] at hg
      subst hg
      have hlt := (List.getElem?_eq_some_iff.mp hg').1
      refine ⟨g' + 1, ?_, Nat.le_succ g'⟩
      rw [heq, List.getElem?_set_self hlt]
    · refine ⟨g, ?_, le_rfl⟩
      rw [heq, List.getElem?_set_ne hj, hg]

theorem Wheel.Good.spent_step (h : w.Good) (hstep : w.perform op = .ok (w', answer))
    (hspent : w.Spent id) :
  w'.Spent id
  := by
  obtain ⟨g, i, g', hparts, hg, hle⟩ := hspent
  obtain ⟨g'', hg', hle'⟩ := h.generations_le hstep hg
  exact ⟨g, i, g'', by rw [(h.generations_step hstep).1, hparts], hg', hle.trans hle'⟩

/-- A handle that a call issues is spent after it, and not before. -/
theorem Wheel.Good.spent_issued (h : w.Good) (hstep : w.perform op = .ok (w', answer))
    (hissued : answer.issued = some id) :
  w'.Spent id ∧ ¬ w.Spent id ∧ ∃ g i, id.parts = some (w.wheelId, g, i)
  := by
  obtain ⟨hwheel, ⟨hnone, -⟩ | ⟨id', i, g, hsome, hparts, hg, heq⟩⟩ := h.generations_step hstep
  · rw [hissued] at hnone
    cases hnone
  rw [hissued, Option.some_inj] at hsome
  subst hsome
  have hlt := (List.getElem?_eq_some_iff.mp hg).1
  refine ⟨⟨g + 1, i, g + 1, by rw [hwheel, hparts], ?_, le_rfl⟩, ?_, g + 1, i, hparts⟩
  · rw [heq, List.getElem?_set_self hlt]
  · rintro ⟨g₁, i₁, g', hparts', hg', hle⟩
    rw [hparts, Option.some_inj, Prod.mk.injEq, Prod.mk.injEq] at hparts'
    obtain ⟨-, rfl, rfl⟩ := hparts'
    rw [hg, Option.some_inj] at hg'
    omega

/-- What a process keeps of its history. -/
structure Process.Kept (p : Process T) (trace : List (Deed T)) : Prop where
  next : NEXT_WHEEL_ID ≤ p.next
  good : ∀ (k : ℕ) (w : Wheel T), p.wheels[k]? = some w → w.Good ∧ w.wheelId < p.next
  distinct : ∀ (j k : ℕ) (w w' : Wheel T), p.wheels[j]? = some w → p.wheels[k]? = some w' →
    w.wheelId = w'.wheelId → j = k
  charted : charts trace = p.wheels.map fun w => w.agenda.chart
  known : ∀ (k : ℕ) (w : Wheel T) id, p.wheels[k]? = some w → (w.timer id).isSome →
    (k, id) ∈ issued trace
  spent : ∀ k id, (k, id) ∈ issued trace → ∃ w, p.wheels[k]? = some w ∧ w.Spent id
  nodup : ((issued trace).map Prod.snd).Nodup

theorem issued_snoc :
  issued (trace ++ [deed]) = issued trace ++ deed.issued.toList
  := by
  rw [issued, List.filterMap_append]
  cases h : deed.issued with
  | none => rw [List.filterMap_cons_none h, List.filterMap_nil]; rfl
  | some x => rw [List.filterMap_cons_some h, List.filterMap_nil]; rfl

theorem charts_snoc :
  charts (trace ++ [deed]) = note (charts trace) deed
  := by
  rw [charts, List.foldl_append]
  rfl

namespace Process.Kept

/-- A new wheel has an id of its own and no timers. -/
theorem opened {capacity start wheelId next : ℕ} (h : p.Kept trace)
    (hid : allocateWheelId p.next = .ok (wheelId, next))
    (hnew : Wheel.withCapacityAtTick capacity start wheelId = .ok w) :
  Kept ⟨next, p.wheels ++ [w]⟩ (trace ++ [.opened capacity start])
  := by
  obtain ⟨hgood, hcursor, hempty, hwheel⟩ := good_new (allocateWheelId_spec h.next hid) hnew
  have hnext : wheelId = p.next ∧ next = p.next + 1 := by
    rw [allocateWheelId, bind_eq_ok] at hid
    obtain ⟨after, hafter, heq⟩ := hid
    rw [Except.ok.injEq, Prod.mk.injEq] at heq
    rw [expect_eq_ok, Option.ite_none_right_eq_some] at hafter
    obtain ⟨-, hsome⟩ := hafter
    rw [Option.some_inj] at hsome
    exact ⟨heq.1.symm, heq.2.symm.trans hsome.symm⟩
  obtain ⟨rfl, rfl⟩ := hnext
  have hat : ∀ {k : ℕ} {w₁ : Wheel T}, (p.wheels ++ [w])[k]? = some w₁ →
      p.wheels[k]? = some w₁ ∨ (k = p.wheels.length ∧ w₁ = w) := by
    intro k w₁ hk
    rw [List.getElem?_append] at hk
    split at hk
    · exact Or.inl hk
    · rename_i hlt
      have hzero : k - p.wheels.length = 0 := by
        have hbound := (List.getElem?_eq_some_iff.mp hk).1
        rw [List.length_singleton] at hbound
        omega
      rw [hzero, List.getElem?_cons_zero, Option.some_inj] at hk
      exact Or.inr ⟨by omega, hk.symm⟩
  have hissued : issued (trace ++ [Deed.opened capacity start]) = issued trace := by
    rw [issued_snoc]
    exact List.append_nil _
  refine ⟨h.next.trans (Nat.le_succ _), ?_, ?_, ?_, ?_, ?_, by rw [hissued]; exact h.nodup⟩
  · intro k w₁ hk
    rcases hat hk with hk | ⟨-, rfl⟩
    · obtain ⟨hgood₁, hlt⟩ := h.good k w₁ hk
      exact ⟨hgood₁, hlt.trans (Nat.lt_succ_self _)⟩
    · exact ⟨hgood, by rw [hwheel]; exact Nat.lt_succ_self _⟩
  · intro j k w₁ w₂ hj hk heq
    rcases hat hj with hj₀ | ⟨rfl, rfl⟩ <;> rcases hat hk with hk₀ | ⟨rfl, rfl⟩
    · exact h.distinct j k w₁ w₂ hj₀ hk₀ heq
    · have hlt := (h.good j w₁ hj₀).2
      omega
    · have hlt := (h.good k w₂ hk₀).2
      omega
    · rfl
  · have hchart : w.agenda.chart = ⟨start, fun _ => none⟩ := by
      rw [Agenda.chart, Wheel.agenda, hcursor]
      congr
      funext id
      show (w.timer id).map Prod.fst = none
      rw [timer_of_empty hempty]
      rfl
    rw [charts_snoc, note, h.charted, List.map_append, List.map_singleton, hchart]
  · intro k w₁ id hk hsome
    rw [hissued]
    rcases hat hk with hk | ⟨-, rfl⟩
    · exact h.known k w₁ id hk hsome
    · rw [timer_of_empty hempty] at hsome
      cases hsome
  · intro k id hmem
    rw [hissued] at hmem
    obtain ⟨w₁, hk, hspent⟩ := h.spent k id hmem
    refine ⟨w₁, ?_, hspent⟩
    rw [List.getElem?_append_left (List.getElem?_eq_some_iff.mp hk).1, hk]

/-- A call of one wheel leaves the others alone, and issues only handles that are new. -/
theorem called {k : ℕ} (h : p.Kept trace) (hk : p.wheels[k]? = some w)
    (hstep : w.perform op = .ok (w', answer)) :
  Kept { p with wheels := p.wheels.set k w' } (trace ++ [.called k op answer])
  := by
  obtain ⟨hgood, hbelow⟩ := h.good k w hk
  obtain ⟨hgood', hagenda⟩ := hgood.step (show w.Step (op, answer) w' from hstep)
  have hwheel := (hgood.generations_step hstep).1
  have hlt := (List.getElem?_eq_some_iff.mp hk).1
  have hat : ∀ {j : ℕ} {w₁ : Wheel T}, (p.wheels.set k w')[j]? = some w₁ →
      ∃ w₀, p.wheels[j]? = some w₀ ∧ w₀.wheelId = w₁.wheelId ∧
        ((j = k ∧ w₀ = w ∧ w₁ = w') ∨ (j ≠ k ∧ w₁ = w₀)) := by
    intro j w₁ hj
    by_cases heq : k = j
    · subst heq
      rw [List.getElem?_set_self hlt, Option.some_inj] at hj
      subst hj
      exact ⟨w, hk, hwheel.symm, Or.inl ⟨rfl, rfl, rfl⟩⟩
    · rw [List.getElem?_set_ne heq] at hj
      exact ⟨w₁, hj, rfl, Or.inr ⟨Ne.symm heq, rfl⟩⟩
  have hspent : ∀ j id, (j, id) ∈ issued trace →
      ∃ w₁, (p.wheels.set k w')[j]? = some w₁ ∧ w₁.Spent id := by
    intro j id hmem
    obtain ⟨w₀, hj, hspent⟩ := h.spent j id hmem
    by_cases heq : k = j
    · subst heq
      rw [hk, Option.some_inj] at hj
      subst hj
      exact ⟨w', List.getElem?_set_self hlt, hgood.spent_step hstep hspent⟩
    · exact ⟨w₀, by rw [List.getElem?_set_ne heq, hj], hspent⟩
  have hissued : issued (trace ++ [Deed.called k op answer]) =
      issued trace ++ (answer.issued.map fun id => (k, id)).toList := issued_snoc
  refine ⟨h.next, ?_, ?_, ?_, ?_, ?_, ?_⟩
  · intro j w₁ hj
    obtain ⟨w₀, hj₀, hid, ⟨-, -, rfl⟩ | ⟨-, rfl⟩⟩ := hat hj
    · exact ⟨hgood', by rw [hwheel]; exact hbelow⟩
    · exact h.good j w₁ hj₀
  · intro i j w₁ w₂ hi hj heq
    obtain ⟨w₃, hi, hid₁, -⟩ := hat hi
    obtain ⟨w₄, hj, hid₂, -⟩ := hat hj
    exact h.distinct i j w₃ w₄ hi hj (hid₁.trans (heq.trans hid₂.symm))
  · have hmodify : (p.wheels.map fun w => w.agenda.chart).modify k (fun chart => chart.note op answer) =
        (p.wheels.map fun w => w.agenda.chart).set k w'.agenda.chart := by
      rw [List.modify_eq_set_getElem?, List.getElem?_map, hk, hagenda.chart]
      rfl
    rw [charts_snoc, note, h.charted, hmodify, List.map_set]
  · intro j w₁ id hj hsome
    rw [hissued, List.mem_append]
    obtain ⟨w₀, hj₀, -, ⟨rfl, rfl, rfl⟩ | ⟨-, rfl⟩⟩ := hat hj
    · rcases hagenda.known hsome with hold | hnew
      · exact Or.inl (h.known j w₀ id hj₀ hold)
      · right
        rw [hnew]
        exact List.mem_singleton_self _
    · exact Or.inl (h.known j w₁ id hj₀ hsome)
  · intro j id hmem
    rw [hissued, List.mem_append] at hmem
    rcases hmem with hold | hnew
    · exact hspent j id hold
    · rw [Option.mem_toList, Option.map_eq_some_iff] at hnew
      obtain ⟨id', hid, heq⟩ := hnew
      rw [Prod.mk.injEq] at heq
      obtain ⟨rfl, rfl⟩ := heq
      exact ⟨w', List.getElem?_set_self hlt, (hgood.spent_issued hstep hid).1⟩
  · rw [hissued, List.map_append]
    cases hanswer : answer.issued with
    | none =>
      rw [Option.map_none, Option.toList_none, List.map_nil, List.append_nil]
      exact h.nodup
    | some id =>
      obtain ⟨-, hfresh, g, i, hparts⟩ := hgood.spent_issued hstep hanswer
      rw [Option.map_some, Option.toList_some, List.map_singleton, List.nodup_append]
      refine ⟨h.nodup, List.nodup_singleton _, ?_⟩
      intro id' hmem id'' hid heq
      rw [List.mem_singleton] at hid
      subst heq hid
      obtain ⟨⟨j, id''⟩, hmem', rfl⟩ := List.mem_map.mp hmem
      obtain ⟨w₀, hj, hspent₀⟩ := h.spent j id'' hmem'
      have hparts₀ := hspent₀
      obtain ⟨g', i', -, hparts', -⟩ := hparts₀
      have hsame : w₀.wheelId = w.wheelId := by
        rw [hparts, Option.some_inj, Prod.mk.injEq] at hparts'
        exact hparts'.1.symm
      obtain rfl := h.distinct j k w₀ w hj hk hsame
      rw [hk, Option.some_inj] at hj
      rw [← hj] at hspent₀
      exact hfresh hspent₀

theorem step (h : p.Kept trace) (hstep : p.Step deed p') :
  p'.Kept (trace ++ [deed])
  := by
  cases hstep with
  | opened hid hnew => exact h.opened hid hnew
  | called hk hcall => exact h.called hk hcall

theorem new :
  (Process.new : Process T).Kept []
  := by
  refine ⟨le_rfl, ?_, ?_, rfl, ?_, ?_, List.nodup_nil⟩
  · intro k w hk
    cases hk
  · intro j k w w' hj
    cases hj
  · intro k w id hk
    cases hk
  · intro k id hmem
    cases hmem

/-- A later process keeps the whole history. -/
theorem trail {more : List (Deed T)} (h : p.Kept trace) (hrun : Trail Process.Step p more p') :
  p'.Kept (trace ++ more)
  := by
  apply hrun.invariant (fun more p' => p'.Kept (trace ++ more))
  · rw [List.append_nil]
    exact h
  · intro more p₁ deed p₂ _ hkept hstep
    rw [← List.append_assoc]
    exact hkept.step hstep

/-- The wheel that issued a handle has its id. -/
theorem issuer {j k : ℕ} (h : p.Kept trace) (hj : (j, id) ∈ issued trace)
    (hk : (k, id) ∈ issued trace) :
  j = k
  := by
  obtain ⟨w, hw, g, i, -, hparts, -⟩ := h.spent j id hj
  obtain ⟨w', hw', g', i', -, hparts', -⟩ := h.spent k id hk
  rw [hparts, Option.some_inj, Prod.mk.injEq] at hparts'
  exact h.distinct j k w w' hw hw' hparts'.1

/-- The timers that are live by the calls are those in the slab. -/
theorem live_iff {k : ℕ} (h : p.Kept trace) (hk : p.wheels[k]? = some w) :
  Live trace k id ↔ (w.timer id).isSome
  := by
  have hchart : (charts trace)[k]? = some w.agenda.chart := by
    rw [h.charted, List.getElem?_map, hk]
    rfl
  rw [Live, hchart]
  constructor
  · rintro ⟨chart, d, heq, hd⟩
    rw [Option.some_inj] at heq
    subst heq
    obtain ⟨timer, htimer, -⟩ := Option.map_eq_some_iff.mp hd
    rw [show w.timer id = some timer from htimer]
    rfl
  · intro hsome
    obtain ⟨timer, htimer⟩ := Option.isSome_iff_exists.mp hsome
    refine ⟨w.agenda.chart, timer.1, rfl, ?_⟩
    show (w.timer id).map Prod.fst = some timer.1
    rw [htimer]
    rfl

theorem accepts {k : ℕ} (h : p.Kept trace) (hk : p.wheels[k]? = some w)
    (hlive : Live trace k id) :
  w.Accepts id
  := by
  rw [h.live_iff hk] at hlive
  obtain ⟨⟨d, t⟩, htimer⟩ := Option.isSome_iff_exists.mp hlive
  obtain ⟨g, i, hparts, hs⟩ := timer_eq_some.mp htimer
  exact (h.good k w hk).1.accepts (liveIndex_eq_some.mpr ⟨g, _, hparts, hs, rfl, rfl⟩)

theorem refuses {k : ℕ} (h : p.Kept trace) (hk : p.wheels[k]? = some w)
    (hstale : ¬ ((k, id) ∈ issued trace ∧ Live trace k id)) :
  w.Refuses id
  := by
  apply Wheel.refuses
  apply liveIndex_eq_none
  rw [← Option.not_isSome_iff_eq_none]
  intro hsome
  exact hstale ⟨h.known k w id hk hsome, (h.live_iff hk).mpr hsome⟩

end Process.Kept

theorem Wheel.Good.generation_le {i g : ℕ} (h : w.Good) (hg : w.generations[i]? = some g) :
  g ≤ U64_MAX
  := by
  obtain ⟨lists, free, hlinks⟩ := h.links
  rw [Wheel.generations, List.getElem?_map, Option.map_eq_some_iff] at hg
  obtain ⟨e, he, rfl⟩ := hg
  apply (hlinks.valid i e.core _).generation
  rw [Wheel.cores, List.getElem?_map, he]
  rfl

/-- A position in its last generation is not issued again. -/
theorem Wheel.Good.not_issued {i g : ℕ} (h : w.Good) (hstep : w.perform op = .ok (w', answer))
    (hlast : w.generations[i]? = some U64_MAX) (hissued : answer.issued = some id) (wheel : ℕ) :
  id.parts ≠ some (wheel, g, i)
  := by
  intro hparts
  obtain ⟨hgood', -⟩ := h.step (show w.Step (op, answer) w' from hstep)
  obtain ⟨-, ⟨hnone, -⟩ | ⟨id', j, g', hsome, hparts', hg, heq⟩⟩ := h.generations_step hstep
  · rw [hissued] at hnone
    cases hnone
  rw [hissued, Option.some_inj] at hsome
  subst hsome
  rw [hparts, Option.some_inj, Prod.mk.injEq, Prod.mk.injEq] at hparts'
  obtain ⟨-, -, rfl⟩ := hparts'
  rw [hlast, Option.some_inj] at hg
  subst hg
  have hlt := (List.getElem?_eq_some_iff.mp hlast).1
  have hnext : w'.generations[i]? = some (U64_MAX + 1) := by
    rw [heq, List.getElem?_set_self hlt]
  exact absurd (hgood'.generation_le hnext) (by omega)

/-- The last generation of a position is final. -/
theorem Process.Kept.retired {k i : ℕ} {more : List (Deed T)} (h : p.Kept trace)
    (hk : p.wheels[k]? = some w) (hlast : w.generations[i]? = some U64_MAX)
    (hrun : Trail Process.Step p more p') :
  (∃ w', p'.wheels[k]? = some w' ∧ w'.generations[i]? = some U64_MAX) ∧
    ∀ id, (k, id) ∈ issued more → ∀ wheel g, id.parts ≠ some (wheel, g, i)
  := by
  apply hrun.invariant (fun more p' =>
    (∃ w', p'.wheels[k]? = some w' ∧ w'.generations[i]? = some U64_MAX) ∧
      ∀ id, (k, id) ∈ issued more → ∀ wheel g, id.parts ≠ some (wheel, g, i))
  · refine ⟨⟨w, hk, hlast⟩, ?_⟩
    intro id hmem
    cases hmem
  · rintro more p₁ deed p₂ htrail ⟨⟨w₁, hk₁, hlast₁⟩, hnever⟩ hstep
    have hkept := h.trail htrail
    cases hstep with
    | opened hid hnew =>
      refine ⟨⟨w₁, ?_, hlast₁⟩, ?_⟩
      · show (p₁.wheels ++ [_])[k]? = some w₁
        rw [List.getElem?_append_left (List.getElem?_eq_some_iff.mp hk₁).1, hk₁]
      · intro id hmem
        rw [issued_snoc, List.mem_append] at hmem
        rcases hmem with hold | hnew
        · exact hnever id hold
        · cases hnew
    | @called j op answer w₀ w₂ hj hcall =>
      have hgood := (hkept.good j w₀ hj).1
      by_cases heq : j = k
      · subst heq
        rw [hk₁, Option.some_inj] at hj
        subst hj
        obtain ⟨g, hg, hle⟩ := hgood.generations_le hcall hlast₁
        have hgood' := (hgood.step (show w₁.Step (op, answer) w₂ from hcall)).1
        obtain rfl := le_antisymm (hgood'.generation_le hg) hle
        refine ⟨⟨w₂, List.getElem?_set_self (List.getElem?_eq_some_iff.mp hk₁).1, hg⟩, ?_⟩
        intro id hmem wheel g
        rw [issued_snoc, List.mem_append, Option.mem_toList] at hmem
        rcases hmem with hold | hnew
        · exact hnever id hold wheel g
        · obtain ⟨id', hid, heq⟩ := Option.map_eq_some_iff.mp hnew
          rw [Prod.mk.injEq] at heq
          obtain ⟨-, rfl⟩ := heq
          exact hgood.not_issued hcall hlast₁ hid wheel
      · refine ⟨⟨w₁, ?_, hlast₁⟩, ?_⟩
        · show (p₁.wheels.set j w₂)[k]? = some w₁
          rw [List.getElem?_set_ne heq, hk₁]
        · intro id hmem
          rw [issued_snoc, List.mem_append, Option.mem_toList] at hmem
          rcases hmem with hold | hnew
          · exact hnever id hold
          · obtain ⟨id', -, hid⟩ := Option.map_eq_some_iff.mp hnew
            rw [Prod.mk.injEq] at hid
            exact absurd hid.1 heq

/-- What the history of a process says of handles: which are accepted and which are refused,
that no two are equal, that a position in its last generation issues no more, and that stored
handles can be read back. -/
structure Process.Unforgeable (p : Process T) (trace : List (Deed T)) : Prop where
  accepts : ∀ (j k : ℕ) (id : TimerId) (w : Wheel T), (k, id) ∈ issued trace →
    p.wheels[j]? = some w → (w.Accepts id ↔ j = k ∧ Live trace k id)
  refuses : ∀ (k : ℕ) (id : TimerId) (w : Wheel T), p.wheels[k]? = some w →
    ¬ ((k, id) ∈ issued trace ∧ Live trace k id) → w.Refuses id
  nodup : ((issued trace).map Prod.snd).Nodup
  retired : ∀ (k i : ℕ) (w : Wheel T) (e : Entry T), p.wheels[k]? = some w →
    w.entries[i]? = some e → e.generation = U64_MAX →
    ∀ (more : List (Deed T)) (p' : Process T), Trail Process.Step p more p' →
      ∀ id, (k, id) ∈ issued more → ∀ wheel g, id.parts ≠ some (wheel, g, i)
  encoded : ∀ id, (∃ k, (k, id) ∈ issued trace) ∨ (∃ raw, TimerId.fromRaw raw = some id) →
    TimerId.fromRaw id.get = some id

/-- In every run over any number of wheels, handles are unforgeable. -/
theorem handles_are_unforgeable (hrun : Trail Process.Step Process.new trace p) :
  p.Unforgeable trace
  := by
  have h : p.Kept trace := Process.Kept.new.trail hrun
  refine ⟨?_, fun k id w hk hstale => h.refuses hk hstale, h.nodup, ?_, ?_⟩
  · intro j k id w hissued hj
    constructor
    · intro haccepts
      by_contra hstale
      have hrefuses : w.Refuses id := by
        apply h.refuses hj
        rintro ⟨hmem, hlive⟩
        obtain rfl := h.issuer hmem hissued
        exact hstale ⟨rfl, hlive⟩
      have hcontains := hrefuses.contains
      rw [haccepts.contains] at hcontains
      cases hcontains
    · rintro ⟨rfl, hlive⟩
      exact h.accepts hj hlive
  · intro k i w e hk he hlast more p' hmore
    apply (h.retired hk _ hmore).2
    rw [Wheel.generations, List.getElem?_map, he, ← hlast]
    rfl
  · rintro id (⟨k, hmem⟩ | ⟨raw, hraw⟩)
    · obtain ⟨w, -, g, i, -, hparts, -⟩ := h.spent k id hmem
      rw [TimerId.fromRaw_eq_some, hparts]
      exact ⟨rfl, rfl⟩
    · rw [TimerId.fromRaw_eq_some] at hraw ⊢
      exact ⟨rfl, hraw.2⟩

/-- Two wheels, and a timer that is cancelled before its position is issued again. -/
theorem handles_are_unforgeable_reused :
  ∃ (p : Process ℕ) (id id' : TimerId), Trail Process.Step Process.new
    [.opened 1 0, .opened 1 0, .called 0 (.tryInsertAt 5 7) (.inserted (.ok id)),
      .called 0 (.cancel id) (.cancelled (some 7)),
      .called 0 (.tryInsertAt 5 8) (.inserted (.ok id'))] p ∧
    p.Unforgeable
      [.opened 1 0, .opened 1 0, .called 0 (.tryInsertAt 5 7) (.inserted (.ok id)),
        .called 0 (.cancel id) (.cancelled (some 7)),
        .called 0 (.tryInsertAt 5 8) (.inserted (.ok id'))]
  := by
  have hcalls : ∃ w₀ w w₁ w₂ w₃ : Wheel ℕ, ∃ id id',
      Wheel.withCapacityAtTick 1 0 1 = .ok w₀ ∧ Wheel.withCapacityAtTick 1 0 2 = .ok w ∧
      w₀.perform (.tryInsertAt 5 7) = .ok (w₁, .inserted (.ok id)) ∧
      w₁.perform (.cancel id) = .ok (w₂, .cancelled (some 7)) ∧
      w₂.perform (.tryInsertAt 5 8) = .ok (w₃, .inserted (.ok id')) :=
    ⟨_, _, _, _, _, _, _, rfl, rfl, rfl, rfl, rfl⟩
  obtain ⟨w₀, w, w₁, w₂, w₃, id, id', hfirst, hsecond, hinsert, hcancel, hagain⟩ := hcalls
  have htrail : Trail Process.Step Process.new
      ([] ++ [.opened 1 0] ++ [.opened 1 0] ++
        [.called 0 (.tryInsertAt 5 7) (.inserted (.ok id))] ++
        [.called 0 (.cancel id) (.cancelled (some 7))] ++
        [.called 0 (.tryInsertAt 5 8) (.inserted (.ok id'))]) ⟨3, [w₃, w]⟩ :=
    ((((Trail.nil.snoc (.opened rfl hfirst)).snoc (.opened rfl hsecond)).snoc
      (.called rfl hinsert)).snoc (.called rfl hcancel)).snoc (.called rfl hagain)
  exact ⟨⟨3, [w₃, w]⟩, id, id', htrail, handles_are_unforgeable htrail⟩

end Runs

end Grommet.Timer
