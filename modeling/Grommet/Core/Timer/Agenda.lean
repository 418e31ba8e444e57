import Grommet.Core.Timer.Operations
import Grommet.Library.Trail

/-!
# The wheel as an ordered map of timers

Seen from outside, a wheel is an agenda: a cursor, and a deadline and a token for each
handle of a live timer.  Every run of a wheel is a run of its agenda, and no operation of a
run panics.
-/

open Checked

namespace Grommet.Timer

variable {T : Type}

/-- The deadlines and tokens of the live timers, by handle. -/
structure Agenda (T : Type) where
  cursor : ℕ
  timers : TimerId → Option (ℕ × T)

/-- A call of the wheel. -/
inductive Op (T : Type) where
  | tryInsertAt (deadline : ℕ) (token : T)
  | cancel (id : TimerId)
  | rescheduleAt (id : TimerId) (deadline : ℕ)
  | advanceTo (target : ℕ)
  deriving DecidableEq

/-- What a call returns. -/
inductive Answer (T : Type) where
  | inserted (result : Except (InsertError T) TimerId)
  | cancelled (token : Option T)
  | rescheduled (result : Except RescheduleError Unit)
  | fired (tokens : List T)

/-- The target of an advance is a tick. -/
def Op.Admissible : Op T → Prop
  | advanceTo target => target ≤ MAX_TICK
  | _ => True

/-- The call did nothing. -/
def Op.Refused (cursor : ℕ) : Op T → Answer T → Prop
  | tryInsertAt _ _, .inserted (.error _) => True
  | cancel _, .cancelled none => True
  | rescheduleAt _ _, .rescheduled (.error _) => True
  | advanceTo target, .fired _ => target < cursor
  | _, _ => False

namespace Agenda

/-- The timers due at a target fire once each, in the order of their deadlines, where those
that are overdue count from the cursor. -/
structure Fires (a : Agenda T) (target : ℕ) (order : List TimerId) (tokens : List T) : Prop where
  nodup : order.Nodup
  due : ∀ id, id ∈ order ↔ ∃ d t, a.timers id = some (d, t) ∧ d ≤ target
  tokens_eq : tokens.map some = order.map fun id => (a.timers id).map Prod.snd
  sorted : order.Pairwise fun id id' => ∀ d t d' t', a.timers id = some (d, t) →
    a.timers id' = some (d', t') → max d a.cursor ≤ max d' a.cursor

/-- One call of an agenda. -/
inductive Step (a : Agenda T) : Op T × Answer T → Agenda T → Prop
  | inserted {d : ℕ} {t : T} {id : TimerId} : a.timers id = none →
      Step a (.tryInsertAt d t, .inserted (.ok id))
        { a with timers := Function.update a.timers id (some (d, t)) }
  | insertRefused {d : ℕ} {t : T} {kind : InsertErrorKind} :
      kind = .full ∨ MAX_TICK < d ∨ a.cursor + MAX_DELAY_TICKS < d →
      Step a (.tryInsertAt d t, .inserted (.error ⟨kind, t⟩)) a
  | cancelled {d : ℕ} {t : T} {id : TimerId} : a.timers id = some (d, t) →
      Step a (.cancel id, .cancelled (some t))
        { a with timers := Function.update a.timers id none }
  | cancelRefused {id : TimerId} : a.timers id = none →
      Step a (.cancel id, .cancelled none) a
  | rescheduled {d d' : ℕ} {t : T} {id : TimerId} : a.timers id = some (d, t) →
      Step a (.rescheduleAt id d', .rescheduled (.ok ()))
        { a with timers := Function.update a.timers id (some (d', t)) }
  | rescheduleRefused {d : ℕ} {id : TimerId} {e : RescheduleError} :
      a.timers id = none ∨ MAX_TICK < d ∨ a.cursor + MAX_DELAY_TICKS < d →
      Step a (.rescheduleAt id d, .rescheduled (.error e)) a
  | advanced {target : ℕ} {order : List TimerId} {tokens : List T} : a.cursor ≤ target →
      a.Fires target order tokens →
      Step a (.advanceTo target, .fired tokens)
        ⟨target, fun id => (a.timers id).filter fun timer => target < timer.1⟩
  | backwards {target : ℕ} : target < a.cursor → Step a (.advanceTo target, .fired []) a

end Agenda

namespace Wheel

/-- Perform a call. -/
def perform (w : Wheel T) : Op T → Checked (Wheel T × Answer T)
  | .tryInsertAt deadline token => do
      let (w, result) ← w.tryInsertAt deadline token
      .ok (w, .inserted result)
  | .cancel id => do
      let (w, token) ← w.cancel id
      .ok (w, .cancelled token)
  | .rescheduleAt id deadline => do
      let (w, result) ← w.rescheduleAt id deadline
      .ok (w, .rescheduled result)
  | .advanceTo target => do
      let (w, tokens) ← w.advanceTo target
      .ok (w, .fired tokens)

/-- A call that returns. -/
def Step (w : Wheel T) (call : Op T × Answer T) (w' : Wheel T) : Prop :=
  w.perform call.1 = .ok (w', call.2)

/-- The deadline and the token of the timer of a handle. -/
def timer (w : Wheel T) (id : TimerId) : Option (ℕ × T) := do
  let index ← w.liveIndex id
  let entry ← w.entries[index]?
  let token ← entry.token
  some (entry.deadline, token)

def agenda (w : Wheel T) : Agenda T := ⟨w.cursor, w.timer⟩

end Wheel

/-! ### The timers of a wheel -/

variable {w w' : Wheel T} {id : TimerId} {i d : ℕ} {t : T} {s s' : Content T}

theorem timer_eq_some :
  w.timer id = some (d, t) ↔
    ∃ g i, id.parts = some (w.wheelId, g, i) ∧ w.contents[i]? = some ⟨d, g, some t⟩
  := by
  simp only [Wheel.timer, Option.bind_eq_bind, Option.bind_eq_some_iff, Option.some_inj,
    Prod.mk.injEq]
  constructor
  · rintro ⟨i, hlive, e, he, t, htoken, rfl, rfl⟩
    obtain ⟨g, s, hparts, hs, rfl, -⟩ := liveIndex_eq_some.mp hlive
    refine ⟨_, i, hparts, ?_⟩
    rw [hs]
    rw [contents_of_entries, he, Option.map_some, Option.some_inj] at hs
    rw [← hs, Core.content, Entry.core, htoken]
  · rintro ⟨g, i, hparts, hs⟩
    have hlive : w.liveIndex id = some i := liveIndex_eq_some.mpr ⟨g, _, hparts, hs, rfl, rfl⟩
    rw [contents_of_entries, Option.map_eq_some_iff] at hs
    obtain ⟨e, he, hcontent⟩ := hs
    exact ⟨i, hlive, e, he, t, congrArg Content.token hcontent,
      congrArg Content.deadline hcontent, rfl⟩

/-- A slab without tokens has no timers. -/
theorem timer_of_empty (hempty : ∀ c ∈ w.cores, c.token = none) :
  w.timer id = none
  := by
  rw [Option.eq_none_iff_forall_ne_some]
  rintro ⟨d, t⟩ htimer
  obtain ⟨g, i, -, hs⟩ := timer_eq_some.mp htimer
  rw [Wheel.contents, List.getElem?_map, Option.map_eq_some_iff] at hs
  obtain ⟨c, hc, hcontent⟩ := hs
  have hnone := hempty c (List.mem_of_getElem? hc)
  have htoken : c.token = some t := congrArg Content.token hcontent
  rw [hnone] at htoken
  cases htoken

/-- A handle of no live timer has no index. -/
theorem liveIndex_eq_none (h : w.timer id = none) :
  w.liveIndex id = none
  := by
  rw [Option.eq_none_iff_forall_ne_some]
  intro i hlive
  obtain ⟨g, s, hparts, hs, hgeneration, htoken⟩ := liveIndex_eq_some.mp hlive
  obtain ⟨t, ht⟩ := Option.isSome_iff_exists.mp htoken
  have htimer : w.timer id = some (s.deadline, t) := by
    rw [timer_eq_some]
    refine ⟨g, i, hparts, ?_⟩
    rw [hs, ← hgeneration, ← ht]
  rw [h] at htimer
  cases htimer

/-- The timers after one slab position changed. -/
theorem timer_update (hs : w.contents[i]? = some s) (hcontents : w'.contents = w.contents.set i s')
    (hwheel : w'.wheelId = w.wheelId) (hid : id.parts = some (w.wheelId, s'.generation, i))
    (hold : s.token = none ∨ s.generation = s'.generation) :
  w'.timer = Function.update w.timer id (s'.token.map fun t => (s'.deadline, t))
  := by
  have hlt := (List.getElem?_eq_some_iff.mp hs).1
  have hself : w'.contents[i]? = some s' := by
    rw [hcontents, List.getElem?_set_self hlt]
  funext id'
  apply Option.ext
  rintro ⟨d, t⟩
  rw [timer_eq_some, hwheel]
  by_cases heq : id' = id
  · subst heq
    rw [Function.update_self, Option.map_eq_some_iff]
    constructor
    · rintro ⟨g, j, hparts, hj⟩
      rw [hid, Option.some_inj, Prod.mk.injEq, Prod.mk.injEq] at hparts
      obtain ⟨-, rfl, rfl⟩ := hparts
      rw [hself, Option.some_inj] at hj
      exact ⟨t, by rw [hj], by rw [hj]⟩
    · rintro ⟨t', ht', hd⟩
      rw [Prod.mk.injEq] at hd
      obtain ⟨rfl, rfl⟩ := hd
      refine ⟨s'.generation, i, hid, ?_⟩
      rw [hself, ← ht']
  · rw [Function.update_of_ne heq, timer_eq_some]
    apply exists_congr
    intro g
    apply exists_congr
    intro j
    apply and_congr_right
    intro hparts
    by_cases hj : i = j
    · subst hj
      have hne : g ≠ s'.generation := by
        rintro rfl
        apply heq (TimerId.parts_inj hparts hid)
      rw [hself, hs]
      simp only [Option.some_inj]
      constructor
      · rintro rfl
        exact (hne rfl).elim
      · rintro rfl
        rcases hold with hnone | hgeneration
        · cases hnone
        · exact (hne hgeneration).elim
    · rw [hcontents, List.getElem?_set_ne hj]

/-- The timers after those due at a target fired. -/
theorem timer_lapsed {target : ℕ}
    (hcontents : w'.contents = w.contents.map (Content.lapsed target))
    (hwheel : w'.wheelId = w.wheelId) :
  w'.timer = fun id => (w.timer id).filter fun timer => target < timer.1
  := by
  funext id
  apply Option.ext
  rintro ⟨d, t⟩
  rw [timer_eq_some, Option.filter_eq_some_iff, timer_eq_some, hwheel]
  simp only [hcontents, List.getElem?_map, Option.map_eq_some_iff, decide_eq_true_eq]
  constructor
  · rintro ⟨g, i, hparts, s, hs, hlapsed⟩
    rw [Content.lapsed] at hlapsed
    split at hlapsed
    · cases congrArg Content.token hlapsed
    · rename_i hlate
      rw [hlapsed] at hs hlate
      exact ⟨⟨g, i, hparts, hs⟩, Nat.not_le.mp hlate⟩
  · rintro ⟨⟨g, i, hparts, hs⟩, hlate⟩
    refine ⟨g, i, hparts, _, hs, ?_⟩
    rw [Content.lapsed, if_neg (Nat.not_le.mpr hlate)]

/-- Every live timer has a handle. -/
theorem Wheel.Good.exists_id {c : Core T} (h : w.Good) (hc : w.cores[i]? = some c)
    (htoken : c.token.isSome) :
  ∃ id : TimerId, id.parts = some (w.wheelId, c.generation, i)
  := by
  obtain ⟨lists, free, hlinks⟩ := h.links
  have hvalid := hlinks.valid i c hc
  have hgeneration : c.generation ≠ 0 ∧ c.generation < 2 ^ 64 := by
    have hle := hvalid.generation
    have hword : U64_MAX + 1 = 2 ^ 64 := by decide
    exact ⟨(hvalid.live htoken).1, by omega⟩
  have hindex : i < NIL := by
    have hsize := hlinks.size
    have hlt := (List.getElem?_eq_some_iff.mp hc).1
    omega
  obtain ⟨id, -, hparts⟩ := TimerId.new_spec h.wheel hgeneration hindex
  exact ⟨id, hparts⟩

/-- The handles of the timers that an advance fires. -/
theorem Wheel.Good.fires {target : ℕ} {fired : List ℕ} {tokens : List T} (h : w.Good)
    (hsweeps : Sweeps w target fired tokens) :
  ∃ order, w.agenda.Fires target order tokens
  := by
  have hhandle : ∀ i, ∃ id : TimerId, ∀ c, i ∈ fired → w.cores[i]? = some c →
      id.parts = some (w.wheelId, c.generation, i) := by
    intro i
    by_cases hi : i ∈ fired
    · obtain ⟨c, hc, htoken, -⟩ := (hsweeps.mem_iff i).mp hi
      obtain ⟨id, hparts⟩ := h.exists_id hc htoken
      refine ⟨id, fun c' _ hc' => ?_⟩
      rw [hc, Option.some_inj] at hc'
      rw [← hc', hparts]
    · exact ⟨⟨1, by decide, by decide⟩, fun c hmem => (hi hmem).elim⟩
  choose handle hhandle using hhandle
  have hdue : ∀ i ∈ fired, ∃ c t, w.cores[i]? = some c ∧ c.token = some t ∧ c.deadline ≤ target ∧
      (handle i).parts = some (w.wheelId, c.generation, i) := by
    intro i hi
    obtain ⟨c, hc, htoken, hle⟩ := (hsweeps.mem_iff i).mp hi
    obtain ⟨t, ht⟩ := Option.isSome_iff_exists.mp htoken
    exact ⟨c, t, hc, ht, hle, hhandle i c hi hc⟩
  have htimer : ∀ i ∈ fired, ∃ c t, w.cores[i]? = some c ∧ c.token = some t ∧ c.deadline ≤ target ∧
      w.timer (handle i) = some (c.deadline, t) := by
    intro i hi
    obtain ⟨c, t, hc, ht, hle, hparts⟩ := hdue i hi
    refine ⟨c, t, hc, ht, hle, ?_⟩
    rw [timer_eq_some]
    refine ⟨c.generation, i, hparts, ?_⟩
    rw [contents_getElem? hc, Core.content, ht]
  refine ⟨fired.map handle, ?_, ?_, ?_, ?_⟩
  · apply List.Nodup.map_on _ hsweeps.nodup
    intro i hi j hj heq
    obtain ⟨c, t, -, -, -, hi⟩ := hdue i hi
    obtain ⟨c', t', -, -, -, hj⟩ := hdue j hj
    rw [heq, hj, Option.some_inj, Prod.mk.injEq, Prod.mk.injEq] at hi
    exact hi.2.2.symm
  · intro id
    rw [List.mem_map]
    constructor
    · rintro ⟨i, hi, rfl⟩
      obtain ⟨c, t, -, -, hle, htimer⟩ := htimer i hi
      exact ⟨c.deadline, t, htimer, hle⟩
    · rintro ⟨d, t, htimer, hle⟩
      obtain ⟨g, i, hparts, hs⟩ := timer_eq_some.mp htimer
      rw [Wheel.contents, List.getElem?_map, Option.map_eq_some_iff] at hs
      obtain ⟨c, hc, hcontent⟩ := hs
      have hmem : i ∈ fired := by
        rw [hsweeps.mem_iff]
        refine ⟨c, hc, ?_, ?_⟩
        · rw [show c.token = some t from congrArg Content.token hcontent]
          rfl
        · rw [show c.deadline = d from congrArg Content.deadline hcontent]
          exact hle
      refine ⟨i, hmem, ?_⟩
      have hgeneration : c.generation = g := congrArg Content.generation hcontent
      apply TimerId.parts_inj _ hparts
      rw [hhandle i c hmem hc, hgeneration]
  · rw [hsweeps.tokens_eq, List.map_map]
    apply List.map_congr_left
    intro i hi
    obtain ⟨c, t, hc, ht, -, htimer⟩ := htimer i hi
    rw [Wheel.token, hc, Option.bind_some, ht, Function.comp_apply]
    show _ = (w.timer (handle i)).map Prod.snd
    rw [htimer]
    rfl
  · rw [List.pairwise_map]
    apply List.Pairwise.imp_of_mem _ hsweeps.sorted
    intro i j hi hj hsorted d t d' t' hd hd'
    obtain ⟨c, _, hc, -, -, htimer₁⟩ := htimer i hi
    obtain ⟨c', _, hc', -, -, htimer₂⟩ := htimer j hj
    rw [show w.agenda.timers (handle i) = _ from htimer₁, Option.some_inj, Prod.mk.injEq] at hd
    rw [show w.agenda.timers (handle j) = _ from htimer₂, Option.some_inj, Prod.mk.injEq] at hd'
    rw [← hd.1, ← hd'.1]
    apply hsorted c c' hc hc'

/-! ### Runs -/

/-- Every call of a good wheel returns what its agenda allows, and changes nothing when it
is refused. -/
theorem Wheel.Good.perform {op : Op T} (h : w.Good) (hop : op.Admissible) :
  ∃ w' answer, w.perform op = .ok (w', answer) ∧ w'.Good ∧
    w.agenda.Step (op, answer) w'.agenda ∧ (op.Refused w.cursor answer → w' = w)
  := by
  cases op with
  | tryInsertAt d t =>
    rcases h.tryInsertAt d t with
      ⟨kind, hinsert, hkind⟩ | ⟨w', id, i, s, hinsert, hgood, hcursor, hwheel, hparts, hs, hnone, hset⟩
    · refine ⟨w, _, ?_, h, .insertRefused hkind, fun _ => rfl⟩
      rw [Wheel.perform, hinsert, ok_bind]
    · have htimers := timer_update hs hset hwheel hparts (Or.inl hnone)
      have hfresh : w.timer id = none := by
        rw [Option.eq_none_iff_forall_ne_some]
        rintro ⟨d', t'⟩ htimer
        obtain ⟨g, j, hparts', hj⟩ := timer_eq_some.mp htimer
        rw [hparts, Option.some_inj, Prod.mk.injEq, Prod.mk.injEq] at hparts'
        rw [← hparts'.2.2, hs, Option.some_inj] at hj
        rw [hj] at hnone
        cases hnone
      refine ⟨w', .inserted (.ok id), ?_, hgood, ?_, fun hrefused => hrefused.elim⟩
      · rw [Wheel.perform, hinsert, ok_bind]
      · rw [Wheel.agenda, Wheel.agenda, hcursor, htimers]
        apply Agenda.Step.inserted hfresh
  | cancel id =>
    cases hlive : w.liveIndex id with
    | none =>
      refine ⟨w, .cancelled none, ?_, h, .cancelRefused ?_, fun _ => rfl⟩
      · rw [Wheel.perform, Wheel.cancel, hlive]
        rfl
      · show w.timer id = none
        rw [Wheel.timer, hlive]
        rfl
    | some i =>
      obtain ⟨w', s, t, hcancel, hgood, hcursor, hwheel, hs, htoken, hset⟩ := h.cancel hlive
      obtain ⟨g, s', hparts, hs', rfl, -⟩ := liveIndex_eq_some.mp hlive
      rw [hs, Option.some_inj] at hs'
      subst hs'
      have htimers := timer_update hs hset hwheel hparts (Or.inr rfl)
      have htimer : w.timer id = some (s.deadline, t) := by
        rw [timer_eq_some]
        exact ⟨s.generation, i, hparts, by rw [hs, ← htoken]⟩
      refine ⟨w', .cancelled (some t), ?_, hgood, ?_, fun hrefused => hrefused.elim⟩
      · rw [Wheel.perform, hcancel, ok_bind]
      · rw [Wheel.agenda, Wheel.agenda, hcursor, htimers]
        apply Agenda.Step.cancelled htimer
  | rescheduleAt id d =>
    by_cases hmax : MAX_TICK < d
    · refine ⟨w, .rescheduled (.error .timeOutOfRange), ?_, h,
        .rescheduleRefused (Or.inr (Or.inl hmax)), fun _ => rfl⟩
      rw [Wheel.perform, Wheel.rescheduleAt, if_pos hmax, ok_bind]
    by_cases hfits : d ≤ w.cursor + MAX_DELAY_TICKS
    swap
    · refine ⟨w, .rescheduled (.error .deadlineTooFar), ?_, h,
        .rescheduleRefused (Or.inr (Or.inr (Nat.not_le.mp hfits))), fun _ => rfl⟩
      rw [Wheel.perform, Wheel.rescheduleAt, if_neg hmax,
        if_pos (by simpa [← deadlineFits_iff] using hfits), ok_bind]
    cases hlive : w.liveIndex id with
    | none =>
      refine ⟨w, .rescheduled (.error .staleId), ?_, h, .rescheduleRefused (Or.inl ?_), fun _ => rfl⟩
      · rw [Wheel.perform, Wheel.rescheduleAt, if_neg hmax,
          if_neg (by simpa [← deadlineFits_iff] using hfits), hlive]
        rfl
      · show w.timer id = none
        rw [Wheel.timer, hlive]
        rfl
    | some i =>
      obtain ⟨w', s, hreschedule, hgood, hcursor, hwheel, hs, hset⟩ :=
        h.rescheduleAt hlive (Nat.not_lt.mp hmax) hfits
      obtain ⟨g, s', hparts, hs', rfl, hsome⟩ := liveIndex_eq_some.mp hlive
      rw [hs, Option.some_inj] at hs'
      subst hs'
      obtain ⟨t, htoken⟩ := Option.isSome_iff_exists.mp hsome
      have htimers := timer_update hs hset hwheel hparts (Or.inr rfl)
      have htimer : w.timer id = some (s.deadline, t) := by
        rw [timer_eq_some]
        exact ⟨s.generation, i, hparts, by rw [hs, ← htoken]⟩
      rw [htoken] at htimers
      refine ⟨w', .rescheduled (.ok ()), ?_, hgood, ?_, fun hrefused => hrefused.elim⟩
      · rw [Wheel.perform, hreschedule, ok_bind]
      · rw [Wheel.agenda, Wheel.agenda, hcursor, htimers]
        apply Agenda.Step.rescheduled htimer
  | advanceTo target =>
    by_cases hback : target < w.cursor
    · have hmax : decide (target ≤ MAX_TICK) = true := decide_eq_true hop
      refine ⟨w, .fired [], ?_, h, .backwards hback, fun _ => rfl⟩
      rw [Wheel.perform, Wheel.advanceTo, assert_of hmax, ok_bind, if_pos (Or.inr hback), ok_bind]
    · obtain ⟨w', tokens, fired, hadvance, hgood, hcursor, hwheel, hlapsed, hsweeps⟩ :=
        h.advanceTo (Nat.not_lt.mp hback) hop
      obtain ⟨order, hfires⟩ := h.fires hsweeps
      refine ⟨w', .fired tokens, ?_, hgood, ?_, fun hrefused => (hback hrefused).elim⟩
      · rw [Wheel.perform, hadvance, ok_bind]
      · have hagenda : w'.agenda = ⟨target, fun id =>
            (w.agenda.timers id).filter fun timer => target < timer.1⟩ := by
          rw [Wheel.agenda, hcursor, timer_lapsed hlapsed hwheel]
          rfl
        rw [hagenda]
        apply Agenda.Step.advanced (Nat.not_lt.mp hback) hfires

/-- An advance that returns had a tick as its target. -/
theorem admissible_of_returns {op : Op T} {answer : Answer T} (h : w.perform op = .ok (w', answer)) :
  op.Admissible
  := by
  cases op with
  | tryInsertAt _ _ => trivial
  | cancel _ => trivial
  | rescheduleAt _ _ => trivial
  | advanceTo target =>
    rw [Wheel.perform, bind_eq_ok] at h
    obtain ⟨_, h, -⟩ := h
    rw [Wheel.advanceTo, bind_eq_ok] at h
    obtain ⟨_, h, -⟩ := h
    rw [assert_eq_ok, decide_eq_true_eq] at h
    exact h

/-- One call of a good wheel is one call of its agenda. -/
theorem Wheel.Good.step {call : Op T × Answer T} (h : w.Good) (hstep : w.Step call w') :
  w'.Good ∧ w.agenda.Step call w'.agenda
  := by
  obtain ⟨w₁, answer, hperform, hgood, hagenda, -⟩ := h.perform (admissible_of_returns hstep)
  rw [Wheel.Step] at hstep
  rw [hstep, Except.ok.injEq, Prod.mk.injEq] at hperform
  obtain ⟨rfl, heq⟩ := hperform
  rw [show call = (call.1, answer) from Prod.ext rfl heq]
  exact ⟨hgood, hagenda⟩

/-- Every wheel that a run reaches is good. -/
theorem good_of_run {next wheelId after capacity start : ℕ} {w₀ : Wheel T}
    {trace : List (Op T × Answer T)} (hnext : NEXT_WHEEL_ID ≤ next)
    (hid : allocateWheelId next = .ok (wheelId, after))
    (hstart : Wheel.withCapacityAtTick capacity start wheelId = .ok w₀)
    (hrun : Trail Wheel.Step w₀ trace w) :
  w.Good
  := by
  apply hrun.invariant (fun _ w => w.Good) (good_new (allocateWheelId_spec hnext hid) hstart).1
  intro _ w₁ call w₂ _ hgood hstep
  exact (hgood.step hstep).1

/-- Every run of a wheel, of any capacity and from any tick, is a run of its agenda, in which
every call returns, and a refused call changes nothing. -/
theorem wheel_refines_agenda {next wheelId after capacity start : ℕ} {w₀ : Wheel T}
    {trace : List (Op T × Answer T)} (hnext : NEXT_WHEEL_ID ≤ next)
    (hid : allocateWheelId next = .ok (wheelId, after))
    (hstart : Wheel.withCapacityAtTick capacity start wheelId = .ok w₀)
    (hrun : Trail Wheel.Step w₀ trace w) :
  Trail Agenda.Step ⟨start, fun _ => none⟩ trace w.agenda ∧
    ∀ op : Op T, op.Admissible → ∃ w' answer, w.perform op = .ok (w', answer) ∧
      w.agenda.Step (op, answer) w'.agenda ∧ (op.Refused w.cursor answer → w' = w)
  := by
  obtain ⟨hgood, hcursor, hempty, -⟩ := good_new (allocateWheelId_spec hnext hid) hstart
  have hagenda : w₀.agenda = ⟨start, fun _ => none⟩ := by
    rw [Wheel.agenda, hcursor]
    congr
    funext id
    apply timer_of_empty hempty
  obtain ⟨a, htrail, hgood', rfl⟩ := hrun.simulate
    (fun (w : Wheel T) (a : Agenda T) => w.Good ∧ w.agenda = a) ⟨hgood, hagenda⟩
    (by
      rintro w₁ _ call w₂ ⟨hgood₁, rfl⟩ hstep
      obtain ⟨hgood₂, hstep₂⟩ := hgood₁.step hstep
      exact ⟨_, hstep₂, hgood₂, rfl⟩)
  refine ⟨htrail, ?_⟩
  intro op hop
  obtain ⟨w', answer, hperform, -, hstep, hrefused⟩ := hgood'.perform hop
  exact ⟨w', answer, hperform, hstep, hrefused⟩

/-- A timer for tick five fires when the wheel advances to tick nine. -/
theorem wheel_refines_agenda_fired :
  ∃ (w₀ w : Wheel ℕ) (id : TimerId), Wheel.withCapacityAtTick 1 0 1 = .ok w₀ ∧
    Trail Wheel.Step w₀
      [(.tryInsertAt 5 7, .inserted (.ok id)), (.advanceTo 9, .fired [7])] w ∧
    Trail Agenda.Step ⟨0, fun _ => none⟩
      [(.tryInsertAt 5 7, .inserted (.ok id)), (.advanceTo 9, .fired [7])] w.agenda
  := by
  have hrun : ∃ w₀ w₁ w : Wheel ℕ, ∃ id, Wheel.withCapacityAtTick 1 0 1 = .ok w₀ ∧
      w₀.perform (.tryInsertAt 5 7) = .ok (w₁, .inserted (.ok id)) ∧
      w₁.perform (.advanceTo 9) = .ok (w, .fired [7]) :=
    ⟨_, _, _, _, rfl, rfl, rfl⟩
  obtain ⟨w₀, w₁, w, id, hstart, hinsert, hadvance⟩ := hrun
  have htrail : Trail Wheel.Step w₀
      ([] ++ [(.tryInsertAt 5 7, .inserted (.ok id))] ++ [(.advanceTo 9, .fired [7])]) w :=
    (Trail.nil.snoc hinsert).snoc hadvance
  have hid : allocateWheelId 1 = .ok (1, 2) := rfl
  exact ⟨w₀, w, id, hstart, htrail, (wheel_refines_agenda le_rfl hid hstart htrail).1⟩

end Grommet.Timer
