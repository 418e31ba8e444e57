import Grommet.Core.Scheduler.Model
import Grommet.Library.Trail

/-!
# When each in-flight dispatch started

The shard records when a dispatch started in a slot named by its sequence number, and there are
as many slots as dispatches can be in flight.  A slot is free again when the dispatch that used
it has finished, not when some dispatch has: a dispatch that begins while an older one still
runs in its slot takes the slot over.
-/

namespace Grommet

/-- When each in-flight dispatch started. -/
structure InFlightAges where
  startedAt : List Duration
  live : List Bool
  next : ℕ
  deriving DecidableEq

namespace InFlightAges

/-- Ages of at most a number of dispatches. -/
def new (slots : ℕ) : InFlightAges where
  startedAt := List.replicate (max slots 1) 0
  live := List.replicate (max slots 1) false
  next := 0

/-- The slot of a sequence number. -/
def slot (a : InFlightAges) (sequence : ℕ) : ℕ := sequence % a.startedAt.length

/-- Note a dispatch starting, with the sequence number that identifies it until it completes. -/
def begin (a : InFlightAges) (now : Duration) : InFlightAges × ℕ :=
  let sequence := a.next
  ({ startedAt := a.startedAt.set (a.slot sequence) now
     live := a.live.set (a.slot sequence) true
     next := (sequence + 1) % 2 ^ 64 }, sequence)

/-- Note a dispatch finishing, with how long it ran. -/
def finish (a : InFlightAges) (sequence : ℕ) (now : Duration) : InFlightAges × Duration :=
  ({ a with live := a.live.set (a.slot sequence) false },
    now - a.startedAt.getD (a.slot sequence) 0)

/-- When the still-running dispatches started. -/
def running (a : InFlightAges) : List Duration :=
  (a.startedAt.zip a.live).filterMap fun p => if p.2 then some p.1 else none

/-- How long the oldest still-running dispatch has been running. -/
def oldest (a : InFlightAges) (now : Duration) : Duration :=
  match a.running.min? with
  | some started => now - started
  | none => 0

/-- A call of the shard. -/
inductive Call where
  | begin (now : Duration)
  | finish (sequence : ℕ) (now : Duration)
  deriving DecidableEq

/-- Ages with the dispatches that are unfinished, each with its sequence number and the time of
its start, and the time of the last call. -/
structure Log where
  ages : InFlightAges
  unfinished : List (ℕ × Duration)
  time : Duration
  deriving DecidableEq

/-- A call of a shard that finishes what it began and has at most `slots` dispatches
unfinished, at times that do not decrease. -/
inductive Step (slots : ℕ) (x : Log) : Call → Log → Prop
  | begin {now : Duration} : x.time ≤ now → x.unfinished.length < slots →
      Step slots x (.begin now)
        ⟨(x.ages.begin now).1, x.unfinished ++ [((x.ages.begin now).2, now)], now⟩
  | finish {sequence : ℕ} {started now : Duration} : x.time ≤ now →
      (sequence, started) ∈ x.unfinished →
      Step slots x (.finish sequence now)
        ⟨(x.ages.finish sequence now).1, x.unfinished.erase (sequence, started), now⟩

/-- A log of fresh ages. -/
def Log.new (slots : ℕ) (time : Duration) : Log := ⟨.new slots, [], time⟩

/-- A dispatch that begins finds its slot free. -/
def Log.Vacant (x : Log) : Call → Prop
  | .begin _ => ∀ e ∈ x.unfinished, x.ages.slot e.1 ≠ x.ages.slot x.ages.next
  | .finish _ _ => True

/-- The ages are what they should be. -/
structure Log.Exact (x : Log) : Prop where
  /-- A dispatch that finishes has run since it began. -/
  finish : ∀ e ∈ x.unfinished, ∀ now, x.time ≤ now → (x.ages.finish e.1 now).2 + e.2 = now
  /-- The oldest dispatch has run since the earliest start. -/
  oldest : ∀ now, x.time ≤ now → (x.unfinished = [] ∧ x.ages.oldest now = 0) ∨
    ∃ e ∈ x.unfinished, (∀ e' ∈ x.unfinished, e.2 ≤ e'.2) ∧ x.ages.oldest now + e.2 = now

/-- What the slots hold. -/
structure Log.Inv (x : Log) : Prop where
  length : x.ages.live.length = x.ages.startedAt.length
  pos : 0 < x.ages.startedAt.length
  /-- Unfinished dispatches have slots of their own. -/
  nodup : (x.unfinished.map fun e => x.ages.slot e.1).Nodup
  started : ∀ e ∈ x.unfinished, x.ages.startedAt[x.ages.slot e.1]? = some e.2
  live : ∀ i, x.ages.live[i]? = some true ↔ ∃ e ∈ x.unfinished, x.ages.slot e.1 = i
  past : ∀ e ∈ x.unfinished, e.2 ≤ x.time

variable {slots : ℕ} {x y : Log} {call : Call}

theorem Log.inv_new (slots : ℕ) (time : Duration) :
  (Log.new slots time).Inv
  := by
  constructor <;> simp [Log.new, InFlightAges.new, List.getElem?_replicate]

/-- Every call keeps the slots, when a dispatch that begins finds its slot free. -/
theorem Log.Inv.step (h : x.Inv) (hstep : Step slots x call y) (hvacant : x.Vacant call) :
  y.Inv
  := by
  cases hstep with
  | @begin now htime _ =>
    have hslot : x.ages.slot x.ages.next < x.ages.startedAt.length := Nat.mod_lt _ h.pos
    have hsame : ∀ n, (x.ages.begin now).1.slot n = x.ages.slot n := by
      intro n
      simp [slot, begin]
    constructor
    · simp [begin, h.length]
    · simp [begin, h.pos]
    · simp only [hsame, List.map_append, List.map_singleton]
      rw [List.nodup_append]
      refine ⟨h.nodup, by simp, ?_⟩
      rintro i hi j hj rfl
      obtain ⟨e, he, rfl⟩ := List.mem_map.mp hi
      apply hvacant e he
      simpa [begin] using hj
    · simp only [hsame]
      intro e he
      rcases List.mem_append.mp he with he | he
      · rw [begin, List.getElem?_set_ne (hvacant e he).symm]
        apply h.started e he
      · rw [List.mem_singleton.mp he]
        simp [begin, hslot]
    · simp only [hsame]
      intro i
      by_cases hi : i = x.ages.slot x.ages.next
      · subst hi
        constructor
        · intro _
          refine ⟨((x.ages.begin now).2, now), by simp, rfl⟩
        · intro _
          simp [begin, h.length, hslot]
      · rw [begin, List.getElem?_set_ne (Ne.symm hi), h.live]
        constructor
        · rintro ⟨e, he, rfl⟩
          exact ⟨e, by simp [he], rfl⟩
        · rintro ⟨e, he, rfl⟩
          rcases List.mem_append.mp he with he | he
          · exact ⟨e, he, rfl⟩
          · rw [List.mem_singleton.mp he] at hi
            exact (hi rfl).elim
    · intro e he
      rcases List.mem_append.mp he with he | he
      · exact (h.past e he).trans htime
      · rw [List.mem_singleton.mp he]
  | @finish sequence started now htime hmem =>
    have hsame : ∀ n, (x.ages.finish sequence now).1.slot n = x.ages.slot n := by
      intro n
      simp [slot, finish]
    have hperm := List.perm_cons_erase hmem
    have hnodup := (hperm.map fun e => x.ages.slot e.1).nodup_iff.mp h.nodup
    rw [List.map_cons, List.nodup_cons] at hnodup
    obtain ⟨hnot, hrest⟩ := hnodup
    constructor
    · simp [finish, h.length]
    · simp [finish, h.pos]
    · simp only [hsame]
      apply hrest
    · simp only [hsame]
      intro e he
      apply h.started e (List.mem_of_mem_erase he)
    · simp only [hsame]
      intro i
      by_cases hi : i = x.ages.slot sequence
      · subst hi
        constructor
        · intro hlive
          rw [finish, List.getElem?_set_self'] at hlive
          simp at hlive
        · rintro ⟨e, he, heq⟩
          exact (hnot (List.mem_map.mpr ⟨e, he, heq⟩)).elim
      · rw [finish, List.getElem?_set_ne (Ne.symm hi), h.live]
        constructor
        · rintro ⟨e, he, rfl⟩
          rcases List.mem_cons.mp (hperm.mem_iff.mp he) with rfl | he
          · exact (hi rfl).elim
          · exact ⟨e, he, rfl⟩
        · rintro ⟨e, he, rfl⟩
          exact ⟨e, List.mem_of_mem_erase he, rfl⟩
    · intro e he
      exact (h.past e (List.mem_of_mem_erase he)).trans htime

/-- The still-running dispatches started when the unfinished ones did. -/
theorem Log.Inv.mem_running (h : x.Inv) (started : Duration) :
  started ∈ x.ages.running ↔ ∃ e ∈ x.unfinished, e.2 = started
  := by
  rw [running, List.mem_filterMap]
  constructor
  · rintro ⟨⟨start, live⟩, hmem, hsome⟩
    obtain ⟨i, hi⟩ := List.mem_iff_getElem?.mp hmem
    rw [List.getElem?_zip_eq_some] at hi
    obtain ⟨hstart, hlive⟩ := hi
    cases live with
    | false => simp at hsome
    | true =>
      obtain ⟨e, he, rfl⟩ := (h.live i).mp hlive
      rw [h.started e he, Option.some.injEq] at hstart
      refine ⟨e, he, ?_⟩
      rw [hstart]
      simpa using hsome
  · rintro ⟨e, he, rfl⟩
    refine ⟨(e.2, true), ?_, rfl⟩
    apply List.mem_iff_getElem?.mpr
    refine ⟨x.ages.slot e.1, ?_⟩
    rw [List.getElem?_zip_eq_some]
    exact ⟨h.started e he, (h.live _).mpr ⟨e, he, rfl⟩⟩

theorem Log.Inv.exact (h : x.Inv) :
  x.Exact
  := by
  constructor
  · intro e he now hnow
    have hpast := (h.past e he).trans hnow
    rw [finish, List.getD_eq_getElem?_getD, h.started e he, Option.getD_some]
    apply Nat.sub_add_cancel hpast
  · intro now hnow
    rw [oldest]
    cases hmin : x.ages.running.min? with
    | none =>
      left
      rw [List.min?_eq_none_iff] at hmin
      refine ⟨?_, rfl⟩
      rw [List.eq_nil_iff_forall_not_mem]
      intro e he
      have hmem := (h.mem_running e.2).mpr ⟨e, he, rfl⟩
      rw [hmin] at hmem
      cases hmem
    | some started =>
      right
      rw [List.min?_eq_some_iff] at hmin
      obtain ⟨hmem, hleast⟩ := hmin
      obtain ⟨e, he, rfl⟩ := (h.mem_running started).mp hmem
      have hpast := (h.past e he).trans hnow
      refine ⟨e, he, ?_, Nat.sub_add_cancel hpast⟩
      intro e' he'
      apply hleast
      apply (h.mem_running e'.2).mpr ⟨e', he', rfl⟩

/-- In every run in which a dispatch that begins finds its slot free, ages are exact. -/
theorem ages_are_exact {start : Duration} {calls : List Call}
    (hrun : Trail (fun x call y => Step slots x call y ∧ x.Vacant call) (Log.new slots start) calls x) :
  x.Exact
  := by
  apply Log.Inv.exact
  apply hrun.invariant (fun _ x => x.Inv) (Log.inv_new slots start)
  rintro _ x₁ call x₂ - h ⟨hstep, hvacant⟩
  apply h.step hstep hvacant

/-- A third dispatch begins in the slot of the first one, which has finished. -/
theorem ages_are_exact_reused :
  ∃ x : Log, x.unfinished = [(1, 2), (2, 5)] ∧ x.Exact
  := by
  have h₀ : Trail (fun x call y => Step 2 x call y ∧ x.Vacant call) (Log.new 2 0) [] _ := .nil
  have h₁ := h₀.snoc ⟨@Step.begin 2 _ 1 (by decide) (by decide), by rintro _ ⟨⟩⟩
  have h₂ := h₁.snoc ⟨@Step.begin 2 _ 2 (by decide) (by decide), by simp only [Log.Vacant]; decide⟩
  have h₃ := h₂.snoc ⟨@Step.finish 2 _ 0 1 3 (by decide) (by decide),
    True.intro⟩
  have h₄ := h₃.snoc ⟨@Step.begin 2 _ 5 (by decide) (by decide), by simp only [Log.Vacant]; decide⟩
  exact ⟨_, rfl, ages_are_exact h₄⟩

/-- A third dispatch begins in the slot of the first one, which still runs. -/
theorem ages_hide_long_dispatch :
  ¬ ∀ (slots : ℕ) (start : Duration) (calls : List Call) (x : Log),
    Trail (Step slots) (Log.new slots start) calls x → x.Exact
  := by
  intro h
  have h₀ : Trail (Step 2) (Log.new 2 0) [] _ := .nil
  have h₁ := h₀.snoc (@Step.begin 2 _ 1 (by decide) (by decide))
  have h₂ := h₁.snoc (@Step.begin 2 _ 2 (by decide) (by decide))
  have h₃ := h₂.snoc (@Step.finish 2 _ 1 2 3 (by decide) (by decide))
  have h₄ := h₃.snoc (@Step.begin 2 _ 5 (by decide) (by decide))
  have hran := (h _ _ _ _ h₄).finish (0, 1) (by decide) 9 (by decide)
  cases hran

end InFlightAges

end Grommet
