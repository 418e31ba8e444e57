import Grommet.Runtime.Semaphore.Model

/-!
# After close

`close` sets the flag and closes the queue, and neither is looked at before a permit is taken.
So the semaphore refuses everyone after `close` when the counter stays at zero from the return
of `close` on, and only then.
-/

open Checked

namespace Grommet.Semaphore

open Waiters (Ticket Waker CallStep)

variable {ι : Type} [DecidableEq ι] {s s' : System ι} {i j : ι} {d : Deed} {e : ι × Deed}

/-- Whether a poll in this place comes to `Closed` when no permit is free and the flag is set. -/
def Place.Refusing : Place → Prop
  | trying => True
  | checking => True
  | refreshing _ => True
  | announced _ => True
  | rechecking _ => True
  | finishing _ granted => granted = false
  | refused => True
  | _ => False

/-- The number of steps that such a poll has still to make. -/
def Place.distance : Place → ℕ
  | trying => 2
  | checking => 1
  | refreshing _ => 4
  | announced _ => 3
  | rechecking _ => 2
  | finishing _ _ => 1
  | _ => 0

/-- No caller is given a permit, and none is about to return with one. -/
def System.Refuses (s : System ι) : Prop :=
  s.semaphore.take.1 = false ∧ ∀ j t, s.place j ≠ .finishing t true

/-- When `close` returns no permit is free or on its way to a caller, and none is dropped
afterwards. -/
def Meets (s : System ι) : ι × Deed → Prop
  | (_, .wake) => s.semaphore.permits = 0 ∧ ∀ j t, s.place j ≠ .finishing t true
  | (_, .release) => s.returned = false
  | _ => True

/-! ### The flag and the queue -/

/-- The flag is set before the queue is closed, and both are before `close` returns. -/
structure Ordered (s : System ι) : Prop where
  kept : s.waiters.Kept
  flagged : ∀ i, s.place i = .flagged → s.semaphore.closed = true
  waking : ∀ i, s.place i = .waking → s.semaphore.closed = true ∧ s.waiters.inner.closed = true
  after : s.returned = true → s.semaphore.closed = true ∧ s.waiters.inner.closed = true
  late : ∀ i, s.late i = true → s.returned = true

omit [DecidableEq ι] in
theorem ordered_start (n : ℕ) :
  Ordered (System.start n : System ι)
  := by
  refine ⟨Waiters.kept_new, ?_, ?_, Bool.noConfusion, fun _ => Bool.noConfusion⟩
  · intro i hi
    cases hi
  · intro i hi
    cases hi

theorem Step.closed (h : Step s (i, d) s') (hclosed : s.semaphore.closed = true) :
  s'.semaphore.closed = true
  := by
  have htake : s.semaphore.take.2.closed = true := by
    rw [Semaphore.take]
    split <;> exact hclosed
  cases h with
  | tryAcquire hplace => exact htake
  | take hplace => exact htake
  | takeAgain hplace => exact htake
  | flag hplace => rfl
  | _ => exact hclosed

theorem Step.queue_closed (h : Step s (i, d) s') (hkept : s.waiters.Kept)
    (hclosed : s.waiters.inner.closed = true) :
  s'.waiters.inner.closed = true
  := by
  rcases h.waiters with heq | ⟨call, hcall⟩
  · rw [heq]
    exact hclosed
  · exact hkept.closed hclosed hcall

theorem Step.flagged (h : Step s (i, d) s') (hj : s'.place j = .flagged) :
  s.place j = .flagged ∨ s'.semaphore.closed = true
  := by
  by_cases hji : j = i
  · subst hji
    cases h with
    | flag hplace => exact Or.inr rfl
    | _ =>
      rw [move_self] at hj
      try split at hj
      all_goals cases hj
  · exact Or.inl ((h.place_of_ne hji).symm.trans hj)

theorem Step.waking (h : Step s (i, d) s') (hkept : s.waiters.Kept) (hj : s'.place j = .waking) :
  s.place j = .waking ∨ (s.place j = .flagged ∧ s'.waiters.inner.closed = true)
  := by
  by_cases hji : j = i
  · subst hji
    cases h with
    | shut hplace hcall => exact Or.inr ⟨hplace, hkept.close_closed hcall⟩
    | _ =>
      rw [move_self] at hj
      try split at hj
      all_goals cases hj
  · exact Or.inl ((h.place_of_ne hji).symm.trans hj)

theorem Step.returned (h : Step s (i, d) s') (hreturned : s'.returned = true) :
  s.returned = true ∨ (d = .wake ∧ s.place i = .waking)
  := by
  cases h with
  | wake hplace => exact Or.inr ⟨rfl, hplace⟩
  | _ => exact Or.inl hreturned

theorem Step.keeps_returned (h : Step s (i, d) s') (hreturned : s.returned = true) :
  s'.returned = true
  := by
  cases h with
  | wake hplace => rfl
  | _ => exact hreturned

/-- A poll is late when it begins late. -/
theorem Step.late (h : Step s (i, d) s') (hj : s'.late j = true) :
  s.late j = true ∧ (j = i → ∀ v, d ≠ .poll v) ∨
    (j = i ∧ s.returned = true ∧ (s'.place j).Refusing)
  := by
  have hpolled : ∀ {v : Waker} {place : Place}, ((s.polled i v).move i place).late j = true →
      place.Refusing → s.late j = true ∧ (j = i → ∀ v', Deed.poll v ≠ .poll v') ∨
        (j = i ∧ s.returned = true ∧ (((s.polled i v).move i place).place j).Refusing) := by
    intro v place hlate hrefusing
    have hupdate : Function.update s.late i s.returned j = true := hlate
    by_cases hji : j = i
    · subst hji
      rw [Function.update_self] at hupdate
      rw [move_self]
      exact Or.inr ⟨rfl, hupdate, hrefusing⟩
    · rw [Function.update_of_ne hji] at hupdate
      exact Or.inl ⟨hupdate, fun heq => absurd heq hji⟩
  cases h with
  | begin hplace => exact hpolled hj trivial
  | resume hplace => exact hpolled hj trivial
  | _ => exact Or.inl ⟨hj, fun _ _ => Deed.noConfusion⟩

theorem Ordered.step (h : Ordered s) (hstep : Step s (i, d) s') :
  Ordered s'
  := by
  have hafter : s'.returned = true →
      s'.semaphore.closed = true ∧ s'.waiters.inner.closed = true := by
    intro hreturned
    rcases hstep.returned hreturned with hbefore | ⟨-, hplace⟩
    · exact (h.after hbefore).imp hstep.closed (hstep.queue_closed h.kept)
    · exact (h.waking i hplace).imp hstep.closed (hstep.queue_closed h.kept)
  refine ⟨hstep.kept h.kept, ?_, ?_, hafter, ?_⟩
  · intro j hj
    rcases hstep.flagged hj with hbefore | hclosed
    · exact hstep.closed (h.flagged j hbefore)
    · exact hclosed
  · intro j hj
    rcases hstep.waking h.kept hj with hbefore | ⟨hbefore, hqueue⟩
    · exact (h.waking j hbefore).imp hstep.closed (hstep.queue_closed h.kept)
    · exact ⟨hstep.closed (h.flagged j hbefore), hqueue⟩
  · intro j hj
    rcases hstep.late hj with ⟨hbefore, -⟩ | ⟨-, hreturned, -⟩
    · exact hstep.keeps_returned (h.late j hbefore)
    · exact hstep.keeps_returned hreturned

/-! ### The counter -/

theorem Step.permits (h : Step s (i, d) s') (hzero : s.semaphore.permits = 0)
    (hrelease : d ≠ .release) :
  s'.semaphore.permits = 0
  := by
  have htake : s.semaphore.take.2.permits = 0 := by
    rw [take_of_zero hzero]
    exact hzero
  cases h with
  | tryAcquire hplace => exact htake
  | take hplace => exact htake
  | takeAgain hplace => exact htake
  | release hplace => exact absurd rfl hrelease
  | _ => exact hzero

/-- With the counter at zero nobody obtains a permit. -/
theorem Step.finishing {t : Ticket} (h : Step s (i, d) s') (hzero : s.semaphore.permits = 0)
    (hj : s'.place j = .finishing t true) :
  s.place j = .finishing t true
  := by
  by_cases hji : j = i
  · subst hji
    cases h with
    | takeAgain hplace =>
      rw [move_self, take_of_zero hzero] at hj
      cases hj
    | checkAgain hplace =>
      rw [move_self] at hj
      split at hj <;> cases hj
    | _ =>
      rw [move_self] at hj
      try split at hj
      all_goals cases hj
  · exact (h.place_of_ne hji).symm.trans hj

/-- With the counter at zero only callers that were on their way return with a permit. -/
theorem Step.holding (h : Step s (i, d) s') (hzero : s.semaphore.permits = 0)
    (hnone : ∀ j t, s.place j ≠ .finishing t true) (hj : s'.place j = .holding) :
  s.place j = .holding
  := by
  by_cases hji : j = i
  · subst hji
    cases h with
    | tryAcquire hplace =>
      rw [move_self, take_of_zero hzero] at hj
      cases hj
    | take hplace =>
      rw [move_self, take_of_zero hzero] at hj
      cases hj
    | @finish _ _ t granted _ hplace hcall =>
      cases granted with
      | true => exact absurd hplace (hnone j t)
      | false =>
        rw [move_self] at hj
        cases hj
    | _ =>
      rw [move_self] at hj
      try split at hj
      all_goals cases hj
  · exact (h.place_of_ne hji).symm.trans hj

/-- A poll that finds the counter at zero and the flag set comes closer to `Closed`. -/
theorem Step.refusing (h : Step s (i, d) s') (hzero : s.semaphore.permits = 0)
    (hclosed : s.semaphore.closed = true) (hplace : (s.place i).Refusing) :
  (s'.place i).Refusing ∧ (s'.place i).distance < (s.place i).distance
  := by
  cases h with
  | take hat =>
    rw [move_self, take_of_zero hzero, hat]
    exact ⟨trivial, Nat.lt_succ_self 1⟩
  | takeAgain hat =>
    rw [move_self, take_of_zero hzero, hat]
    exact ⟨trivial, Nat.lt_succ_self 2⟩
  | check hat =>
    rw [move_self, if_pos hclosed, hat]
    exact ⟨trivial, Nat.lt_succ_self 0⟩
  | checkAgain hat =>
    rw [move_self, if_pos hclosed, hat]
    exact ⟨rfl, Nat.lt_succ_self 1⟩
  | refresh hat hcall =>
    rw [move_self, hat]
    exact ⟨trivial, Nat.lt_succ_self 3⟩
  | finish hat hcall =>
    rw [hat] at hplace
    cases (show _ = false from hplace)
    rw [move_self, hat]
    exact ⟨trivial, Nat.lt_succ_self 0⟩
  | tryAcquire hat | begin hat | resume hat | park hat | parkClosed hat | parkPanics hat
  | dropIdle hat | drop hat | pass hat | release hat | look hat | hand hat | flag hat | shut hat
  | wake hat =>
    rw [hat] at hplace
    exact hplace.elim

/-! ### Runs -/

/-- A step with the states around it. -/
structure Passage (ι : Type) where
  before : System ι
  event : ι × Deed
  after : System ι

/-- The states around a step are those of the run. -/
def Passes (s : System ι) (p : Passage ι) (s' : System ι) : Prop :=
  p.before = s ∧ p.after = s' ∧ Step s p.event s'

omit [DecidableEq ι] in
/-- After `close` nobody returns with a permit, and a poll comes closer to `Closed` by each of
its steps. -/
def Passage.Final (p : Passage ι) : Prop :=
  (∀ j, p.after.place j = .holding → p.before.place j = .holding) ∧
    ∀ j, p.before.late j = true →
      (p.event.1 = j → (p.after.place j).Refusing ∧
        (p.after.place j).distance < (p.before.place j).distance) ∧
      (p.event.1 ≠ j → p.after.place j = p.before.place j)

/-- After `close` the counter is at zero, and the polls that began since come to `Closed`. -/
structure Sealed (s : System ι) : Prop where
  ordered : Ordered s
  zero : s.returned = true → s.semaphore.permits = 0
  none : s.returned = true → ∀ j t, s.place j ≠ .finishing t true
  refusing : ∀ j, s.late j = true → (s.place j).Refusing

theorem Sealed.step (h : Sealed s) (hmeets : Meets s (i, d)) (hstep : Step s (i, d) s') :
  Sealed s'
  := by
  have hrest : s'.returned = true →
      s'.semaphore.permits = 0 ∧ ∀ j t, s'.place j ≠ .finishing t true := by
    intro hreturned
    rcases hstep.returned hreturned with hbefore | ⟨rfl, hplace⟩
    · refine ⟨hstep.permits (h.zero hbefore) ?_, fun j t hj => ?_⟩
      · rintro rfl
        cases hbefore.symm.trans hmeets
      · exact h.none hbefore j t (hstep.finishing (h.zero hbefore) hj)
    · refine ⟨hstep.permits hmeets.1 Deed.noConfusion, fun j t hj => ?_⟩
      exact hmeets.2 j t (hstep.finishing hmeets.1 hj)
  refine ⟨h.ordered.step hstep, fun hr => (hrest hr).1, fun hr => (hrest hr).2, ?_⟩
  intro j hj
  rcases hstep.late hj with ⟨hbefore, -⟩ | ⟨-, -, hrefusing⟩
  · have hreturned := h.ordered.late j hbefore
    by_cases hji : j = i
    · subst hji
      exact (hstep.refusing (h.zero hreturned) (h.ordered.after hreturned).1
        (h.refusing j hbefore)).1
    · rw [hstep.place_of_ne hji]
      exact h.refusing j hbefore
  · exact hrefusing

/-- What the condition gives in a run. -/
theorem Sealed.final (h : Sealed s) (hreturned : s.returned = true) (hstep : Step s (i, d) s') :
  Passage.Final ⟨s, (i, d), s'⟩
  := by
  refine ⟨fun j hj => hstep.holding (h.zero hreturned) (h.none hreturned) hj, fun j hj => ⟨?_, ?_⟩⟩
  · intro heq
    cases (show i = j from heq)
    exact hstep.refusing (h.zero hreturned) (h.ordered.after hreturned).1 (h.refusing i hj)
  · intro hne
    exact hstep.place_of_ne (Ne.symm hne)

/-- A late poll has a next step until it has returned `Closed`. -/
theorem Sealed.goes_on (h : Sealed s) (hlate : s.late i = true) :
  s.place i = .refused ∨ ∃ d s', Step s (i, d) s'
  := by
  have hrefusing := h.refusing i hlate
  cases hplace : s.place i with
  | trying => exact Or.inr ⟨_, _, .take hplace⟩
  | checking => exact Or.inr ⟨_, _, .check hplace⟩
  | announced t => exact Or.inr ⟨_, _, .takeAgain hplace⟩
  | rechecking t => exact Or.inr ⟨_, _, .checkAgain hplace⟩
  | refreshing t => exact Or.inr ⟨_, _, .refresh hplace .refresh⟩
  | finishing t granted =>
    obtain ⟨reply, w, hcall⟩ := h.ordered.kept.answers (.cancel t)
    cases hcall with
    | cancel hcancel => exact Or.inr ⟨_, _, .finish hplace (.cancel hcancel)⟩
  | refused => exact Or.inl rfl
  | _ =>
    rw [hplace] at hrefusing
    exact hrefusing.elim

omit [DecidableEq ι] in
theorem sealed_start (n : ℕ) :
  Sealed (System.start n : System ι)
  := ⟨ordered_start n, Bool.noConfusion, Bool.noConfusion, fun _ => Bool.noConfusion⟩

theorem sealed_of_trail {n : ℕ} {passages : List (Passage ι)}
    (h : Trail Passes (System.start n) passages s)
    (hmeets : ∀ p ∈ passages, Meets p.before p.event) :
  Sealed s ∧ ∀ p ∈ passages, Sealed p.before ∧ Sealed p.after ∧ Step p.before p.event p.after
  := by
  induction h with
  | nil => exact ⟨sealed_start n, fun p hp => by cases hp⟩
  | @snoc passages s s' p htrail hpasses ih =>
    obtain ⟨hsealed, hall⟩ := ih fun q hq => hmeets q (List.mem_append_left _ hq)
    obtain ⟨rfl, rfl, hstep⟩ := hpasses
    have hmeets' := hmeets p (List.mem_append_right _ List.mem_cons_self)
    have hnext : Sealed p.after := hsealed.step hmeets' hstep
    refine ⟨hnext, fun q hq => ?_⟩
    rcases List.mem_append.mp hq with hq | hq
    · exact hall q hq
    · cases List.mem_singleton.mp hq
      exact ⟨hsealed, hnext, hstep⟩

/-- A step after which the semaphore refuses everyone meets the condition. -/
theorem Step.meets (h : Step s (i, d) s') (hrefuses : s'.returned = true → s'.Refuses) :
  Meets s (i, d)
  := by
  cases h with
  | wake hplace =>
    obtain ⟨htake, hnone⟩ := hrefuses rfl
    refine ⟨take_eq_false.mp htake, fun j t hj => ?_⟩
    apply hnone j t
    rw [move_of_ne, ← hj]
    rintro rfl
    cases hplace.symm.trans hj
  | release hplace =>
    show s.returned = false
    by_contra hreturned
    obtain ⟨htake, -⟩ := hrefuses (Bool.not_eq_false _ ▸ hreturned)
    cases take_eq_false.mp htake
  | _ => trivial

/-- The semaphore refuses everyone from the return of `close` on exactly in the runs in which
no permit is free or on its way when `close` returns and none is dropped afterwards.  In these
runs no call returns with a permit after `close`, and every poll of `acquire` that begins after
it comes to `Closed`. -/
theorem closing_is_final_iff (n : ℕ) {passages : List (Passage ι)}
    (h : Trail Passes (System.start n) passages s) :
  ((∀ p ∈ passages, Meets p.before p.event) ↔
    ∀ p ∈ passages, p.after.returned = true → p.after.Refuses) ∧
  ((∀ p ∈ passages, Meets p.before p.event) →
    (∀ p ∈ passages, p.before.returned = true → p.Final) ∧
      ∀ i, s.late i = true → s.place i = .refused ∨ ∃ d s', Step s (i, d) s')
  := by
  refine ⟨⟨?_, ?_⟩, ?_⟩
  · intro hmeets p hp hreturned
    obtain ⟨-, hafter, -⟩ := (sealed_of_trail h hmeets).2 p hp
    exact ⟨take_eq_false.mpr (hafter.zero hreturned), hafter.none hreturned⟩
  · intro hrefuses
    induction h with
    | nil => exact fun p hp => by cases hp
    | @snoc passages s s' p htrail hpasses ih =>
      obtain ⟨rfl, rfl, hstep⟩ := hpasses
      intro q hq
      rcases List.mem_append.mp hq with hq | hq
      · exact ih (fun q hq => hrefuses q (List.mem_append_left _ hq)) q hq
      · cases List.mem_singleton.mp hq
        exact Step.meets hstep (hrefuses p (List.mem_append_right _ List.mem_cons_self))
  · intro hmeets
    obtain ⟨hsealed, hall⟩ := sealed_of_trail h hmeets
    refine ⟨fun p hp hreturned => ?_, fun i hi => hsealed.goes_on hi⟩
    obtain ⟨hbefore, -, hstep⟩ := hall p hp
    exact hbefore.final hreturned hstep

/-- The only permit is out when the semaphore is closed and is not dropped: a caller that
polls afterwards comes to `Closed`. -/
theorem closing_is_final_iff_held :
  ∃ passages s, Trail Passes (System.start 1 : System ℕ) passages s ∧
    passages.map Passage.event = [(0, .tryAcquire), (1, .flag), (1, .shut), (1, .wake),
      (2, .poll 7)] ∧
    s.late 2 = true ∧ (s.place 2 = .refused ∨ ∃ d s', Step s (2, d) s') ∧
    ∀ p ∈ passages, p.before.returned = true → p.Final
  := by
  have htrail : Trail Passes (System.start 1 : System ℕ) [⟨_, (0, .tryAcquire), _⟩,
      ⟨_, (1, .flag), _⟩, ⟨_, (1, .shut), _⟩, ⟨_, (1, .wake), _⟩, ⟨_, (2, .poll 7), _⟩] _ :=
    .cons ⟨rfl, rfl, .tryAcquire rfl⟩ (.cons ⟨rfl, rfl, .flag rfl⟩
      (.cons ⟨rfl, rfl, .shut rfl (.close rfl)⟩ (.cons ⟨rfl, rfl, .wake rfl⟩
        (.cons ⟨rfl, rfl, .begin rfl⟩ .nil))))
  obtain ⟨hfinal, hgoes⟩ := (closing_is_final_iff 1 htrail).2 fun p hp => by
    simp only [List.mem_cons, List.not_mem_nil, or_false] at hp
    rcases hp with rfl | rfl | rfl | rfl | rfl
    · trivial
    · trivial
    · trivial
    · refine ⟨rfl, fun j t hj => ?_⟩
      rcases j with _ | _ | j
      · cases hj
      · cases hj
      · cases hj
    · trivial
  exact ⟨_, _, htrail, rfl, rfl, hgoes 2 rfl, hfinal⟩

/-- A permit is free when the semaphore is closed, and it is handed out afterwards. -/
theorem closed_semaphore_grants :
  ∃ trace s s', Trail Step (System.start 1 : System ℕ) trace s ∧ s.returned = true ∧
    Step s (1, .tryAcquire) s' ∧ s'.place 1 = .holding
  := by
  have hflag : Step (System.start 1 : System ℕ) (0, .flag) _ := .flag rfl
  have hshut : Trail Step (System.start 1 : System ℕ) [(0, .flag), (0, .shut)] _ :=
    .cons hflag (.cons (.shut rfl (.close rfl)) .nil)
  have hwake := hshut.snoc (.wake (i := 0) rfl)
  exact ⟨_, _, _, hwake, rfl, .tryAcquire rfl, rfl⟩

end Grommet.Semaphore
