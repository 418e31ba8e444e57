import Grommet.Library.Trail
import Mathlib.Data.Set.Card

/-!
# What a doorbell is for

One receiver names the waker to wake, and any number of notifiers ring.  A ring takes the named
waker and wakes it, unless the bell is closed.  Here naming, taking and closing are one step
each, and what is not atomic is only when a taken waker is woken, and by whom: a waker that is
taken while its registration is under way may be left to the receiver to wake.

A waker is woken at most once for each time it was named.  A ring that begins after a waker was
named is never lost.  Once the bell is closed and the rings that were under way are over, nobody
is woken any more.
-/

namespace Grommet

namespace Bell

/-- What is seen of a doorbell: the calls, their returns, and the wakers that are woken. -/
inductive Event (ι ω : Type) where
  | register (waker : ω)
  | registered
  | close
  | closed
  | ring (i : ι)
  | rang (i : ι)
  | woke (waker : ω)
  | other
  deriving DecidableEq

/-- Where the receiver stands. -/
inductive Receiver (ω : Type) where
  | idle
  | registering (waker : ω)
  | registered
  | closing
  | dropping
  | dropped
  deriving DecidableEq

/-- Where a ring stands. -/
inductive Ringer where
  | idle
  | looking
  | striking
  | struck
  /-- The bell was closed. -/
  | hushed

end Bell

/-- A doorbell with its receiver and the notifiers that ring it. -/
@[ext]
structure Bell (ι ω : Type) where
  owner : Option ω
  closed : Bool
  receiver : Bell.Receiver ω
  ringer : ι → Bell.Ringer
  /-- The wakers that were taken and are going to be woken, by a notifier or by the receiver. -/
  carried : Option ι → Option ω

namespace Bell

variable {ι ω : Type}

/-- An open bell that names nobody. -/
def start : Bell ι ω where
  owner := none
  closed := false
  receiver := .idle
  ringer := fun _ => .idle
  carried := fun _ => none

variable [DecidableEq ι]

/-- One step of the receiver or of a notifier. -/
inductive Step (s : Bell ι ω) : Event ι ω → Bell ι ω → Prop
  | pause : Step s .other s
  | register {w : ω} : s.receiver = .idle →
      Step s (.register w) { s with receiver := .registering w }
  | name {w : ω} : s.receiver = .registering w →
      Step s .other { s with owner := some w, receiver := .registered }
  /-- A ring is under way: the waker is woken rather than named. -/
  | bounce {w : ω} {i : ι} : s.receiver = .registering w → s.ringer i = .struck →
      Step s .other { s with
        receiver := .registered
        carried := Function.update s.carried none (some w) }
  | registered : s.receiver = .registered → s.carried none = none →
      Step s .registered { s with receiver := .idle }
  | close : s.receiver = .idle → Step s .close { s with receiver := .closing }
  | shut : s.receiver = .closing →
      Step s .other { s with closed := true, receiver := .dropping }
  | drop : s.receiver = .dropping →
      Step s .other { s with owner := none, receiver := .dropped }
  | closed : s.receiver = .dropped → Step s .closed { s with receiver := .idle }
  | ring {i : ι} : s.ringer i = .idle →
      Step s (.ring i) { s with ringer := Function.update s.ringer i .looking }
  | look {i : ι} : s.ringer i = .looking →
      Step s .other { s with
        ringer := Function.update s.ringer i (if s.closed then .hushed else .striking) }
  /-- The named waker is taken, if there is one. -/
  | strike {i : ι} {j : Option ι} : s.ringer i = .striking →
      j = some i ∨ j = none ∧ s.receiver = .registered →
      (s.owner ≠ none → s.carried j = none) →
      Step s .other { s with
        owner := none
        ringer := Function.update s.ringer i .struck
        carried := s.owner.elim s.carried fun w => Function.update s.carried j (some w) }
  | rang {i : ι} : s.ringer i = .struck → s.carried (some i) = none →
      Step s (.rang i) { s with ringer := Function.update s.ringer i .idle }
  | hush {i : ι} : s.ringer i = .hushed →
      Step s (.rang i) { s with ringer := Function.update s.ringer i .idle }
  | wake {j : Option ι} {w : ω} : s.carried j = some w →
      Step s (.woke w) { s with carried := Function.update s.carried j none }

variable {s s' : Bell ι ω} {e : Event ι ω} {t : List (Event ι ω)} {w : ω} {i : ι}

/-! ### Who carries a waker -/

/-- A waker is carried by a notifier that has struck or by a receiver that has registered. -/
structure Carries (s : Bell ι ω) : Prop where
  receiver : s.carried none ≠ none → s.receiver = .registered
  ringer : ∀ i, s.carried (some i) ≠ none → s.ringer i = .struck

omit [DecidableEq ι] in
theorem carries_start :
  Carries (start : Bell ι ω)
  := ⟨fun h => (h rfl).elim, fun _ h => (h rfl).elim⟩

/-- A notifier that carries nothing may move on. -/
theorem Carries.move (h : s.Carries) {r : Ringer}
    (hi : s.ringer i ≠ .struck ∨ s.carried (some i) = none) :
  Carries { s with ringer := Function.update s.ringer i r }
  := by
  refine ⟨h.receiver, fun j hj => ?_⟩
  by_cases hji : j = i
  · subst hji
    rcases hi with hi | hi
    · exact (hi (h.ringer j hj)).elim
    · exact (hj hi).elim
  · show Function.update s.ringer i r j = .struck
    rw [Function.update_of_ne hji]
    exact h.ringer j hj

omit [DecidableEq ι] in
/-- A receiver that carries nothing may move on. -/
theorem Carries.turn (h : s.Carries) {r : Receiver ω} {owner : Option ω} {closed : Bool}
    (hs : s.receiver ≠ .registered ∨ s.carried none = none ∨ r = .registered) :
  Carries { s with owner := owner, closed := closed, receiver := r }
  := by
  refine ⟨fun hnone => ?_, h.ringer⟩
  rcases hs with hs | hs | hs
  · exact (hs (h.receiver hnone)).elim
  · exact (hnone hs).elim
  · exact hs

theorem ne_none_of_update {f : Option ι → Option ω} {j k : Option ι}
    (h : Function.update f j none k ≠ none) :
  f k ≠ none
  := by
  by_cases hk : k = j
  · subst hk
    simp at h
  · rwa [Function.update_of_ne hk] at h

theorem Carries.step (h : s.Carries) (hstep : Step s e s') :
  s'.Carries
  := by
  cases hstep with
  | pause => exact h
  | register hr => exact h.turn (Or.inl (by rw [hr]; rintro ⟨⟩))
  | name hr => exact h.turn (Or.inr (Or.inr rfl))
  | @bounce w i hr hi =>
    refine ⟨fun _ => rfl, fun j hj => h.ringer j ?_⟩
    simpa using hj
  | registered hr hnone => exact h.turn (Or.inr (Or.inl hnone))
  | close hr => exact h.turn (Or.inl (by rw [hr]; rintro ⟨⟩))
  | shut hr => exact h.turn (Or.inl (by rw [hr]; rintro ⟨⟩))
  | drop hr => exact h.turn (Or.inl (by rw [hr]; rintro ⟨⟩))
  | closed hr => exact h.turn (Or.inl (by rw [hr]; rintro ⟨⟩))
  | ring hi => exact h.move (Or.inl (by rw [hi]; rintro ⟨⟩))
  | look hi => exact h.move (Or.inl (by rw [hi]; rintro ⟨⟩))
  | @strike i j hi hj hfree =>
    have hmoved : Carries { s with ringer := Function.update s.ringer i .struck } :=
      h.move (Or.inl (by rw [hi]; rintro ⟨⟩))
    cases howner : s.owner with
    | none => exact ⟨hmoved.receiver, hmoved.ringer⟩
    | some w =>
      refine ⟨fun hnone => ?_, fun k hk => ?_⟩
      · rcases hj with rfl | ⟨rfl, hr⟩
        · exact h.receiver (by simpa using hnone)
        · exact hr
      · rcases hj with rfl | ⟨rfl, hr⟩
        · by_cases hki : k = i
          · subst hki
            exact Function.update_self ..
          · apply hmoved.ringer k
            simpa [hki] using hk
        · exact hmoved.ringer k (by simpa using hk)
  | rang hi hnone => exact h.move (Or.inr hnone)
  | hush hi => exact h.move (Or.inl (by rw [hi]; rintro ⟨⟩))
  | wake hj =>
    exact ⟨fun hnone => h.receiver (ne_none_of_update hnone),
      fun k hk => h.ringer k (ne_none_of_update hk)⟩

theorem carries_of_trail (h : Trail Step (start : Bell ι ω) t s) :
  s.Carries
  := by
  apply h.invariant (fun _ s => s.Carries) carries_start
  intro _ _ _ _ _ hs hstep
  exact hs.step hstep

omit [DecidableEq ι] in
/-- Nobody carries a waker when no call is under way. -/
theorem Carries.none_of_idle (h : s.Carries) (hreceiver : s.receiver = .idle)
    (hringer : ∀ i, s.ringer i = .idle) (j : Option ι) :
  s.carried j = none
  := by
  by_contra hj
  cases j with
  | none =>
    rw [h.receiver hj] at hreceiver
    cases hreceiver
  | some i =>
    have hi := hringer i
    rw [h.ringer i hj] at hi
    cases hi

/-! ### A ring is not lost -/

/-- The bell is open, and its receiver is not closing it. -/
structure Open (s : Bell ι ω) : Prop where
  closed : s.closed = false
  receiver : s.receiver ≠ .closing ∧ s.receiver ≠ .dropping ∧ s.receiver ≠ .dropped

omit [DecidableEq ι] in
theorem open_start :
  Open (start : Bell ι ω)
  := ⟨rfl, by rintro ⟨⟩, by rintro ⟨⟩, by rintro ⟨⟩⟩

theorem Open.step (h : s.Open) (hstep : Step s e s') (hclose : e ≠ .close) :
  s'.Open
  := by
  obtain ⟨hclosed, hclosing, hdropping, hdropped⟩ := h
  cases hstep with
  | close => exact (hclose rfl).elim
  | shut hr => exact (hclosing hr).elim
  | drop hr => exact (hdropping hr).elim
  | closed hr => exact (hdropped hr).elim
  | _ => exact ⟨hclosed, by simp_all, by simp_all, by simp_all⟩

/-- A waker is named, or was taken and is going to be woken, or was woken. -/
def Held (s : Bell ι ω) (w : ω) (woken : Prop) : Prop :=
  s.owner = some w ∨ (∃ j, s.carried j = some w) ∨ woken

/-- No waker is named, or a ring is going to take it. -/
def Struck (s : Bell ι ω) : Prop :=
  s.owner = none ∨ ∃ i, s.ringer i = .looking ∨ s.ringer i = .striking

/-- What an open bell holds is not lost while nobody else is named. -/
theorem Held.step {woken : Prop} (h : s.Held w woken) (hopen : s.Open)
    (hnamed : ∀ v, s.receiver ≠ .registering v) (hstep : Step s e s') :
  s'.Held w (woken ∨ e = .woke w)
  := by
  rcases h with howner | ⟨j, hj⟩ | hwoken
  · cases hstep with
    | name hr => exact (hnamed _ hr).elim
    | bounce hr => exact (hnamed _ hr).elim
    | drop hr => exact (hopen.receiver.2.1 hr).elim
    | @strike i j hi hj hfree =>
      refine Or.inr (Or.inl ⟨j, ?_⟩)
      rw [howner]
      exact Function.update_self ..
    | _ => exact Or.inl howner
  · cases hstep with
    | bounce hr => exact (hnamed _ hr).elim
    | @strike i j' hi hj' hfree =>
      refine Or.inr (Or.inl ⟨j, ?_⟩)
      cases howner : s.owner with
      | none => exact hj
      | some v =>
        have hne : j ≠ j' := by
          rintro rfl
          rw [hfree (by rw [howner]; rintro ⟨⟩)] at hj
          cases hj
        exact (Function.update_of_ne hne _ _).trans hj
    | @wake j' v hj' =>
      by_cases hjj : j = j'
      · subst hjj
        rw [hj, Option.some_inj] at hj'
        subst hj'
        exact Or.inr (Or.inr (Or.inr rfl))
      · exact Or.inr (Or.inl ⟨j, (Function.update_of_ne hjj _ _).trans hj⟩)
    | _ => exact Or.inr (Or.inl ⟨j, hj⟩)
  · exact Or.inr (Or.inr (Or.inl hwoken))

/-- A ring that is under way strikes in the end, and after it nobody is named. -/
theorem Struck.step (h : s.Struck) (hopen : s.Open) (hnamed : ∀ v, s.receiver ≠ .registering v)
    (hstep : Step s e s') :
  s'.Struck
  := by
  have hother : ∀ {i j : ι} {r : Ringer}, s.ringer i ≠ .looking → s.ringer i ≠ .striking →
      s.ringer j = .looking ∨ s.ringer j = .striking →
      Function.update s.ringer i r j = .looking ∨ Function.update s.ringer i r j = .striking := by
    intro i j r hlooking hstriking hj
    have hne : j ≠ i := by
      rintro rfl
      exact hj.elim hlooking hstriking
    rwa [Function.update_of_ne hne]
  rcases h with howner | ⟨j, hj⟩
  · cases hstep with
    | name hr => exact (hnamed _ hr).elim
    | drop => exact Or.inl rfl
    | strike => exact Or.inl rfl
    | _ => exact Or.inl howner
  · cases hstep with
    | name hr => exact (hnamed _ hr).elim
    | drop => exact Or.inl rfl
    | strike => exact Or.inl rfl
    | ring hi => exact Or.inr ⟨j, hother (by rw [hi]; rintro ⟨⟩) (by rw [hi]; rintro ⟨⟩) hj⟩
    | @look i hi =>
      right
      by_cases hji : j = i
      · subst hji
        refine ⟨j, Or.inr ((Function.update_self ..).trans ?_)⟩
        rw [hopen.closed]
        rfl
      · have hsame := Function.update_of_ne hji (if s.closed then Ringer.hushed else .striking) s.ringer
        exact ⟨j, hj.imp hsame.trans hsame.trans⟩
    | rang hi => exact Or.inr ⟨j, hother (by rw [hi]; rintro ⟨⟩) (by rw [hi]; rintro ⟨⟩) hj⟩
    | hush hi => exact Or.inr ⟨j, hother (by rw [hi]; rintro ⟨⟩) (by rw [hi]; rintro ⟨⟩) hj⟩
    | _ => exact Or.inr ⟨j, hj⟩

/-- The receiver is naming nobody until it registers again. -/
theorem unnamed_step (hnamed : ∀ v, s.receiver ≠ .registering v) (hstep : Step s e s')
    (hregister : ∀ v, e ≠ .register v) (v : ω) :
  s'.receiver ≠ .registering v
  := by
  cases hstep with
  | register => exact (hregister _ rfl).elim
  | _ => first | exact hnamed v | rintro ⟨⟩

/-- A stretch of a run in which nobody is named and the bell is not closed. -/
def Steady (t : List (Event ι ω)) : Prop :=
  .close ∉ t ∧ ∀ v, .register v ∉ t

omit [DecidableEq ι] in
theorem Steady.concat (h : Steady (t ++ [e])) :
  Steady t ∧ e ≠ .close ∧ ∀ v, e ≠ .register v
  := by
  obtain ⟨hclose, hregister⟩ := h
  refine ⟨⟨fun h => hclose (List.mem_append_left _ h), fun v h =>
    hregister v (List.mem_append_left _ h)⟩, ?_, ?_⟩
  · rintro rfl
    exact hclose (by simp)
  · rintro v rfl
    exact hregister v (by simp)

theorem open_of_trail (h : Trail Step s t s') (hopen : s.Open) (hclose : .close ∉ t) :
  s'.Open
  := by
  have hall : .close ∉ t → s'.Open := by
    apply h.invariant (fun t s => .close ∉ t → s.Open) (fun _ => hopen)
    intro t s₁ e s₂ _ ih hstep hclose
    apply (ih fun hmem => hclose (List.mem_append_left _ hmem)).step hstep
    rintro rfl
    exact hclose (by simp)
  exact hall hclose

/-- What an open bell holds over a stretch in which nobody is named. -/
theorem held_of_trail {woken : Prop} (h : Trail Step s t s') (hopen : s.Open)
    (hnamed : ∀ v, s.receiver ≠ .registering v) (hheld : s.Held w woken) (hsteady : Steady t) :
  s'.Open ∧ (∀ v, s'.receiver ≠ .registering v) ∧ s'.Held w (woken ∨ .woke w ∈ t) ∧
    (s.Struck → s'.Struck)
  := by
  have hall : Steady t → s'.Open ∧ (∀ v, s'.receiver ≠ .registering v) ∧
      s'.Held w (woken ∨ .woke w ∈ t) ∧ (s.Struck → s'.Struck) := by
    apply h.invariant (fun t s' => Steady t → s'.Open ∧ (∀ v, s'.receiver ≠ .registering v) ∧
      s'.Held w (woken ∨ .woke w ∈ t) ∧ (s.Struck → s'.Struck))
    · exact fun _ => ⟨hopen, hnamed, hheld.imp_right (Or.imp_right Or.inl), id⟩
    · intro t s₁ e s₂ _ ih hstep hsteady
      obtain ⟨hsteady, hclose, hregister⟩ := hsteady.concat
      obtain ⟨hopen₁, hnamed₁, hheld₁, hstruck₁⟩ := ih hsteady
      refine ⟨hopen₁.step hstep hclose, unnamed_step hnamed₁ hstep hregister, ?_,
        fun hs => (hstruck₁ hs).step hopen₁ hnamed₁ hstep⟩
      apply (hheld₁.step hopen₁ hnamed₁ hstep).imp_right (Or.imp_right _)
      rintro ((hwoken | hmem) | rfl)
      · exact Or.inl hwoken
      · exact Or.inr (List.mem_append_left _ hmem)
      · exact Or.inr (by simp)
  exact hall hsteady

/-- While a waker is being named, the bell is going to hold it. -/
theorem naming_of_trail (h : Trail Step s t s') (hopen : s.Open)
    (hreceiver : s.receiver = .registering w) (hsteady : Steady t) :
  s'.Open ∧ (s'.receiver = .registering w ∨
    (∀ v, s'.receiver ≠ .registering v) ∧ s'.Held w (.woke w ∈ t))
  := by
  have hall : Steady t → s'.Open ∧ (s'.receiver = .registering w ∨
      (∀ v, s'.receiver ≠ .registering v) ∧ s'.Held w (.woke w ∈ t)) := by
    apply h.invariant (fun t s' => Steady t → s'.Open ∧ (s'.receiver = .registering w ∨
      (∀ v, s'.receiver ≠ .registering v) ∧ s'.Held w (.woke w ∈ t)))
    · exact fun _ => ⟨hopen, Or.inl hreceiver⟩
    · intro t s₁ e s₂ _ ih hstep hsteady
      obtain ⟨hsteady, hclose, hregister⟩ := hsteady.concat
      obtain ⟨hopen₁, hcase⟩ := ih hsteady
      refine ⟨hopen₁.step hstep hclose, ?_⟩
      rcases hcase with hnaming | ⟨hnamed, hheld⟩
      · cases hstep with
        | register => exact (hregister _ rfl).elim
        | name hr =>
          rw [hnaming] at hr
          cases hr
          exact Or.inr ⟨by rintro v ⟨⟩, Or.inl rfl⟩
        | bounce hr =>
          rw [hnaming] at hr
          cases hr
          exact Or.inr ⟨by rintro v ⟨⟩, Or.inr (Or.inl ⟨none, by simp⟩)⟩
        | registered hr =>
          rw [hnaming] at hr
          cases hr
        | close => exact (hclose rfl).elim
        | shut hr =>
          rw [hnaming] at hr
          cases hr
        | drop hr =>
          rw [hnaming] at hr
          cases hr
        | closed hr =>
          rw [hnaming] at hr
          cases hr
        | _ => exact Or.inl hnaming
      · refine Or.inr ⟨unnamed_step hnamed hstep hregister, ?_⟩
        apply (hheld.step hopen₁ hnamed hstep).imp_right (Or.imp_right _)
        rintro (hmem | rfl)
        · exact List.mem_append_left _ hmem
        · simp
  exact hall hsteady

/-- A ring that begins after a registration has returned is not lost: when all calls are over
and nobody else was named, the registered waker was woken. -/
theorem ring_reaches {t₁ t₂ t₃ t₄ : List (Event ι ω)}
    (h : Trail Step start
      (t₁ ++ .register w :: (t₂ ++ .registered :: (t₃ ++ .ring i :: t₄))) s)
    (hclose : .close ∉ t₁) (hsteady₂ : Steady t₂) (hsteady₃ : Steady t₃) (hsteady₄ : Steady t₄)
    (hreceiver : s.receiver = .idle) (hringer : ∀ i, s.ringer i = .idle) :
  .woke w ∈ t₂ ++ t₃ ++ t₄
  := by
  have hcarries := carries_of_trail h
  obtain ⟨s₁, h₁, h⟩ := h.split
  obtain ⟨s₂, hregister, h⟩ := h.first
  obtain ⟨s₃, h₃, h⟩ := h.split
  obtain ⟨s₄, hregistered, h⟩ := h.first
  obtain ⟨s₅, h₅, h⟩ := h.split
  obtain ⟨s₆, hring, h₆⟩ := h.first
  have hopen₁ := open_of_trail h₁ open_start hclose
  have hopen₂ : s₂.Open := hopen₁.step hregister (by rintro ⟨⟩)
  have hnaming : s₂.receiver = .registering w := by
    cases hregister
    rfl
  obtain ⟨hopen₃, hcase⟩ := naming_of_trail h₃ hopen₂ hnaming hsteady₂
  have hopen₄ : s₄.Open := hopen₃.step hregistered (by rintro ⟨⟩)
  have hheld₄ : (∀ v, s₄.receiver ≠ .registering v) ∧ s₄.Held w (.woke w ∈ t₂) := by
    cases hregistered with
    | registered hr =>
      rcases hcase with hnaming | ⟨-, hheld⟩
      · rw [hnaming] at hr
        cases hr
      · exact ⟨by rintro v ⟨⟩, hheld⟩
  obtain ⟨hopen₅, hnamed₅, hheld₅, -⟩ :=
    held_of_trail h₅ hopen₄ hheld₄.1 hheld₄.2 hsteady₃
  have hopen₆ : s₆.Open := hopen₅.step hring (by rintro ⟨⟩)
  have hnamed₆ := unnamed_step hnamed₅ hring (by rintro v ⟨⟩)
  have hstruck₆ : s₆.Struck ∧ s₆.Held w (.woke w ∈ t₂ ∨ .woke w ∈ t₃) := by
    cases hring
    exact ⟨Or.inr ⟨i, Or.inl (Function.update_self ..)⟩, hheld₅⟩
  obtain ⟨-, -, hheld, hstruck⟩ := held_of_trail h₆ hopen₆ hnamed₆ hstruck₆.2 hsteady₄
  have howner : s.owner = none := by
    rcases hstruck hstruck₆.1 with howner | ⟨j, hj⟩
    · exact howner
    · rw [hringer j] at hj
      rcases hj with hj | hj <;> cases hj
  rcases hheld with heq | ⟨j, hj⟩ | (hmem | hmem) | hmem
  · rw [howner] at heq
    cases heq
  · rw [hcarries.none_of_idle hreceiver hringer] at hj
    cases hj
  · simp [hmem]
  · simp [hmem]
  · simp [hmem]

/-! ### A waker is woken once -/

section Once

variable [DecidableEq ω]

/-- How often a waker can still be woken. -/
noncomputable def due (s : Bell ι ω) (w : ω) : ℕ∞ :=
  {j | s.carried j = some w}.encard + (if s.owner = some w then 1 else 0) +
    if s.receiver = .registering w then 1 else 0

/-- A waker that is carried by one more. -/
theorem encard_carry {f : Option ι → Option ω} {j : Option ι} (hj : f j = none) (v w : ω) :
  {k | Function.update f j (some v) k = some w}.encard =
    {k | f k = some w}.encard + if v = w then 1 else 0
  := by
  have hset : {k | Function.update f j (some v) k = some w} =
      if v = w then insert j {k | f k = some w} else {k | f k = some w} := by
    ext k
    by_cases hk : k = j
    · subst hk
      split <;> simp [*]
    · split <;> simp [*]
  rw [hset]
  split
  · rw [Set.encard_insert_of_notMem (by simp [hj])]
  · rw [add_zero]

theorem encard_wake {f : Option ι → Option ω} {j : Option ι} {v : ω} (hj : f j = some v) (w : ω) :
  {k | Function.update f j none k = some w}.encard + (if v = w then 1 else 0) =
    {k | f k = some w}.encard
  := by
  have hself : Function.update (Function.update f j none) j (some v) = f := by
    rw [Function.update_idem, ← hj, Function.update_eq_self]
  rw [← encard_carry (Function.update_self ..) v w, hself]

/-- A step that wakes a waker was due to wake it, and only a registration makes it due once
more. -/
theorem due_step (hcarries : s.Carries) (hstep : Step s e s') (w : ω) :
  s'.due w + (if e = .woke w then 1 else 0) ≤ s.due w + if e = .register w then 1 else 0
  := by
  cases hstep with
  | pause => exact le_rfl
  | @register v hr => simp [due, hr]
  | @name v hr =>
    simp only [due, hr, reduceCtorEq, if_false, add_zero, Option.some_inj, Receiver.registering.injEq]
    rw [add_right_comm]
    exact le_self_add
  | @bounce v i hr hi =>
    have hnone : s.carried none = none := by
      by_contra hne
      rw [hcarries.receiver hne] at hr
      cases hr
    simp only [due, hr, encard_carry hnone, reduceCtorEq, if_false, add_zero,
      Receiver.registering.injEq]
    exact (add_right_comm ..).le
  | registered hr => simp [due, hr]
  | close hr => simp [due, hr]
  | shut hr => simp [due, hr]
  | drop hr => simp [due, hr]
  | closed hr => simp [due, hr]
  | ring hi => simp [due]
  | look hi => simp [due]
  | @strike i j hi hj hfree =>
    cases howner : s.owner with
    | none => simp [due, howner]
    | some v => simp [due, howner, encard_carry (hfree (by rw [howner]; rintro ⟨⟩))]
  | rang hi => simp [due]
  | hush hi => simp [due]
  | @wake j v hj =>
    simp only [due, ← encard_wake hj w, reduceCtorEq, if_false, add_zero, Event.woke.injEq]
    apply le_of_eq
    ac_rfl

/-- A waker is woken at most as often as it was registered. -/
theorem count_woke_le (h : Trail Step (start : Bell ι ω) t s) (w : ω) :
  t.count (.woke w) ≤ t.count (.register w)
  := by
  have hdue : (t.count (.woke w) : ℕ∞) + s.due w ≤ t.count (.register w) := by
    apply h.invariant (fun t s => (t.count (.woke w) : ℕ∞) + s.due w ≤ t.count (.register w))
    · simp [due, start]
    · intro t s₁ e s₂ htrail ih hstep
      have hstep := due_step (carries_of_trail htrail) hstep w
      rw [List.count_append, List.count_append, List.count_singleton, List.count_singleton]
      simp only [beq_iff_eq, Nat.cast_add, Nat.cast_ite, Nat.cast_one, Nat.cast_zero]
      calc (t.count (.woke w) : ℕ∞) + (if e = .woke w then 1 else 0) + s₂.due w
        _ = t.count (.woke w) + (s₂.due w + if e = .woke w then 1 else 0) := by ac_rfl
        _ ≤ t.count (.woke w) + (s₁.due w + if e = .register w then 1 else 0) := by gcongr
        _ = t.count (.woke w) + s₁.due w + (if e = .register w then 1 else 0) := by ac_rfl
        _ ≤ t.count (.register w) + if e = .register w then 1 else 0 := by gcongr
  exact Nat.cast_le.mp (le_self_add.trans hdue)

end Once

/-! ### After the bell is closed -/

/-- The bell is closed, nobody carries a waker, and no ring can take one. -/
structure Quiet (s : Bell ι ω) : Prop where
  closed : s.closed = true
  carried : ∀ j, s.carried j = none
  ringer : ∀ i, s.ringer i ≠ .striking ∧ s.ringer i ≠ .struck

theorem Quiet.step (h : s.Quiet) (hstep : Step s e s') :
  s'.Quiet ∧ ∀ w, e ≠ .woke w
  := by
  have hmove : ∀ (i : ι) (r : Ringer), r ≠ .striking → r ≠ .struck →
      Quiet { s with ringer := Function.update s.ringer i r } := by
    intro i r hstriking hstruck
    refine ⟨h.closed, h.carried, fun j => ?_⟩
    show Function.update s.ringer i r j ≠ _ ∧ Function.update s.ringer i r j ≠ _
    by_cases hji : j = i
    · subst hji
      rw [Function.update_self]
      exact ⟨hstriking, hstruck⟩
    · rw [Function.update_of_ne hji]
      exact h.ringer j
  cases hstep with
  | bounce _ hi => exact ((h.ringer _).2 hi).elim
  | shut => exact ⟨⟨rfl, h.carried, h.ringer⟩, by rintro w ⟨⟩⟩
  | ring hi => exact ⟨hmove _ _ (by rintro ⟨⟩) (by rintro ⟨⟩), by rintro w ⟨⟩⟩
  | look hi =>
    have hhushed : (if s.closed then Ringer.hushed else .striking) = .hushed := if_pos h.closed
    rw [hhushed]
    exact ⟨hmove _ _ (by rintro ⟨⟩) (by rintro ⟨⟩), by rintro w ⟨⟩⟩
  | strike hi => exact ((h.ringer _).1 hi).elim
  | rang hi => exact ((h.ringer _).2 hi).elim
  | hush hi => exact ⟨hmove _ _ (by rintro ⟨⟩) (by rintro ⟨⟩), by rintro w ⟨⟩⟩
  | @wake j w hj =>
    rw [h.carried j] at hj
    cases hj
  | _ => exact ⟨⟨h.closed, h.carried, h.ringer⟩, by rintro w ⟨⟩⟩

theorem closed_step (hclosed : s.closed = true) (hstep : Step s e s') :
  s'.closed = true
  := by
  cases hstep with
  | shut => rfl
  | _ => exact hclosed

theorem closed_of_dropping (h : Trail Step (start : Bell ι ω) t s)
    (hreceiver : s.receiver = .dropping ∨ s.receiver = .dropped) :
  s.closed = true
  := by
  have hall : s.receiver = .dropping ∨ s.receiver = .dropped → s.closed = true := by
    apply h.invariant (fun _ s => s.receiver = .dropping ∨ s.receiver = .dropped → s.closed = true)
    · rintro (h | h) <;> cases h
    · intro _ s₁ e s₂ _ ih hstep
      cases hstep with
      | shut => exact fun _ => rfl
      | drop hr => exact fun _ => ih (Or.inl hr)
      | register => rintro (h | h) <;> cases h
      | name => rintro (h | h) <;> cases h
      | bounce => rintro (h | h) <;> cases h
      | registered => rintro (h | h) <;> cases h
      | close => rintro (h | h) <;> cases h
      | closed => rintro (h | h) <;> cases h
      | _ => exact ih
  exact hall hreceiver

/-- A bell stays closed. -/
theorem closed_of_trail {t' : List (Event ι ω)}
    (h : Trail Step (start : Bell ι ω) (t ++ .closed :: t') s) :
  s.closed = true
  := by
  obtain ⟨s₁, h₁, h⟩ := h.split
  obtain ⟨s₂, hclosed, h₂⟩ := h.first
  have hclosed₂ : s₂.closed = true := by
    cases hclosed with
    | closed hr =>
      have hclosed₁ := closed_of_dropping h₁ (Or.inr hr)
      exact hclosed₁
  apply h₂.invariant (fun _ s => s.closed = true) hclosed₂
  intro _ _ _ _ _ hs hstep
  exact closed_step hs hstep

/-- Once the bell is closed and no call is under way, nobody is woken any more, whatever is
registered and rung. -/
theorem quiet_of_closed {t' t'' : List (Event ι ω)}
    (h : Trail Step (start : Bell ι ω) (t ++ .closed :: t') s) (hreceiver : s.receiver = .idle)
    (hringer : ∀ i, s.ringer i = .idle) (h' : Trail Step s t'' s') (w : ω) :
  .woke w ∉ t''
  := by
  have hquiet : s.Quiet := by
    refine ⟨closed_of_trail h, (carries_of_trail h).none_of_idle hreceiver hringer, fun i => ?_⟩
    rw [hringer i]
    exact ⟨by rintro ⟨⟩, by rintro ⟨⟩⟩
  have hall : s'.Quiet ∧ .woke w ∉ t'' := by
    apply h'.invariant (fun t'' s' => s'.Quiet ∧ .woke w ∉ t'') ⟨hquiet, by rintro ⟨⟩⟩
    intro t'' s₁ e s₂ _ ih hstep
    obtain ⟨hquiet₂, hnot⟩ := ih.1.step hstep
    refine ⟨hquiet₂, ?_⟩
    rw [List.mem_append, List.mem_singleton]
    rintro (hmem | rfl)
    · exact ih.2 hmem
    · exact hnot w rfl
  exact hall.2

/-- Nobody is named, and the receiver is naming nobody. -/
def Nameless (s : Bell ι ω) : Prop :=
  s.owner = none ∧ ∀ v, s.receiver ≠ .registering v

theorem Nameless.step (h : s.Nameless) (hstep : Step s e s') (hregister : ∀ v, e ≠ .register v) :
  s'.Nameless
  := by
  refine ⟨?_, unnamed_step h.2 hstep hregister⟩
  cases hstep with
  | name hr => exact (h.2 _ hr).elim
  | drop => rfl
  | strike => rfl
  | _ => exact h.1

/-- A bell that was dropped names nobody. -/
theorem owner_of_dropped (h : Trail Step (start : Bell ι ω) t s) (hreceiver : s.receiver = .dropped) :
  s.owner = none
  := by
  have hall : s.receiver = .dropped → s.owner = none := by
    apply h.invariant (fun _ s => s.receiver = .dropped → s.owner = none) (fun _ => rfl)
    intro _ s₁ e s₂ _ ih hstep
    cases hstep with
    | drop => exact fun _ => rfl
    | strike => exact fun _ => rfl
    | pause => exact ih
    | ring => exact ih
    | look => exact ih
    | rang => exact ih
    | hush => exact ih
    | wake => exact ih
    | _ => rintro ⟨⟩
  exact hall hreceiver

/-- A closed bell names nobody until a waker is registered. -/
theorem owner_of_closed {t' : List (Event ι ω)}
    (h : Trail Step (start : Bell ι ω) (t ++ .closed :: t') s) (hregister : ∀ v, .register v ∉ t') :
  s.owner = none
  := by
  obtain ⟨s₁, h₁, h⟩ := h.split
  obtain ⟨s₂, hclosed, h₂⟩ := h.first
  have hnameless : s₂.Nameless := by
    cases hclosed with
    | closed hr =>
      have howner := owner_of_dropped h₁ hr
      exact ⟨howner, by rintro v ⟨⟩⟩
  have hall : (∀ v, .register v ∉ t') → s.Nameless := by
    apply h₂.invariant (fun t' s => (∀ v, .register v ∉ t') → s.Nameless) (fun _ => hnameless)
    intro t' s₁ e s₂ _ ih hstep hregister
    apply (ih fun v hmem => hregister v (List.mem_append_left _ hmem)).step hstep
    rintro v rfl
    exact hregister v (by simp)
  exact (hall hregister).1

end Bell

end Grommet
