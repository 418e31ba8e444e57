import Mathlib.Data.Option.Basic
import Mathlib.Logic.Function.Basic

/-!
# Where the owner's waker lives

A slot holds one waker.  Its owner registers a waker, and any number of threads take the
waker out to wake it.  Two bits of a state word tell who may touch the cell: one says that a
waker is being stored, the other one that a thread wants to take it.  Each access of the
state word and each access of the cell is one step.

The step functions below are those of `register` and of `wake`; a step also returns the
waker that it wakes.  Two wakers are equal when they wake the same task.
-/

namespace Grommet

/-- The slot; nobody holds its cell when both bits are clear. -/
structure WakerSlot (ω : Type) where
  registering : Bool
  waking : Bool
  cell : Option ω
  deriving DecidableEq

namespace WakerSlot

variable {ι ω : Type}

def new : WakerSlot ω where
  registering := false
  waking := false
  cell := none

/-- Nobody holds the cell. -/
def waiting (slot : WakerSlot ω) : Bool := !slot.registering && !slot.waking

/-- Where a call of `register` stands. -/
inductive Registrar (ω : Type) where
  | out
  /-- Before the exchange that takes the cell. -/
  | entering (waker : ω)
  | storing (waker : ω)
  /-- Before the exchange that gives the cell back. -/
  | stored (waker : ω)
  /-- A wake came while the cell was held: before the waker is taken out again. -/
  | honouring
  | resetting (pending : Option ω)
  /-- About to wake a waker. -/
  | delivering (waker : ω)
  deriving DecidableEq

/-- Where a call of `wake` stands. -/
inductive Notifier (ω : Type) where
  | out
  /-- Before the bit is set. -/
  | wanting
  | taking
  /-- Before the bit is cleared. -/
  | releasing (taken : Option ω)
  /-- About to wake a waker. -/
  | delivering (waker : ω)
  deriving DecidableEq

namespace Registrar

/-- What is left to do once the waker, if there is one, is out of the cell. -/
def deliver : Option ω → Registrar ω
  | some waker => delivering waker
  | none => out

/-- One step of `register`. -/
def step (slot : WakerSlot ω) : Registrar ω → WakerSlot ω × Registrar ω × Option ω
  | out => (slot, out, none)
  | entering waker =>
      if slot.waiting then
        ({ slot with registering := true }, storing waker, none)
      else
        (slot, delivering waker, none)
  | storing waker => ({ slot with cell := some waker }, stored waker, none)
  | stored _ =>
      if slot.waking then
        (slot, honouring, none)
      else
        ({ slot with registering := false }, out, none)
  | honouring => ({ slot with cell := none }, resetting slot.cell, none)
  | resetting pending =>
      ({ slot with registering := false, waking := false }, deliver pending, none)
  | delivering waker => (slot, out, some waker)

/-- Whether the call holds the cell. -/
def holds : Registrar ω → Bool
  | storing _ | stored _ | honouring | resetting _ => true
  | _ => false

/-- Whether the call has found that a wake came while it held the cell. -/
def honours : Registrar ω → Bool
  | honouring | resetting _ => true
  | _ => false

end Registrar

namespace Notifier

/-- What is left to do once the waker, if there is one, is out of the cell. -/
def deliver : Option ω → Notifier ω
  | some waker => delivering waker
  | none => out

/-- One step of `wake`. -/
def step (slot : WakerSlot ω) : Notifier ω → WakerSlot ω × Notifier ω × Option ω
  | out => (slot, out, none)
  | wanting =>
      if slot.waiting then
        ({ slot with waking := true }, taking, none)
      else
        ({ slot with waking := true }, out, none)
  | taking => ({ slot with cell := none }, releasing slot.cell, none)
  | releasing taken => ({ slot with waking := false }, deliver taken, none)
  | delivering waker => (slot, out, some waker)

/-- Whether the call holds the cell. -/
def holds : Notifier ω → Bool
  | taking | releasing _ => true
  | _ => false

/-- Whether the call has the waker and is going to wake it. -/
def carries (n : Notifier ω) (waker : ω) : Prop :=
  n = releasing (some waker) ∨ n = delivering waker

end Notifier

/-- No step of `register` leads back to its first exchange. -/
theorem Registrar.step_ne_entering (slot : WakerSlot ω) (r : Registrar ω) (waker : ω) :
  (r.step slot).2.1 ≠ .entering waker
  := by
  cases r with
  | entering _ =>
    rw [step]
    split <;> rintro ⟨⟩
  | stored _ =>
    rw [step]
    split <;> rintro ⟨⟩
  | resetting pending => cases pending <;> rintro ⟨⟩
  | _ => rintro ⟨⟩

/-! ### Exclusion -/

/-- The bits of the state word say who holds the cell, and at most one call does. -/
structure Exclusive (slot : WakerSlot ω) (r : Registrar ω) (n : ι → Notifier ω) : Prop where
  registrar : slot.registering = r.holds
  notifier : ∀ i, (n i).holds = true → slot.registering = false ∧ slot.waking = true
  alone : ∀ i j, (n i).holds = true → (n j).holds = true → i = j
  held : slot.registering = false → slot.waking = true → ∃ i, (n i).holds = true
  honours : r.honours = true → slot.waking = true
  emptied : ∀ i taken, n i = .releasing taken → slot.cell = none

variable {slot : WakerSlot ω} {r : Registrar ω} {n : ι → Notifier ω}

theorem waiting_iff :
  slot.waiting = true ↔ slot.registering = false ∧ slot.waking = false
  := by
  rw [waiting, Bool.and_eq_true, Bool.not_eq_true', Bool.not_eq_true']

theorem exclusive_new :
  Exclusive (new : WakerSlot ω) .out (fun _ : ι => .out)
  := by
  refine ⟨rfl, ?_, ?_, ?_, ?_, ?_⟩
  · intro i hi
    cases hi
  · intro i j hi
    cases hi
  · intro _ hwaking
    cases hwaking
  · intro h
    cases h
  · intro i taken hi
    cases hi

/-- While the registrar holds the cell nobody else does. -/
theorem Exclusive.not_holds (h : Exclusive slot r n) (hr : r.holds = true) (i : ι) :
  (n i).holds = false
  := by
  rw [Bool.eq_false_iff]
  intro hi
  have hregistering := (h.notifier i hi).1
  rw [h.registrar, hr] at hregistering
  cases hregistering

/-- While nobody holds the cell no call of `wake` does. -/
theorem Exclusive.not_holds_of_waiting (h : Exclusive slot r n) (hwaiting : slot.waiting = true)
    (i : ι) :
  (n i).holds = false
  := by
  rw [Bool.eq_false_iff]
  intro hi
  have hwaking := (h.notifier i hi).2
  rw [(waiting_iff.mp hwaiting).2] at hwaking
  cases hwaking

/-- The slot and the registrar may change in any way that keeps the calls of `wake` out. -/
theorem Exclusive.keepOut {slot' : WakerSlot ω} {r' : Registrar ω} (hout : ∀ i, (n i).holds = false)
    (hregistering : slot'.registering = r'.holds)
    (hheld : slot'.registering = false → slot'.waking = false)
    (hhonours : r'.honours = true → slot'.waking = true) :
  Exclusive slot' r' n
  := by
  refine ⟨hregistering, ?_, ?_, ?_, hhonours, ?_⟩
  · intro i hi
    rw [hout i] at hi
    cases hi
  · intro i j hi
    rw [hout i] at hi
    cases hi
  · intro hfree hwaking
    rw [hheld hfree] at hwaking
    cases hwaking
  · intro i taken hi
    have hout := hout i
    rw [hi] at hout
    cases hout

/-- A step of `register` keeps the exclusion. -/
theorem Exclusive.register (h : Exclusive slot r n) :
  Exclusive (r.step slot).1 (r.step slot).2.1 n
  := by
  cases r with
  | out => exact h
  | entering waker =>
    rw [Registrar.step]
    split
    · rename_i hwaiting
      apply keepOut (h.not_holds_of_waiting hwaiting) rfl
      · intro hfree
        cases hfree
      · intro hhonours
        cases hhonours
    · exact ⟨h.registrar, h.notifier, h.alone, h.held, by rintro ⟨⟩, h.emptied⟩
  | storing waker =>
    have hregistering : slot.registering = true := h.registrar
    apply keepOut (h.not_holds rfl) hregistering
    · intro hfree
      rw [Registrar.step, hregistering] at hfree
      cases hfree
    · intro hhonours
      cases hhonours
  | stored waker =>
    have hregistering : slot.registering = true := h.registrar
    rw [Registrar.step]
    split
    · rename_i hwaking
      apply keepOut (h.not_holds rfl) hregistering
      · intro hfree
        rw [hregistering] at hfree
        cases hfree
      · intro _
        exact hwaking
    · rename_i hwaking
      apply keepOut (h.not_holds rfl) rfl
      · intro _
        exact Bool.eq_false_iff.mpr hwaking
      · intro hhonours
        cases hhonours
  | honouring =>
    have hregistering : slot.registering = true := h.registrar
    apply keepOut (h.not_holds rfl) hregistering
    · intro hfree
      rw [Registrar.step, hregistering] at hfree
      cases hfree
    · intro _
      exact h.honours rfl
  | resetting pending =>
    apply keepOut (h.not_holds rfl)
    · cases pending <;> rfl
    · intro _
      rfl
    · intro hhonours
      cases pending <;> cases hhonours
  | delivering waker =>
    exact ⟨h.registrar, h.notifier, h.alone, h.held, by rintro ⟨⟩, h.emptied⟩

variable [DecidableEq ι]

/-- A call that holds nothing before or after its step only sets its bit. -/
theorem Exclusive.pass {slot' : WakerSlot ω} {i : ι} {x : Notifier ω} (h : Exclusive slot r n)
    (hi : (n i).holds = false) (hx : x.holds = false)
    (hregistering : slot'.registering = slot.registering)
    (hcell : slot'.cell = slot.cell)
    (hwaking : slot'.waking = slot.waking ∨ slot.waiting = false ∧ slot'.waking = true) :
  Exclusive slot' r (Function.update n i x)
  := by
  have hholds : ∀ j, ((Function.update n i x) j).holds = (n j).holds := by
    intro j
    by_cases hj : j = i
    · subst hj
      rw [Function.update_self, hx, hi]
    · rw [Function.update_of_ne hj]
  have hup : slot.waking = true → slot'.waking = true := by
    intro hset
    rcases hwaking with heq | ⟨-, hset'⟩
    · exact heq.trans hset
    · exact hset'
  refine ⟨hregistering.trans h.registrar, ?_, ?_, ?_, ?_, ?_⟩
  · intro j hj
    rw [hholds] at hj
    exact ⟨hregistering.trans (h.notifier j hj).1, hup (h.notifier j hj).2⟩
  · intro j k hj hk
    rw [hholds] at hj hk
    apply h.alone j k hj hk
  · intro hfree hset
    rw [hregistering] at hfree
    have hset' : slot.waking = true := by
      rcases hwaking with heq | ⟨hbusy, -⟩
      · exact heq.symm.trans hset
      · by_contra hclear
        rw [waiting_iff.mpr ⟨hfree, Bool.eq_false_iff.mpr hclear⟩] at hbusy
        cases hbusy
    obtain ⟨j, hj⟩ := h.held hfree hset'
    exact ⟨j, (hholds j).trans hj⟩
  · intro hhonours
    apply hup (h.honours hhonours)
  · intro j taken hj
    rw [hcell]
    by_cases hji : j = i
    · subst hji
      rw [Function.update_self] at hj
      subst hj
      cases hx
    · rw [Function.update_of_ne hji] at hj
      apply h.emptied j taken hj

/-- A step of `wake` keeps the exclusion. -/
theorem Exclusive.notify (h : Exclusive slot r n) (i : ι) :
  Exclusive ((n i).step slot).1 r (Function.update n i ((n i).step slot).2.1)
  := by
  cases hi : n i with
  | out => exact h.pass (by rw [hi]; rfl) rfl rfl rfl (Or.inl rfl)
  | wanting =>
    have hout : (n i).holds = false := by
      rw [hi]
      rfl
    rw [Notifier.step]
    split
    · rename_i hwaiting
      obtain ⟨hregistering, -⟩ := waiting_iff.mp hwaiting
      have hnone := h.not_holds_of_waiting hwaiting
      have hholds : ∀ j, ((Function.update n i Notifier.taking) j).holds = true → j = i := by
        intro j hj
        by_contra hne
        rw [Function.update_of_ne hne, hnone j] at hj
        cases hj
      refine ⟨h.registrar, ?_, ?_, ?_, ?_, ?_⟩
      · intro j hj
        exact ⟨hregistering, rfl⟩
      · intro j k hj hk
        rw [hholds j hj, hholds k hk]
      · intro _ _
        refine ⟨i, ?_⟩
        rw [Function.update_self]
        rfl
      · intro _
        rfl
      · intro j taken hj
        have hji := hholds j (by rw [hj]; rfl)
        subst hji
        rw [Function.update_self] at hj
        cases hj
    · rename_i hbusy
      exact h.pass hout rfl rfl rfl (Or.inr ⟨Bool.eq_false_iff.mpr hbusy, rfl⟩)
  | taking =>
    have hholds : (n i).holds = true := by
      rw [hi]
      rfl
    have heq : ∀ j, ((Function.update n i (Notifier.releasing slot.cell)) j).holds = (n j).holds := by
      intro j
      by_cases hj : j = i
      · subst hj
        rw [Function.update_self, hholds]
        rfl
      · rw [Function.update_of_ne hj]
    refine ⟨h.registrar, ?_, ?_, ?_, h.honours, ?_⟩
    · intro j hj
      rw [Notifier.step, heq] at hj
      exact h.notifier j hj
    · intro j k hj hk
      rw [Notifier.step, heq] at hj hk
      exact h.alone j k hj hk
    · intro hfree hset
      obtain ⟨j, hj⟩ := h.held hfree hset
      exact ⟨j, (heq j).trans hj⟩
    · intro j taken hj
      rfl
  | releasing taken =>
    have hholds : (n i).holds = true := by
      rw [hi]
      rfl
    obtain ⟨hregistering, -⟩ := h.notifier i hholds
    have hdeliver : (Notifier.deliver taken).holds = false := by
      cases taken <;> rfl
    apply keepOut
    · intro j
      by_cases hj : j = i
      · subst hj
        rw [Function.update_self]
        exact hdeliver
      · rw [Function.update_of_ne hj, Bool.eq_false_iff]
        intro hother
        apply hj (h.alone j i hother hholds)
    · exact h.registrar
    · intro _
      rfl
    · intro hhonours
      have hhold : r.holds = true := by
        cases r with
        | honouring => rfl
        | resetting _ => rfl
        | _ => cases hhonours
      rw [h.registrar, hhold] at hregistering
      cases hregistering
  | delivering waker => exact h.pass (by rw [hi]; rfl) rfl rfl rfl (Or.inl rfl)

/-- A call of `wake` begins. -/
theorem Exclusive.begin {i : ι} (h : Exclusive slot r n) (hi : n i = .out) :
  Exclusive slot r (Function.update n i .wanting)
  := h.pass (by rw [hi]; rfl) rfl rfl rfl (Or.inl rfl)

omit [DecidableEq ι] in
/-- A call of `register` begins. -/
theorem Exclusive.enter (h : Exclusive slot .out n) (waker : ω) :
  Exclusive slot (.entering waker) n
  := ⟨h.registrar, h.notifier, h.alone, h.held, by rintro ⟨⟩, h.emptied⟩

/-! ### Delivery -/

/-- The waker was woken, or a call of `wake` has it and is going to wake it. -/
def Reached (n : ι → Notifier ω) (waker : ω) (woken : Bool) : Prop :=
  woken = true ∨ ∃ i, (n i).carries waker

/-- No wake is due, or a call of `wake` has yet to set its bit. -/
def Called (n : ι → Notifier ω) (quiet : Prop) : Prop :=
  quiet ∨ ∃ i, n i = .wanting

/-- Once `register` has taken the cell for a waker, a wake that is due reaches the waker.  When
`quiet` holds no wake is due. -/
def Promise (slot : WakerSlot ω) (r : Registrar ω) (n : ι → Notifier ω) (waker : ω)
    (woken : Bool) (quiet : Prop) : Prop :=
  match r with
  | .out =>
      Reached n waker woken ∨
        slot.cell = some waker ∧ (Called n quiet ∨ ∃ i, n i = .taking)
  | .entering _ => False
  | .storing w => w = waker ∧ (Reached n waker woken ∨ Called n quiet ∨ slot.waking = true)
  | .stored w =>
      w = waker ∧ slot.cell = some waker ∧
        (Reached n waker woken ∨ Called n quiet ∨ slot.waking = true)
  | .honouring => slot.cell = some waker
  | .resetting pending => pending = some waker
  | .delivering w => w = waker

variable [DecidableEq ω] {waker : ω} {woken : Bool} {quiet quiet' : Prop}

/-- Whether the waker was woken, after a step that woke another one or none. -/
def hears (waker : ω) (woken : Bool) (woke : Option ω) : Bool :=
  woken || decide (woke = some waker)

theorem hears_none :
  hears waker woken none = woken
  := Bool.or_false woken

theorem hears_self :
  hears waker woken (some waker) = true
  := by
  rw [hears, decide_eq_true rfl, Bool.or_true]

theorem hears_of_woken {woke : Option ω} (h : woken = true) :
  hears waker woken woke = true
  := by
  rw [hears, h, Bool.true_or]

omit [DecidableEq ι] in
theorem Reached.hears (h : Reached n waker woken) (woke : Option ω) :
  Reached n waker (hears waker woken woke)
  := h.imp_left hears_of_woken

omit [DecidableEq ω] in
/-- Only the call that has the waker can let go of it. -/
theorem Reached.update {i : ι} {x : Notifier ω} (h : Reached n waker woken)
    (hi : (n i).carries waker → x.carries waker) :
  Reached (Function.update n i x) waker woken
  := by
  apply h.imp_right
  rintro ⟨j, hj⟩
  by_cases hji : j = i
  · subst hji
    exact ⟨j, by rw [Function.update_self]; apply hi hj⟩
  · exact ⟨j, by rw [Function.update_of_ne hji]; exact hj⟩

/-- A step of `wake` that has the waker keeps it or wakes it. -/
theorem Reached.notify (h : Reached n waker woken) (i : ι) :
  Reached (Function.update n i ((n i).step slot).2.1) waker
    (WakerSlot.hears waker woken ((n i).step slot).2.2)
  := by
  cases hi : n i with
  | out =>
    apply (h.hears none).update
    intro hcarries
    rw [hi] at hcarries
    exact hcarries
  | wanting =>
    have hnot : ¬ (n i).carries waker := by
      rw [hi]
      rintro (h | h) <;> cases h
    rw [Notifier.step]
    split
    · apply (h.hears none).update hnot.elim
    · apply (h.hears none).update hnot.elim
  | taking =>
    apply (h.hears none).update
    rw [hi]
    rintro (h | h) <;> cases h
  | releasing taken =>
    apply (h.hears none).update
    rw [hi]
    rintro (h | h)
    · cases h
      exact Or.inr rfl
    · cases h
  | delivering w =>
    by_cases hw : w = waker
    · subst hw
      exact Or.inl hears_self
    · apply (h.hears _).update
      rw [hi]
      rintro (h | h)
      · cases h
      · cases h
        exact (hw rfl).elim

omit [DecidableEq ω] in
/-- A call that is not about to set its bit does not matter to those that are. -/
theorem Called.update {i : ι} {x : Notifier ω} (h : Called n quiet) (hi : n i ≠ .wanting) :
  Called (Function.update n i x) quiet
  := by
  apply h.imp_right
  rintro ⟨j, hj⟩
  have hji : j ≠ i := by
    rintro rfl
    apply hi hj
  exact ⟨j, by rw [Function.update_of_ne hji]; exact hj⟩

omit [DecidableEq ι] [DecidableEq ω] in
theorem Called.mono (h : Called n quiet) (hquiet : quiet → Called n quiet') :
  Called n quiet'
  := h.elim hquiet Or.inr

omit [DecidableEq ι] [DecidableEq ω] in
/-- What is known of the wakes that are due may change as long as somebody is called. -/
theorem Promise.mono (h : Promise slot r n waker woken quiet) (hquiet : quiet → Called n quiet') :
  Promise slot r n waker woken quiet'
  := by
  cases r with
  | out =>
    apply h.imp_right
    rintro ⟨hcell, hcalled⟩
    exact ⟨hcell, hcalled.imp_left fun hcalled => hcalled.mono hquiet⟩
  | entering _ => exact h
  | storing w => exact ⟨h.1, h.2.imp_right fun h => h.imp_left fun h => h.mono hquiet⟩
  | stored w =>
    exact ⟨h.1, h.2.1, h.2.2.imp_right fun h => h.imp_left fun h => h.mono hquiet⟩
  | honouring => exact h
  | resetting _ => exact h
  | delivering _ => exact h

omit [DecidableEq ω] in
/-- A call of `wake` begins. -/
theorem Promise.begin {i : ι} (h : Promise slot r n waker woken quiet) (hi : n i = .out) :
  Promise slot r (Function.update n i .wanting) waker woken quiet'
  := by
  have hcalled : Called (Function.update n i .wanting) quiet' :=
    Or.inr ⟨i, Function.update_self _ _ _⟩
  have hreached : Reached n waker woken → Reached (Function.update n i .wanting) waker woken := by
    intro hreached
    apply hreached.update
    rw [hi]
    rintro (h | h) <;> cases h
  cases r with
  | out =>
    apply h.imp hreached
    rintro ⟨hcell, -⟩
    exact ⟨hcell, Or.inl hcalled⟩
  | entering _ => exact h
  | storing w => exact ⟨h.1, Or.inr (Or.inl hcalled)⟩
  | stored w => exact ⟨h.1, h.2.1, Or.inr (Or.inl hcalled)⟩
  | honouring => exact h
  | resetting _ => exact h
  | delivering _ => exact h

omit [DecidableEq ι] in
/-- The exchange of `register` makes the promise, if a wake that is due has yet to set its bit
or has the waker. -/
theorem promise_enter
    (hdue : slot.waiting = true → Reached n waker woken ∨ Called n quiet) :
  Promise ((Registrar.entering waker).step slot).1 ((Registrar.entering waker).step slot).2.1 n
    waker (hears waker woken ((Registrar.entering waker).step slot).2.2) quiet
  := by
  rw [Registrar.step]
  split
  · rename_i hwaiting
    rw [hears_none]
    exact ⟨rfl, (hdue hwaiting).imp_right Or.inl⟩
  · exact rfl

omit [DecidableEq ι] in
/-- A step of `register` keeps the promise. -/
theorem Promise.register (h : Promise slot r n waker woken quiet) :
  Promise (r.step slot).1 (r.step slot).2.1 n waker
    (hears waker woken (r.step slot).2.2) quiet
  := by
  cases r with
  | out =>
    rw [Registrar.step, hears_none]
    exact h
  | entering _ => exact h.elim
  | storing w =>
    obtain ⟨rfl, h⟩ := h
    rw [Registrar.step, hears_none]
    exact ⟨rfl, rfl, h⟩
  | stored w =>
    obtain ⟨rfl, hcell, h⟩ := h
    rw [Registrar.step]
    split
    · exact hcell
    · rename_i hwaking
      rw [hears_none]
      rcases h with hreached | hcalled | hset
      · exact Or.inl hreached
      · exact Or.inr ⟨hcell, Or.inl hcalled⟩
      · exact (hwaking hset).elim
  | honouring => exact h
  | resetting pending =>
    cases (h : pending = some waker)
    exact rfl
  | delivering w =>
    cases (h : w = waker)
    rw [Registrar.step, hears_self]
    exact Or.inl (Or.inl rfl)

omit [DecidableEq ω] in
/-- A step of `wake` leaves the wakes of a slot that is being registered due. -/
theorem Called.notify {i : ι} (h : Called n quiet ∨ slot.waking = true)
    (hholds : (n i).holds = false) :
  Called (Function.update n i ((n i).step slot).2.1) quiet ∨ ((n i).step slot).1.waking = true
  := by
  cases hi : n i with
  | wanting =>
    right
    rw [Notifier.step]
    split <;> rfl
  | taking =>
    rw [hi] at hholds
    cases hholds
  | releasing _ =>
    rw [hi] at hholds
    cases hholds
  | _ =>
    apply h.imp_left
    intro hcalled
    apply hcalled.update
    rw [hi]
    rintro ⟨⟩

omit [DecidableEq ω] in
/-- A step of `wake` does not touch the cell unless it holds it. -/
theorem Notifier.step_cell {x : Notifier ω} (h : x.holds = false) :
  (x.step slot).1.cell = slot.cell
  := by
  cases x with
  | wanting =>
    rw [Notifier.step]
    split <;> rfl
  | taking => cases h
  | releasing _ => cases h
  | _ => rfl

/-- A step of `wake` keeps the promise of a slot that is not being registered. -/
theorem Promise.notifyOut {i : ι} (hex : Exclusive slot .out n) (hcell : slot.cell = some waker)
    (hcalled : Called n quiet ∨ ∃ i, n i = .taking) :
  Promise ((n i).step slot).1 .out (Function.update n i ((n i).step slot).2.1) waker
    (hears waker woken ((n i).step slot).2.2) quiet
  := by
  have htaking : ∀ {x : Notifier ω}, n i ≠ .taking → (∃ j, n j = .taking) →
      ∃ j, Function.update n i x j = .taking := by
    rintro x hi ⟨j, hj⟩
    have hji : j ≠ i := by
      rintro rfl
      apply hi hj
    exact ⟨j, by rw [Function.update_of_ne hji]; exact hj⟩
  cases hi : n i with
  | wanting =>
    right
    rw [Notifier.step]
    split
    · exact ⟨hcell, Or.inr ⟨i, Function.update_self _ _ _⟩⟩
    · rename_i hbusy
      have hwaking : slot.waking = true := by
        by_contra hclear
        exact hbusy (waiting_iff.mpr ⟨hex.registrar, Bool.eq_false_iff.mpr hclear⟩)
      obtain ⟨j, hj⟩ := hex.held hex.registrar hwaking
      have hnj : n j = .taking := by
        cases hnj : n j with
        | taking => rfl
        | releasing taken =>
          rw [hex.emptied j taken hnj] at hcell
          cases hcell
        | _ =>
          rw [hnj] at hj
          cases hj
      exact ⟨hcell, Or.inr (htaking (by rw [hi]; rintro ⟨⟩) ⟨j, hnj⟩)⟩
  | taking =>
    left
    right
    refine ⟨i, ?_⟩
    rw [Function.update_self, Notifier.step, hcell]
    exact Or.inl rfl
  | releasing taken =>
    rw [hex.emptied i taken hi] at hcell
    cases hcell
  | _ =>
    right
    refine ⟨hcell, hcalled.imp ?_ (htaking (by rw [hi]; rintro ⟨⟩))⟩
    intro hcalled
    apply hcalled.update
    rw [hi]
    rintro ⟨⟩

/-- A step of `wake` keeps the promise. -/
theorem Promise.notify (hex : Exclusive slot r n) (h : Promise slot r n waker woken quiet) (i : ι) :
  Promise ((n i).step slot).1 r (Function.update n i ((n i).step slot).2.1) waker
    (hears waker woken ((n i).step slot).2.2) quiet
  := by
  cases r with
  | out =>
    rcases h with hreached | ⟨hcell, hcalled⟩
    · exact Or.inl (hreached.notify i)
    · exact notifyOut hex hcell hcalled
  | entering _ => exact h
  | storing w =>
    obtain ⟨rfl, h⟩ := h
    refine ⟨rfl, ?_⟩
    rcases h with hreached | hcalled
    · exact Or.inl (hreached.notify i)
    · exact Or.inr (Called.notify hcalled (hex.not_holds rfl i))
  | stored w =>
    obtain ⟨rfl, hcell, h⟩ := h
    have hout := hex.not_holds rfl i
    refine ⟨rfl, (Notifier.step_cell hout).trans hcell, ?_⟩
    rcases h with hreached | hcalled
    · exact Or.inl (hreached.notify i)
    · exact Or.inr (Called.notify hcalled hout)
  | honouring => exact (Notifier.step_cell (hex.not_holds rfl i)).trans h
  | resetting _ => exact h
  | delivering _ => exact h

omit [DecidableEq ι] [DecidableEq ω] in
/-- When no call is in progress and a wake is due, the waker was woken. -/
theorem Promise.delivered (h : Promise slot .out n waker woken quiet) (hout : ∀ i, n i = .out)
    (hdue : ¬ quiet) :
  woken = true
  := by
  have hnone : ∀ x : Notifier ω, x ≠ .out → ¬ ∃ i, n i = x := by
    rintro x hx ⟨i, hi⟩
    rw [hout i] at hi
    apply hx hi.symm
  rcases h with (hwoken | ⟨i, hi | hi⟩) | ⟨-, (hquiet | hwanting) | htaking⟩
  · exact hwoken
  · exact (hnone _ (by rintro ⟨⟩) ⟨i, hi⟩).elim
  · exact (hnone _ (by rintro ⟨⟩) ⟨i, hi⟩).elim
  · exact (hdue hquiet).elim
  · exact (hnone _ (by rintro ⟨⟩) hwanting).elim
  · exact (hnone _ (by rintro ⟨⟩) htaking).elim

end WakerSlot

end Grommet
