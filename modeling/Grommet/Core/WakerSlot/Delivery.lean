import Grommet.Core.WakerSlot
import Grommet.Library.Trail

/-!
# A slot excludes, and delivers every wake

One thread registers wakers and any number of threads wake whoever is registered, in any
interleaving of their steps.  No two of them touch the cell at the same time.  A wake that
begins after the last registration, or that sets its bit while that registration holds the
cell, reaches the waker of the registration, whoever delivers it.
-/

namespace Grommet.WakerSlot

variable {ι ω : Type}

/-- Whether the next step of the call accesses the cell. -/
def Registrar.accesses : Registrar ω → Bool
  | storing _ | honouring => true
  | _ => false

/-- Whether the next step of the call accesses the cell. -/
def Notifier.accesses : Notifier ω → Bool
  | taking => true
  | _ => false

/-- A slot, its registrar and the threads that wake whoever is registered. -/
structure System (ι ω : Type) where
  slot : WakerSlot ω
  registrar : Registrar ω
  notifier : ι → Notifier ω
  /-- The waker of the last call of `register`. -/
  last : Option ω
  /-- Whether a call of `wake` has begun after the last call of `register` was over, or has set
  its bit while that call held the cell. -/
  due : Bool
  /-- Whether the waker of the last call of `register` was woken since the call began. -/
  woken : Bool

namespace System

def start : System ι ω where
  slot := WakerSlot.new
  registrar := .out
  notifier := fun _ => .out
  last := none
  due := false
  woken := false

variable [DecidableEq ω]

/-- Whether the last waker was woken, after a step that may have woken a waker. -/
def hears (s : System ι ω) (woke : Option ω) : Bool :=
  match s.last with
  | some waker => WakerSlot.hears waker s.woken woke
  | none => s.woken

end System

inductive Event (ι ω : Type) where
  /-- A call of `register` begins. -/
  | register (waker : ω)
  | registrar
  /-- A call of `wake` begins. -/
  | wake (i : ι)
  | notifier (i : ι)
  deriving DecidableEq

variable [DecidableEq ι] [DecidableEq ω]

/-- One step of the registrar or of a thread that wakes. -/
inductive Step (s : System ι ω) : Event ι ω → System ι ω → Prop
  | register {w : ω} : s.registrar = .out →
      Step s (.register w) { s with
        registrar := .entering w
        last := some w
        due := false
        woken := false }
  | registrar : s.registrar ≠ .out →
      Step s .registrar { s with
        slot := (s.registrar.step s.slot).1
        registrar := (s.registrar.step s.slot).2.1
        woken := s.hears (s.registrar.step s.slot).2.2 }
  | wake {i : ι} : s.notifier i = .out →
      Step s (.wake i) { s with
        notifier := Function.update s.notifier i .wanting
        due := s.due || decide (s.registrar = .out) }
  | notifier {i : ι} : s.notifier i ≠ .out →
      Step s (.notifier i) { s with
        slot := ((s.notifier i).step s.slot).1
        notifier := Function.update s.notifier i ((s.notifier i).step s.slot).2.1
        due := s.due || (decide (s.notifier i = .wanting) && s.slot.registering)
        woken := s.hears ((s.notifier i).step s.slot).2.2 }

/-- The calls exclude each other, and the last registration has made its promise unless it has
yet to take the cell. -/
structure Inv (s : System ι ω) : Prop where
  exclusive : Exclusive s.slot s.registrar s.notifier
  entering : ∀ w, s.registrar = .entering w → s.last = some w ∧ s.due = false
  last : s.registrar ≠ .out → ∃ w, s.last = some w
  promise : ∀ w, s.last = some w → (∀ v, s.registrar ≠ .entering v) →
    Promise s.slot s.registrar s.notifier w s.woken (s.due = false)

variable {s s' : System ι ω} {e : Event ι ω}

omit [DecidableEq ι] [DecidableEq ω] in
theorem inv_start :
  Inv (System.start : System ι ω)
  := by
  refine ⟨exclusive_new, ?_, ?_, ?_⟩
  · rintro w ⟨⟩
  · intro h
    exact (h rfl).elim
  · rintro w ⟨⟩

omit [DecidableEq ι] in
theorem System.hears_eq {w : ω} (h : s.last = some w) (woke : Option ω) :
  s.hears woke = WakerSlot.hears w s.woken woke
  := by
  rw [System.hears, h]

omit [DecidableEq ι] in
/-- A step of `register` keeps the promise, or makes it. -/
theorem Inv.registrarStep (h : Inv s) (hr : s.registrar ≠ .out) :
  Inv { s with
    slot := (s.registrar.step s.slot).1
    registrar := (s.registrar.step s.slot).2.1
    woken := s.hears (s.registrar.step s.slot).2.2 }
  := by
  refine ⟨h.exclusive.register, ?_, ?_, ?_⟩
  · intro w hw
    exact (Registrar.step_ne_entering _ _ w hw).elim
  · intro _
    exact h.last hr
  · intro w hw _
    show Promise _ _ _ w (s.hears _) _
    rw [System.hears_eq (s := s) hw]
    by_cases hentering : ∃ v, s.registrar = .entering v
    · obtain ⟨v, hv⟩ := hentering
      obtain ⟨hlast, hdue⟩ := h.entering v hv
      rw [hw, Option.some_inj] at hlast
      subst hlast
      rw [hv]
      apply promise_enter
      intro _
      exact Or.inr (Or.inl hdue)
    · apply Promise.register
      apply h.promise w hw
      intro v hv
      exact hentering ⟨v, hv⟩

/-- A call of `wake` begins. -/
theorem Inv.wake {i : ι} (h : Inv s) (hi : s.notifier i = .out) :
  Inv { s with
    notifier := Function.update s.notifier i .wanting
    due := s.due || decide (s.registrar = .out) }
  := by
  refine ⟨h.exclusive.begin hi, ?_, h.last, ?_⟩
  · intro w hw
    obtain ⟨hlast, hdue⟩ := h.entering w hw
    refine ⟨hlast, ?_⟩
    show (s.due || decide (s.registrar = .out)) = false
    rw [hdue, hw]
    rfl
  · intro w hw hentering
    exact (h.promise w hw hentering).begin hi

omit [DecidableEq ι] [DecidableEq ω] in
/-- A wake that sets its bit while the cell is held is honoured. -/
theorem Promise.set {slot : WakerSlot ω} {r : Registrar ω} {n : ι → Notifier ω} {waker : ω}
    {woken : Bool} {quiet quiet' : Prop} (h : Promise slot r n waker woken quiet)
    (hr : r.holds = true) (hset : slot.waking = true) :
  Promise slot r n waker woken quiet'
  := by
  cases r with
  | storing w => exact ⟨h.1, Or.inr (Or.inr hset)⟩
  | stored w => exact ⟨h.1, h.2.1, Or.inr (Or.inr hset)⟩
  | honouring => exact h
  | resetting pending => exact h
  | _ => cases hr

omit [DecidableEq ω] in
theorem Notifier.step_wanting (slot : WakerSlot ω) :
  ((Notifier.wanting : Notifier ω).step slot).1.waking = true
  := by
  rw [Notifier.step]
  split <;> rfl

/-- A step of `wake` keeps the promise. -/
theorem Inv.notifierStep {i : ι} (h : Inv s) :
  Inv { s with
    slot := ((s.notifier i).step s.slot).1
    notifier := Function.update s.notifier i ((s.notifier i).step s.slot).2.1
    due := s.due || (decide (s.notifier i = .wanting) && s.slot.registering)
    woken := s.hears ((s.notifier i).step s.slot).2.2 }
  := by
  refine ⟨h.exclusive.notify i, ?_, h.last, ?_⟩
  · intro w hw
    obtain ⟨hlast, hdue⟩ := h.entering w hw
    have hregistering : s.slot.registering = false := by
      rw [h.exclusive.registrar, show s.registrar = .entering w from hw]
      rfl
    refine ⟨hlast, ?_⟩
    show (s.due || (decide (s.notifier i = .wanting) && s.slot.registering)) = false
    rw [hdue, hregistering, Bool.and_false]
    rfl
  · intro w hw hentering
    show Promise _ _ _ w (s.hears _) _
    rw [System.hears_eq (s := s) hw]
    have hpromise := Promise.notify h.exclusive (h.promise w hw hentering) i
    by_cases hset : s.notifier i = .wanting ∧ s.slot.registering = true
    · apply hpromise.set
      · rw [← h.exclusive.registrar]
        exact hset.2
      · rw [hset.1]
        apply Notifier.step_wanting
    · apply hpromise.mono
      intro hdue
      left
      show (s.due || (decide (s.notifier i = .wanting) && s.slot.registering)) = false
      rw [hdue, Bool.false_or, Bool.eq_false_iff]
      intro hboth
      rw [Bool.and_eq_true, decide_eq_true_eq] at hboth
      apply hset hboth

/-- Every step keeps the promise. -/
theorem Inv.step (h : Inv s) (hstep : Step s e s') :
  Inv s'
  := by
  cases hstep with
  | @register w hout =>
    have hexclusive := h.exclusive
    rw [hout] at hexclusive
    refine ⟨hexclusive.enter w, ?_, ?_, ?_⟩
    · rintro v ⟨⟩
      exact ⟨rfl, rfl⟩
    · intro _
      exact ⟨w, rfl⟩
    · intro v _ hentering
      exact (hentering w rfl).elim
  | registrar hr => exact h.registrarStep hr
  | wake hi => exact h.wake hi
  | notifier _ => exact h.notifierStep

omit [DecidableEq ω] in
theorem Registrar.holds_of_accesses {r : Registrar ω} (h : r.accesses = true) :
  r.holds = true
  := by
  cases r with
  | storing _ => rfl
  | honouring => rfl
  | _ => cases h

omit [DecidableEq ω] in
theorem Notifier.holds_of_accesses {n : Notifier ω} (h : n.accesses = true) :
  n.holds = true
  := by
  cases n with
  | taking => rfl
  | _ => cases h

/-- In every interleaving at most one thread is about to access the cell.  When all calls are
over, a waker that was registered last was woken since its registration began if a wake has
begun after it, or has set its bit while it held the cell. -/
theorem slot_excludes_and_delivers {t : List (Event ι ω)} (h : Trail Step System.start t s) :
  (∀ i, s.registrar.accesses = true → (s.notifier i).accesses = false) ∧
  (∀ i j, (s.notifier i).accesses = true → (s.notifier j).accesses = true → i = j) ∧
  (s.registrar = .out → (∀ i, s.notifier i = .out) → ∀ w, s.last = some w → s.due = true →
    s.woken = true)
  := by
  have hinv : Inv s := by
    apply h.invariant (fun _ s => Inv s) inv_start
    intro _ s₁ e s₂ _ hinv hstep
    exact hinv.step hstep
  refine ⟨?_, ?_, ?_⟩
  · intro i hr
    rw [Bool.eq_false_iff]
    intro hi
    have hnot := hinv.exclusive.not_holds (Registrar.holds_of_accesses hr) i
    rw [Notifier.holds_of_accesses hi] at hnot
    cases hnot
  · intro i j hi hj
    apply hinv.exclusive.alone i j
    · apply Notifier.holds_of_accesses hi
    · apply Notifier.holds_of_accesses hj
  · intro hout hnone w hw hdue
    have hpromise := hinv.promise w hw (by rw [hout]; rintro v ⟨⟩)
    rw [hout] at hpromise
    apply hpromise.delivered hnone
    rw [hdue]
    rintro ⟨⟩

/-- A wake that sets its bit while the waker is being stored is left to the registrar. -/
theorem slot_excludes_and_delivers_deferred :
  ∃ (t : List (Event Unit ℕ)) (s : System Unit ℕ),
    Trail Step System.start t s ∧ s.last = some 7 ∧ s.due = true ∧ s.woken = true
  := by
  have hregister : Trail Step (System.start : System Unit ℕ) _ _ :=
    Trail.nil.snoc (Step.register (w := 7) rfl)
  have hwake := hregister.snoc (Step.wake (i := ()) rfl)
  have henter := hwake.snoc (Step.registrar (by decide))
  have hset := henter.snoc (Step.notifier (i := ()) (by decide))
  have hstore := hset.snoc (Step.registrar (by decide))
  have hfound := hstore.snoc (Step.registrar (by decide))
  have htake := hfound.snoc (Step.registrar (by decide))
  have hreset := htake.snoc (Step.registrar (by decide))
  have hdeliver := hreset.snoc (Step.registrar (by decide))
  exact ⟨_, _, hdeliver, rfl, rfl,
    (slot_excludes_and_delivers hdeliver).2.2 rfl (fun _ => rfl) 7 rfl rfl⟩

end Grommet.WakerSlot
