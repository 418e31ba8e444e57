import Grommet.Runtime.Doorbell.Model

/-!
# The doorbell does what it is for

The waker that a doorbell names is the one in the cell of its slot, or the one that is being
stored, as long as the bit that wants it is clear: a ring takes the waker when it sets the bit.
From then on the waker is carried by the call that is going to wake it, which is the call of
`register` if that call held the cell when the bit was set.
-/

namespace Grommet

namespace WakerSlot

variable {ι ω : Type} {slot slot' : WakerSlot ω} {r : Registrar ω} {n : ι → Notifier ω}

/-- The waker that a call of `register` is storing. -/
def Registrar.storedWaker : Registrar ω → Option ω
  | storing waker | stored waker => some waker
  | _ => none

/-- The waker that a call of `register` is going to wake. -/
def Registrar.carrying (slot : WakerSlot ω) : Registrar ω → Option ω
  | storing waker | stored waker => if slot.waking then some waker else none
  | honouring => slot.cell
  | resetting pending => pending
  | delivering waker => some waker
  | _ => none

/-- The waker that a call of `wake` is going to wake. -/
def Notifier.carrying (slot : WakerSlot ω) : Notifier ω → Option ω
  | taking => slot.cell
  | releasing taken => taken
  | delivering waker => some waker
  | _ => none

/-- The waker that a slot names. -/
def named (slot : WakerSlot ω) (r : Registrar ω) : Option ω :=
  if slot.waking then none else if slot.registering then r.storedWaker else slot.cell

/-- The cell holds what was stored, and nothing once it was taken out again. -/
structure Filled (slot : WakerSlot ω) (r : Registrar ω) : Prop where
  stored : ∀ w, r = .stored w → slot.cell = some w
  resetting : ∀ pending, r = .resetting pending → slot.cell = none

theorem Filled.register (h : Filled slot r) :
  Filled (r.step slot).1 (r.step slot).2.1
  := by
  cases r with
  | out => exact h
  | entering w =>
    rw [Registrar.step]
    split
    · exact ⟨by rintro v ⟨⟩, by rintro v ⟨⟩⟩
    · exact ⟨by rintro v ⟨⟩, by rintro v ⟨⟩⟩
  | storing w =>
    refine ⟨?_, by rintro v ⟨⟩⟩
    rintro v ⟨⟩
    rfl
  | stored w =>
    rw [Registrar.step]
    split
    · exact ⟨by rintro v ⟨⟩, by rintro v ⟨⟩⟩
    · exact ⟨by rintro v ⟨⟩, by rintro v ⟨⟩⟩
  | honouring => exact ⟨by rintro v ⟨⟩, fun _ _ => rfl⟩
  | resetting pending =>
    cases pending with
    | none => exact ⟨by rintro v ⟨⟩, by rintro v ⟨⟩⟩
    | some w => exact ⟨by rintro v ⟨⟩, by rintro v ⟨⟩⟩
  | delivering w => exact ⟨by rintro v ⟨⟩, by rintro v ⟨⟩⟩

theorem Filled.of_not_holds (h : r.holds = false) :
  Filled slot r
  := by
  refine ⟨?_, ?_⟩
  · rintro w rfl
    cases h
  · rintro pending rfl
    cases h

/-- A step of `wake` leaves the cell of a registration alone. -/
theorem Filled.notify (h : Filled slot r) (hex : Exclusive slot r n) (i : ι) :
  Filled ((n i).step slot).1 r
  := by
  cases hr : r.holds with
  | false => exact .of_not_holds hr
  | true =>
    have hcell : ((n i).step slot).1.cell = slot.cell := Notifier.step_cell (hex.not_holds hr i)
    refine ⟨fun w hw => ?_, fun pending hp => ?_⟩
    · rw [hcell, h.stored w hw]
    · rw [hcell, h.resetting pending hp]

theorem Notifier.carrying_congr {x : Notifier ω} (h : slot'.cell = slot.cell ∨ x.holds = false) :
  x.carrying slot' = x.carrying slot
  := by
  cases x with
  | taking =>
    rcases h with h | h
    · exact h
    · cases h
  | _ => rfl

theorem Registrar.carrying_congr (h : r.holds = false) :
  r.carrying slot' = r.carrying slot
  := by
  cases r with
  | storing => cases h
  | stored => cases h
  | honouring => cases h
  | resetting => cases h
  | _ => rfl

end WakerSlot

namespace Doorbell

open WakerSlot (Registrar Notifier Exclusive Filled)

variable {ι ω : Type}

/-- The call of `register` that is under way. -/
def Receiver.registrar : Receiver ω → Registrar ω
  | registering call => call
  | _ => .out

/-- The call of `take` that is under way. -/
def Receiver.call : Receiver ω → Notifier ω
  | dropping call => call
  | _ => .out

/-- The call of `wake` that is under way. -/
def Ringer.call : Ringer ω → Notifier ω
  | waking call => call
  | _ => .out

/-- A registration has named its waker when it has taken the cell, and a close has dropped the
waker when it has set its bit. -/
def Receiver.toBell : Receiver ω → Bell.Receiver ω
  | idle => .idle
  | registering (.entering waker) => .registering waker
  | registering _ => .registered
  | closing => .closing
  | dropping .wanting => .dropping
  | dropping _ => .dropped

/-- A ring has struck when it has set its bit. -/
def Ringer.toBell : Ringer ω → Bell.Ringer
  | idle => .idle
  | looking => .looking
  | waking .wanting => .striking
  | waking _ => .struck
  | hushed => .hushed

namespace System

/-- The calls that take a waker out: the one of the receiver and the ones of the notifiers. -/
def calls (s : System ι ω) (j : Option ι) : Notifier ω :=
  j.elim s.receiver.call fun i => (s.ringer i).call

/-- What the doorbell stands for. -/
def toBell (s : System ι ω) : Bell ι ω where
  owner := s.bell.owner.named s.receiver.registrar
  closed := s.bell.closed
  receiver := s.receiver.toBell
  ringer := fun i => (s.ringer i).toBell
  carried := fun j => j.elim (s.receiver.registrar.carrying s.bell.owner) fun i =>
    (s.ringer i).call.carrying s.bell.owner

/-- The calls exclude each other, and the cell holds what was stored. -/
structure Inv (s : System ι ω) : Prop where
  exclusive : Exclusive s.bell.owner s.receiver.registrar s.calls
  filled : Filled s.bell.owner s.receiver.registrar

variable {s : System ι ω} {i : ι}

theorem inv_start :
  Inv (start : System ι ω)
  := by
  refine ⟨?_, ⟨by rintro w ⟨⟩, by rintro w ⟨⟩⟩⟩
  have hcalls : (start : System ι ω).calls = fun _ => .out := by
    funext j
    cases j <;> rfl
  rw [hcalls]
  exact WakerSlot.exclusive_new

theorem calls_receiver {bell : Doorbell ω} {r : Receiver ω} (h : r.call = s.receiver.call) :
  calls { s with bell := bell, receiver := r } = s.calls
  := by
  funext j
  cases j with
  | none => exact h
  | some i => rfl

variable [DecidableEq ι]

theorem calls_drop {bell : Doorbell ω} {r : Receiver ω} :
  calls { s with bell := bell, receiver := r } = Function.update s.calls none r.call
  := by
  funext j
  cases j with
  | none =>
    rw [Function.update_self]
    rfl
  | some i =>
    rw [Function.update_of_ne (Option.some_ne_none i)]
    rfl

theorem calls_ringer {bell : Doorbell ω} {x : Ringer ω} :
  calls { s with bell := bell, ringer := Function.update s.ringer i x } =
    Function.update s.calls (some i) x.call
  := by
  funext j
  cases j with
  | none =>
    rw [Function.update_of_ne (Option.some_ne_none i).symm]
    rfl
  | some k =>
    by_cases hk : k = i
    · subst hk
      rw [Function.update_self]
      simp [calls]
    · rw [Function.update_of_ne (by simpa using hk)]
      simp [calls, hk]

/-- A call that takes nothing may be replaced by one that takes nothing. -/
theorem calls_eq {x : Ringer ω} (h : x.call = (s.ringer i).call) :
  calls { s with ringer := Function.update s.ringer i x } = s.calls
  := by
  have hcalls := @calls_ringer _ _ s i _ s.bell x
  rw [h] at hcalls
  exact hcalls.trans (Function.update_eq_self (some i) s.calls)

end System

variable [DecidableEq ι] {s s' : System ι ω} {e : Bell.Event ι ω} {i : ι}

/-- Every step keeps the calls apart. -/
theorem System.Inv.step (h : s.Inv) (hstep : Step s e s') :
  s'.Inv
  := by
  obtain ⟨hex, hfilled⟩ := h
  cases hstep with
  | @register w hr =>
    rw [hr] at hex
    refine ⟨?_, .of_not_holds rfl⟩
    rw [calls_receiver (by rw [hr]; rfl)]
    exact Exclusive.enter hex w
  | @registrar call hr hout =>
    rw [hr] at hex hfilled
    refine ⟨?_, hfilled.register⟩
    have hcalls := @calls_receiver _ _ s
      { s.bell with owner := (call.step s.bell.owner).1 }
      (.registering (call.step s.bell.owner).2.1) (by rw [hr]; rfl)
    rw [setOwner, hcalls]
    exact Exclusive.register hex
  | registered hr =>
    rw [hr] at hex
    refine ⟨?_, .of_not_holds rfl⟩
    rw [calls_receiver (by rw [hr]; rfl)]
    exact hex
  | close hr =>
    rw [hr] at hex
    refine ⟨?_, .of_not_holds rfl⟩
    rw [calls_receiver (by rw [hr]; rfl)]
    exact hex
  | shut hr =>
    have hcall : s.calls none = .out := by
      rw [calls, hr]
      rfl
    rw [hr] at hex
    refine ⟨?_, .of_not_holds rfl⟩
    rw [calls_drop]
    exact Exclusive.begin hex hcall
  | @drop call hr hreturned =>
    have hcall : s.calls none = call := by
      rw [calls, hr]
      rfl
    rw [hr] at hex
    refine ⟨?_, .of_not_holds rfl⟩
    have hnotify := Exclusive.notify hex none
    rw [hcall] at hnotify
    have hcalls := @calls_drop _ _ s _
      { s.bell with owner := (call.step s.bell.owner).1 }
      (.dropping (call.step s.bell.owner).2.1)
    rw [setOwner, hcalls]
    exact hnotify
  | @closed call hr hreturned =>
    have hcall : s.calls none = call := by
      rw [calls, hr]
      rfl
    rw [hr] at hex
    refine ⟨?_, .of_not_holds rfl⟩
    rw [calls_drop]
    apply Exclusive.pass hex _ rfl rfl rfl (Or.inl rfl)
    rw [hcall]
    cases call with
    | taking => cases hreturned
    | releasing => cases hreturned
    | _ => rfl
  | @ring i hi =>
    refine ⟨?_, hfilled⟩
    rw [calls_eq (by rw [hi]; rfl)]
    exact hex
  | @look i hi =>
    have hcall : s.calls (some i) = .out := by
      rw [calls, Option.elim_some, hi]
      rfl
    refine ⟨?_, hfilled⟩
    cases s.bell.closed with
    | true =>
      rw [calls_eq (by rw [hi]; rfl)]
      exact hex
    | false =>
      have hcalls := @calls_ringer _ _ s i _ s.bell (.waking .wanting)
      refine hcalls ▸ ?_
      exact Exclusive.begin hex hcall
  | @notifier i call hi hout =>
    have hcall : s.calls (some i) = call := by
      rw [calls, Option.elim_some, hi]
      rfl
    have hnotify := Exclusive.notify hex (some i)
    have hfill := hfilled.notify hex (some i)
    rw [hcall] at hnotify hfill
    refine ⟨?_, hfill⟩
    have hcalls := @calls_ringer _ _ s i _
      { s.bell with owner := (call.step s.bell.owner).1 } (.waking (call.step s.bell.owner).2.1)
    rw [setOwner, hcalls]
    exact hnotify
  | @rang i hi =>
    refine ⟨?_, hfilled⟩
    rw [calls_eq (by rw [hi]; rfl)]
    exact hex
  | @hush i hi =>
    refine ⟨?_, hfilled⟩
    rw [calls_eq (by rw [hi]; rfl)]
    exact hex

/-! ### The simulation -/

theorem step_of_eq {b b₁ b₂ : Bell ι ω} (h : Bell.Step b e b₁) (heq : b₂ = b₁) :
  Bell.Step b e b₂
  := heq ▸ h

theorem toBell_ringer (ringer : ι → Ringer ω) (x : Ringer ω) :
  (fun k => (Function.update ringer i x k).toBell) =
    Function.update (fun k => (ringer k).toBell) i x.toBell
  := by
  funext k
  by_cases hk : k = i
  · subst hk
    simp
  · simp [hk]

theorem toBell_ringer_eq {ringer : ι → Ringer ω} {x : Ringer ω} (h : x.toBell = (ringer i).toBell) :
  (fun k => (Function.update ringer i x k).toBell) = fun k => (ringer k).toBell
  := by
  rw [toBell_ringer, h]
  exact Function.update_eq_self i fun k => (ringer k).toBell

/-- What is carried after a notifier moved. -/
theorem carried_ringer {slot slot' : WakerSlot ω} {first first' : Option ω} {ringer : ι → Ringer ω}
    (hfirst : first' = first)
    (h : ∀ k ≠ i, (ringer k).call.carrying slot' = (ringer k).call.carrying slot) (x : Ringer ω) :
  (fun j : Option ι => j.elim first' fun k => (Function.update ringer i x k).call.carrying slot') =
    Function.update (fun j : Option ι => j.elim first fun k => (ringer k).call.carrying slot)
      (some i) (x.call.carrying slot')
  := by
  funext j
  cases j with
  | none => simp [hfirst]
  | some k =>
    by_cases hk : k = i
    · subst hk
      simp
    · simp [hk, h k hk]

omit [DecidableEq ι] in
/-- A ring that holds the cell has struck. -/
theorem Ringer.struck_of_holds {x : Ringer ω} (h : x.call.holds = true) :
  x.toBell = .struck
  := by
  cases x with
  | waking call =>
    cases call with
    | wanting => cases h
    | _ => rfl
  | _ => cases h

/-- What the notifiers carry when the slot changes. -/
theorem carried_registrar {slot slot' : WakerSlot ω} {first : Option ω} {ringer : ι → Ringer ω}
    (h : ∀ k, (ringer k).call.carrying slot' = (ringer k).call.carrying slot) (carried : Option ω) :
  (fun j : Option ι => j.elim carried fun k => (ringer k).call.carrying slot') =
    Function.update (fun j : Option ι => j.elim first fun k => (ringer k).call.carrying slot)
      none carried
  := by
  funext j
  cases j with
  | none => simp
  | some k => simp [h k]

/-- A step of `register` is one of a bell. -/
theorem System.Inv.simulate_registrar (h : s.Inv) {call : Registrar ω}
    (hr : s.receiver = .registering call) (hout : call ≠ .out) :
  Bell.Step s.toBell (told (call.step s.bell.owner).2.2)
    (System.toBell { s.setOwner (call.step s.bell.owner).1 with
      receiver := .registering (call.step s.bell.owner).2.1 })
  := by
  obtain ⟨⟨slot, closed⟩, receiver, ringer⟩ := s
  obtain ⟨hex, hfilled⟩ := h
  simp only at hr
  subst hr
  simp only [Receiver.registrar] at hex hfilled
  have hcarried : ∀ slot' : WakerSlot ω, call.holds = true ∨ slot'.cell = slot.cell →
      ∀ k, (ringer k).call.carrying slot' = (ringer k).call.carrying slot := by
    intro slot' hslot k
    apply Notifier.carrying_congr
    rcases hslot with hholds | hcell
    · exact Or.inr (hex.not_holds hholds (some k))
    · exact Or.inl hcell
  -- most steps change nothing that a bell shows
  have hpause : ∀ (slot' : WakerSlot ω) (call' : Registrar ω),
      call.holds = true ∨ slot'.cell = slot.cell →
      slot'.named call' = slot.named call →
      (Receiver.registering call').toBell = (Receiver.registering call).toBell →
      call'.carrying slot' = call.carrying slot →
      Bell.Step (System.toBell ⟨⟨slot, closed⟩, .registering call, ringer⟩) .other
        (System.toBell ⟨⟨slot', closed⟩, .registering call', ringer⟩) := by
    intro slot' call' hslot hnamed hreceiver hcarrying
    apply step_of_eq .pause
    refine Bell.ext hnamed rfl hreceiver rfl ?_
    funext j
    cases j with
    | none => exact hcarrying
    | some k => exact hcarried slot' hslot k
  cases call with
  | out => exact (hout rfl).elim
  | entering w =>
    have hregistering : slot.registering = false := hex.registrar
    cases hwaking : slot.waking with
    | false =>
      simp only [Registrar.step, WakerSlot.waiting, hregistering, hwaking, Bool.not_false,
        Bool.and_self, if_true]
      apply step_of_eq (.name rfl)
      refine Bell.ext ?_ rfl rfl rfl ?_
      · rfl
      · funext j
        cases j with
        | none => rfl
        | some k => exact hcarried _ (Or.inr rfl) k
    | true =>
      obtain ⟨j, hj⟩ := hex.held hregistering hwaking
      simp only [Registrar.step, WakerSlot.waiting, hregistering, hwaking, Bool.not_false,
        Bool.not_true, Bool.and_false, Bool.false_eq_true, if_false]
      cases j with
      | none => cases hj
      | some i =>
        apply step_of_eq (.bounce rfl (Ringer.struck_of_holds hj))
        refine Bell.ext ?_ rfl rfl rfl ?_
        · show slot.named (.delivering w) = slot.named (.entering w)
          simp [WakerSlot.named, hwaking]
        · exact carried_registrar (hcarried _ (Or.inr rfl)) _
  | storing w =>
    have hregistering : slot.registering = true := hex.registrar
    apply hpause { slot with cell := some w } (.stored w) (Or.inl rfl)
    · simp [WakerSlot.named, hregistering, Registrar.storedWaker]
    · rfl
    · rfl
  | stored w =>
    have hregistering : slot.registering = true := hex.registrar
    have hcell := hfilled.stored w rfl
    cases hwaking : slot.waking with
    | true =>
      simp only [Registrar.step, hwaking, if_true]
      apply hpause slot .honouring (Or.inl rfl)
      · simp [WakerSlot.named, hwaking]
      · rfl
      · simp [Registrar.carrying, hwaking, hcell]
    | false =>
      simp only [Registrar.step, hwaking, Bool.false_eq_true, if_false]
      apply hpause ⟨false, false, slot.cell⟩ .out (Or.inl rfl)
      · simp [WakerSlot.named, hwaking, hregistering, hcell, Registrar.storedWaker]
      · rfl
      · simp [Registrar.carrying, hwaking]
  | honouring =>
    have hwaking : slot.waking = true := hex.honours rfl
    apply hpause { slot with cell := none } (.resetting slot.cell) (Or.inl rfl)
    · simp [WakerSlot.named, hwaking]
    · rfl
    · rfl
  | resetting pending =>
    have hwaking : slot.waking = true := hex.honours rfl
    have hcell := hfilled.resetting pending rfl
    apply hpause { slot with registering := false, waking := false } (.deliver pending) (Or.inl rfl)
    · simp [WakerSlot.named, hwaking, hcell]
    · cases pending <;> rfl
    · cases pending <;> rfl
  | delivering w =>
    have hregistering : slot.registering = false := hex.registrar
    apply step_of_eq (@Bell.Step.wake _ _ _ _ none w rfl)
    refine Bell.ext ?_ rfl rfl rfl ?_
    · show slot.named .out = slot.named (.delivering w)
      simp [WakerSlot.named, hregistering]
    · exact carried_registrar (hcarried _ (Or.inr rfl)) _

/-- Who takes the named waker carries it. -/
theorem elim_carried {f : Option ι → Option ω} {j : Option ι} (h : f j = none) (owner : Option ω) :
  (owner.elim f fun w => Function.update f j (some w)) = Function.update f j owner
  := by
  cases owner with
  | none => exact (Function.update_eq_self_iff.mpr h.symm).symm
  | some w => rfl

/-- A bit that is set takes the named waker. -/
theorem System.Inv.simulate_wanting (h : s.Inv) (hi : s.ringer i = .waking .wanting) :
  Bell.Step s.toBell (told (Notifier.wanting.step s.bell.owner).2.2)
    (System.toBell { s.setOwner (Notifier.wanting.step s.bell.owner).1 with
      ringer := Function.update s.ringer i (.waking (Notifier.wanting.step s.bell.owner).2.1) })
  := by
  obtain ⟨⟨slot, closed⟩, receiver, ringer⟩ := s
  obtain ⟨hex, hfilled⟩ := h
  simp only at hi hex hfilled
  have hstriking : (ringer i).toBell = .striking := by
    rw [hi]
    rfl
  have hnone : (ringer i).call.carrying slot = none := by
    rw [hi]
    rfl
  cases hwaking : slot.waking with
  | true =>
    -- another ring is under way, and it takes what there is
    have hslot : { slot with waking := true } = slot := by rw [← hwaking]
    have howner : slot.named receiver.registrar = none := by simp [WakerSlot.named, hwaking]
    simp only [Notifier.step, WakerSlot.waiting, hwaking, Bool.not_true, Bool.and_false,
      Bool.false_eq_true, if_false, hslot]
    apply step_of_eq (.strike hstriking (Or.inl rfl) fun _ => hnone)
    refine Bell.ext howner rfl rfl (toBell_ringer ringer _) ?_
    refine (carried_ringer rfl (fun _ _ => rfl) (.waking .out)).trans ?_
    rw [elim_carried hnone]
    exact congrArg _ howner.symm
  | false =>
    cases hregistering : slot.registering with
    | false =>
      have hregistrar : receiver.registrar.holds = false := by
        rw [← hex.registrar, hregistering]
      have howner : slot.named receiver.registrar = slot.cell := by
        simp [WakerSlot.named, hwaking, hregistering]
      simp only [Notifier.step, WakerSlot.waiting, hregistering, hwaking, Bool.not_false,
        Bool.and_self, if_true]
      apply step_of_eq (.strike hstriking (Or.inl rfl) fun _ => hnone)
      refine Bell.ext rfl rfl rfl (toBell_ringer ringer _) ?_
      have hfirst := @Registrar.carrying_congr _ slot ⟨false, true, slot.cell⟩ _ hregistrar
      refine (carried_ringer hfirst (fun k _ => Notifier.carrying_congr (Or.inl rfl))
        (.waking .taking)).trans ?_
      rw [elim_carried hnone]
      exact congrArg _ howner.symm
    | true =>
      -- the receiver holds the cell, and finds the bit when it gives the cell back
      have hstores : ∃ w, slot.named receiver.registrar = some w ∧ receiver.toBell = .registered ∧
          ∀ slot' : WakerSlot ω, receiver.registrar.carrying slot' =
            if slot'.waking then some w else none := by
        have hholds := hex.registrar.symm.trans hregistering
        have hhonours : receiver.registrar.honours ≠ true := fun hhonours => by
          rw [hex.honours hhonours] at hwaking
          cases hwaking
        cases receiver with
        | registering call =>
          cases call with
          | storing w => exact ⟨w, by simp [WakerSlot.named, hwaking, hregistering,
              Receiver.registrar, Registrar.storedWaker], rfl, fun _ => rfl⟩
          | stored w => exact ⟨w, by simp [WakerSlot.named, hwaking, hregistering,
              Receiver.registrar, Registrar.storedWaker], rfl, fun _ => rfl⟩
          | honouring => exact (hhonours rfl).elim
          | resetting => exact (hhonours rfl).elim
          | _ => cases hholds
        | _ => cases hholds
      obtain ⟨w, howner, hreceiver, hcarrying⟩ := hstores
      have hfree : receiver.registrar.carrying slot = none := by simp [hcarrying, hwaking]
      simp only [Notifier.step, WakerSlot.waiting, hregistering, hwaking, Bool.not_true,
        Bool.and_true, Bool.not_false, Bool.false_eq_true, if_false]
      apply step_of_eq (.strike (j := none) hstriking (Or.inr ⟨rfl, hreceiver⟩) fun _ => hfree)
      refine Bell.ext rfl rfl rfl (toBell_ringer ringer _) ?_
      rw [elim_carried hfree]
      refine Eq.trans ?_ (congrArg (Function.update _ none) howner.symm)
      funext j
      cases j with
      | none =>
        rw [Function.update_self]
        exact hcarrying _
      | some k =>
        rw [Function.update_of_ne (Option.some_ne_none k)]
        show (Function.update ringer i _ k).call.carrying _ = (ringer k).call.carrying slot
        by_cases hk : k = i
        · subst hk
          rw [Function.update_self]
          exact hnone.symm
        · rw [Function.update_of_ne hk]
          exact Notifier.carrying_congr (Or.inl rfl)

/-- A call that holds the cell changes nothing that a bell shows until it wakes a waker. -/
theorem System.Inv.simulate_holding (h : s.Inv) {call : Notifier ω} (slot' : WakerSlot ω)
    (call' : Notifier ω) (hi : s.ringer i = .waking call) (hholds : call.holds = true)
    (hnamed : slot'.named s.receiver.registrar = s.bell.owner.named s.receiver.registrar)
    (hstruck : (Ringer.waking call').toBell = .struck)
    (hcarrying : call'.carrying slot' = call.carrying s.bell.owner) :
  Bell.Step s.toBell .other (System.toBell { s.setOwner slot' with
    ringer := Function.update s.ringer i (.waking call') })
  := by
  have hcall : s.calls (some i) = call := by
    rw [System.calls, Option.elim_some, hi]
    rfl
  have hregistrar : s.receiver.registrar.holds = false := by
    rw [← h.exclusive.registrar]
    exact (h.exclusive.notifier (some i) (by rw [hcall, hholds])).1
  apply step_of_eq .pause
  refine Bell.ext hnamed rfl rfl ?_ ?_
  · apply toBell_ringer_eq
    rw [hstruck, hi, Ringer.struck_of_holds (x := .waking call) hholds]
  · have hothers : ∀ k ≠ i,
        (s.ringer k).call.carrying slot' = (s.ringer k).call.carrying s.bell.owner := by
      intro k hk
      apply Notifier.carrying_congr
      refine Or.inr (Bool.eq_false_iff.mpr fun hk' => hk ?_)
      have hki := h.exclusive.alone (some k) (some i) hk' (by rw [hcall, hholds])
      exact Option.some_inj.mp hki
    have hfirst := @Registrar.carrying_congr _ s.bell.owner slot' _ hregistrar
    refine (carried_ringer hfirst hothers (.waking call')).trans ?_
    apply Function.update_eq_self_iff.mpr
    rw [Option.elim_some, hi]
    exact hcarrying

/-- A step of `wake` is one of a bell. -/
theorem System.Inv.simulate_notifier (h : s.Inv) {call : Notifier ω}
    (hi : s.ringer i = .waking call) (hout : call ≠ .out) :
  Bell.Step s.toBell (told (call.step s.bell.owner).2.2)
    (System.toBell { s.setOwner (call.step s.bell.owner).1 with
      ringer := Function.update s.ringer i (.waking (call.step s.bell.owner).2.1) })
  := by
  have hcall : s.calls (some i) = call := by
    rw [System.calls, Option.elim_some, hi]
    rfl
  have hheld : call.holds = true →
      s.bell.owner.registering = false ∧ s.bell.owner.waking = true := by
    intro hholds
    apply h.exclusive.notifier (some i)
    rw [hcall, hholds]
  cases call with
  | out => exact (hout rfl).elim
  | wanting => exact h.simulate_wanting hi
  | taking =>
    obtain ⟨-, hwaking⟩ := hheld rfl
    apply h.simulate_holding { s.bell.owner with cell := none } (.releasing s.bell.owner.cell) hi rfl
    · simp [WakerSlot.named, hwaking]
    · rfl
    · rfl
  | releasing taken =>
    obtain ⟨hregistering, hwaking⟩ := hheld rfl
    have hempty := h.exclusive.emptied (some i) taken hcall
    apply h.simulate_holding { s.bell.owner with waking := false } (.deliver taken) hi rfl
    · simp [WakerSlot.named, hregistering, hwaking, hempty]
    · cases taken <;> rfl
    · cases taken <;> rfl
  | delivering w =>
    have hcarried : s.toBell.carried (some i) = some w := by
      show (s.ringer i).call.carrying s.bell.owner = some w
      rw [hi]
      rfl
    apply step_of_eq (.wake hcarried)
    refine Bell.ext rfl rfl rfl ?_ ?_
    · apply toBell_ringer_eq
      rw [hi]
      rfl
    · exact carried_ringer rfl (fun _ _ => rfl) _

/-- A step of `close` is one of a bell. -/
theorem System.Inv.simulate_drop (h : s.Inv) {call : Notifier ω} (hr : s.receiver = .dropping call)
    (hreturned : returned call = false) :
  Bell.Step s.toBell .other (System.toBell { s.setOwner (call.step s.bell.owner).1 with
    receiver := .dropping (call.step s.bell.owner).2.1 })
  := by
  obtain ⟨⟨slot, closed⟩, receiver, ringer⟩ := s
  obtain ⟨hex, -⟩ := h
  simp only at hr
  subst hr
  simp only at hex
  have hregistering : slot.registering = false := hex.registrar
  have hcarried : ∀ slot' : WakerSlot ω, call.holds = true ∨ slot'.cell = slot.cell →
      (fun j : Option ι => j.elim none fun k => (ringer k).call.carrying slot') =
        fun j : Option ι => j.elim none fun k => (ringer k).call.carrying slot := by
    intro slot' hslot
    funext j
    cases j with
    | none => rfl
    | some k =>
      apply Notifier.carrying_congr
      rcases hslot with hholds | hcell
      · refine Or.inr (Bool.eq_false_iff.mpr fun hk => ?_)
        cases hex.alone (some k) none hk hholds
      · exact Or.inl hcell
  cases call with
  | out => cases hreturned
  | delivering => cases hreturned
  | wanting =>
    apply step_of_eq (.drop rfl)
    cases hwaking : slot.waking with
    | false =>
      simp only [Notifier.step, WakerSlot.waiting, hregistering, hwaking, Bool.not_false,
        Bool.and_self, if_true]
      exact Bell.ext rfl rfl rfl rfl (hcarried _ (Or.inr rfl))
    | true =>
      simp only [Notifier.step, WakerSlot.waiting, hregistering, hwaking, Bool.not_false,
        Bool.not_true, Bool.and_false, Bool.false_eq_true, if_false]
      exact Bell.ext rfl rfl rfl rfl (hcarried _ (Or.inr rfl))
  | taking =>
    obtain ⟨-, hwaking⟩ := hex.notifier none rfl
    apply step_of_eq .pause
    refine Bell.ext ?_ rfl rfl rfl (hcarried _ (Or.inl rfl))
    show WakerSlot.named { slot with cell := none } .out = slot.named .out
    simp [WakerSlot.named, hwaking]
  | releasing taken =>
    obtain ⟨-, hwaking⟩ := hex.notifier none rfl
    have hempty := hex.emptied none taken rfl
    apply step_of_eq .pause
    refine Bell.ext ?_ rfl ?_ rfl (hcarried _ (Or.inl rfl))
    · show WakerSlot.named { slot with waking := false } .out = slot.named .out
      simp [WakerSlot.named, hregistering, hwaking, hempty]
    · cases taken <;> rfl

/-- A ring that moves without touching the slot. -/
theorem toBell_move {x y : Ringer ω} (hi : s.ringer i = x)
    (hcarrying : y.call.carrying s.bell.owner = x.call.carrying s.bell.owner) :
  System.toBell { s with ringer := Function.update s.ringer i y } =
    { s.toBell with ringer := Function.update s.toBell.ringer i y.toBell }
  := by
  refine Bell.ext rfl rfl rfl (toBell_ringer s.ringer y) ?_
  refine (carried_ringer rfl (fun _ _ => rfl) y).trans (Function.update_eq_self_iff.mpr ?_)
  show _ = (s.ringer i).call.carrying s.bell.owner
  rw [hi, hcarrying]

omit [DecidableEq ι] in
/-- A receiver that moves without touching the slot. -/
theorem System.Inv.toBell_turn (h : s.Inv) {x y : Receiver ω} {closed : Bool} (hr : s.receiver = x)
    (hx : x.registrar.holds = false)
    (hcarrying : y.registrar.carrying s.bell.owner = x.registrar.carrying s.bell.owner) :
  System.toBell { s with bell := { s.bell with closed := closed }, receiver := y } =
    { s.toBell with closed := closed, receiver := y.toBell }
  := by
  have hregistering : s.bell.owner.registering = false := by rw [h.exclusive.registrar, hr, hx]
  refine Bell.ext ?_ rfl rfl rfl ?_
  · show s.bell.owner.named y.registrar = s.bell.owner.named s.receiver.registrar
    simp [WakerSlot.named, hregistering]
  · funext j
    cases j with
    | none =>
      show y.registrar.carrying s.bell.owner = s.receiver.registrar.carrying s.bell.owner
      rw [hr, hcarrying]
    | some i => rfl

/-- A step of the doorbell is one of the bell that it stands for. -/
theorem System.Inv.simulate (h : s.Inv) (hstep : Step s e s') :
  Bell.Step s.toBell e s'.toBell
  := by
  have hreceiver : ∀ {x : Receiver ω}, s.receiver = x → s.toBell.receiver = x.toBell :=
    fun hr => congrArg Receiver.toBell hr
  have hringer : ∀ {i : ι} {x : Ringer ω}, s.ringer i = x → s.toBell.ringer i = x.toBell :=
    fun hi => congrArg Ringer.toBell hi
  cases hstep with
  | register hr => exact step_of_eq (.register (hreceiver hr)) (h.toBell_turn hr rfl rfl)
  | registrar hr hout => exact h.simulate_registrar hr hout
  | registered hr =>
    have hfree : s.toBell.carried none = none := by
      show s.receiver.registrar.carrying s.bell.owner = none
      rw [hr]
      rfl
    exact step_of_eq (.registered (hreceiver hr) hfree) (h.toBell_turn hr rfl rfl)
  | close hr => exact step_of_eq (.close (hreceiver hr)) (h.toBell_turn hr rfl rfl)
  | shut hr => exact step_of_eq (.shut (hreceiver hr)) (h.toBell_turn hr rfl rfl)
  | drop hr hreturned => exact h.simulate_drop hr hreturned
  | @closed call hr hreturned =>
    have hdropped : (Receiver.dropping call).toBell = .dropped := by
      cases call with
      | wanting => cases hreturned
      | _ => rfl
    exact step_of_eq (.closed ((hreceiver hr).trans hdropped)) (h.toBell_turn hr rfl rfl)
  | ring hi => exact step_of_eq (.ring (hringer hi)) (toBell_move hi rfl)
  | look hi =>
    have hlook : (if s.bell.closed then .hushed else .waking .wanting : Ringer ω).toBell =
        if s.toBell.closed then .hushed else .striking :=
      apply_ite Ringer.toBell (s.bell.closed = true) _ _
    refine step_of_eq (.look (hringer hi)) ((toBell_move hi ?_).trans (by rw [hlook]))
    cases s.bell.closed <;> rfl
  | notifier hi hout => exact h.simulate_notifier hi hout
  | @rang i hi =>
    have hfree : s.toBell.carried (some i) = none := by
      show (s.ringer i).call.carrying s.bell.owner = none
      rw [hi]
      rfl
    exact step_of_eq (.rang (hringer hi) hfree) (toBell_move hi rfl)
  | hush hi => exact step_of_eq (.hush (hringer hi)) (toBell_move hi rfl)

/-! ### Runs -/

variable {t t' : List (Bell.Event ι ω)}

omit [DecidableEq ι] in
theorem toBell_start :
  (System.start : System ι ω).toBell = Bell.start
  := by
  refine Bell.ext rfl rfl rfl rfl ?_
  funext j
  cases j <;> rfl

theorem System.Inv.trail (h : s.Inv) (htrail : Trail Step s t s') :
  s'.Inv
  := by
  apply htrail.invariant (fun _ s => s.Inv) h
  intro _ _ _ _ _ hs hstep
  exact hs.step hstep

theorem System.Inv.simulate_trail (h : s.Inv) (htrail : Trail Step s t s') :
  Trail Bell.Step s.toBell t s'.toBell
  := by
  apply htrail.invariant (fun t s' => Trail Bell.Step s.toBell t s'.toBell) .nil
  intro _ _ _ _ htrail ih hstep
  exact ih.snoc ((h.trail htrail).simulate hstep)

theorem toBell_trail (h : Trail Step System.start t s) :
  Trail Bell.Step Bell.start t s.toBell
  := toBell_start ▸ System.inv_start.simulate_trail h

/-- No call of the receiver or of a notifier is under way. -/
structure System.Idle (s : System ι ω) : Prop where
  receiver : s.receiver = .idle
  ringer : ∀ i, s.ringer i = .idle

omit [DecidableEq ι] in
theorem System.Idle.toBell_receiver (h : s.Idle) :
  s.toBell.receiver = .idle
  := congrArg Receiver.toBell h.receiver

omit [DecidableEq ι] in
theorem System.Idle.toBell_ringer (h : s.Idle) (i : ι) :
  s.toBell.ringer i = .idle
  := congrArg Ringer.toBell (h.ringer i)

omit [DecidableEq ι] in
/-- When no call is under way the cell holds the named waker. -/
theorem System.Inv.owner_of_idle (h : s.Inv) (hidle : s.Idle) :
  s.toBell.owner = s.bell.owner.cell
  := by
  have hregistering : s.bell.owner.registering = false := by
    rw [h.exclusive.registrar, hidle.receiver]
    rfl
  have hwaking : s.bell.owner.waking = false := by
    rw [Bool.eq_false_iff]
    intro hwaking
    obtain ⟨j, hj⟩ := h.exclusive.held hregistering hwaking
    cases j with
    | none =>
      rw [calls, Option.elim_none, hidle.receiver] at hj
      cases hj
    | some i =>
      rw [calls, Option.elim_some, hidle.ringer] at hj
      cases hj
  show s.bell.owner.named s.receiver.registrar = s.bell.owner.cell
  simp [WakerSlot.named, hregistering, hwaking]

/-- A waker is registered and a notifier rings. -/
theorem trail_rung :
  ∃ s : System Unit ℕ, s.Idle ∧ s.bell = Doorbell.new ∧
    Trail Step System.start ([] ++ .register 7 :: ([.other, .other, .other] ++ .registered ::
      ([] ++ .ring () :: [.other, .other, .other, .other, .woke 7, .rang ()]))) s
  := ⟨_, ⟨rfl, fun _ => rfl⟩, rfl,
    .cons (.register rfl) <| .cons (@Step.registrar _ _ _ _ (.entering 7) rfl nofun) <|
    .cons (@Step.registrar _ _ _ _ (.storing 7) rfl nofun) <|
    .cons (@Step.registrar _ _ _ _ (.stored 7) rfl nofun) <| .cons (.registered rfl) <|
    .cons (.ring rfl) <| .cons (@Step.look _ _ _ _ () rfl) <|
    .cons (@Step.notifier _ _ _ _ () .wanting rfl nofun) <|
    .cons (@Step.notifier _ _ _ _ () .taking rfl nofun) <|
    .cons (@Step.notifier _ _ _ _ () (.releasing (some 7)) rfl nofun) <|
    .cons (@Step.notifier _ _ _ _ () (.delivering 7) rfl nofun) <| .cons (.rang rfl) .nil⟩

/-- A waker is registered and the doorbell is closed. -/
theorem trail_closed :
  ∃ s : System Unit ℕ, s.Idle ∧
    Trail Step System.start ([.register 7, .other, .other, .other, .registered, .close, .other,
      .other, .other, .other] ++ .closed :: []) s
  := ⟨_, ⟨rfl, fun _ => rfl⟩,
    .cons (.register rfl) <| .cons (@Step.registrar _ _ _ _ (.entering 7) rfl nofun) <|
    .cons (@Step.registrar _ _ _ _ (.storing 7) rfl nofun) <|
    .cons (@Step.registrar _ _ _ _ (.stored 7) rfl nofun) <| .cons (.registered rfl) <|
    .cons (.close rfl) <| .cons (.shut rfl) <| .cons (@Step.drop _ _ _ _ .wanting rfl rfl) <|
    .cons (@Step.drop _ _ _ _ .taking rfl rfl) <|
    .cons (@Step.drop _ _ _ _ (.releasing (some 7)) rfl rfl) <|
    .cons (@Step.closed _ _ _ _ (.delivering 7) rfl rfl) .nil⟩

/-- What is seen of a doorbell, access by access, is what is seen of a bell whose calls take
effect in one step each.  Both have the same flag, and when no call is under way the cell holds
the waker that the bell names. -/
theorem refines_bell (h : Trail Step System.start t s) :
  ∃ b, Trail Bell.Step Bell.start t b ∧ b.closed = s.bell.closed ∧
    (s.Idle → b.owner = s.bell.owner.cell)
  := ⟨s.toBell, toBell_trail h, rfl, (System.inv_start.trail h).owner_of_idle⟩

theorem refines_bell_rung :
  ∃ b : Bell Unit ℕ, Trail Bell.Step Bell.start [.register 7, .other, .other, .other, .registered,
    .ring (), .other, .other, .other, .other, .woke 7, .rang ()] b ∧ b.owner = none
  := by
  obtain ⟨s, hidle, hbell, htrail⟩ := trail_rung
  obtain ⟨b, hb, -, howner⟩ := refines_bell htrail
  refine ⟨b, hb, ?_⟩
  rw [howner hidle, hbell]
  rfl

/-- A ring that begins after a registration has returned is not lost: when all calls are over,
the registered waker was woken, unless another one was registered or the doorbell was closed. -/
theorem ring_wakes {t₁ t₂ t₃ t₄ : List (Bell.Event ι ω)} {w : ω}
    (h : Trail Step System.start
      (t₁ ++ .register w :: (t₂ ++ .registered :: (t₃ ++ .ring i :: t₄))) s)
    (hclose : .close ∉ t₁) (hsteady₂ : Bell.Steady t₂) (hsteady₃ : Bell.Steady t₃)
    (hsteady₄ : Bell.Steady t₄) (hidle : s.Idle) :
  .woke w ∈ t₂ ++ t₃ ++ t₄
  := Bell.ring_reaches (toBell_trail h) hclose hsteady₂ hsteady₃ hsteady₄ hidle.toBell_receiver
    hidle.toBell_ringer

theorem ring_wakes_rung :
  (.woke 7 : Bell.Event Unit ℕ) ∈
    [.other, .other, .other] ++ [] ++ [.other, .other, .other, .other, .woke 7, .rang ()]
  := by
  obtain ⟨s, hidle, -, htrail⟩ := trail_rung
  exact ring_wakes htrail (by decide) ⟨by decide, by simp⟩ ⟨by decide, by simp⟩
    ⟨by decide, by simp⟩ hidle

/-- However many notifiers ring, a waker is woken at most as often as it was registered. -/
theorem woken_le_registered [DecidableEq ω] (h : Trail Step System.start t s) (w : ω) :
  t.count (.woke w) ≤ t.count (.register w)
  := Bell.count_woke_le (toBell_trail h) w

theorem woken_le_registered_rung :
  [.register 7, .other, .other, .other, .registered, .ring (), .other, .other, .other, .other,
    .woke 7, .rang ()].count (.woke 7 : Bell.Event Unit ℕ) ≤ 1
  := by
  obtain ⟨s, -, -, htrail⟩ := trail_rung
  exact woken_le_registered htrail 7

/-- Once a call of `close` has returned and no call is under way, nobody is ever woken again,
whatever is registered and rung, and the doorbell keeps no waker that was registered before. -/
theorem silent_of_closed (h : Trail Step System.start (t ++ .closed :: t') s) (hidle : s.Idle) :
  ((∀ v, .register v ∉ t') → s.bell.owner.cell = none) ∧
    ∀ t'' s', Trail Step s t'' s' → ∀ w, .woke w ∉ t''
  := by
  have hbell := toBell_trail h
  have hinv := System.inv_start.trail h
  refine ⟨fun hregister => ?_, fun t'' s' h' w => ?_⟩
  · rw [← hinv.owner_of_idle hidle]
    exact Bell.owner_of_closed hbell hregister
  · exact Bell.quiet_of_closed hbell hidle.toBell_receiver hidle.toBell_ringer
      (hinv.simulate_trail h') w

theorem silent_of_closed_unit :
  ∃ s : System Unit ℕ, s.bell.owner.cell = none ∧
    ∀ t'' s', Trail Step s t'' s' → ∀ w, .woke w ∉ t''
  := by
  obtain ⟨s, hidle, htrail⟩ := trail_closed
  obtain ⟨hcell, hsilent⟩ := silent_of_closed htrail hidle
  exact ⟨s, hcell (by simp), hsilent⟩

end Doorbell

end Grommet
