import Grommet.Library.Trail
import Grommet.Runtime.Mailbox.Model
import Mathlib.Order.Nat

/-!
# Learning that the mailbox is closed

An inbox that waits on a mailbox without handles waits forever.  The thread that drops the
last handle rings the doorbell, and `poll_recv` reads the number of handles before it
registers its waker.  When the last handle is dropped and the doorbell has been rung between
these two steps, the ring finds no waker or an old one, and the poll waits all the same.  In
the runs where that does not happen an inbox that waits learns that its mailbox is closed.
-/

namespace Grommet.Mailbox

open WakerSlot

variable {ι κ W ω : Type}

/-! ### Where a wake can be -/

/-- The call of `wake` that a thread is in. -/
def Sender.notifier : Sender κ W ω → Notifier ω
  | waking _ call => call
  | _ => .out

/-- The call of `register` that the inbox is in. -/
def Stage.registrar : Stage W ω → Registrar ω
  | registering _ call => call
  | unparking next => next.registrar
  | clearing next => next.registrar
  | releasing next => next.registrar
  | _ => .out

/-- Whether the inbox is being dropped or is gone. -/
def Stage.left : Stage W ω → Bool
  | departing | closing | dropping _ | gone => true
  | _ => false

/-- Whether the inbox is inside `poll_recv`. -/
def Stage.polling : Stage W ω → Bool
  | taking .first _ | taking (.again _) _ => true
  | counting | registering _ _ | parking _ => true
  | unparking next => next.polling
  | clearing next => next.polling
  | releasing next => next.polling
  | returning .pending | returning (.ready _) => true
  | _ => false

/-- Whether `poll_recv` found the mailbox open and has taken the doorbell for its waker. -/
def Stage.announced : Stage W ω → Bool
  | registering false (.entering _) => false
  | registering false _ => true
  | parking false => true
  | taking (.again false) _ => true
  | unparking next => next.announced
  | clearing next => next.announced
  | releasing next => next.announced
  | returning .pending => true
  | _ => false

namespace System

/-- The calls of `wake` that the threads are in. -/
def notifier (s : System ι κ W ω) (i : ι) : Notifier ω := (s.sender i).notifier

/-- A handle is left, or the doorbell is about to be rung. -/
def Quiet (s : System ι κ W ω) : Prop :=
  0 < s.producers ∨ ∃ i h, s.sender i = .ringing h

/-- The inbox waits, and its waker has not been woken since it began to. -/
structure Asleep (s : System ι κ W ω) : Prop where
  present : s.stage.left = false
  pending : s.pending = true
  woken : s.woken = false

end System

/-- When `register` takes the cell for a poll that found the mailbox open, a handle is left, or
a thread that rings has yet to set its bit, or the waker of the poll has been woken or a
thread has it and is going to wake it. -/
def Meets (s : System ι κ W ω) : Party ι → Prop
  | .inbox => ∀ v, s.stage = .registering false (.entering v) → s.bell.owner.waiting = true →
      Reached s.notifier s.waker s.woken ∨ Called s.notifier s.Quiet
  | .sender _ => True

/-! ### What every step keeps -/

/-- A poll that has announced itself, or that has returned `Pending`, is going to be woken if
there is no handle. -/
structure Inv (s : System ι κ W ω) : Prop where
  count : s.producers = s.handles.length
  isOpen : s.bell.closed = false
  exclusive : Exclusive s.bell.owner s.stage.registrar s.notifier
  own : ∀ v, s.stage.registrar = .entering v → v = s.waker
  pending : s.pending = true → s.stage.polling = false
  promise : s.pending = true ∨ s.stage.announced = true →
    Promise s.bell.owner s.stage.registrar s.notifier s.waker s.woken s.Quiet

/-- The same, unless the inbox is on its way out. -/
def Kept (s : System ι κ W ω) : Prop := s.stage.left = true ∨ Inv s

variable {s s' : System ι κ W ω}

theorem Stage.registrar_of_not_polling {stage : Stage W ω} (h : stage.polling = false) :
  stage.registrar = .out
  := by
  induction stage with
  | registering _ _ => cases h
  | unparking _ ih => exact ih h
  | clearing _ ih => exact ih h
  | releasing _ ih => exact ih h
  | _ => rfl

section AfterTake

variable (look : Look)

theorem Stage.afterTake_registrar (item : Option W) :
  (Stage.afterTake look item : Stage W ω).registrar = .out
  := by
  rcases look with _ | (_ | _) | (_ | _) <;> cases item <;> rfl

theorem Stage.afterTake_polling (pop : Ring.Pop W) (item : Option W) :
  (Stage.afterTake look item : Stage W ω).polling = (Stage.taking look pop : Stage W ω).polling
  := by
  rcases look with _ | (_ | _) | (_ | _) <;> cases item <;> rfl

theorem Stage.afterTake_announced (pop : Ring.Pop W) (item : Option W)
    (h : (Stage.afterTake look item : Stage W ω).announced = true) :
  (Stage.taking look pop : Stage W ω).announced = true
  := by
  rcases look with _ | (_ | _) | (_ | _) <;> cases item <;> first | rfl | cases h

theorem Stage.afterPop_registrar (pop : Ring.Pop W) :
  (Stage.afterPop look pop : Stage W ω).registrar = .out
  := by
  match pop with
  | .popped (some item) => apply Stage.afterTake_registrar look (some item)
  | .popped none => apply Stage.afterTake_registrar look none
  | .looking => rfl
  | .emptying => rfl
  | .freeing _ => rfl

theorem Stage.afterPop_polling (pop pop' : Ring.Pop W) :
  (Stage.afterPop look pop' : Stage W ω).polling = (Stage.taking look pop : Stage W ω).polling
  := by
  match pop' with
  | .popped (some item) => apply Stage.afterTake_polling look pop (some item)
  | .popped none => apply Stage.afterTake_polling look pop none
  | .looking => cases look <;> rfl
  | .emptying => cases look <;> rfl
  | .freeing _ => cases look <;> rfl

theorem Stage.afterPop_announced (pop pop' : Ring.Pop W)
    (h : (Stage.afterPop look pop' : Stage W ω).announced = true) :
  (Stage.taking look pop : Stage W ω).announced = true
  := by
  match pop' with
  | .popped (some item) => exact Stage.afterTake_announced look pop (some item) h
  | .popped none => exact Stage.afterTake_announced look pop none h
  | .looking => rcases look with _ | (_ | _) | (_ | _) <;> exact h
  | .emptying => rcases look with _ | (_ | _) | (_ | _) <;> exact h
  | .freeing _ => rcases look with _ | (_ | _) | (_ | _) <;> exact h

end AfterTake

/-- The inbox moves on without touching the doorbell. -/
theorem Inv.move {ring : Ring.Inner W} {parked : Bool} {head freed : ℕ} {stage : Stage W ω}
    (h : Inv s) (hregistrar : stage.registrar = s.stage.registrar)
    (hpolling : stage.polling = true → s.stage.polling = true)
    (hannounced : stage.announced = true → s.stage.announced = true) :
  Inv { s with ring := ring, parked := parked, head := head, freed := freed, stage := stage }
  := by
  refine ⟨h.count, h.isOpen, ?_, ?_, ?_, ?_⟩
  · rw [hregistrar]
    exact h.exclusive
  · intro v hv
    rw [hregistrar] at hv
    apply h.own v hv
  · intro hpending
    rw [Bool.eq_false_iff]
    intro htrue
    have hfalse := h.pending hpending
    rw [hpolling htrue] at hfalse
    cases hfalse
  · intro hwaits
    rw [hregistrar]
    apply h.promise
    apply hwaits.imp_right hannounced

theorem registrar_afterRegister {closed : Bool} (call : Registrar ω) :
  (Stage.afterRegister closed call : Stage W ω).registrar = call
  := by
  cases call <;> rfl

variable [DecidableEq ω]

/-- A step of `register` that the inbox takes. -/
theorem Inv.register {closed : Bool} {call : Registrar ω} (h : Inv s) (hmeets : Meets s .inbox)
    (hstage : s.stage = .registering closed call) :
  Inv { s.setOwner (call.step s.bell.owner).1 (call.step s.bell.owner).2.2 with
    stage := .afterRegister closed (call.step s.bell.owner).2.1 }
  := by
  have hcall : s.stage.registrar = call := by
    rw [hstage]
    rfl
  have hpending : s.pending ≠ true := by
    intro hpending
    have hpolling := h.pending hpending
    rw [hstage] at hpolling
    cases hpolling
  have hexclusive := h.exclusive
  rw [hcall] at hexclusive
  refine ⟨h.count, h.isOpen, ?_, ?_, ?_, ?_⟩
  · rw [registrar_afterRegister]
    exact hexclusive.register
  · intro v hv
    rw [registrar_afterRegister] at hv
    exact (Registrar.step_ne_entering _ _ _ hv).elim
  · intro hpending'
    exact (hpending hpending').elim
  · rintro (hpending' | hannounced)
    · exact (hpending hpending').elim
    rw [registrar_afterRegister]
    have hclosed : closed = false := by
      cases closed with
      | false => rfl
      | true =>
        generalize (call.step s.bell.owner).2.1 = call' at hannounced
        cases call' <;> cases hannounced
    subst hclosed
    by_cases hentering : ∃ v, call = .entering v
    · obtain ⟨v, rfl⟩ := hentering
      cases h.own v hcall
      exact promise_enter (hmeets _ hstage)
    · have hpromise := h.promise
      rw [hcall] at hpromise
      apply Promise.register
      apply hpromise
      right
      rw [hstage]
      cases call with
      | entering v => exact (hentering ⟨v, rfl⟩).elim
      | _ => rfl

/-- A step of the inbox. -/
theorem Inv.inboxStep (h : Inv s) (hmeets : Meets s .inbox) (hstep : InboxStep s s') :
  Kept s'
  := by
  cases hstep with
  | @poll v hstage =>
    right
    refine ⟨h.count, h.isOpen, ?_, ?_, ?_, ?_⟩
    · have hexclusive := h.exclusive
      rw [hstage] at hexclusive
      exact hexclusive
    · rintro v ⟨⟩
    · rintro ⟨⟩
    · rintro (hpending | hannounced)
      · cases hpending
      · cases hannounced
  | tryRecv hstage =>
    right
    apply h.move
    · rw [hstage]
      rfl
    · rintro ⟨⟩
    · rintro ⟨⟩
  | @take look pop pop' ring head hstage hpop =>
    right
    apply h.move
    · rw [hstage]
      apply Stage.afterPop_registrar
    · rw [hstage, Stage.afterPop_polling look pop]
      exact id
    · rw [hstage]
      apply Stage.afterPop_announced
  | unpark hstage =>
    right
    apply h.move
    · rw [hstage]
      split <;> rfl
    · rw [hstage]
      split <;> exact id
    · rw [hstage]
      split <;> exact id
  | clear hstage =>
    right
    apply h.move
    · rw [hstage]
      rfl
    · rw [hstage]
      exact id
    · rw [hstage]
      exact id
  | release hstage =>
    right
    apply h.move
    · rw [hstage]
      rfl
    · rw [hstage]
      exact id
    · rw [hstage]
      exact id
  | count hstage =>
    right
    have hexclusive := h.exclusive
    rw [hstage] at hexclusive
    have hpending : s.pending ≠ true := by
      intro hpending
      have hpolling := h.pending hpending
      rw [hstage] at hpolling
      cases hpolling
    refine ⟨h.count, h.isOpen, hexclusive.enter s.waker, ?_, ?_, ?_⟩
    · rintro v ⟨⟩
      rfl
    · intro hpending'
      exact (hpending hpending').elim
    · rintro (hpending' | hannounced)
      · exact (hpending hpending').elim
      · generalize (s.producers == 0) = closed at hannounced
        cases closed <;> cases hannounced
  | register hstage => exact Or.inr (h.register hmeets hstage)
  | @park closed hstage =>
    right
    apply h.move
    · rw [hstage]
      rfl
    · rw [hstage]
      exact id
    · rw [hstage]
      cases closed <;> exact id
  | countTrying hstage =>
    right
    apply h.move
    · rw [hstage]
      rfl
    · rintro ⟨⟩
    · rintro ⟨⟩
  | @answer answer hstage =>
    right
    cases answer with
    | pending =>
      have hexclusive := h.exclusive
      have hpromise := h.promise (Or.inr (by rw [hstage]; rfl))
      rw [hstage] at hexclusive hpromise
      refine ⟨h.count, h.isOpen, hexclusive, ?_, ?_, ?_⟩
      · rintro v ⟨⟩
      · intro _
        rfl
      · intro _
        exact hpromise
    | ready item =>
      apply h.move
      · rw [hstage]
        rfl
      · rintro ⟨⟩
      · rintro ⟨⟩
    | tried item =>
      apply h.move
      · rw [hstage]
        rfl
      · rintro ⟨⟩
      · rintro ⟨⟩
  | leave hstage => exact Or.inl rfl
  | depart hstage => exact Or.inl rfl
  | close hstage => exact Or.inl rfl
  | @drop call hstage =>
    left
    show (Stage.afterDrop (call.step s.bell.owner).2.1 : Stage W ω).left = true
    generalize (call.step s.bell.owner).2.1 = call'
    cases call' <;> rfl

/-- An inbox on its way out stays so. -/
theorem left_inboxStep (h : s.stage.left = true) (hstep : InboxStep s s') :
  s'.stage.left = true
  := by
  cases hstep with
  | leave hstage => rfl
  | depart hstage => rfl
  | close hstage => rfl
  | @drop call hstage =>
    show (Stage.afterDrop (call.step s.bell.owner).2.1 : Stage W ω).left = true
    generalize (call.step s.bell.owner).2.1 = call'
    cases call' <;> rfl
  | _ hstage =>
    rw [hstage] at h
    cases h

variable [DecidableEq ι]

omit [DecidableEq ω] in
theorem System.notifier_setSender (i : ι) (x : Sender κ W ω) :
  (s.setSender i x).notifier = Function.update s.notifier i x.notifier
  := by
  ext j
  by_cases hj : j = i
  · subst hj
    rw [System.notifier, System.sender_setSender_self, Function.update_self]
  · rw [System.notifier, System.sender_setSender_of_ne hj, Function.update_of_ne hj]
    rfl

omit [DecidableEq ω] in
/-- A thread that is not about to ring does not matter to those that are. -/
theorem System.Quiet.setSender {i : ι} (h : s.Quiet) (hi : ∀ h, s.sender i ≠ .ringing h)
    (x : Sender κ W ω) :
  (s.setSender i x).Quiet
  := by
  apply h.imp_right
  rintro ⟨j, handle, hj⟩
  have hji : j ≠ i := by
    rintro rfl
    apply hi handle hj
  exact ⟨j, handle, by rw [System.sender_setSender_of_ne hji]; exact hj⟩

omit [DecidableEq ω] in
/-- A thread moves on without touching the doorbell. -/
theorem Inv.moveSender {i : ι} {x : Sender κ W ω} (h : Inv s) (ring : Ring.Inner W)
    (hfrom : (s.sender i).notifier = .out) (hto : x.notifier = .out)
    (hi : ∀ h, s.sender i ≠ .ringing h) :
  Inv ({ s with ring := ring }.setSender i x)
  := by
  have hnotifier : ({ s with ring := ring }.setSender i x).notifier = s.notifier := by
    rw [System.notifier_setSender, hto, ← hfrom]
    apply Function.update_eq_self
  refine ⟨h.count, h.isOpen, ?_, h.own, h.pending, ?_⟩
  · rw [hnotifier]
    exact h.exclusive
  · intro hwaits
    rw [hnotifier]
    apply (h.promise hwaits).mono
    intro hquiet
    left
    apply System.Quiet.setSender (s := { s with ring := ring }) hquiet hi

omit [DecidableEq ι] [DecidableEq ω] in
/-- A handle is cloned. -/
theorem Inv.clone (h : Inv s) (handle : κ) :
  Inv { s with producers := s.producers + 1, handles := handle :: s.handles }
  := by
  refine ⟨?_, h.isOpen, h.exclusive, h.own, h.pending, ?_⟩
  · show s.producers + 1 = s.handles.length + 1
    rw [h.count]
  · intro hwaits
    apply (h.promise hwaits).mono
    intro _
    exact Or.inl (Or.inl (Nat.succ_pos _))

omit [DecidableEq ω] in
/-- A handle is dropped: it was not the last one, or its thread is about to ring. -/
theorem Inv.dropHandle [DecidableEq κ] {i : ι} {handle : κ} (h : Inv s)
    (hidle : s.sender i = .idle) (hmem : handle ∈ s.handles) :
  Inv ({ s with
    producers := s.producers - 1
    handles := s.handles.erase handle }.setSender i
      (if s.producers = 1 then .ringing none else .idle))
  := by
  have hpos : 0 < s.producers := by
    rw [h.count]
    apply List.length_pos_of_mem hmem
  have hnotifier : ∀ x : Sender κ W ω, x.notifier = .out →
      Function.update s.notifier i x.notifier = s.notifier := by
    intro x hx
    rw [hx, show Notifier.out = s.notifier i by rw [System.notifier, hidle]; rfl]
    apply Function.update_eq_self
  have hout : (if s.producers = 1 then .ringing none else .idle : Sender κ W ω).notifier = .out := by
    split <;> rfl
  refine ⟨?_, h.isOpen, ?_, h.own, h.pending, ?_⟩
  · show s.producers - 1 = (s.handles.erase handle).length
    rw [List.length_erase_of_mem hmem, h.count]
  · rw [System.notifier_setSender]
    exact (hnotifier _ hout).symm ▸ h.exclusive
  · intro hwaits
    rw [System.notifier_setSender]
    have hpromise := h.promise hwaits
    rw [← hnotifier _ hout] at hpromise
    apply hpromise.mono
    intro _
    left
    by_cases hlast : s.producers = 1
    · right
      refine ⟨i, none, ?_⟩
      rw [System.sender_setSender_self, if_pos hlast]
    · left
      show 0 < s.producers - 1
      omega

omit [DecidableEq ω] in
/-- The doorbell is rung. -/
theorem Inv.ring {i : ι} {handle : Option κ} (h : Inv s) (hi : s.sender i = .ringing handle) :
  Inv (s.setSender i (.waking handle .wanting))
  := by
  have hout : s.notifier i = .out := by
    rw [System.notifier, hi]
    rfl
  refine ⟨h.count, h.isOpen, ?_, h.own, h.pending, ?_⟩
  · rw [System.notifier_setSender]
    exact h.exclusive.begin hout
  · intro hwaits
    rw [System.notifier_setSender]
    exact (h.promise hwaits).begin hout

/-- A step of `wake` that a thread takes. -/
theorem Inv.wake {i : ι} {handle : Option κ} {call : Notifier ω} (h : Inv s)
    (hi : s.sender i = .waking handle call) :
  Inv ((s.setOwner (call.step s.bell.owner).1 (call.step s.bell.owner).2.2).setSender i
    (.afterWake handle (call.step s.bell.owner).2.1))
  := by
  have hcall : s.notifier i = call := by
    rw [System.notifier, hi]
    rfl
  have hnotifier : ∀ call' : Notifier ω,
      (Sender.afterWake handle call' : Sender κ W ω).notifier = call' := by
    intro call'
    cases call' <;> rfl
  subst hcall
  refine ⟨h.count, h.isOpen, ?_, h.own, h.pending, ?_⟩
  · rw [System.notifier_setSender, hnotifier]
    exact h.exclusive.notify i
  · intro hwaits
    rw [System.notifier_setSender, hnotifier]
    apply (Promise.notify h.exclusive (h.promise hwaits) i).mono
    intro hquiet
    left
    apply System.Quiet.setSender hquiet
    intro handle' hringing
    have hboth := hi.symm.trans hringing
    cases hboth

/-- A step of a thread. -/
theorem Inv.senderStep [DecidableEq κ] {i : ι} (h : Inv s) (hstep : SenderStep s i s') :
  Inv s'
  := by
  have hmove : ∀ {x y : Sender κ W ω} {ring : Ring.Inner W}, s.sender i = x → x.notifier = .out →
      (∀ h, x ≠ .ringing h) → y.notifier = .out → Inv ({ s with ring := ring }.setSender i y) := by
    intro x y ring hx hout hringing hto
    rw [← hx] at hout hringing
    exact h.moveSender ring hout hto hringing
  cases hstep with
  | send hidle _ => exact hmove hidle rfl (by rintro _ ⟨⟩) rfl
  | announce hidle _ => exact hmove hidle rfl (by rintro _ ⟨⟩) rfl
  | clone hidle _ _ => exact h.clone _
  | drop hidle hmem _ => exact h.dropHandle hidle hmem
  | check hi =>
    apply hmove hi rfl (by rintro _ ⟨⟩)
    split <;> rfl
  | @push handle push push' announced spurious ring hi hpush =>
    apply hmove hi rfl (by rintro _ ⟨⟩)
    cases push' with
    | pushed => cases announced <;> rfl
    | _ => rfl
  | recheck hi => exact hmove hi rfl (by rintro _ ⟨⟩) rfl
  | look hi =>
    apply hmove hi rfl (by rintro _ ⟨⟩)
    split <;> rfl
  | ring hi =>
    rw [h.isOpen]
    exact h.ring hi
  | wake hi => exact h.wake hi

omit [DecidableEq ω] in
/-- A thread does not bring the inbox back. -/
theorem senderStep_stage [DecidableEq κ] [DecidableEq ω] {i : ι} (hstep : SenderStep s i s') :
  s'.stage = s.stage
  := by
  cases hstep <;> rfl

/-- Every step that meets the condition keeps the promise. -/
theorem Kept.step [DecidableEq κ] {p : Party ι} (h : Kept s) (hmeets : Meets s p)
    (hstep : Step s p s') :
  Kept s'
  := by
  cases hstep with
  | inbox hstep =>
    rcases h with hleft | hinv
    · exact Or.inl (left_inboxStep hleft hstep)
    · exact hinv.inboxStep hmeets hstep
  | sender hstep =>
    rcases h with hleft | hinv
    · left
      rw [senderStep_stage hstep]
      exact hleft
    · exact Or.inr (hinv.senderStep hstep)

/-! ### Runs -/

omit [DecidableEq ω] [DecidableEq ι] in
theorem inv_channel {capacity : ℕ} {handle : κ} {waker : ω}
    (h : System.channel capacity handle waker = .ok s) :
  Inv s
  := by
  obtain ⟨_, _, h⟩ := Checked.bind_eq_ok.mp h
  obtain ⟨ring, _, h⟩ := Checked.bind_eq_ok.mp h
  cases h
  refine ⟨rfl, rfl, exclusive_new, ?_, ?_, ?_⟩
  · rintro v ⟨⟩
  · rintro ⟨⟩
  · rintro (h | h) <;> cases h

/-- In every run in which the ring of the last handle is not over before the poll that read a
handle has taken the doorbell, an inbox that sleeps has a handle left once the threads are
done. -/
theorem sleeping_inbox_has_handle [DecidableEq κ] {capacity : ℕ} {handle : κ} {waker : ω}
    {start : System ι κ W ω} {trace : List (Party ι)}
    (hstart : System.channel capacity handle waker = .ok start)
    (hrun : Trail (fun s p s' => Step s p s' ∧ Meets s p) start trace s)
    (hasleep : s.Asleep) (hidle : ∀ i, s.sender i = .idle) :
  s.handles ≠ []
  := by
  have hkept : Kept s := by
    apply hrun.invariant (fun _ s => Kept s) (Or.inr (inv_channel hstart))
    intro _ s₁ p s₂ _ hkept hstep
    exact hkept.step hstep.2 hstep.1
  have hinv : Inv s := by
    apply hkept.resolve_left
    rw [hasleep.present]
    rintro ⟨⟩
  have hpromise := hinv.promise (Or.inl hasleep.pending)
  rw [Stage.registrar_of_not_polling (hinv.pending hasleep.pending)] at hpromise
  have hout : ∀ i, s.notifier i = .out := by
    intro i
    rw [System.notifier, hidle i]
    rfl
  rintro hnone
  have hwoken : s.woken = true := by
    apply hpromise.delivered hout
    rintro (hpos | ⟨i, h, hi⟩)
    · rw [hinv.count, hnone] at hpos
      cases hpos
    · rw [hidle i] at hi
      cases hi
  rw [hasleep.woken] at hwoken
  cases hwoken

/-- A poll of an empty mailbox waits for the one handle there is. -/
theorem sleeping_inbox_has_handle_open :
  ∃ (start s : System Unit Unit ℕ ℕ) (trace : List (Party Unit)),
    System.channel 1 () 0 = .ok start ∧
    Trail (fun s p s' => Step s p s' ∧ Meets s p) start trace s ∧
    s.Asleep ∧ (∀ i, s.sender i = .idle) ∧ s.handles ≠ []
  := by
  have hstart : (System.channel 1 () 0 : Checked (System Unit Unit ℕ ℕ)) =
      .ok (System.opened ⟨0, [⟨0, none⟩], 1, 2⟩ () 0) := rfl
  have hpoll : Trail (fun s p s' => Step s p s' ∧ Meets s p)
      (System.opened ⟨0, [⟨0, none⟩], 1, 2⟩ () 0 : System Unit Unit ℕ ℕ) _ _ :=
    Trail.nil.snoc ⟨.inbox (.poll (v := 7) rfl), by rintro v ⟨⟩⟩
  have hempty := hpoll.snoc ⟨.inbox (.take rfl rfl), by rintro v ⟨⟩⟩
  have hrelease := hempty.snoc ⟨.inbox (.release rfl), by rintro v ⟨⟩⟩
  have hcount := hrelease.snoc ⟨.inbox (.count rfl), by rintro v ⟨⟩⟩
  have henter := hcount.snoc ⟨.inbox (.register rfl),
    fun _ _ _ => Or.inr (Or.inl (Or.inl (show 0 < 1 by decide)))⟩
  have hstore := henter.snoc ⟨.inbox (.register rfl), by rintro v ⟨⟩⟩
  have hleave := hstore.snoc ⟨.inbox (.register rfl), by rintro v ⟨⟩⟩
  have hpark := hleave.snoc ⟨.inbox (.park rfl), by rintro v ⟨⟩⟩
  have hagain := hpark.snoc ⟨.inbox (.take rfl rfl), by rintro v ⟨⟩⟩
  have hanswer := hagain.snoc ⟨.inbox (.answer rfl), by rintro v ⟨⟩⟩
  exact ⟨_, _, _, hstart, hanswer, ⟨rfl, rfl, rfl⟩, fun _ => rfl,
    sleeping_inbox_has_handle hstart hanswer ⟨rfl, rfl, rfl⟩ fun _ => rfl⟩

/-- The last handle is dropped after the poll has read the number of handles, and its ring is
over before the poll has registered: the poll waits for a mailbox without handles. -/
theorem ring_before_register_is_lost :
  ¬ ∀ (start s : System Unit Unit ℕ ℕ) (trace : List (Party Unit)),
    System.channel 1 () 0 = .ok start → Trail Step start trace s →
      s.Asleep → (∀ i, s.sender i = .idle) → s.handles ≠ []
  := by
  intro h
  have hstart : (System.channel 1 () 0 : Checked (System Unit Unit ℕ ℕ)) =
      .ok (System.opened ⟨0, [⟨0, none⟩], 1, 2⟩ () 0) := rfl
  have hpoll : Trail Step
      (System.opened ⟨0, [⟨0, none⟩], 1, 2⟩ () 0 : System Unit Unit ℕ ℕ) _ _ :=
    Trail.nil.snoc (.inbox (.poll (v := 7) rfl))
  have hempty := hpoll.snoc (.inbox (.take rfl rfl))
  have hrelease := hempty.snoc (.inbox (.release rfl))
  have hcount := hrelease.snoc (.inbox (.count rfl))
  have hdrop := hcount.snoc (.sender (i := ())
    (.drop (h := ()) rfl (List.mem_singleton_self _) (by rintro j ⟨⟩)))
  have hring := hdrop.snoc (.sender (i := ()) (.ring rfl))
  have hwant := hring.snoc (.sender (i := ()) (.wake rfl))
  have htake := hwant.snoc (.sender (i := ()) (.wake rfl))
  have hdone := htake.snoc (.sender (i := ()) (.wake rfl))
  have henter := hdone.snoc (.inbox (.register rfl))
  have hstore := henter.snoc (.inbox (.register rfl))
  have hleave := hstore.snoc (.inbox (.register rfl))
  have hpark := hleave.snoc (.inbox (.park rfl))
  have hagain := hpark.snoc (.inbox (.take rfl rfl))
  have hanswer := hagain.snoc (.inbox (.answer rfl))
  exact h _ _ _ hstart hanswer ⟨rfl, rfl, rfl⟩ (fun _ => rfl) rfl

end Grommet.Mailbox
