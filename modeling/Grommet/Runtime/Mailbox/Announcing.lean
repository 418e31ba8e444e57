import Grommet.Runtime.Mailbox.Closing
import Grommet.Runtime.Mailbox.History

/-!
# An inbox does not sleep on an announced item

Before it waits, `poll_recv` registers its waker, sets the flag and looks at the ring once
more.  A thread that has pushed an item looks at the flag.  So the last look of the poll finds
the item, or finds that all items were taken, or the thread has yet to look at the flag and will
ring the doorbell.

Taking an item clears the flag: the inbox is running then, and has to poll before it waits.
-/

open Checked

namespace Grommet.Mailbox

open WakerSlot
open Grommet.Ring (Push Pop Recorded)

variable {ι κ W ω : Type}

/-! ### What keeps an inbox from waiting -/

/-- Whether `poll_recv` has taken the doorbell and has yet to finish its second look. -/
def Stage.looking : Stage W ω → Bool
  | registering _ _ | parking _ | taking (.again _) _ => true
  | _ => false

/-- Whether `poll_recv` has set the flag and found nothing so far. -/
def Stage.watching : Stage W ω → Bool
  | taking (.again false) _ => true
  | returning .pending => true
  | _ => false

/-- Whether the inbox is about to clear the flag or to hand back the freed slots. -/
def Stage.passes : Stage W ω → Bool
  | unparking _ | clearing _ | releasing _ => true
  | _ => false

/-- Whether the inbox is about to clear the flag. -/
def Stage.unparks : Stage W ω → Bool
  | unparking _ | clearing _ => true
  | releasing next => next.unparks
  | _ => false

/-- Whether the inbox is going to count the handles or to return something else than
`Pending`. -/
def Stage.settled : Stage W ω → Bool
  | unparking next => next.settled
  | clearing next => next.settled
  | releasing next => next.settled
  | counting => true
  | returning .pending => false
  | returning _ => true
  | _ => false

namespace History

/-- The number of items that the inbox has taken. -/
def total (x : History ι κ W ω) : ℕ := (x.received ++ x.system.stage.carried).length

/-- A thread has claimed a position, or has pushed, and has yet to look at the flag or to ring
the doorbell. -/
def Owing (x : History ι κ W ω) (i : ι) : Prop :=
  (∃ p, (x.system.sender i).push = some p ∧ p.site ≠ none) ∨ x.owes i = true ∨
    (∃ h, x.system.sender i = .announcing h) ∨ ∃ h, x.system.sender i = .ringing h

/-- The inbox has yet to look, or has taken all items, or a thread is going to ring. -/
def Quiet (x : History ι κ W ω) : Prop :=
  x.system.stage.looking = true ∨ x.total = x.claims.length ∨ ∃ i, x.Owing i

end History

/-! ### What every step keeps -/

/-- A poll that has taken the doorbell, or that has returned `Pending`, is going to be woken if
there is an item, unless an item was taken since. -/
structure Watched (x : History ι κ W ω) : Prop where
  isOpen : x.system.bell.closed = false
  exclusive : Exclusive x.system.bell.owner x.system.stage.registrar x.system.notifier
  own : ∀ v, x.system.stage.registrar = .entering v → v = x.system.waker
  pending : x.system.pending = true → x.system.stage.polling = false
  settled : x.system.stage.passes = true → x.system.stage.settled = true
  unparks : x.system.stage.unparks = true → x.system.pending = true → x.taken = true
  parked : x.system.pending = true ∨ x.system.stage.watching = true → x.taken = false →
    x.system.parked = true
  promise : x.system.pending = true ∨ x.system.stage.announced = true → x.taken = false →
    Promise x.system.bell.owner x.system.stage.registrar x.system.notifier x.system.waker
      x.system.woken x.Quiet

variable {x : History ι κ W ω} {s' : System ι κ W ω} {L : Laps}

theorem Stage.polling_of_looking {stage : Stage W ω} (h : stage.looking = true) :
  stage.polling = true
  := by
  match stage with
  | registering _ _ => rfl
  | parking _ => rfl
  | taking (.again _) _ => rfl

theorem Stage.announced_of_settled {stage : Stage W ω} (h : stage.settled = true) :
  stage.announced = false
  := by
  induction stage with
  | unparking next ih => exact ih h
  | clearing next ih => exact ih h
  | releasing next ih => exact ih h
  | counting => rfl
  | returning answer =>
    cases answer with
    | pending => cases h
    | ready item => rfl
    | tried item => rfl
  | _ => cases h

theorem Stage.watching_of_settled {stage : Stage W ω} (h : stage.settled = true) :
  stage.watching = false
  := by
  match stage with
  | unparking _ => rfl
  | clearing _ => rfl
  | releasing _ => rfl
  | counting => rfl
  | returning (.ready _) => rfl
  | returning (.tried _) => rfl

/-- A poll that has taken the doorbell has yet to look, or has set the flag. -/
theorem Stage.looking_of_announced {stage : Stage W ω}
    (hsettled : stage.passes = true → stage.settled = true) (h : stage.announced = true) :
  stage.looking = true ∨ stage.watching = true
  := by
  cases hpasses : stage.passes with
  | true =>
    rw [announced_of_settled (hsettled hpasses)] at h
    cases h
  | false =>
    match stage with
    | registering _ _ => exact Or.inl rfl
    | parking _ => exact Or.inl rfl
    | taking (.again _) _ => exact Or.inl rfl
    | returning .pending => exact Or.inr rfl

theorem Stage.pop_of_settled {stage : Stage W ω} (h : stage.settled = true) :
  stage.pop = .popped none
  := by
  induction stage with
  | unparking next ih => exact ih h
  | clearing next ih => exact ih h
  | releasing next ih => exact ih h
  | counting => rfl
  | returning answer => rfl
  | _ => cases h

/-- Outside of `pop` no item is taken. -/
theorem History.taken_of_popped {before after : Stage W ω} {taken : Bool}
    (hpop : before.pop = .popped none) (hbegins : History.begins before after = false) :
  (!History.begins before after && (taken || decide (0 < before.pop.frees))) = taken
  := by
  rw [hbegins, hpop]
  exact Bool.or_false taken

/-- The inbox moves on without touching the doorbell. -/
theorem Watched.move {ring : Ring.Inner W} {parked taken : Bool} {head freed : ℕ}
    {stage : Stage W ω} {received : List W} (h : Watched x)
    (hregistrar : stage.registrar = x.system.stage.registrar)
    (hpolling : stage.polling = true → x.system.stage.polling = true)
    (hsettled : stage.passes = true → stage.settled = true)
    (hunparks : stage.unparks = true → x.system.pending = true → taken = true)
    (hparked : x.system.pending = true ∨ stage.watching = true → taken = false → parked = true)
    (hpromise : x.system.pending = true ∨ stage.announced = true → taken = false →
      (x.system.pending = true ∨ x.system.stage.announced = true) ∧ x.taken = false ∧
        (x.Quiet → stage.looking = true ∨
          (received ++ stage.carried).length = x.claims.length ∨ ∃ i, x.Owing i)) :
  Watched { x with
    system := { x.system with
      ring := ring, parked := parked, head := head, freed := freed, stage := stage }
    received := received
    taken := taken }
  := by
  refine ⟨h.isOpen, ?_, ?_, ?_, hsettled, hunparks, hparked, ?_⟩
  · rw [hregistrar]
    exact h.exclusive
  · intro v hv
    rw [hregistrar] at hv
    exact h.own v hv
  · intro hpending
    rw [Bool.eq_false_iff]
    intro htrue
    have hfalse := h.pending hpending
    rw [hpolling htrue] at hfalse
    cases hfalse
  · intro hwaits htaken
    obtain ⟨hwaited, hnot, hquiet⟩ := hpromise hwaits htaken
    rw [hregistrar]
    apply (h.promise hwaited hnot).mono
    intro hq
    exact Or.inl (hquiet hq)

/-- The inbox moves on outside of the part of `poll_recv` after it has registered. -/
theorem Watched.aside {freed : ℕ} {stage : Stage W ω} {received : List W} {taken : Bool}
    (h : Watched x) (htaken : taken = x.taken)
    (hlooking : x.system.stage.looking = false)
    (hregistrar : stage.registrar = x.system.stage.registrar)
    (hpolling : stage.polling = true → x.system.stage.polling = true)
    (hsettled : stage.passes = true → stage.settled = true)
    (hunparks : stage.unparks = true → x.system.stage.unparks = true)
    (hwatching : stage.watching = false) (hannounced : stage.announced = false)
    (htotal : (received ++ stage.carried).length = x.total) :
  Watched { x with
    system := { x.system with freed := freed, stage := stage }
    received := received
    taken := taken }
  := by
  subst htaken
  apply h.move hregistrar hpolling hsettled
  · intro hstage hpending
    exact h.unparks (hunparks hstage) hpending
  · rintro (hpending | hstage) htaken
    · exact h.parked (Or.inl hpending) htaken
    · rw [hwatching] at hstage
      cases hstage
  · rintro (hpending | hstage) htaken
    · refine ⟨Or.inl hpending, htaken, ?_⟩
      rintro (hlook | hall | howing)
      · rw [hlooking] at hlook
        cases hlook
      · exact Or.inr (Or.inl (htotal.trans hall))
      · exact Or.inr (Or.inr howing)
    · rw [hannounced] at hstage
      cases hstage

section AfterTake

variable (look : Look)

theorem Stage.afterPop_settled (pop : Pop W)
    (h : (Stage.afterPop look pop : Stage W ω).passes = true) :
  (Stage.afterPop look pop : Stage W ω).settled = true
  := by
  match pop with
  | .popped (some item) => rcases look with _ | (_ | _) | (_ | _) <;> rfl
  | .popped none => rcases look with _ | (_ | _) | (_ | _) <;> first | rfl | cases h
  | .looking => cases h
  | .emptying => cases h
  | .freeing _ => cases h

theorem Stage.afterPop_unparks (pop pop' : Pop W)
    (h : (Stage.afterPop look pop' : Stage W ω).unparks = true) :
  (∃ item, pop'.result = some item) ∨ (Stage.taking look pop : Stage W ω).polling = true
  := by
  match pop' with
  | .popped (some item) => exact Or.inl ⟨item, rfl⟩
  | .popped none => rcases look with _ | (_ | _) | (_ | _) <;> first | exact Or.inr rfl | cases h
  | .looking => cases h
  | .emptying => cases h
  | .freeing _ => cases h

theorem Stage.afterPop_watching (pop pop' : Pop W)
    (h : (Stage.afterPop look pop' : Stage W ω).watching = true) :
  (Stage.taking look pop : Stage W ω).watching = true
  := by
  match pop' with
  | .popped (some item) => cases h
  | .popped none => rcases look with _ | (_ | _) | (_ | _) <;> first | rfl | cases h
  | .looking => rcases look with _ | (_ | _) | (_ | _) <;> first | rfl | cases h
  | .emptying => rcases look with _ | (_ | _) | (_ | _) <;> first | rfl | cases h
  | .freeing _ => rcases look with _ | (_ | _) | (_ | _) <;> first | rfl | cases h

/-- A look that does not find nothing is not over, or it is the last step of the call. -/
theorem Stage.afterPop_looking (pop pop' : Pop W) (hpop : pop' ≠ .popped none)
    (hlooking : (Stage.taking look pop : Stage W ω).looking = true)
    (h : (Stage.afterPop look pop' : Stage W ω).announced = true) :
  (Stage.afterPop look pop' : Stage W ω).looking = true
  := by
  match pop' with
  | .popped (some item) => rcases look with _ | (_ | _) | (_ | _) <;> cases h
  | .popped none => exact (hpop rfl).elim
  | .looking => cases look <;> exact hlooking
  | .emptying => cases look <;> exact hlooking
  | .freeing _ => cases look <;> exact hlooking

end AfterTake

/-- When the inbox finds nothing, it has taken all items or a thread has yet to look at the
flag. -/
theorem Consistent.nothing {look : Look} {pop : Pop W} {ring : Ring.Inner W} {head : ℕ}
    (h : Consistent L x) (hstage : x.system.stage = .taking look pop) (hfrees : pop.frees = 0)
    (hpop : pop.step x.system.ring x.system.head = .ok (ring, head, .popped none)) :
  x.total = x.claims.length ∨ ∃ i, x.Owing i
  := by
  have hrecorded := h.recorded
  rw [hstage] at hrecorded
  obtain ⟨phase, hmarks⟩ := hrecorded.marked
  cases pop with
  | looking =>
    rcases hmarks.nothing hpop with hall | ⟨i, hi⟩
    · left
      rw [History.total, hstage, hall, List.length_map]
    · right
      refine ⟨i, Or.inl ?_⟩
      cases hpush : (x.system.sender i).push with
      | none =>
        rw [hpush] at hi
        exact (hi rfl).elim
      | some p =>
        rw [hpush] at hi
        exact ⟨p, rfl, hi⟩
  | emptying =>
    rw [Pop.step, bind_eq_ok] at hpop
    obtain ⟨slot, -, hpop⟩ := hpop
    cases hpop
  | freeing value => cases hfrees
  | popped value =>
    have hbusy := h.busy
    rw [hstage] at hbusy
    cases hbusy

/-- A step of `pop` that the inbox takes. -/
theorem Watched.take {look : Look} {pop pop' : Pop W} {ring : Ring.Inner W} {head : ℕ}
    (h : Watched x) (hc : Consistent L x) (hstage : x.system.stage = .taking look pop)
    (hpop : pop.step x.system.ring x.system.head = .ok (ring, head, pop')) :
  Watched (x.afterInbox { x.system with
    ring := ring
    head := head
    freed := x.system.freed + freedBy pop'
    stage := .afterPop look pop' })
  := by
  have hresult := Pop.step_result hpop (by
    have hidle := hc.recorded.idle
    rw [hstage] at hidle
    exact hidle)
  have htaken : ∀ {stage : Stage W ω}, (!History.begins x.system.stage stage &&
      (x.taken || decide (0 < x.system.stage.pop.frees))) = false →
      x.taken = false ∧ pop.frees = 0 := by
    intro stage hfalse
    rw [hstage] at hfalse
    have hor : (x.taken || decide (0 < pop.frees)) = false := hfalse
    rw [Bool.or_eq_false_iff, decide_eq_false_iff_not] at hor
    exact ⟨hor.1, Nat.eq_zero_of_not_pos hor.2⟩
  rw [History.afterInbox]
  apply h.move
  · rw [hstage]
    exact Stage.afterPop_registrar look pop'
  · rw [hstage, Stage.afterPop_polling look pop]
    exact id
  · exact Stage.afterPop_settled look pop'
  · intro hunparks hpending
    rcases Stage.afterPop_unparks look pop pop' hunparks with ⟨item, hitem⟩ | hpolling
    · rcases hresult with ⟨-, hnone⟩ | ⟨value, rfl, -⟩
      · rw [hnone] at hitem
        cases hitem
      · rw [hstage]
        exact Bool.or_true x.taken
    · have hnot := h.pending hpending
      rw [hstage, hpolling] at hnot
      cases hnot
  · intro hwatching hfalse
    apply h.parked _ (htaken hfalse).1
    rw [hstage]
    exact hwatching.imp_right (Stage.afterPop_watching look pop pop')
  · intro hwaits hfalse
    obtain ⟨hnot, hfrees⟩ := htaken hfalse
    have hnone : pop'.result = none := by
      rcases hresult with ⟨-, hnone⟩ | ⟨value, rfl, -⟩
      · exact hnone
      · cases hfrees
    have hannounced : x.system.pending = true ∨ x.system.stage.announced = true := by
      rw [hstage]
      exact hwaits.imp_right (Stage.afterPop_announced look pop pop')
    refine ⟨hannounced, hnot, ?_⟩
    have htotal : (x.received ++ x.system.stage.answered ++
        (Stage.afterPop look pop' : Stage W ω).carried).length = x.total := by
      rw [Stage.afterPop_carried, hnone, History.total, hstage]
      exact congrArg List.length (List.append_nil _)
    rw [htotal]
    rintro (hlooking | hall | howing)
    · have hpolling := Stage.polling_of_looking hlooking
      have hpending : x.system.pending ≠ true := by
        intro hpending
        rw [h.pending hpending] at hpolling
        cases hpolling
      have hstage' := hwaits.resolve_left hpending
      by_cases hend : pop' = .popped none
      · subst hend
        exact Or.inr (hc.nothing hstage hfrees hpop)
      · left
        rw [hstage] at hlooking
        exact Stage.afterPop_looking look pop pop' hend hlooking hstage'
    · exact Or.inr (Or.inl hall)
    · exact Or.inr (Or.inr howing)

/-- A pending inbox is not being polled. -/
theorem Watched.not_pending (h : Watched x) (hpolling : x.system.stage.polling = true) :
  x.system.pending ≠ true
  := by
  intro hpending
  rw [h.pending hpending] at hpolling
  cases hpolling

variable [DecidableEq ω]

/-- A step of `register` that the inbox takes. -/
theorem Watched.register {closed : Bool} {call : Registrar ω} (h : Watched x)
    (hstage : x.system.stage = .registering closed call) :
  Watched (x.afterInbox
    { x.system.setOwner (call.step x.system.bell.owner).1 (call.step x.system.bell.owner).2.2 with
      stage := .afterRegister closed (call.step x.system.bell.owner).2.1 })
  := by
  have hcall : x.system.stage.registrar = call := by
    rw [hstage]
    rfl
  have hpending := h.not_pending (by rw [hstage]; rfl)
  have hexclusive := h.exclusive
  rw [hcall] at hexclusive
  rw [History.afterInbox]
  refine ⟨h.isOpen, ?_, ?_, ?_, ?_, ?_, ?_, ?_⟩
  · rw [registrar_afterRegister]
    exact hexclusive.register
  · intro v hv
    rw [registrar_afterRegister] at hv
    exact (Registrar.step_ne_entering _ _ _ hv).elim
  · intro hpending'
    exact (hpending hpending').elim
  · intro hpasses
    generalize (call.step x.system.bell.owner).2.1 = call' at hpasses
    cases call' <;> cases hpasses
  · intro _ hpending'
    exact (hpending hpending').elim
  · rintro (hpending' | hwatching)
    · exact (hpending hpending').elim
    · generalize (call.step x.system.bell.owner).2.1 = call' at hwatching
      cases call' <;> cases hwatching
  · rintro (hpending' | hannounced) htaken
    · exact (hpending hpending').elim
    rw [registrar_afterRegister]
    have hnot : x.taken = false := by
      rw [hstage, Bool.and_eq_false_iff] at htaken
      rcases htaken with htaken | htaken
      · cases htaken
      · exact (Bool.or_eq_false_iff.mp htaken).1
    have hlooking : ∀ call' : Registrar ω,
        (Stage.afterRegister closed call' : Stage W ω).looking = true := by
      intro call'
      cases call' <;> rfl
    by_cases hentering : ∃ v, call = .entering v
    · obtain ⟨v, rfl⟩ := hentering
      cases h.own v hcall
      apply promise_enter
      intro _
      exact Or.inr (Or.inl (Or.inl (hlooking _)))
    · have hclosed : closed = false := by
        cases closed with
        | false => rfl
        | true =>
          generalize (call.step x.system.bell.owner).2.1 = call' at hannounced
          cases call' <;> cases hannounced
      have hpromise := h.promise (Or.inr (by
        rw [hstage, hclosed]
        cases call with
        | entering v => exact (hentering ⟨v, rfl⟩).elim
        | _ => rfl)) hnot
      rw [hcall] at hpromise
      apply hpromise.register.mono
      intro _
      exact Or.inl (Or.inl (hlooking _))

omit [DecidableEq ω] in
/-- The inbox returns `Pending`. -/
theorem Watched.answerPending (h : Watched x) (hstage : x.system.stage = .returning .pending) :
  Watched (x.afterInbox (x.system.answer .pending))
  := by
  have hexclusive := h.exclusive
  have hparked := h.parked (Or.inr (by rw [hstage]; rfl))
  have hpromise := h.promise (Or.inr (by rw [hstage]; rfl))
  rw [hstage] at hexclusive hpromise
  rw [History.afterInbox, History.taken_of_popped (by rw [hstage]; rfl) (by rw [hstage]; rfl),
    hstage]
  refine ⟨h.isOpen, hexclusive, ?_, ?_, ?_, ?_, ?_, ?_⟩
  · rintro v ⟨⟩
  · intro _
    rfl
  · rintro ⟨⟩
  · rintro ⟨⟩
  · intro _ htaken
    exact hparked htaken
  · intro _ htaken
    apply (hpromise htaken).mono
    rintro (hlooking | hall | howing)
    · rw [hstage] at hlooking
      cases hlooking
    · left
      right
      left
      rw [History.total, hstage] at hall
      rw [← hall, History.total]
      exact congrArg List.length (List.append_nil _)
    · exact Or.inl (Or.inr (Or.inr howing))

omit [DecidableEq ω] in
/-- The inbox goes on to what comes after `unpark` or after the freed slots are handed back. -/
theorem Watched.pass {freed : ℕ} {stage : Stage W ω} (h : Watched x)
    (hpasses : x.system.stage.passes = true)
    (hregistrar : stage.registrar = x.system.stage.registrar)
    (hpolling : stage.polling = x.system.stage.polling)
    (hsettled : stage.settled = x.system.stage.settled)
    (hunparks : stage.unparks = true → x.system.stage.unparks = true)
    (hcarried : stage.carried = x.system.stage.carried) :
  Watched (x.afterInbox { x.system with freed := freed, stage := stage })
  := by
  have hbefore := h.settled hpasses
  have hafter := hsettled.trans hbefore
  have hkind : x.system.stage.looking = false ∧ x.system.stage.answered = [] ∧
      History.begins x.system.stage stage = false := by
    cases hstage : x.system.stage with
    | unparking next => exact ⟨rfl, rfl, rfl⟩
    | clearing next => exact ⟨rfl, rfl, rfl⟩
    | releasing next => exact ⟨rfl, rfl, rfl⟩
    | _ =>
      rw [hstage] at hpasses
      cases hpasses
  obtain ⟨hlooking, hanswered, hbegins⟩ := hkind
  rw [History.afterInbox, hanswered]
  apply h.aside (History.taken_of_popped (Stage.pop_of_settled hbefore) hbegins) hlooking hregistrar
  · rw [hpolling]
    exact id
  · intro _
    exact hafter
  · exact hunparks
  · exact Stage.watching_of_settled hafter
  · exact Stage.announced_of_settled hafter
  · rw [List.append_nil, hcarried]
    rfl

/-- The steps of the inbox outside of `poll_recv`, and the last one of a call that has not
returned `Pending`. -/
inductive Stage.Passes : Stage W ω → Stage W ω → Prop
  | tryRecv : Passes .resting .trying
  | countTrying (closed : Bool) : Passes .trying (.taking (.trying closed) .looking)
  | ready (item : Option W) : Passes (.returning (.ready item)) .resting
  | tried (result : Except TryRecvError W) : Passes (.returning (.tried result)) .resting

omit [DecidableEq ω] in
theorem Watched.outside {before stage : Stage W ω} (h : Watched x)
    (hstage : x.system.stage = before) (hpasses : before.Passes stage) :
  Watched (x.afterInbox { x.system with stage := stage })
  := by
  have hquiet : before.pop = .popped none ∧ History.begins before stage = false := by
    cases hpasses <;> exact ⟨rfl, rfl⟩
  have hcarried : before.answered ++ stage.carried = before.carried := by
    cases hpasses with
    | tryRecv => rfl
    | countTrying closed => rfl
    | ready item => exact List.append_nil _
    | tried result => exact List.append_nil _
  rw [History.afterInbox, hstage]
  apply h.aside (History.taken_of_popped hquiet.1 hquiet.2)
  · rw [hstage]
    cases hpasses <;> rfl
  · rw [hstage]
    cases hpasses <;> rfl
  · cases hpasses <;> rintro ⟨⟩
  · cases hpasses <;> rintro ⟨⟩
  · cases hpasses <;> rintro ⟨⟩
  · cases hpasses <;> rfl
  · cases hpasses <;> rfl
  · rw [List.append_assoc, hcarried, History.total, hstage]

omit [DecidableEq ω] in
/-- A call of `poll_recv` begins. -/
theorem Watched.poll {v : ω} (h : Watched x) (hstage : x.system.stage = .resting) :
  Watched (x.afterInbox { x.system with
    stage := .taking .first .looking
    pending := false
    waker := v
    woken := false })
  := by
  have hexclusive := h.exclusive
  rw [hstage] at hexclusive
  rw [History.afterInbox]
  refine ⟨h.isOpen, hexclusive, ?_, ?_, ?_, ?_, ?_, ?_⟩
  · rintro v ⟨⟩
  · rintro ⟨⟩
  · rintro ⟨⟩
  · rintro ⟨⟩
  · rintro (hpending | hwatching)
    · cases hpending
    · cases hwatching
  · rintro (hpending | hannounced)
    · cases hpending
    · cases hannounced

omit [DecidableEq ω] in
/-- The inbox clears the flag, which it does only after it has taken an item. -/
theorem Watched.clear {next : Stage W ω} (h : Watched x) (hstage : x.system.stage = .clearing next) :
  Watched (x.afterInbox { x.system with parked := false, stage := next })
  := by
  have hsettled : next.settled = true := by
    have hsettled := h.settled (by rw [hstage]; rfl)
    rw [hstage] at hsettled
    exact hsettled
  have hcleared := h.unparks (by rw [hstage]; rfl)
  rw [History.afterInbox, History.taken_of_popped
    (by rw [hstage]; exact Stage.pop_of_settled hsettled) (by rw [hstage]; rfl), hstage]
  apply h.move
  · rw [hstage]
    rfl
  · rw [hstage]
    exact id
  · intro _
    exact hsettled
  · intro _
    exact hcleared
  · rintro (hpending | hwatching) htaken
    · rw [hcleared hpending] at htaken
      cases htaken
    · rw [Stage.watching_of_settled hsettled] at hwatching
      cases hwatching
  · rintro (hpending | hannounced) htaken
    · rw [hcleared hpending] at htaken
      cases htaken
    · rw [Stage.announced_of_settled hsettled] at hannounced
      cases hannounced

omit [DecidableEq ω] in
/-- The inbox counts the handles, and begins to register its waker. -/
theorem Watched.count (h : Watched x) (hstage : x.system.stage = .counting) :
  Watched (x.afterInbox { x.system with
    stage := .registering (x.system.producers == 0) (.entering x.system.waker) })
  := by
  have hexclusive := h.exclusive
  rw [hstage] at hexclusive
  have hpending := h.not_pending (by rw [hstage]; rfl)
  rw [History.afterInbox]
  refine ⟨h.isOpen, hexclusive.enter x.system.waker, ?_, ?_, ?_, ?_, ?_, ?_⟩
  · rintro v ⟨⟩
    rfl
  · intro hpending'
    exact (hpending hpending').elim
  · rintro ⟨⟩
  · rintro ⟨⟩
  · rintro (hpending' | hwatching)
    · exact (hpending hpending').elim
    · cases hwatching
  · rintro (hpending' | hannounced)
    · exact (hpending hpending').elim
    · generalize (x.system.producers == 0) = closed at hannounced
      cases closed <;> cases hannounced

omit [DecidableEq ω] in
/-- The inbox sets the flag, and is going to look at the ring once more. -/
theorem Watched.park {closed : Bool} (h : Watched x) (hstage : x.system.stage = .parking closed) :
  Watched (x.afterInbox { x.system with parked := true, stage := .taking (.again closed) .looking })
  := by
  have hpending := h.not_pending (by rw [hstage]; rfl)
  rw [History.afterInbox, History.taken_of_popped (by rw [hstage]; rfl) (by rw [hstage]; rfl)]
  apply h.move
  · rw [hstage]
    rfl
  · rw [hstage]
    exact id
  · rintro ⟨⟩
  · rintro ⟨⟩
  · intro _ _
    rfl
  · rintro (hpending' | hannounced) htaken
    · exact (hpending hpending').elim
    · refine ⟨Or.inr ?_, htaken, ?_⟩
      · rw [hstage]
        cases closed <;> exact hannounced
      · intro _
        exact Or.inl rfl

/-- A step of the inbox. -/
theorem Watched.inboxStep (h : Watched x) (hc : Consistent L x) (hstep : InboxStep x.system s') :
  s'.stage.left = true ∨ Watched (x.afterInbox s')
  := by
  cases hstep with
  | poll hstage => exact Or.inr (h.poll hstage)
  | tryRecv hstage => exact Or.inr (h.outside hstage .tryRecv)
  | take hstage hpop => exact Or.inr (h.take hc hstage hpop)
  | unpark hstage =>
    right
    apply h.pass
    · rw [hstage]
      rfl
    · rw [hstage]
      split <;> rfl
    · rw [hstage]
      split <;> rfl
    · rw [hstage]
      split <;> rfl
    · rw [hstage]
      intro _
      rfl
    · rw [hstage]
      split <;> rfl
  | clear hstage => exact Or.inr (h.clear hstage)
  | release hstage =>
    right
    apply h.pass
    · rw [hstage]
      rfl
    · rw [hstage]
      rfl
    · rw [hstage]
      rfl
    · rw [hstage]
      rfl
    · rw [hstage]
      exact id
    · rw [hstage]
      rfl
  | count hstage => exact Or.inr (h.count hstage)
  | register hstage => exact Or.inr (h.register hstage)
  | park hstage => exact Or.inr (h.park hstage)
  | countTrying hstage => exact Or.inr (h.outside hstage (.countTrying _))
  | @answer answer hstage =>
    right
    cases answer with
    | pending => exact h.answerPending hstage
    | ready item => exact h.outside hstage (.ready item)
    | tried result => exact h.outside hstage (.tried result)
  | leave hstage => exact Or.inl rfl
  | depart hstage => exact Or.inl rfl
  | close hstage => exact Or.inl rfl
  | @drop call hstage =>
    left
    show (Stage.afterDrop (call.step x.system.bell.owner).2.1 : Stage W ω).left = true
    generalize (call.step x.system.bell.owner).2.1 = call'
    cases call' <;> rfl

/-! ### Steps of a thread -/

section

variable [DecidableEq ι] {i : ι}

omit [DecidableEq ω] in
theorem History.afterSender_same (x : History ι κ W ω) (i : ι) (s : System ι κ W ω) :
  (x.afterSender i s).taken = x.taken ∧ (x.afterSender i s).received = x.received
  := by
  rw [History.afterSender]
  split <;> exact ⟨rfl, rfl⟩

omit [DecidableEq ω] in
theorem History.afterSender_owes_of_ne {j : ι} (hj : j ≠ i) :
  (x.afterSender i s').owes j = x.owes j
  := by
  rw [History.afterSender]
  split
  · exact Function.update_of_ne hj _ _
  · rfl
  · exact Function.update_of_ne hj _ _

omit [DecidableEq ω] in
/-- Outside of `try_push` only looking at the flag clears what a thread owes. -/
theorem History.afterSender_owes_self (hpush : (x.system.sender i).push = none)
    (hne : ∀ h, x.system.sender i ≠ .announcing h) :
  (x.afterSender i s').owes i = x.owes i ∧ (x.afterSender i s').claims = x.claims
  := by
  rw [History.afterSender, hpush]
  cases (s'.sender i).push with
  | none =>
    refine ⟨?_, rfl⟩
    show Function.update x.owes i _ i = _
    rw [Function.update_self]
    cases hi : x.system.sender i with
    | announcing h => exact (hne h hi).elim
    | _ => rfl
  | some push => exact ⟨rfl, rfl⟩

omit [DecidableEq ω] in
/-- What the other threads owe does not change. -/
theorem History.Owing.other {j : ι} (h : x.Owing j) (hj : j ≠ i)
    (hsender : s'.sender j = x.system.sender j) :
  (x.afterSender i s').Owing j
  := by
  rw [History.Owing, show (x.afterSender i s').system = s' from x.after_system s' (.sender i),
    hsender, History.afterSender_owes_of_ne hj]
  exact h

omit [DecidableEq ω] in
/-- A thread that is about to do nothing about what it owes goes on owing it. -/
theorem History.Owing.keep (h : x.Owing i) (hpush : (x.system.sender i).push = none)
    (hannouncing : ∀ h, x.system.sender i ≠ .announcing h)
    (hringing : ∀ h, x.system.sender i ≠ .ringing h) :
  (x.afterSender i s').Owing i
  := by
  rcases h with ⟨p, hp, -⟩ | howes | ⟨handle, hi⟩ | ⟨handle, hi⟩
  · rw [hpush] at hp
    cases hp
  · right
    left
    rw [(History.afterSender_owes_self hpush hannouncing).1]
    exact howes
  · exact (hannouncing handle hi).elim
  · exact (hringing handle hi).elim

omit [DecidableEq ω] in
/-- A wake stays due as long as the thread goes on owing and no item escapes. -/
theorem History.Quiet.afterSender (h : x.Quiet) (hstage : s'.stage = x.system.stage)
    (hsender : ∀ j, j ≠ i → s'.sender j = x.system.sender j)
    (hclaims : (x.afterSender i s').claims = x.claims ∨ (x.afterSender i s').Owing i)
    (howing : x.Owing i → (x.afterSender i s').Quiet) :
  (x.afterSender i s').Quiet
  := by
  have hsystem : (x.afterSender i s').system = s' := x.after_system s' (.sender i)
  rcases h with hlooking | hall | ⟨j, hj⟩
  · left
    rw [hsystem, hstage]
    exact hlooking
  · rcases hclaims with hclaims | hi
    · right
      left
      rw [History.total, hsystem, hstage, (x.afterSender_same i s').2, hclaims]
      exact hall
    · exact Or.inr (Or.inr ⟨i, hi⟩)
  · by_cases hji : j = i
    · subst hji
      exact howing hj
    · exact Or.inr (Or.inr ⟨j, hj.other hji (hsender j hji)⟩)

omit [DecidableEq ω] in
/-- A thread takes a step: the inbox is where it was. -/
theorem Watched.afterSender (h : Watched x) (hstage : s'.stage = x.system.stage)
    (hparked : s'.parked = x.system.parked) (hpending : s'.pending = x.system.pending)
    (hwaker : s'.waker = x.system.waker) (hclosed : s'.bell.closed = x.system.bell.closed)
    (hexclusive : Exclusive s'.bell.owner x.system.stage.registrar s'.notifier)
    (hpromise : x.system.pending = true ∨ x.system.stage.announced = true → x.taken = false →
      Promise s'.bell.owner x.system.stage.registrar s'.notifier x.system.waker s'.woken
        (x.afterSender i s').Quiet) :
  Watched (x.afterSender i s')
  := by
  have hsystem : (x.afterSender i s').system = s' := x.after_system s' (.sender i)
  obtain ⟨htaken, -⟩ := x.afterSender_same i s'
  refine ⟨?_, ?_, ?_, ?_, ?_, ?_, ?_, ?_⟩
  · rw [hsystem, hclosed]
    exact h.isOpen
  · rw [hsystem, hstage]
    exact hexclusive
  · rw [hsystem, hstage, hwaker]
    exact h.own
  · rw [hsystem, hstage, hpending]
    exact h.pending
  · rw [hsystem, hstage]
    exact h.settled
  · rw [hsystem, hstage, hpending, htaken]
    exact h.unparks
  · rw [hsystem, hstage, hpending, htaken, hparked]
    exact h.parked
  · rw [hsystem, hstage, hpending, htaken, hwaker]
    exact hpromise

omit [DecidableEq ω] in
/-- A thread takes a step without touching the doorbell. -/
theorem Watched.moveSender {a : Sender κ W ω} {ring : Ring.Inner W} {handles : List κ}
    {producers : ℕ} (h : Watched x) (hfrom : (x.system.sender i).notifier = .out)
    (hto : a.notifier = .out)
    (hs' : s' = { x.system with ring := ring, handles := handles, producers := producers }.setSender
      i a)
    (hclaims : (x.afterSender i s').claims = x.claims ∨ (x.afterSender i s').Owing i)
    (howing : x.system.pending = true ∨ x.system.stage.announced = true → x.taken = false →
      x.Owing i → (x.afterSender i s').Quiet) :
  Watched (x.afterSender i s')
  := by
  have hnotifier : s'.notifier = x.system.notifier := by
    rw [hs', System.notifier_setSender, hto, ← hfrom]
    apply Function.update_eq_self
  have hsender : ∀ j, j ≠ i → s'.sender j = x.system.sender j := by
    intro j hj
    rw [hs']
    exact System.sender_setSender_of_ne hj
  have hstage : s'.stage = x.system.stage := by
    rw [hs']
    rfl
  have hbell : s'.bell = x.system.bell := by
    rw [hs']
    rfl
  have hwoken : s'.woken = x.system.woken := by
    rw [hs']
    rfl
  apply h.afterSender hstage
  · rw [hs']
    rfl
  · rw [hs']
    rfl
  · rw [hs']
    rfl
  · rw [hbell]
  · rw [hbell, hnotifier]
    exact h.exclusive
  · intro hwaits htaken
    rw [hbell, hnotifier, hwoken]
    apply (h.promise hwaits htaken).mono
    intro hquiet
    exact Or.inl (hquiet.afterSender hstage hsender hclaims (howing hwaits htaken))

omit [DecidableEq ω] in
/-- A thread that owes nothing by where it stands takes a step outside of `try_push`. -/
theorem Watched.idleSender {a : Sender κ W ω} {handles : List κ} {producers : ℕ} (h : Watched x)
    (hpush : (x.system.sender i).push = none) (hfrom : (x.system.sender i).notifier = .out)
    (hannouncing : ∀ h, x.system.sender i ≠ .announcing h)
    (hringing : ∀ h, x.system.sender i ≠ .ringing h) (hto : a.notifier = .out) :
  Watched (x.afterSender i
    ({ x.system with handles := handles, producers := producers }.setSender i a))
  := by
  apply h.moveSender hfrom hto rfl
  · exact Or.inl (History.afterSender_owes_self hpush hannouncing).2
  · intro _ _ howing
    exact Or.inr (Or.inr ⟨i, howing.keep hpush hannouncing hringing⟩)

omit [DecidableEq ω] in
/-- A thread looks at the flag. -/
theorem Watched.look {handle : κ} (h : Watched x) (hi : x.system.sender i = .announcing handle) :
  Watched (x.afterSender i (x.system.setSender i
    (if x.system.parked then .ringing (some handle) else .idle)))
  := by
  have hself : ((x.system.setSender i
      (if x.system.parked then .ringing (some handle) else .idle)).sender i) =
      if x.system.parked then .ringing (some handle) else .idle := System.sender_setSender_self
  apply h.moveSender (by rw [hi]; rfl) (by split <;> rfl) rfl
  · left
    rw [History.afterSender, hi, hself]
    cases x.system.parked <;> rfl
  · intro hwaits htaken _
    have hsystem : ∀ s : System ι κ W ω, (x.afterSender i s).system = s := by
      intro s
      exact x.after_system s (.sender i)
    cases hparked : x.system.parked with
    | true =>
      refine Or.inr (Or.inr ⟨i, Or.inr (Or.inr (Or.inr ⟨some handle, ?_⟩))⟩)
      rw [hsystem]
      exact System.sender_setSender_self
    | false =>
      left
      rw [hsystem]
      by_contra hlooking
      have hwatching : x.system.pending = true ∨ x.system.stage.watching = true := by
        apply hwaits.imp_right
        intro hannounced
        exact (Stage.looking_of_announced h.settled hannounced).resolve_left hlooking
      rw [h.parked hwatching htaken] at hparked
      cases hparked

omit [DecidableEq ω] in
/-- A thread moves on inside `try_push`. -/
theorem Watched.pushStep {handle : κ} {push push' : Push W} {announced spurious : Bool}
    {ring : Ring.Inner W} (h : Watched x)
    (hi : x.system.sender i = .pushing handle push announced) (hrest : push.rest = some push)
    (hstep : push.step x.system.ring spurious = .ok (ring, push')) :
  Watched (x.afterSender i
    ({ x.system with ring := ring }.setSender i (.afterPush handle announced push')))
  := by
  have hpush : (x.system.sender i).push = some push := by
    rw [hi]
    rfl
  have hself : ({ x.system with ring := ring }.setSender i
      (.afterPush handle announced push') : System ι κ W ω).sender i =
      .afterPush handle announced push' := System.sender_setSender_self
  have hout : (Sender.afterPush handle announced push' : Sender κ W ω).notifier = .out := by
    cases push' with
    | pushed => cases announced <;> rfl
    | _ => rfl
  have hafter : ∀ {y : History ι κ W ω}, y = x.afterSender i ({ x.system with ring := ring }.setSender
      i (.afterPush handle announced push')) →
      (y.system.sender i).push = push'.rest ∧ y.owes i = (x.owes i || push'.isPushed) ∧
        y.claims = x.claims ++ (push.claimed push').map fun item => (x.call i, item) := by
    rintro y rfl
    rw [History.afterSender, hpush, hself, Sender.afterPush_push]
    simp only [outcome_rest hrest hstep, Function.update_self, and_self]
  obtain ⟨hpush', howes, hclaims⟩ := hafter rfl
  have hsite : ∀ {p : Push W}, push'.rest = some p → p.site ≠ none →
      (x.afterSender i ({ x.system with ring := ring }.setSender i
        (.afterPush handle announced push'))).Owing i := by
    intro p hp hsite
    exact Or.inl ⟨p, hpush'.trans hp, hsite⟩
  rcases Push.step_cases hstep hrest with
    ⟨-, hnone, -, -, hclaimed⟩ | ⟨v, w, rfl, rfl⟩ | ⟨v, w, rfl, rfl⟩ | ⟨w, rfl, rfl⟩
  · apply h.moveSender (by rw [hi]; rfl) hout rfl
    · left
      rw [hclaims, hclaimed]
      exact List.append_nil _
    · rintro _ _ (⟨p, hp, hsite⟩ | howed | ⟨handle', hat⟩ | ⟨handle', hat⟩)
      · rw [hpush] at hp
        cases hp
        exact (hsite hnone).elim
      · refine Or.inr (Or.inr ⟨i, Or.inr (Or.inl ?_)⟩)
        rw [howes, howed]
        rfl
      · rw [hi] at hat
        cases hat
      · rw [hi] at hat
        cases hat
  · have howing := hsite rfl (by rintro ⟨⟩)
    apply h.moveSender (by rw [hi]; rfl) hout rfl (Or.inr howing)
    intro _ _ _
    exact Or.inr (Or.inr ⟨i, howing⟩)
  · have howing := hsite rfl (by rintro ⟨⟩)
    apply h.moveSender (by rw [hi]; rfl) hout rfl (Or.inr howing)
    intro _ _ _
    exact Or.inr (Or.inr ⟨i, howing⟩)
  · have howing : (x.afterSender i ({ x.system with ring := ring }.setSender i
        (.afterPush handle announced .pushed))).Owing i := by
      right
      left
      rw [howes]
      exact Bool.or_true _
    apply h.moveSender (by rw [hi]; rfl) hout rfl (Or.inr howing)
    intro _ _ _
    exact Or.inr (Or.inr ⟨i, howing⟩)

omit [DecidableEq ω] in
/-- A thread rings the doorbell. -/
theorem Watched.ring {handle : Option κ} (h : Watched x)
    (hi : x.system.sender i = .ringing handle) :
  Watched (x.afterSender i (x.system.setSender i (.waking handle .wanting)))
  := by
  have hout : x.system.notifier i = .out := by
    rw [System.notifier, hi]
    rfl
  refine h.afterSender rfl rfl rfl rfl rfl ?_ ?_
  · rw [System.notifier_setSender]
    exact h.exclusive.begin hout
  · intro hwaits htaken
    rw [System.notifier_setSender]
    exact (h.promise hwaits htaken).begin hout

/-- A step of `wake` that a thread takes. -/
theorem Watched.wake {handle : Option κ} {call : Notifier ω} (h : Watched x)
    (hi : x.system.sender i = .waking handle call) :
  Watched (x.afterSender i
    ((x.system.setOwner (call.step x.system.bell.owner).1
      (call.step x.system.bell.owner).2.2).setSender i
        (.afterWake handle (call.step x.system.bell.owner).2.1)))
  := by
  have hcall : x.system.notifier i = call := by
    rw [System.notifier, hi]
    rfl
  have hpush : (x.system.sender i).push = none := by
    rw [hi]
    rfl
  have hannouncing : ∀ h, x.system.sender i ≠ .announcing h := by
    rw [hi]
    rintro h ⟨⟩
  have hringing : ∀ h, x.system.sender i ≠ .ringing h := by
    rw [hi]
    rintro h ⟨⟩
  have hnotifier : ∀ call' : Notifier ω,
      (Sender.afterWake handle call' : Sender κ W ω).notifier = call' := by
    intro call'
    cases call' <;> rfl
  subst hcall
  refine h.afterSender rfl rfl rfl rfl rfl ?_ ?_
  · rw [System.notifier_setSender, hnotifier]
    exact h.exclusive.notify i
  · intro hwaits htaken
    rw [System.notifier_setSender, hnotifier]
    apply (Promise.notify h.exclusive (h.promise hwaits htaken) i).mono
    intro hquiet
    left
    refine hquiet.afterSender rfl ?_ (Or.inl (History.afterSender_owes_self hpush hannouncing).2) ?_
    · intro j hj
      exact System.sender_setSender_of_ne hj
    · intro howing
      exact Or.inr (Or.inr ⟨i, howing.keep hpush hannouncing hringing⟩)

/-- A step of a thread. -/
theorem Watched.senderStep [DecidableEq κ] (h : Watched x) (hc : Consistent L x)
    (hstep : SenderStep x.system i s') :
  Watched (x.afterSender i s')
  := by
  have hidle : ∀ {a b : Sender κ W ω} {handles : List κ} {producers : ℕ}, x.system.sender i = a →
      a.push = none → a.notifier = .out → (∀ h, a ≠ .announcing h) → (∀ h, a ≠ .ringing h) →
      b.notifier = .out → Watched (x.afterSender i
        ({ x.system with handles := handles, producers := producers }.setSender i b)) := by
    rintro a b handles producers rfl hpush hfrom hannouncing hringing hto
    exact h.idleSender hpush hfrom hannouncing hringing hto
  cases hstep with
  | send hi _ => exact hidle hi rfl rfl (by rintro _ ⟨⟩) (by rintro _ ⟨⟩) rfl
  | announce hi _ => exact hidle hi rfl rfl (by rintro _ ⟨⟩) (by rintro _ ⟨⟩) rfl
  | @clone handle handle' hi _ _ =>
    have hnext : Watched (x.afterSender i ({ x.system with
        producers := x.system.producers + 1
        handles := handle' :: x.system.handles }.setSender i .idle)) :=
      hidle hi rfl rfl (by rintro _ ⟨⟩) (by rintro _ ⟨⟩) rfl
    rw [System.setSender, ← hi, Function.update_eq_self] at hnext
    exact hnext
  | drop hi _ _ =>
    apply hidle hi rfl rfl (by rintro _ ⟨⟩) (by rintro _ ⟨⟩)
    split <;> rfl
  | check hi =>
    apply hidle hi rfl rfl (by rintro _ ⟨⟩) (by rintro _ ⟨⟩)
    split <;> rfl
  | push hi hpush =>
    apply h.pushStep hi _ hpush
    apply hc.recorded.tally.rest i
    show (x.system.sender i).push = _
    rw [hi]
    rfl
  | recheck hi => exact hidle hi rfl rfl (by rintro _ ⟨⟩) (by rintro _ ⟨⟩) rfl
  | look hi => exact h.look hi
  | ring hi =>
    rw [h.isOpen]
    exact h.ring hi
  | wake hi => exact h.wake hi

/-- The same, unless the inbox is on its way out. -/
def Guarded (L : Laps) (x : History ι κ W ω) : Prop :=
  Consistent L x ∧ (x.system.stage.left = true ∨ Watched x)

theorem Guarded.step [DecidableEq κ] {y : History ι κ W ω} {p : Party ι} (h : Guarded L x)
    (hstep : x.Step p y) (hfresh : x.Fresh p) :
  Guarded L y
  := by
  obtain ⟨hc, hw⟩ := h
  refine ⟨hc.step hstep hfresh, ?_⟩
  obtain ⟨hstep, hy⟩ := hstep
  generalize y.system = s' at hstep hy
  subst hy
  cases hstep with
  | inbox hstep =>
    rcases hw with hleft | hw
    · exact Or.inl (left_inboxStep hleft hstep)
    · exact hw.inboxStep hc hstep
  | sender hstep =>
    rcases hw with hleft | hw
    · left
      rw [senderStep_stage hstep]
      exact hleft
    · exact Or.inr (hw.senderStep hc hstep)

omit [DecidableEq ι] [DecidableEq ω] in
theorem guarded_channel {capacity : ℕ} {handle : κ} {waker : ω} {start : System ι κ W ω}
    (h : System.channel capacity handle waker = .ok start) :
  ∃ L, Guarded L (.start start)
  := by
  obtain ⟨L, hc⟩ := consistent_channel h
  obtain ⟨_, _, hopen⟩ := Checked.bind_eq_ok.mp h
  obtain ⟨ring, hring, hopen⟩ := Checked.bind_eq_ok.mp hopen
  cases hopen
  refine ⟨L, hc, Or.inr ⟨rfl, exclusive_new, ?_, ?_, ?_, ?_, ?_, ?_⟩⟩
  · rintro v ⟨⟩
  · rintro ⟨⟩
  · rintro ⟨⟩
  · rintro ⟨⟩
  · rintro (h | h) <;> cases h
  · rintro (h | h) <;> cases h

/-- In every run in which no thread is overtaken by a whole period of positions, an inbox that
waits, with no item taken since its last `poll_recv` began, has an empty ring once the threads
are done and have announced what they pushed. -/
theorem sleeping_inbox_has_empty_ring [DecidableEq κ] {capacity : ℕ} {handle : κ} {waker : ω}
    {start : System ι κ W ω} {t : List (Party ι)}
    (hstart : System.channel capacity handle waker = .ok start)
    (hrun : Trail (fun x p y => History.Step x p y ∧ x.Fresh p) (.start start) t x)
    (hasleep : x.system.Asleep) (htaken : x.taken = false)
    (hidle : ∀ i, x.system.sender i = .idle) (howes : ∀ i, x.owes i = false) :
  x.total = x.claims.length ∧ ∀ slot ∈ x.system.ring.slots, slot.value = none
  := by
  obtain ⟨L, hguarded⟩ := guarded_channel hstart
  obtain ⟨hc, hw⟩ : Guarded L x := by
    apply hrun.invariant (fun _ x => Guarded L x) hguarded
    intro _ x p y _ h hstep
    exact h.step hstep.1 hstep.2
  have hw : Watched x := by
    apply hw.resolve_left
    rw [hasleep.present]
    rintro ⟨⟩
  have hpolling := hw.pending hasleep.pending
  have hpromise := hw.promise (Or.inl hasleep.pending) htaken
  rw [Stage.registrar_of_not_polling hpolling] at hpromise
  have hout : ∀ i, x.system.notifier i = .out := by
    intro i
    rw [System.notifier, hidle i]
    rfl
  have hquiet : x.Quiet := by
    by_contra hdue
    have hwoken := hpromise.delivered hout hdue
    rw [hasleep.woken] at hwoken
    cases hwoken
  have hall : x.total = x.claims.length := by
    rcases hquiet with hlooking | hall | ⟨i, ⟨p, hp, -⟩ | howing | ⟨h, hi⟩ | ⟨h, hi⟩⟩
    · rw [Stage.polling_of_looking hlooking] at hpolling
      cases hpolling
    · exact hall
    · rw [hidle i] at hp
      cases hp
    · rw [howes i] at howing
      cases howing
    · rw [hidle i] at hi
      cases hi
    · rw [hidle i] at hi
      cases hi
  refine ⟨hall, ?_⟩
  intro slot hslot
  obtain ⟨phase, hmarks⟩ := hc.recorded.marked
  apply hmarks.vacant _ hslot
  rw [List.length_map]
  exact hall

/-- An item is sent and received, and the next poll waits. -/
theorem sleeping_inbox_has_empty_ring_received :
  ∃ (start : System Unit Unit ℕ ℕ) (t : List (Party Unit)) (x : History Unit Unit ℕ ℕ),
    System.channel 1 () 0 = .ok start ∧
    Trail (fun x p y => History.Step x p y ∧ x.Fresh p) (.start start) t x ∧
    x.system.Asleep ∧ x.taken = false ∧ x.accepted = [0] ∧
    x.total = x.claims.length ∧ ∀ slot ∈ x.system.ring.slots, slot.value = none
  := by
  have hstart : (System.channel 1 () 0 : Checked (System Unit Unit ℕ ℕ)) =
      .ok (System.opened ⟨0, [⟨0, none⟩], 1, 2⟩ () 0) := rfl
  have hsend : Trail (fun x p y => History.Step x p y ∧ x.Fresh p)
      (.start (System.opened ⟨0, [⟨0, none⟩], 1, 2⟩ () 0 : System Unit Unit ℕ ℕ)) _ _ :=
    Trail.nil.snoc ⟨History.step_after (.sender (i := ())
      (show SenderStep _ () (System.setSender _ () (.checking () 5 true)) from
        .send rfl (List.mem_singleton_self _))), by rintro v w ⟨⟩⟩
  have hcheck := hsend.snoc ⟨History.step_after (.sender (i := ()) (.check rfl)),
    by rintro v w ⟨⟩⟩
  have hread := hcheck.snoc ⟨History.step_after (.sender (i := ()) (.push rfl
    (show Push.step _ false _ = _ from rfl))), by rintro v w ⟨⟩⟩
  have hinspect := hread.snoc ⟨History.step_after (.sender (i := ()) (.push rfl
    (show Push.step _ false _ = _ from rfl))), by rintro v w ⟨⟩⟩
  have hclaim := hinspect.snoc ⟨History.step_after (.sender (i := ()) (.push rfl
    (show Push.step _ false _ = _ from rfl))),
    fun _ _ _ => show 0 < 0 + 1 * (Ring.wordSize / 2) by decide⟩
  have hwrite := hclaim.snoc ⟨History.step_after (.sender (i := ()) (.push rfl
    (show Push.step _ false _ = _ from rfl))), by rintro v w ⟨⟩⟩
  have hpublish := hwrite.snoc ⟨History.step_after (.sender (i := ()) (.push rfl
    (show Push.step _ false _ = _ from rfl))), by rintro v w ⟨⟩⟩
  have hannounce := hpublish.snoc ⟨History.step_after (.sender (i := ()) (.look rfl)),
    by rintro v w ⟨⟩⟩
  have hpoll := hannounce.snoc ⟨History.step_after (.inbox (.poll (v := 7) rfl)), trivial⟩
  have hlook := hpoll.snoc ⟨History.step_after (.inbox (.take rfl rfl)), trivial⟩
  have hempty := hlook.snoc ⟨History.step_after (.inbox (.take rfl rfl)), trivial⟩
  have hfree := hempty.snoc ⟨History.step_after (.inbox (.take rfl rfl)), trivial⟩
  have hunpark := hfree.snoc ⟨History.step_after (.inbox (.unpark rfl)), trivial⟩
  have hanswer := hunpark.snoc ⟨History.step_after (.inbox (.answer rfl)), trivial⟩
  have hagain := hanswer.snoc ⟨History.step_after (.inbox (.poll (v := 8) rfl)), trivial⟩
  have hnothing := hagain.snoc ⟨History.step_after (.inbox (.take rfl rfl)), trivial⟩
  have hrelease := hnothing.snoc ⟨History.step_after (.inbox (.release rfl)), trivial⟩
  have hcount := hrelease.snoc ⟨History.step_after (.inbox (.count rfl)), trivial⟩
  have henter := hcount.snoc ⟨History.step_after (.inbox (.register rfl)), trivial⟩
  have hstore := henter.snoc ⟨History.step_after (.inbox (.register rfl)), trivial⟩
  have hleave := hstore.snoc ⟨History.step_after (.inbox (.register rfl)), trivial⟩
  have hpark := hleave.snoc ⟨History.step_after (.inbox (.park rfl)), trivial⟩
  have hsecond := hpark.snoc ⟨History.step_after (.inbox (.take rfl rfl)), trivial⟩
  have hpending := hsecond.snoc ⟨History.step_after (.inbox (.answer rfl)), trivial⟩
  exact ⟨_, _, _, hstart, hpending, ⟨rfl, rfl, rfl⟩, rfl, rfl,
    sleeping_inbox_has_empty_ring hstart hpending ⟨rfl, rfl, rfl⟩ rfl (fun _ => rfl) fun _ => rfl⟩

/-- After a poll has returned `Pending`, `try_recv` takes an item before it is announced and
clears the flag: the next item is announced to an inbox that is not parked. -/
theorem taken_item_clears_the_flag :
  ¬ ∀ (start : System Unit Unit ℕ ℕ) (t : List (Party Unit)) (x : History Unit Unit ℕ ℕ),
    System.channel 1 () 0 = .ok start → Trail History.Step (.start start) t x →
    x.system.Asleep → (∀ i, x.system.sender i = .idle) → (∀ i, x.owes i = false) →
      ∀ slot ∈ x.system.ring.slots, slot.value = none
  := by
  intro h
  have hstart : (System.channel 1 () 0 : Checked (System Unit Unit ℕ ℕ)) =
      .ok (System.opened ⟨0, [⟨0, none⟩], 1, 2⟩ () 0) := rfl
  have hpoll : Trail History.Step
      (.start (System.opened ⟨0, [⟨0, none⟩], 1, 2⟩ () 0 : System Unit Unit ℕ ℕ)) _ _ :=
    Trail.nil.snoc (History.step_after (.inbox (.poll (v := 7) rfl)))
  have hempty := hpoll.snoc (History.step_after (.inbox (.take rfl rfl)))
  have hrelease := hempty.snoc (History.step_after (.inbox (.release rfl)))
  have hcount := hrelease.snoc (History.step_after (.inbox (.count rfl)))
  have henter := hcount.snoc (History.step_after (.inbox (.register rfl)))
  have hstore := henter.snoc (History.step_after (.inbox (.register rfl)))
  have hleave := hstore.snoc (History.step_after (.inbox (.register rfl)))
  have hpark := hleave.snoc (History.step_after (.inbox (.park rfl)))
  have hagain := hpark.snoc (History.step_after (.inbox (.take rfl rfl)))
  have hpending := hagain.snoc (History.step_after (.inbox (.answer rfl)))
  have hdefer := hpending.snoc (History.step_after (.sender (i := ())
    (show SenderStep _ () (System.setSender _ () (.checking () 5 false)) from
      .send rfl (List.mem_singleton_self _))))
  have hcheck := hdefer.snoc (History.step_after (.sender (i := ()) (.check rfl)))
  have hread := hcheck.snoc (History.step_after (.sender (i := ()) (.push rfl
    (show Push.step _ false _ = _ from rfl))))
  have hinspect := hread.snoc (History.step_after (.sender (i := ()) (.push rfl
    (show Push.step _ false _ = _ from rfl))))
  have hclaim := hinspect.snoc (History.step_after (.sender (i := ()) (.push rfl
    (show Push.step _ false _ = _ from rfl))))
  have hwrite := hclaim.snoc (History.step_after (.sender (i := ()) (.push rfl
    (show Push.step _ false _ = _ from rfl))))
  have hpublish := hwrite.snoc (History.step_after (.sender (i := ()) (.push rfl
    (show Push.step _ false _ = _ from rfl))))
  have htry := hpublish.snoc (History.step_after (.inbox (.tryRecv rfl)))
  have hproducers := htry.snoc (History.step_after (.inbox (.countTrying rfl)))
  have hlook := hproducers.snoc (History.step_after (.inbox (.take rfl rfl)))
  have htake := hlook.snoc (History.step_after (.inbox (.take rfl rfl)))
  have hfree := htake.snoc (History.step_after (.inbox (.take rfl rfl)))
  have hunpark := hfree.snoc (History.step_after (.inbox (.unpark rfl)))
  have hclear := hunpark.snoc (History.step_after (.inbox (.clear rfl)))
  have hback := hclear.snoc (History.step_after (.inbox (.release rfl)))
  have hreceived := hback.snoc (History.step_after (.inbox (.answer rfl)))
  have hsend := hreceived.snoc (History.step_after (.sender (i := ())
    (show SenderStep _ () (System.setSender _ () (.checking () 6 true)) from
      .send rfl (List.mem_singleton_self _))))
  have hcheck' := hsend.snoc (History.step_after (.sender (i := ()) (.check rfl)))
  have hread' := hcheck'.snoc (History.step_after (.sender (i := ()) (.push rfl
    (show Push.step _ false _ = _ from rfl))))
  have hinspect' := hread'.snoc (History.step_after (.sender (i := ()) (.push rfl
    (show Push.step _ false _ = _ from rfl))))
  have hclaim' := hinspect'.snoc (History.step_after (.sender (i := ()) (.push rfl
    (show Push.step _ false _ = _ from rfl))))
  have hwrite' := hclaim'.snoc (History.step_after (.sender (i := ()) (.push rfl
    (show Push.step _ false _ = _ from rfl))))
  have hpublish' := hwrite'.snoc (History.step_after (.sender (i := ()) (.push rfl
    (show Push.step _ false _ = _ from rfl))))
  have hannounced := hpublish'.snoc (History.step_after (.sender (i := ()) (.look rfl)))
  have hnone := h _ _ _ hstart hannounced ⟨rfl, rfl, rfl⟩ (fun _ => rfl) (fun _ => rfl) _
    (List.mem_singleton_self _)
  cases hnone

end

end Grommet.Mailbox
