import Grommet.Core.Ring.Record
import Grommet.Library.Trail
import Grommet.Runtime.Mailbox.Model
import Mathlib.Order.Nat

/-!
# Closing a mailbox is conclusive

A slot that is claimed but not published reads as empty, so that an empty ring alone says
nothing.  The inbox reads the number of handles before it looks at the ring: when there is
none, no push is in progress any more, and an empty ring has been drained.

What is recorded of a run are the calls of `try_push` that the threads make, numbered in the
order they began, and the items that the inbox returned.  As for the ring alone, a thread may
not be overtaken by a whole period of positions between its read of the tail and its exchange:
the exchange could not tell, and would claim a slot that is in use.
-/

open Checked

namespace Grommet.Mailbox

open WakerSlot (Registrar Notifier)
open Grommet.Ring (Push Pop Recorded)

variable {ι κ W ω : Type}

/-! ### Histories -/

/-- The call of `try_push` that a thread is in. -/
def Sender.push : Sender κ W ω → Option (Push W)
  | pushing _ push _ => some push
  | _ => none

/-- The call of `pop` that the inbox is in. -/
def Stage.pop : Stage W ω → Pop W
  | taking _ pop => pop
  | unparking next => next.pop
  | clearing next => next.pop
  | releasing next => next.pop
  | _ => .popped none

/-- The item that an answer returns. -/
def Answer.item : Answer W → List W
  | ready (some item) => [item]
  | tried (.ok item) => [item]
  | _ => []

/-- The item that the inbox has taken and not returned. -/
def Stage.carried : Stage W ω → List W
  | unparking next => next.carried
  | clearing next => next.carried
  | releasing next => next.carried
  | returning answer => answer.item
  | _ => []

/-- The item that the next step of the inbox returns. -/
def Stage.answered : Stage W ω → List W
  | returning answer => answer.item
  | _ => []

/-- A mailbox and what is recorded of its run. -/
structure History (ι κ W ω : Type) where
  system : System ι κ W ω
  /-- The items of the calls of `try_push`, in the order the calls began. -/
  offered : List W
  /-- The number of the last call of each thread. -/
  call : ι → ℕ
  /-- The number of positions that were claimed when each thread last read the tail. -/
  place : ι → ℕ
  /-- The calls that claimed a position, with their items, in the order of the positions. -/
  claims : List (ℕ × W)
  /-- The calls that returned `Ok`. -/
  accepted : List ℕ
  /-- The calls that returned `Err`, with the items that they handed back. -/
  refused : List (ℕ × W)
  /-- The items that the inbox returned, in order. -/
  received : List W
  /-- Whether a thread has pushed since it last announced. -/
  owes : ι → Bool
  /-- Whether an item was taken since the last call of `poll_recv` began. -/
  taken : Bool

/-- What a step has made of a call of `try_push`, when this is left of it. -/
def outcome (push : Push W) : Option (Push W) → Push W
  | some push' => push'
  | none =>
      match push.value with
      | some item => .refused item
      | none => .pushed

namespace History

def start (system : System ι κ W ω) : History ι κ W ω where
  system := system
  offered := []
  call := fun _ => 0
  place := fun _ => 0
  claims := []
  accepted := []
  refused := []
  received := []
  owes := fun _ => false
  taken := false

/-- Whether a step of the inbox begins a call of `poll_recv`. -/
def begins : Stage W ω → Stage W ω → Bool
  | .resting, .taking .first _ => true
  | _, _ => false

/-- The history after a step of the inbox. -/
def afterInbox (x : History ι κ W ω) (s : System ι κ W ω) : History ι κ W ω :=
  { x with
    system := s
    received := x.received ++ x.system.stage.answered
    taken := !begins x.system.stage s.stage && (x.taken || 0 < x.system.stage.pop.frees) }

variable [DecidableEq ι]

/-- The history after a step of a thread. -/
def afterSender (x : History ι κ W ω) (i : ι) (s : System ι κ W ω) : History ι κ W ω :=
  match (x.system.sender i).push, (s.sender i).push with
  | none, none =>
      { x with
        system := s
        owes := Function.update x.owes i
          (match x.system.sender i with
            | .announcing _ => false
            | _ => x.owes i) }
  | none, some push =>
      { x with
        system := s
        offered := x.offered ++ push.value.toList
        call := Function.update x.call i x.offered.length }
  | some push, rest =>
      let push' := outcome push rest
      { x with
        system := s
        place := Function.update x.place i (push'.place x.claims.length (x.place i))
        claims := x.claims ++ (push.claimed push').map fun item => (x.call i, item)
        accepted := x.accepted ++ if push'.isPushed then [x.call i] else []
        refused := x.refused ++ push'.handedBack.toList.map fun item => (x.call i, item)
        owes := Function.update x.owes i (x.owes i || push'.isPushed) }

/-- The history after a step. -/
def after (x : History ι κ W ω) (s : System ι κ W ω) : Party ι → History ι κ W ω
  | .inbox => x.afterInbox s
  | .sender i => x.afterSender i s

/-- An exchange comes before the words have started over since the tail was read. -/
def Fresh (x : History ι κ W ω) : Party ι → Prop
  | .inbox => True
  | .sender i => ∀ item w, (x.system.sender i).push = some (.claiming item w) →
      x.claims.length <
        x.place i + x.system.ring.capacity * (Ring.wordSize / x.system.ring.oneLap)

variable [DecidableEq κ] [DecidableEq ω]

/-- One step of a mailbox, with what is recorded of it. -/
def Step (x : History ι κ W ω) (p : Party ι) (y : History ι κ W ω) : Prop :=
  Mailbox.Step x.system p y.system ∧ y = x.after y.system p

omit [DecidableEq κ] [DecidableEq ω] in
@[simp]
theorem after_system (x : History ι κ W ω) (s : System ι κ W ω) (p : Party ι) :
  (x.after s p).system = s
  := by
  cases p with
  | inbox => rfl
  | sender i =>
    rw [after, afterSender]
    split <;> rfl

/-- A step of the mailbox is recorded. -/
theorem step_after {x : History ι κ W ω} {s : System ι κ W ω} {p : Party ι}
    (h : Mailbox.Step x.system p s) :
  x.Step p (x.after s p)
  := by
  rw [Step, after_system]
  exact ⟨h, rfl⟩

end History

/-! ### What every step keeps -/

/-- Whether the inbox has found no handle. -/
def Stage.closed : Stage W ω → Bool
  | registering true _ => true
  | parking true => true
  | taking (.again true) _ => true
  | taking (.trying true) _ => true
  | unparking next => next.closed
  | clearing next => next.closed
  | releasing next => next.closed
  | returning (.ready none) => true
  | returning (.tried (.error .closed)) => true
  | _ => false

/-- Whether the inbox has found no handle and then no item. -/
def Stage.drained : Stage W ω → Bool
  | unparking next => next.drained
  | clearing next => next.drained
  | releasing next => next.drained
  | returning (.ready none) => true
  | returning (.tried (.error .closed)) => true
  | _ => false

/-- Whether a call of `pop` that the inbox is in has not returned. -/
def Stage.busy : Stage W ω → Bool
  | taking _ (.popped _) => false
  | unparking next => next.busy
  | clearing next => next.busy
  | releasing next => next.busy
  | _ => true

theorem Stage.closed_of_drained {stage : Stage W ω} (h : stage.drained = true) :
  stage.closed = true
  := by
  induction stage with
  | unparking next ih => exact ih h
  | clearing next ih => exact ih h
  | releasing next ih => exact ih h
  | returning answer =>
    match answer, h with
    | .ready none, _ => rfl
    | .tried (.error .closed), _ => rfl
  | _ => cases h

/-- The mailbox agrees with what is recorded of it. -/
structure Consistent (L : Laps) (x : History ι κ W ω) : Prop where
  recorded : Recorded L x.system.ring x.system.head x.system.stage.pop
    (fun i => (x.system.sender i).push) x.call x.place x.offered x.claims x.accepted x.refused
    (x.received ++ x.system.stage.carried)
  uses : ∀ i h, (x.system.sender i).uses = some h → h ∈ x.system.handles
  count : x.system.producers = x.system.handles.length
  closed : x.system.stage.closed = true → x.system.handles = []
  drained : x.system.stage.drained = true → x.received = x.claims.map Prod.snd
  busy : x.system.stage.busy = true

variable {L : Laps} {x y : History ι κ W ω} {s' : System ι κ W ω} {i : ι}

section AfterTake

variable (look : Look)

theorem Stage.afterTake_pop (item : Option W) :
  (Stage.afterTake look item : Stage W ω).pop = .popped none
  := by
  rcases look with _ | (_ | _) | (_ | _) <;> cases item <;> rfl

theorem Stage.afterTake_carried (item : Option W) :
  (Stage.afterTake look item : Stage W ω).carried = item.toList
  := by
  rcases look with _ | (_ | _) | (_ | _) <;> cases item <;> rfl

theorem Stage.afterTake_closed (pop : Pop W) (item : Option W)
    (h : (Stage.afterTake look item : Stage W ω).closed = true) :
  (Stage.taking look pop : Stage W ω).closed = true
  := by
  rcases look with _ | (_ | _) | (_ | _) <;> cases item <;> first | rfl | cases h

theorem Stage.afterTake_drained (pop : Pop W) (item : Option W)
    (h : (Stage.afterTake look item : Stage W ω).drained = true) :
  (Stage.taking look pop : Stage W ω).closed = true ∧ item = none
  := by
  rcases look with _ | (_ | _) | (_ | _) <;> cases item <;> first | exact ⟨rfl, rfl⟩ | cases h

theorem Stage.afterPop_pop (pop : Pop W) :
  (Stage.afterPop look pop : Stage W ω).pop = pop.rest.getD (.popped none)
  := by
  match pop with
  | .popped (some item) => apply Stage.afterTake_pop look (some item)
  | .popped none => apply Stage.afterTake_pop look none
  | .looking => rfl
  | .emptying => rfl
  | .freeing _ => rfl

theorem Stage.afterPop_carried (pop : Pop W) :
  (Stage.afterPop look pop : Stage W ω).carried = pop.result.toList
  := by
  match pop with
  | .popped (some item) => apply Stage.afterTake_carried look (some item)
  | .popped none => apply Stage.afterTake_carried look none
  | .looking => rfl
  | .emptying => rfl
  | .freeing _ => rfl

theorem Stage.afterPop_closed (pop pop' : Pop W)
    (h : (Stage.afterPop look pop' : Stage W ω).closed = true) :
  (Stage.taking look pop : Stage W ω).closed = true
  := by
  match pop' with
  | .popped (some item) => exact Stage.afterTake_closed look pop (some item) h
  | .popped none => exact Stage.afterTake_closed look pop none h
  | .looking => rcases look with _ | (_ | _) | (_ | _) <;> exact h
  | .emptying => rcases look with _ | (_ | _) | (_ | _) <;> exact h
  | .freeing _ => rcases look with _ | (_ | _) | (_ | _) <;> exact h

theorem Stage.afterPop_drained (pop pop' : Pop W)
    (h : (Stage.afterPop look pop' : Stage W ω).drained = true) :
  (Stage.taking look pop : Stage W ω).closed = true ∧ pop' = .popped none
  := by
  match pop' with
  | .popped (some item) => cases (Stage.afterTake_drained look pop (some item) h).2
  | .popped none => exact ⟨(Stage.afterTake_drained look pop none h).1, rfl⟩
  | .looking => cases h
  | .emptying => cases h
  | .freeing _ => cases h

theorem Stage.afterPop_busy (pop : Pop W) :
  (Stage.afterPop look pop : Stage W ω).busy = true
  := by
  match pop with
  | .popped (some item) => rcases look with _ | (_ | _) | (_ | _) <;> rfl
  | .popped none => rcases look with _ | (_ | _) | (_ | _) <;> rfl
  | .looking => rfl
  | .emptying => rfl
  | .freeing _ => rfl

end AfterTake

/-- What the inbox may go on to without touching the ring, when it finds this many handles. -/
structure Stage.Onward (producers : ℕ) (before after : Stage W ω) : Prop where
  pop : after.pop = before.pop ∨ after.pop = .looking ∧ before.pop = .popped none
  answered : before.answered = []
  carried : after.carried = before.carried
  closed : after.closed = true → before.closed = true ∨ producers = 0
  drained : after.drained = true → before.drained = true
  busy : before.busy = true → after.busy = true

section Onward

variable {producers : ℕ} {next : Stage W ω} {closed parked : Bool}

theorem Stage.onward_unpark :
  Stage.Onward producers (.unparking next) (if parked then .clearing next else next)
  := by
  split
  · exact ⟨Or.inl rfl, rfl, rfl, Or.inl, id, id⟩
  · exact ⟨Or.inl rfl, rfl, rfl, Or.inl, id, id⟩

/-- The inbox begins to register, and remembers whether it found no handles. -/
theorem Stage.onward_count {call : Registrar ω} :
  Stage.Onward producers (.counting : Stage W ω) (.registering (producers == 0) call)
  := by
  refine ⟨Or.inl rfl, rfl, rfl, fun hclosed => ?_, by rintro ⟨⟩, id⟩
  right
  cases hcount : producers == 0 with
  | true => exact eq_of_beq hcount
  | false =>
    rw [hcount] at hclosed
    cases hclosed

theorem Stage.onward_register {call call' : Registrar ω} :
  Stage.Onward producers (.registering closed call : Stage W ω) (.afterRegister closed call')
  := by
  refine ⟨Or.inl ?_, rfl, ?_, fun hclosed => ?_, fun hdrained => ?_, fun _ => ?_⟩
  · cases call' <;> rfl
  · cases call' <;> rfl
  · left
    cases closed with
    | true => rfl
    | false => cases call' <;> cases hclosed
  · cases call' <;> cases hdrained
  · cases call' <;> rfl

theorem Stage.onward_park :
  Stage.Onward producers (.parking closed : Stage W ω) (.taking (.again closed) .looking)
  := by
  refine ⟨Or.inr ⟨rfl, rfl⟩, rfl, rfl, ?_, by rintro ⟨⟩, id⟩
  cases closed <;> exact Or.inl

theorem Stage.onward_countTrying :
  Stage.Onward producers (.trying : Stage W ω) (.taking (.trying (producers == 0)) .looking)
  := by
  refine ⟨Or.inr ⟨rfl, rfl⟩, rfl, rfl, fun hclosed => ?_, by rintro ⟨⟩, id⟩
  right
  cases hcount : producers == 0 with
  | true => exact eq_of_beq hcount
  | false =>
    rw [hcount] at hclosed
    cases hclosed

theorem Stage.onward_drop {call call' : Notifier ω} :
  Stage.Onward producers (.dropping call : Stage W ω) (.afterDrop call')
  := by
  refine ⟨Or.inl ?_, rfl, ?_, fun hclosed => ?_, fun hdrained => ?_, fun _ => ?_⟩
  · cases call' <;> rfl
  · cases call' <;> rfl
  · cases call' <;> cases hclosed
  · cases call' <;> cases hdrained
  · cases call' <;> rfl

end Onward

/-- The inbox moves on without touching the ring. -/
theorem Consistent.inbox {before : Stage W ω} {taken : Bool} (h : Consistent L x)
    (hstage : x.system.stage = before) (hring : s'.ring = x.system.ring)
    (hhead : s'.head = x.system.head) (hsender : s'.sender = x.system.sender)
    (hhandles : s'.handles = x.system.handles) (hproducers : s'.producers = x.system.producers)
    (honward : before.Onward x.system.producers s'.stage) :
  Consistent L
    { x with system := s', received := x.received ++ x.system.stage.answered, taken := taken }
  := by
  subst hstage
  rw [honward.answered, List.append_nil]
  refine ⟨?_, ?_, ?_, ?_, ?_, honward.busy h.busy⟩
  · show Recorded L s'.ring s'.head s'.stage.pop (fun i => (s'.sender i).push) _ _ _ _ _ _
      (x.received ++ s'.stage.carried)
    rw [hring, hhead, hsender, honward.carried]
    rcases honward.pop with hpop | ⟨hpop, hnone⟩
    · rw [hpop]
      exact h.recorded
    · have hrecorded := h.recorded
      rw [hnone] at hrecorded
      rw [hpop]
      exact hrecorded.look
  · show ∀ i h, (s'.sender i).uses = some h → h ∈ s'.handles
    rw [hsender, hhandles]
    exact h.uses
  · show s'.producers = s'.handles.length
    rw [hproducers, hhandles]
    exact h.count
  · intro hstage
    show s'.handles = []
    rw [hhandles]
    rcases honward.closed hstage with hclosed | hzero
    · exact h.closed hclosed
    · rw [h.count] at hzero
      exact List.eq_nil_of_length_eq_zero hzero
  · intro hstage
    exact h.drained (honward.drained hstage)

/-- Without handles no push is in progress. -/
theorem Consistent.push_none (h : Consistent L x) (hnone : x.system.handles = []) (i : ι) :
  (x.system.sender i).push = none
  := by
  cases hi : x.system.sender i with
  | pushing handle push announced =>
    have hmem := h.uses i handle (by rw [hi]; rfl)
    rw [hnone] at hmem
    cases hmem
  | _ => rfl

/-- When the inbox has found no handle and then no item, all claimed positions were freed. -/
theorem Consistent.emptied {look : Look} {pop : Pop W} {ring : Ring.Inner W} {head : ℕ}
    (h : Consistent L x) (hstage : x.system.stage = .taking look pop)
    (hclosed : x.system.stage.closed = true)
    (hpop : pop.step x.system.ring x.system.head = .ok (ring, head, .popped none)) :
  x.received = x.claims.map Prod.snd
  := by
  have hnone := h.push_none (h.closed hclosed)
  have hrecorded := h.recorded
  rw [hstage] at hrecorded
  obtain ⟨phase, hmarks⟩ := hrecorded.marked
  have hlength : x.received.length = (x.claims.map Prod.snd).length := by
    cases pop with
    | looking =>
      rcases hmarks.nothing hpop with hall | ⟨i, hi⟩
      · rw [← hall]
        exact congrArg List.length (List.append_nil _).symm
      · rw [hnone i] at hi
        exact (hi rfl).elim
    | emptying =>
      rw [Pop.step, bind_eq_ok] at hpop
      obtain ⟨slot, -, hpop⟩ := hpop
      cases hpop
    | freeing value =>
      rw [Pop.step] at hpop
      cases hpop
      obtain ⟨hlt, -, hvalue⟩ := hmarks.pop
      rw [List.getElem?_eq_getElem hlt] at hvalue
      cases hvalue
    | popped value =>
      have hbusy := h.busy
      rw [hstage] at hbusy
      cases hbusy
  apply List.IsPrefix.eq_of_length _ hlength
  have hprefix := hrecorded.inOrder
  rw [show (Stage.taking look pop : Stage W ω).carried = [] from rfl, List.append_nil] at hprefix
  exact hprefix

/-- The inbox takes a step of `pop`. -/
theorem Consistent.take {look : Look} {pop pop' : Pop W} {ring : Ring.Inner W} {head freed : ℕ}
    {taken : Bool} (h : Consistent L x) (hstage : x.system.stage = .taking look pop)
    (hpop : pop.step x.system.ring x.system.head = .ok (ring, head, pop')) :
  Consistent L { x with
    system := { x.system with
      ring := ring, head := head, freed := freed, stage := .afterPop look pop' }
    received := x.received ++ x.system.stage.answered
    taken := taken }
  := by
  rw [hstage]
  have hrecorded := h.recorded
  rw [hstage] at hrecorded
  rw [show (Stage.taking look pop : Stage W ω).answered = [] from rfl, List.append_nil]
  refine ⟨?_, h.uses, h.count, ?_, ?_, Stage.afterPop_busy look pop'⟩
  · have hnext := hrecorded.popStep hpop
    rw [← Stage.afterPop_pop (ω := ω) look, ← Stage.afterPop_carried (ω := ω) look] at hnext
    rw [show (Stage.taking look pop : Stage W ω).carried = [] from rfl, List.append_nil] at hnext
    exact hnext
  · intro hclosed
    apply h.closed
    rw [hstage]
    exact Stage.afterPop_closed look pop pop' hclosed
  · intro hdrained
    obtain ⟨hclosed, rfl⟩ := Stage.afterPop_drained look pop pop' hdrained
    apply h.emptied hstage _ hpop
    rw [hstage]
    exact hclosed

/-- The inbox returns. -/
theorem Consistent.answer {answer : Answer W} {taken : Bool} (h : Consistent L x)
    (hstage : x.system.stage = .returning answer) :
  Consistent L { x with
    system := x.system.answer answer
    received := x.received ++ x.system.stage.answered
    taken := taken }
  := by
  rw [hstage]
  have hrecorded := h.recorded
  rw [hstage, show (Stage.returning answer : Stage W ω).carried = answer.item from rfl,
    ← List.append_nil (x.received ++ _)] at hrecorded
  cases answer with
  | pending => exact ⟨hrecorded, h.uses, h.count, nofun, nofun, rfl⟩
  | ready item => exact ⟨hrecorded, h.uses, h.count, nofun, nofun, rfl⟩
  | tried item => exact ⟨hrecorded, h.uses, h.count, nofun, nofun, rfl⟩

variable [DecidableEq ι] [DecidableEq κ] [DecidableEq ω]

omit [DecidableEq ι] [DecidableEq κ] in
/-- A step of the inbox. -/
theorem Consistent.inboxStep (h : Consistent L x) (hstep : InboxStep x.system s') :
  Consistent L (x.afterInbox s')
  := by
  rw [History.afterInbox]
  cases hstep with
  | poll hstage =>
    exact h.inbox hstage rfl rfl rfl rfl rfl
      ⟨Or.inr ⟨rfl, rfl⟩, rfl, rfl, by rintro ⟨⟩, by rintro ⟨⟩, id⟩
  | tryRecv hstage =>
    exact h.inbox hstage rfl rfl rfl rfl rfl
      ⟨Or.inl rfl, rfl, rfl, by rintro ⟨⟩, by rintro ⟨⟩, id⟩
  | take hstage hpop => exact h.take hstage hpop
  | unpark hstage => exact h.inbox hstage rfl rfl rfl rfl rfl Stage.onward_unpark
  | clear hstage =>
    exact h.inbox hstage rfl rfl rfl rfl rfl ⟨Or.inl rfl, rfl, rfl, Or.inl, id, id⟩
  | release hstage =>
    exact h.inbox hstage rfl rfl rfl rfl rfl ⟨Or.inl rfl, rfl, rfl, Or.inl, id, id⟩
  | count hstage => exact h.inbox hstage rfl rfl rfl rfl rfl Stage.onward_count
  | register hstage => exact h.inbox hstage rfl rfl rfl rfl rfl Stage.onward_register
  | park hstage => exact h.inbox hstage rfl rfl rfl rfl rfl Stage.onward_park
  | countTrying hstage => exact h.inbox hstage rfl rfl rfl rfl rfl Stage.onward_countTrying
  | answer hstage => exact h.answer hstage
  | leave hstage =>
    exact h.inbox hstage rfl rfl rfl rfl rfl
      ⟨Or.inl rfl, rfl, rfl, by rintro ⟨⟩, by rintro ⟨⟩, id⟩
  | depart hstage =>
    exact h.inbox hstage rfl rfl rfl rfl rfl
      ⟨Or.inl rfl, rfl, rfl, by rintro ⟨⟩, by rintro ⟨⟩, id⟩
  | close hstage =>
    exact h.inbox hstage rfl rfl rfl rfl rfl
      ⟨Or.inl rfl, rfl, rfl, by rintro ⟨⟩, by rintro ⟨⟩, id⟩
  | drop hstage => exact h.inbox hstage rfl rfl rfl rfl rfl Stage.onward_drop

omit [DecidableEq κ] [DecidableEq ω] in
theorem push_update (sender : ι → Sender κ W ω) (i : ι) (a : Sender κ W ω) :
  (fun j => (Function.update sender i a j).push) =
    Function.update (fun j => (sender j).push) i a.push
  := by
  ext1 j
  by_cases hj : j = i
  · subst hj
    rw [Function.update_self, Function.update_self]
  · rw [Function.update_of_ne hj, Function.update_of_ne hj]

omit [DecidableEq κ] [DecidableEq ω] in
theorem uses_update {sender : ι → Sender κ W ω} {handles : List κ} {a : Sender κ W ω}
    (h : ∀ j h, (sender j).uses = some h → h ∈ handles) (ha : ∀ h, a.uses = some h → h ∈ handles) :
  ∀ j h, (Function.update sender i a j).uses = some h → h ∈ handles
  := by
  intro j handle huses
  by_cases hj : j = i
  · subst hj
    rw [Function.update_self] at huses
    exact ha handle huses
  · rw [Function.update_of_ne hj] at huses
    exact h j handle huses

omit [DecidableEq κ] [DecidableEq ω] in
/-- A thread moves on outside of `try_push`. -/
theorem Consistent.aside {a : Sender κ W ω} {handles : List κ} {producers : ℕ}
    (h : Consistent L x) (hi : (x.system.sender i).push = none) (ha : a.push = none)
    (huses : ∀ j h, (Function.update x.system.sender i a j).uses = some h → h ∈ handles)
    (hcount : producers = handles.length) (hclosed : x.system.handles = [] → handles = [])
    (owner : WakerSlot ω) (woken : Bool) :
  Consistent L (x.afterSender i { x.system with
    sender := Function.update x.system.sender i a
    handles := handles
    producers := producers
    bell := { x.system.bell with owner := owner }
    woken := woken })
  := by
  have hpush : Function.update (fun j => (x.system.sender j).push) i a.push =
      fun j => (x.system.sender j).push := by
    rw [ha, ← hi]
    exact Function.update_eq_self i _
  rw [History.afterSender, hi, show (Function.update x.system.sender i a i).push = none by
    rw [Function.update_self]; exact ha]
  refine ⟨?_, huses, hcount, ?_, h.drained, h.busy⟩
  · show Recorded L _ _ _ (fun j => (Function.update x.system.sender i a j).push) _ _ _ _ _ _ _
    rw [push_update, hpush]
    exact h.recorded
  · intro hstage
    exact hclosed (h.closed hstage)

omit [DecidableEq κ] [DecidableEq ω] in
/-- A thread calls `try_push`. -/
theorem Consistent.offer {handle : κ} {item : W} {announced : Bool} (h : Consistent L x)
    (hi : (x.system.sender i).push = none) (hhandle : handle ∈ x.system.handles) :
  Consistent L (x.afterSender i (x.system.setSender i (.pushing handle (.reading item) announced)))
  := by
  rw [History.afterSender, hi, show ((x.system.setSender i
    (.pushing handle (.reading item) announced)).sender i).push = some (.reading item) by
      rw [System.sender_setSender_self]; rfl]
  refine ⟨?_, uses_update h.uses ?_, h.count, h.closed, h.drained, h.busy⟩
  · show Recorded L _ _ _ (fun j => (Function.update x.system.sender i
      (.pushing handle (.reading item) announced) j).push) _ _ _ _ _ _ _
    rw [push_update]
    exact h.recorded.offer item hi
  · rintro _ ⟨⟩
    exact hhandle

omit [DecidableEq κ] [DecidableEq ω] in
/-- What is left of a step of `try_push` tells what the step has made of the call. -/
theorem outcome_rest {push push' : Push W} {ring ring' : Ring.Inner W} {spurious : Bool}
    (hpush : push.rest = some push) (hstep : push.step ring spurious = .ok (ring', push')) :
  outcome push push'.rest = push'
  := by
  rcases Push.step_cases hstep hpush with
    ⟨hvalue, -, -, hpushed, -⟩ | ⟨v, w, rfl, rfl⟩ | ⟨v, w, rfl, rfl⟩ | ⟨w, rfl, rfl⟩
  · cases push' with
    | pushed => cases hpushed
    | refused item =>
      show outcome push none = _
      rw [outcome, ← hvalue]
      rfl
    | _ => rfl
  · rfl
  · rfl
  · rfl

omit [DecidableEq κ] [DecidableEq ω] in
theorem Sender.afterPush_push (handle : κ) (announced : Bool) (push : Push W) :
  (Sender.afterPush handle announced push : Sender κ W ω).push = push.rest
  := by
  cases push with
  | pushed => cases announced <;> rfl
  | _ => rfl

omit [DecidableEq κ] [DecidableEq ω] in
theorem Sender.afterPush_uses {handle handle' : κ} {announced : Bool} {push : Push W}
    (h : (Sender.afterPush handle announced push : Sender κ W ω).uses = some handle') :
  handle' = handle
  := by
  cases push with
  | pushed =>
    cases announced with
    | true => exact (Option.some_inj.mp h).symm
    | false => cases h
  | _ => exact (Option.some_inj.mp h).symm

omit [DecidableEq κ] [DecidableEq ω] in
/-- A thread moves on inside `try_push`. -/
theorem Consistent.pushStep {handle : κ} {push push' : Push W} {announced spurious : Bool}
    {ring : Ring.Inner W} (h : Consistent L x)
    (hi : x.system.sender i = .pushing handle push announced)
    (hstep : push.step x.system.ring spurious = .ok (ring, push')) (hfresh : x.Fresh (.sender i)) :
  Consistent L (x.afterSender i
    ({ x.system with ring := ring }.setSender i (.afterPush handle announced push')))
  := by
  have hpush : (x.system.sender i).push = some push := by
    rw [hi]
    rfl
  have hrest := h.recorded.tally.rest i push hpush
  have hhandle : handle ∈ x.system.handles := by
    apply h.uses i handle
    rw [hi]
    rfl
  have hwrap : ∀ v w, push = .claiming v w → x.claims.length < x.place i + L.period := by
    rintro v w rfl
    obtain ⟨phase, hmarks⟩ := h.recorded.marked
    rw [← hmarks.fits.period]
    exact hfresh v w hpush
  have hself : (({ x.system with ring := ring }.setSender i
      (.afterPush handle announced push')).sender i).push = push'.rest := by
    rw [System.sender_setSender_self]
    exact Sender.afterPush_push handle announced push'
  rw [History.afterSender, hpush, hself]
  show Consistent L { x with
    system := _, place := _, claims := _, accepted := _, refused := _, owes := _ }
  rw [outcome_rest hrest hstep]
  refine ⟨?_, uses_update h.uses ?_, h.count, h.closed, ?_, h.busy⟩
  · show Recorded L _ _ _ (fun j => (Function.update x.system.sender i
      (.afterPush handle announced push') j).push) _ _ _ _ _ _ _
    rw [push_update, Sender.afterPush_push]
    exact h.recorded.pushStep hpush hstep hwrap
  · intro handle' huses
    rw [Sender.afterPush_uses huses]
    exact hhandle
  · intro hdrained
    rw [h.closed (Stage.closed_of_drained hdrained)] at hhandle
    cases hhandle

/-- A step of a thread. -/
theorem Consistent.senderStep (h : Consistent L x) (hstep : SenderStep x.system i s')
    (hfresh : x.Fresh (.sender i)) :
  Consistent L (x.afterSender i s')
  := by
  have hsame : ∀ {a : Sender κ W ω}, (∀ h, a.uses = some h → h ∈ x.system.handles) →
      ∀ j h, (Function.update x.system.sender i a j).uses = some h → h ∈ x.system.handles :=
    uses_update h.uses
  have howner : ∀ {handle : κ}, (x.system.sender i).uses = some handle →
      handle ∈ x.system.handles := h.uses i _
  have hidle : ∀ h, (Sender.idle : Sender κ W ω).uses = some h → h ∈ x.system.handles := by
    rintro _ ⟨⟩
  have hnonempty : ∀ {handle : κ} {handles : List κ}, handle ∈ x.system.handles →
      x.system.handles = [] → handles = [] := by
    intro handle handles hmem hnil
    rw [hnil] at hmem
    cases hmem
  cases hstep with
  | @send handle item announced hi hhandle =>
    have ha : ∀ h, (Sender.checking handle item announced : Sender κ W ω).uses = some h →
        h ∈ x.system.handles := by
      rintro _ ⟨⟩
      exact hhandle
    exact h.aside (by rw [hi]; rfl) rfl (hsame ha) h.count id _ _
  | @announce handle hi hhandle =>
    have ha : ∀ h, (Sender.announcing handle : Sender κ W ω).uses = some h →
        h ∈ x.system.handles := by
      rintro _ ⟨⟩
      exact hhandle
    exact h.aside (by rw [hi]; rfl) rfl (hsame ha) h.count id _ _
  | @clone handle handle' hi hhandle hnew =>
    have huses : ∀ j h, (Function.update x.system.sender i .idle j).uses = some h →
        h ∈ handle' :: x.system.handles := by
      intro j h huses
      exact List.mem_cons_of_mem _ (hsame hidle j h huses)
    have hcount : x.system.producers + 1 = (handle' :: x.system.handles).length := by
      rw [h.count]
      rfl
    have hnext := h.aside (i := i) (a := .idle) (by rw [hi]; rfl) rfl huses hcount
      (hnonempty hhandle) x.system.bell.owner x.system.woken
    rw [← hi, Function.update_eq_self] at hnext
    exact hnext
  | @drop handle hi hhandle hfree =>
    have hnone : (x.system.sender i).push = none := by
      rw [hi]
      rfl
    have hold : ∀ j h, (x.system.sender j).uses = some h → h ∈ x.system.handles.erase handle := by
      intro j handle' huses
      have hne : handle' ≠ handle := by
        rintro rfl
        exact hfree j huses
      exact (List.mem_erase_of_ne hne).mpr (h.uses j handle' huses)
    have hcount : x.system.producers - 1 = (x.system.handles.erase handle).length := by
      rw [h.count, List.length_erase_of_mem hhandle]
    split
    · exact h.aside hnone rfl (uses_update hold (by rintro _ ⟨⟩)) hcount (hnonempty hhandle) _ _
    · exact h.aside hnone rfl (uses_update hold (by rintro _ ⟨⟩)) hcount (hnonempty hhandle) _ _
  | @check handle item announced hi =>
    have hnone : (x.system.sender i).push = none := by
      rw [hi]
      rfl
    split
    · exact h.aside hnone rfl (hsame hidle) h.count id _ _
    · apply h.offer hnone
      apply howner
      rw [hi]
      rfl
  | @push handle push push' announced spurious ring hi hpush => exact h.pushStep hi hpush hfresh
  | @recheck handle hi => exact h.aside (by rw [hi]; rfl) rfl (hsame hidle) h.count id _ _
  | @look handle hi =>
    have hnone : (x.system.sender i).push = none := by
      rw [hi]
      rfl
    split
    · have ha : ∀ h, (Sender.ringing (some handle) : Sender κ W ω).uses = some h →
          h ∈ x.system.handles := by
        rintro _ ⟨⟩
        apply howner
        rw [hi]
        rfl
      exact h.aside hnone rfl (hsame ha) h.count id _ _
    · exact h.aside hnone rfl (hsame hidle) h.count id _ _
  | @ring handle hi =>
    have hnone : (x.system.sender i).push = none := by
      rw [hi]
      rfl
    split
    · exact h.aside hnone rfl (hsame hidle) h.count id _ _
    · have ha : ∀ h, (Sender.waking handle .wanting : Sender κ W ω).uses = some h →
          h ∈ x.system.handles := by
        intro handle' huses
        apply howner
        rw [hi]
        exact huses
      exact h.aside hnone rfl (hsame ha) h.count id _ _
  | @wake handle call hi =>
    have hnone : (x.system.sender i).push = none := by
      rw [hi]
      rfl
    have ha : ∀ h, (Sender.afterWake handle (call.step x.system.bell.owner).2.1 :
        Sender κ W ω).uses = some h → h ∈ x.system.handles := by
      intro handle' huses
      apply howner
      rw [hi]
      cases hcall : (call.step x.system.bell.owner).2.1 with
      | out =>
        rw [hcall] at huses
        cases huses
      | _ =>
        rw [hcall] at huses
        exact huses
    have hpush : (Sender.afterWake handle (call.step x.system.bell.owner).2.1 :
        Sender κ W ω).push = none := by
      cases (call.step x.system.bell.owner).2.1 <;> rfl
    exact h.aside hnone hpush (hsame ha) h.count id _ _

/-- Every step in which no thread is overtaken by a whole period keeps the record. -/
theorem Consistent.step {p : Party ι} (h : Consistent L x) (hstep : x.Step p y)
    (hfresh : x.Fresh p) :
  Consistent L y
  := by
  obtain ⟨hstep, hy⟩ := hstep
  rw [hy]
  cases hstep with
  | inbox hstep => exact h.inboxStep hstep
  | sender hstep => exact h.senderStep hstep hfresh

omit [DecidableEq ι] [DecidableEq κ] [DecidableEq ω] in
theorem consistent_channel {capacity : ℕ} {handle : κ} {waker : ω} {start : System ι κ W ω}
    (h : System.channel capacity handle waker = .ok start) :
  ∃ L, Consistent L (.start start)
  := by
  obtain ⟨_, _, h⟩ := Checked.bind_eq_ok.mp h
  obtain ⟨ring, hring, hopen⟩ := Checked.bind_eq_ok.mp h
  cases hopen
  obtain ⟨L, rfl, hfits, htail, hslots⟩ := Ring.bounded_fits hring
  refine ⟨L, Recorded.start hfits htail hslots, ?_, rfl, ?_, ?_, rfl⟩
  · rintro i h ⟨⟩
  · rintro ⟨⟩
  · rintro ⟨⟩

/-- In every run in which no thread is overtaken by a whole period, the record agrees. -/
theorem consistent_of_run {capacity : ℕ} {handle : κ} {waker : ω} {start : System ι κ W ω}
    {t : List (Party ι)} (hstart : System.channel capacity handle waker = .ok start)
    (hrun : Trail (fun x p y => History.Step x p y ∧ x.Fresh p) (.start start) t x) :
  ∃ L, Consistent L x
  := by
  obtain ⟨L, hconsistent⟩ := consistent_channel hstart
  refine ⟨L, ?_⟩
  apply hrun.invariant (fun _ x => Consistent L x) hconsistent
  intro _ x p y _ h hstep
  exact h.step hstep.1 hstep.2

end Grommet.Mailbox
