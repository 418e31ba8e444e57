import Grommet.Runtime.Mailbox.History

/-!
# Closing a mailbox is conclusive

When `poll_recv` returns `Ready(None)` or `try_recv` returns `Closed`, every handle was dropped
and every item that was pushed was returned before.

This needs that no thread is overtaken by a whole period of positions.  A thread that stops
between its read of the tail and its exchange while the words start over takes the slot of an
item that was not taken out.
-/

open Checked

namespace Grommet.Mailbox

open Grommet.Ring (Push Pop)

variable {ι κ W ω : Type} {x y : History ι κ W ω} {s s' : System ι κ W ω}

/-- A call of the inbox is about to report that the mailbox is closed. -/
def Stage.ReportsClosed (stage : Stage W ω) : Prop :=
  stage = .returning (.ready none) ∨ stage = .returning (.tried (.error .closed))

/-- The handles were dropped and what was pushed was received. -/
structure History.Finished (x : History ι κ W ω) : Prop where
  dropped : x.system.handles = []
  /-- No call of `try_push` is in progress. -/
  returned : ∀ i, (x.system.sender i).push = none
  /-- The items received are those of the claimed positions, in the order of the claims. -/
  inOrder : x.received = x.claims.map Prod.snd
  /-- No call claims two positions, and each claims a position for its own item. -/
  once : (x.claims.map Prod.fst).Nodup ∧ ∀ c ∈ x.claims, x.offered[c.1]? = some c.2
  /-- A call that returned `Ok` has claimed a position. -/
  accepted : ∀ c ∈ x.accepted, c ∈ x.claims.map Prod.fst

section

variable [DecidableEq ι] [DecidableEq κ] [DecidableEq ω]

/-- In every run in which no thread is overtaken by a whole period of positions between its
read of the tail and its exchange, a mailbox that is reported closed has no handle left and all
its items were received before. -/
theorem closing_is_conclusive {capacity : ℕ} {handle : κ} {waker : ω} {start : System ι κ W ω}
    {t : List (Party ι)} (hstart : System.channel capacity handle waker = .ok start)
    (hrun : Trail (fun x p y => History.Step x p y ∧ x.Fresh p) (.start start) t x)
    (hclosed : x.system.stage.ReportsClosed) :
  x.Finished
  := by
  obtain ⟨L, h⟩ := consistent_of_run hstart hrun
  have hdrained : x.system.stage.drained = true := by
    rcases hclosed with hstage | hstage <;> rw [hstage] <;> rfl
  have hnone := h.closed (Stage.closed_of_drained hdrained)
  exact ⟨hnone, h.push_none hnone, h.drained hdrained,
    ⟨h.recorded.tally.nodup, h.recorded.tally.offers⟩, h.recorded.tally.claimed⟩

/-- An item is pushed and received, the handle is dropped and the mailbox is reported closed. -/
theorem closing_is_conclusive_received :
  ∃ (start : System Unit Unit ℕ ℕ) (t : List (Party Unit)) (x : History Unit Unit ℕ ℕ),
    System.channel 1 () 0 = .ok start ∧
    Trail (fun x p y => History.Step x p y ∧ x.Fresh p) (.start start) t x ∧
    x.system.stage.ReportsClosed ∧ x.accepted = [0] ∧ x.received = [5] ∧ x.Finished
  := by
  have hstart : (System.channel 1 () 0 : Checked (System Unit Unit ℕ ℕ)) =
      .ok (System.opened ⟨0, [⟨0, none⟩], 1, 2⟩ () 0) := rfl
  have hsend : Trail (fun x p y => History.Step x p y ∧ x.Fresh p)
      (.start (System.opened ⟨0, [⟨0, none⟩], 1, 2⟩ () 0 : System Unit Unit ℕ ℕ)) _ _ :=
    Trail.nil.snoc ⟨History.step_after (.sender (i := ())
      (show SenderStep _ () (System.setSender _ () (.checking () 5 false)) from
        .send rfl (List.mem_singleton_self _))), by rintro v w ⟨⟩⟩
  have hcheck := hsend.snoc ⟨History.step_after (.sender (i := ()) (.check rfl)),
    by rintro v w ⟨⟩⟩
  have hread := hcheck.snoc ⟨History.step_after (.sender (i := ()) (.push rfl
    (show Push.step _ false _ = _ from rfl))), by rintro v w ⟨⟩⟩
  have hinspect := hread.snoc ⟨History.step_after (.sender (i := ()) (.push rfl
    (show Push.step _ false _ = _ from rfl))), by rintro v w ⟨⟩⟩
  have hclaim := hinspect.snoc ⟨History.step_after (.sender (i := ()) (.push rfl
    (show Push.step _ false _ = _ from rfl))),
    fun _ _ _ => show 0 < 0 + 1 * (Ring.wordSize / 2) by decide⟩
  have hwrite := hclaim.snoc ⟨History.step_after (.sender (i := ()) (.push rfl
    (show Push.step _ false _ = _ from rfl))), by rintro v w ⟨⟩⟩
  have hpublish := hwrite.snoc ⟨History.step_after (.sender (i := ()) (.push rfl
    (show Push.step _ false _ = _ from rfl))), by rintro v w ⟨⟩⟩
  have hpoll := hpublish.snoc ⟨History.step_after (.inbox (.poll (v := 7) rfl)), trivial⟩
  have hlook := hpoll.snoc ⟨History.step_after (.inbox (.take rfl rfl)), trivial⟩
  have hempty := hlook.snoc ⟨History.step_after (.inbox (.take rfl rfl)), trivial⟩
  have hfree := hempty.snoc ⟨History.step_after (.inbox (.take rfl rfl)), trivial⟩
  have hunpark := hfree.snoc ⟨History.step_after (.inbox (.unpark rfl)), trivial⟩
  have hanswer := hunpark.snoc ⟨History.step_after (.inbox (.answer rfl)), trivial⟩
  have hdrop := hanswer.snoc ⟨History.step_after (.sender (i := ())
    (.drop (h := ()) rfl (List.mem_singleton_self _) (by rintro j ⟨⟩))), by rintro v w ⟨⟩⟩
  have htry := hdrop.snoc ⟨History.step_after (.inbox (.tryRecv rfl)), trivial⟩
  have hcount := htry.snoc ⟨History.step_after (.inbox (.countTrying rfl)), trivial⟩
  have hnothing := hcount.snoc ⟨History.step_after (.inbox (.take rfl rfl)), trivial⟩
  have hclosed := hnothing.snoc ⟨History.step_after (.inbox (.release rfl)), trivial⟩
  exact ⟨_, _, _, hstart, hclosed, Or.inr rfl, rfl, rfl,
    closing_is_conclusive hstart hclosed (Or.inr rfl)⟩

/-! ### Runs in which the words start over -/

/-- A run leads to this mailbox, with these items received, so many positions claimed and so
many calls that returned `Ok`. -/
def Reached (start s : System ι κ W ω) (received : List W) (claimed accepted : ℕ) : Prop :=
  ∃ t x, Trail History.Step (.start start) t x ∧ x.system = s ∧ x.received = received ∧
    x.claims.length = claimed ∧ x.accepted.length = accepted

variable {start : System ι κ W ω} {received : List W} {claimed accepted : ℕ} {i : ι}

theorem Reached.inbox (h : Reached start s received claimed accepted) (hstep : InboxStep s s')
    (hstage : ∀ answer, s.stage ≠ .returning answer) :
  Reached start s' received claimed accepted
  := by
  obtain ⟨t, x, hrun, rfl, rfl, rfl, rfl⟩ := h
  refine ⟨_, _, hrun.snoc (History.step_after (.inbox hstep)), rfl, ?_, rfl, rfl⟩
  rw [History.after, History.afterInbox]
  cases hat : x.system.stage with
  | returning answer => exact (hstage answer hat).elim
  | _ => exact List.append_nil _

theorem Reached.answer {answer : Answer W} (h : Reached start s received claimed accepted)
    (hstage : s.stage = .returning answer) :
  Reached start (s.answer answer) (received ++ answer.item) claimed accepted
  := by
  obtain ⟨t, x, hrun, rfl, rfl, rfl, rfl⟩ := h
  refine ⟨_, _, hrun.snoc (History.step_after (.inbox (.answer hstage))), rfl, ?_, rfl, rfl⟩
  rw [History.after, History.afterInbox, hstage]
  rfl

/-- A thread takes a step outside of `try_push`. -/
theorem Reached.sender (h : Reached start s received claimed accepted) (hstep : SenderStep s i s')
    (hpush : (s.sender i).push = none) :
  Reached start s' received claimed accepted
  := by
  obtain ⟨t, x, hrun, rfl, rfl, rfl, rfl⟩ := h
  refine ⟨_, _, hrun.snoc (History.step_after (.sender hstep)), History.after_system _ _ _, ?_⟩
  rw [History.after, History.afterSender, hpush]
  cases (s'.sender i).push <;> exact ⟨rfl, rfl, rfl⟩

/-- A thread takes a step of `try_push`. -/
theorem Reached.push {push : Push W} (h : Reached start s received claimed accepted)
    (push' : Push W) (hstep : SenderStep s i s') (hpush : (s.sender i).push = some push)
    (houtcome : outcome push (s'.sender i).push = push') :
  Reached start s' received (claimed + (push.claimed push').length)
    (accepted + push'.isPushed.toNat)
  := by
  obtain ⟨t, x, hrun, rfl, rfl, rfl, rfl⟩ := h
  subst houtcome
  refine ⟨_, _, hrun.snoc (History.step_after (.sender hstep)), History.after_system _ _ _, ?_⟩
  rw [History.after, History.afterSender, hpush]
  refine ⟨rfl, ?_, ?_⟩
  · show (x.claims ++ List.map _ _).length = _
    rw [List.length_append, List.length_map]
  · show (x.accepted ++ if _ then _ else _).length = _
    rw [List.length_append]
    cases (outcome push (s'.sender i).push).isPushed <;> rfl

section Rounds

/-- A mailbox that was never parked, with one handle. -/
def busy (ring : Ring.Inner Bool) (head freed : ℕ) (stage : Stage Bool Unit)
    (sender : Bool → Sender Unit Bool Unit) : System Bool Unit Bool Unit :=
  { (System.opened ring () () : System Bool Unit Bool Unit) with
    head := head
    freed := freed
    stage := stage
    sender := sender }

/-- A ring of one slot. -/
def single (tail stamp : ℕ) (value : Option Bool) : Ring.Inner Bool :=
  ⟨tail, [⟨stamp, value⟩], 1, 2⟩

variable {first : System Bool Unit Bool Unit} {items : List Bool} {ring ring' : Ring.Inner Bool}
  {tail stamp head freed w n m : ℕ} {value : Option Bool} {stage : Stage Bool Unit} {push : Push Bool}
  {sender : Bool → Sender Unit Bool Unit} {b item : Bool}

theorem single_index (hw : w % 2 = 0) :
  (single tail stamp value).index w = 0
  := by
  show w &&& 1 = 0
  rw [Nat.and_one_is_mod, hw]

theorem single_advance (hw : w % 2 = 0) :
  (single tail stamp value).advance w = (w + 2) % Ring.wordSize
  := by
  rw [Ring.Inner.advance, single_index hw]
  rfl

theorem single_slot (hw : w % 2 = 0) :
  (single tail stamp value).slot w = .ok ⟨stamp, value⟩
  := by
  rw [Ring.Inner.slot, single_index hw]
  rfl

theorem single_setSlot (hw : w % 2 = 0) (f : Ring.Slot Bool → Ring.Slot Bool) :
  (single tail stamp value).setSlot w f = single tail (f ⟨stamp, value⟩).stamp
    (f ⟨stamp, value⟩).value
  := by
  rw [Ring.Inner.setSlot, single_index hw]
  rfl

/-- A thread moves on inside `try_push`. -/
theorem Reached.pushStep {push' : Push Bool}
    (h : Reached first (busy ring head freed stage
      (Function.update sender b (.pushing () push false))) items n m)
    (hrest : push.rest = some push) (hstep : push.step ring false = .ok (ring', push')) :
  Reached first (busy ring' head freed stage
    (Function.update sender b (.afterPush () false push'))) items
    (n + (push.claimed push').length) (m + push'.isPushed.toNat)
  := by
  have hself : Function.update sender b (.pushing () push false) b =
      .pushing () push false := Function.update_self _ _ _
  have hnext := SenderStep.push (s := busy ring head freed stage
    (Function.update sender b (.pushing () push false))) (i := b) hself hstep
  have hreached := h.push push' hnext (congrArg Sender.push hself) (by
    rw [System.sender_setSender_self, Sender.afterPush_push]
    exact outcome_rest hrest hstep)
  rw [System.setSender, busy, Function.update_idem] at hreached
  exact hreached

/-- A thread calls `try_send_deferred` and reads the tail. -/
theorem Reached.offer (h : Reached first (busy ring head freed stage sender) items n m)
    (hidle : sender b = .idle) (item : Bool) :
  Reached first (busy ring head freed stage
    (Function.update sender b (.pushing () (.inspecting item ring.tail) false))) items n m
  := by
  have hsend : SenderStep (busy ring head freed stage sender) b
      (System.setSender _ b (.checking () item false)) :=
    .send hidle (List.mem_singleton_self _)
  have hchecking := h.sender hsend (congrArg Sender.push hidle)
  have hcheck := SenderStep.check (s := (busy ring head freed stage sender).setSender b
    (.checking () item false)) (i := b) System.sender_setSender_self
  have hreading := hchecking.sender hcheck (congrArg Sender.push System.sender_setSender_self)
  have hread : Reached first (busy ring head freed stage
      (Function.update sender b (.pushing () (.reading item) false))) items n m := by
    rw [System.setSender, System.setSender, Function.update_idem] at hreading
    exact hreading
  exact hread.pushStep rfl rfl

/-- A thread that has found its slot free pushes its item. -/
theorem Reached.finish (hw : w % 2 = 0)
    (h : Reached first (busy (single w stamp value) head freed stage
      (Function.update sender b (.pushing () (.claiming item w) false))) items n m) :
  Reached first (busy (single ((w + 2) % Ring.wordSize) ((w + 1) % Ring.wordSize) (some item)) head
    freed stage (Function.update sender b .idle)) items (n + 1) (m + 1)
  := by
  have hclaim : (Push.claiming item w).step (single w stamp value) false =
      .ok (single ((w + 2) % Ring.wordSize) stamp value, .writing item w) := by
    rw [Push.step, if_pos ⟨rfl, rfl⟩, single_advance hw]
    rfl
  have hwrite : (Push.writing item w).step (single ((w + 2) % Ring.wordSize) stamp value) false =
      .ok (single ((w + 2) % Ring.wordSize) stamp (some item), .publishing w) := by
    rw [Push.step, single_setSlot hw]
  have hpublish : (Push.publishing w).step
      (single ((w + 2) % Ring.wordSize) stamp (some item)) false =
      .ok (single ((w + 2) % Ring.wordSize) ((w + 1) % Ring.wordSize) (some item), .pushed) := by
    rw [Push.step, single_setSlot hw]
  have hwriting := h.pushStep rfl hclaim
  have hpublishing := hwriting.pushStep rfl hwrite
  exact hpublishing.pushStep rfl hpublish

/-- The inbox receives the item in the slot. -/
theorem Reached.receive (hw : w % 2 = 0)
    (h : Reached first (busy (single tail ((w + 1) % Ring.wordSize) (some item)) w freed .resting
      sender) items n m) :
  Reached first (busy (single tail ((w + 2) % Ring.wordSize) none) ((w + 2) % Ring.wordSize)
    (freed + 1) .resting sender) (items ++ [item]) n m
  := by
  have hlook : (Pop.looking : Pop Bool).step (single tail ((w + 1) % Ring.wordSize) (some item)) w =
      .ok (single tail ((w + 1) % Ring.wordSize) (some item), w, .emptying) := by
    rw [Pop.step, single_slot hw]
    exact if_pos rfl
  have hempty : (Pop.emptying : Pop Bool).step (single tail ((w + 1) % Ring.wordSize) (some item)) w =
      .ok (single tail ((w + 1) % Ring.wordSize) none, w, .freeing (some item)) := by
    rw [Pop.step, single_slot hw, single_setSlot hw]
    rfl
  have hfree : (Pop.freeing (some item)).step (single tail ((w + 1) % Ring.wordSize) none) w =
      .ok (single tail ((w + 2) % Ring.wordSize) none, (w + 2) % Ring.wordSize,
        .popped (some item)) := by
    rw [Pop.step, single_setSlot hw, single_advance hw]
    rfl
  have hpoll := h.inbox (.poll (v := ()) rfl) (by rintro _ ⟨⟩)
  have hlooked := hpoll.inbox (.take rfl hlook) (by rintro _ ⟨⟩)
  have hemptied := hlooked.inbox (.take rfl hempty) (by rintro _ ⟨⟩)
  have hfreed := hemptied.inbox (.take rfl hfree) (by rintro _ ⟨⟩)
  have hunparked := hfreed.inbox (.unpark rfl) (by rintro _ ⟨⟩)
  exact hunparked.answer rfl

/-- A thread pushes an item into the free slot. -/
theorem Reached.pushRound (hw : w % 2 = 0) (hidle : sender b = .idle)
    (h : Reached first (busy (single w w none) head freed stage sender) items n m) :
  Reached first (busy (single ((w + 2) % Ring.wordSize) ((w + 1) % Ring.wordSize) (some false)) head
    freed stage sender) items (n + 1) (m + 1)
  := by
  have hinspect : (Push.inspecting false w).step (single w w none) false =
      .ok (single w w none, .claiming false w) := by
    rw [Push.step, single_slot hw]
    exact if_pos rfl
  have hclaiming := (h.offer hidle false).pushStep rfl hinspect
  have hpushed := Reached.finish hw hclaiming
  rw [← hidle, Function.update_eq_self] at hpushed
  exact hpushed

/-- So many items were pushed and received. -/
theorem Reached.rounds (k : ℕ) (hidle : sender b = .idle)
    (h : Reached first (busy (single 0 0 none) 0 0 .resting sender) [] 0 0) :
  Reached first (busy (single (2 * k % Ring.wordSize) (2 * k % Ring.wordSize) none)
    (2 * k % Ring.wordSize) k .resting sender) (List.replicate k false) k k
  := by
  induction k with
  | zero => exact h
  | succ k ih =>
    have hw : 2 * k % Ring.wordSize % 2 = 0 := by
      rw [Ring.wordSize]
      omega
    have hword : (2 * k % Ring.wordSize + 2) % Ring.wordSize = 2 * (k + 1) % Ring.wordSize := by
      rw [Nat.mod_add_mod]
      rfl
    have hreceived := Reached.receive hw (Reached.pushRound hw hidle ih)
    rw [hword, ← List.replicate_succ'] at hreceived
    exact hreceived

/-- The one handle is dropped, and the inbox finds nothing at its position. -/
theorem Reached.close (hidle : sender b = .idle) (huses : ∀ i, (sender i).uses ≠ some ())
    (hw : w % 2 = 0) (hstamp : stamp ≠ (w + 1) % Ring.wordSize)
    (h : Reached first (busy (single tail stamp value) w freed .resting sender) items n m) :
  ∃ s, s.stage = .returning (.tried (.error .closed)) ∧ Reached first s items n m
  := by
  have hlook : (Pop.looking : Pop Bool).step (single tail stamp value) w =
      .ok (single tail stamp value, w, .popped none) := by
    rw [Pop.step, single_slot hw]
    exact if_neg hstamp
  have hdrop := h.sender (.drop (h := ()) hidle (List.mem_singleton_self _) huses)
    (congrArg Sender.push hidle)
  have htry := hdrop.inbox (.tryRecv rfl) (by rintro _ ⟨⟩)
  have hcount := htry.inbox (.countTrying rfl) (by rintro _ ⟨⟩)
  have hnothing := hcount.inbox (.take rfl hlook) (by rintro _ ⟨⟩)
  have hrelease := hnothing.inbox (.release rfl) (by rintro _ ⟨⟩)
  exact ⟨_, rfl, hrelease⟩

end Rounds

/-- One thread has read the first position and stops before its exchange.  Another one pushes
until the tail is at that word again, with an item in the slot: the exchange succeeds and the
item is overwritten, so that the inbox finds neither and reports the mailbox closed. -/
theorem overtaken_push_loses_items :
  ∃ (start : System Bool Unit Bool Unit) (t : List (Party Bool)) (x : History Bool Unit Bool Unit),
    System.channel 1 () () = .ok start ∧ Trail History.Step (.start start) t x ∧
    x.system.stage.ReportsClosed ∧ x.received.length < x.accepted.length ∧ ¬ x.Finished
  := by
  have hstart : System.channel 1 () () =
      .ok (busy (single 0 0 none) 0 0 .resting fun _ => .idle) := rfl
  have hfirst : Reached (busy (single 0 0 none) 0 0 .resting fun _ => .idle)
      (busy (single 0 0 none) 0 0 .resting fun _ => .idle) [] 0 0 :=
    ⟨_, _, Trail.nil, rfl, rfl, rfl, rfl⟩
  have hinspect : (Push.inspecting true 0).step (single 0 0 none) false =
      .ok (single 0 0 none, .claiming true 0) := rfl
  have hstalled := (Reached.offer (b := true) hfirst rfl true).pushStep rfl hinspect
  have hrounds := Reached.rounds (b := false) (2 ^ 63 - 1) rfl hstalled
  have hfull := Reached.pushRound (b := false) (by decide) rfl hrounds
  have hword : (2 * (2 ^ 63 - 1) % Ring.wordSize + 2) % Ring.wordSize = 0 := by decide
  rw [hword] at hfull
  have hpushed := Reached.finish (by decide) hfull
  obtain ⟨s, hstage, t, x, hrun, rfl, hreceived, hclaimed, haccepted⟩ :=
    hpushed.close (b := true) rfl (by rintro (_ | _) ⟨⟩) (by decide) (by decide)
  refine ⟨_, t, x, hstart, hrun, Or.inr hstage, ?_, ?_⟩
  · rw [hreceived, haccepted, List.length_replicate]
    omega
  · intro hfinished
    have hlength := congrArg List.length hfinished.inOrder
    rw [hreceived, List.length_map, hclaimed, List.length_replicate] at hlength
    omega

end

end Grommet.Mailbox
