import Grommet.Library.Trail
import Grommet.Runtime.Waiters.Registry
import Mathlib.Order.Nat

/-!
# Waiting for room

Any number of futures run `park_until` on one queue: a poll attempts what it waits for, and
when there is no room it parks or refreshes its registration and attempts again.  Between
any two of these steps other futures are polled and dropped, others take and release room
without queueing, and releases wake the caller that has waited longest.

A wake ends the registration of its caller, and a poll that finds its registration over does
not make a new one.  When the room that the caller was woken for is gone by then, the poll
returns with neither a registration nor a wake to come.  In the runs where that does not
happen no waiting caller is forgotten.
-/

open Checked

namespace Grommet

/-- One attempt at whatever a parked caller is waiting for. -/
inductive Attempt where
  | ready
  | retry
  | closed
  deriving DecidableEq

/-- What the callers wait for: the attempt of each caller, and what the others do. -/
structure Resource (ι σ : Type) where
  attempt : ι → σ → Attempt × σ
  others : σ → σ → Prop

/-! ### Permits of a semaphore -/

structure Semaphore where
  permits : ℕ
  closed : Bool
  deriving DecidableEq

namespace Semaphore

/-- Decrement if there is anything to decrement. -/
def take (s : Semaphore) : Bool × Semaphore :=
  if s.permits = 0 then (false, s) else (true, { s with permits := s.permits - 1 })

/-- The attempt of `acquire`. -/
def acquire (s : Semaphore) : Attempt × Semaphore :=
  match s.take with
  | (true, s) => (.ready, s)
  | (false, s) => if s.closed then (.closed, s) else (.retry, s)

/-- What happens to the permits outside of a waiting `acquire`. -/
inductive Others (s : Semaphore) : Semaphore → Prop
  | tryAcquire : Others s s.take.2
  | release : Others s { s with permits := s.permits + 1 }
  | close : Others s { s with closed := true }

def resource (ι : Type) : Resource ι Semaphore := ⟨fun _ => acquire, Others⟩

end Semaphore

/-! ### Room in a mailbox -/

/-- The ring of a mailbox, and whether its inbox is gone. -/
structure Ring (W : Type) where
  items : List W
  capacity : ℕ
  departed : Bool
  deriving DecidableEq

namespace Ring

variable {ι W : Type}

/-- The attempt of `send`. -/
def send (r : Ring W) (item : W) : Attempt × Ring W :=
  if r.departed then
    (.closed, r)
  else if r.items.length < r.capacity then
    (.ready, { r with items := r.items ++ [item] })
  else
    (.retry, r)

/-- What happens to the ring outside of a waiting `send`. -/
inductive Others (r : Ring W) : Ring W → Prop
  | trySend (item : W) : Others r (r.send item).2
  | pop : Others r { r with items := r.items.tail }
  | depart : Others r { r with departed := true }

def resource (item : ι → W) : Resource ι (Ring W) := ⟨fun f r => r.send (item f), Others⟩

end Ring

namespace Waiters

/-! ### The protocol -/

/-- Where a future that runs `park_until` stands. -/
inductive Stage where
  /-- Not polled yet. -/
  | idle
  /-- Before the attempt that precedes any registration. -/
  | trying
  | parking
  | refreshing (ticket : Ticket)
  /-- Registered, before the attempt that follows; `ended` tells that the registration had
  ended before it was refreshed. -/
  | announced (ticket : Ticket) (ended : Bool)
  /-- The last poll returned `Pending`. -/
  | pending (ticket : Ticket)
  /-- The attempt succeeded; the registration is still to be given up. -/
  | finishing (ticket : Ticket)
  /-- Dropped after its wake, which is still to be passed on. -/
  | passing
  /-- Completed or dropped. -/
  | gone
  deriving DecidableEq

/-- The ticket that a future holds. -/
def Stage.ticket : Stage → Option Ticket
  | refreshing ticket => some ticket
  | announced ticket _ => some ticket
  | pending ticket => some ticket
  | finishing ticket => some ticket
  | _ => none

/-- The futures that wait, the queue they park on and what they wait for. -/
structure System (ι σ : Type) where
  waiters : Waiters
  resource : σ
  stage : ι → Stage
  /-- The waker of the last poll. -/
  waker : ι → Waker
  /-- Whether that waker was woken since the last poll began. -/
  woken : ι → Bool

inductive Event (ι : Type) where
  /-- A poll begins. -/
  | poll (f : ι) (waker : Waker)
  | attempt (f : ι)
  | park (f : ι)
  | refresh (f : ι)
  | finish (f : ι)
  | drop (f : ι)
  /-- A dropped future passes its wake on. -/
  | pass (f : ι)
  /-- Others take, free or close what is waited for. -/
  | others
  /-- A release wakes one caller. -/
  | wakeOne
  | close
  deriving DecidableEq

variable {ι σ : Type} [DecidableEq ι]

namespace System

def start (resource : σ) : System ι σ where
  waiters := Waiters.new
  resource := resource
  stage := fun _ => .idle
  waker := fun _ => 0
  woken := fun _ => false

def setStage (s : System ι σ) (f : ι) (stage : Stage) : System ι σ :=
  { s with stage := Function.update s.stage f stage }

/-- A poll begins with the given waker. -/
def polled (s : System ι σ) (f : ι) (waker : Waker) : System ι σ :=
  { s with
    waker := Function.update s.waker f waker
    woken := Function.update s.woken f false }

omit [DecidableEq ι] in
/-- The futures whose wakers are in the list are woken. -/
def wake (s : System ι σ) (wakers : List Waker) : System ι σ :=
  { s with woken := fun f => s.woken f || wakers.contains (s.waker f) }

end System

/-- One step of the protocol. -/
inductive Step (r : Resource ι σ) (s : System ι σ) : Event ι → System ι σ → Prop
  | begin {f : ι} {v : Waker} : s.stage f = .idle →
      Step r s (.poll f v) ((s.polled f v).setStage f .trying)
  | resume {f : ι} {v : Waker} {ticket : Ticket} : s.stage f = .pending ticket →
      Step r s (.poll f v) ((s.polled f v).setStage f (.refreshing ticket))
  | attemptFirst {f : ι} : s.stage f = .trying →
      Step r s (.attempt f) ({ s with resource := (r.attempt f s.resource).2 }.setStage f
        (match (r.attempt f s.resource).1 with
          | .retry => .parking
          | _ => .gone))
  | park {f : ι} {w : Waiters} {ticket : Ticket} : s.stage f = .parking →
      s.waiters.park (s.waker f) = .ok (w, .ok ticket) →
      Step r s (.park f) ({ s with waiters := w }.setStage f (.announced ticket false))
  | parkClosed {f : ι} {w : Waiters} {e : Closed} : s.stage f = .parking →
      s.waiters.park (s.waker f) = .ok (w, .error e) →
      Step r s (.park f) ({ s with waiters := w }.setStage f .gone)
  | refresh {f : ι} {ticket : Ticket} : s.stage f = .refreshing ticket →
      Step r s (.refresh f) ({ s with waiters := s.waiters.refresh ticket (s.waker f) }.setStage f
        (.announced ticket (!s.waiters.inner.live ticket)))
  | attemptAgain {f : ι} {ticket : Ticket} {ended : Bool} : s.stage f = .announced ticket ended →
      Step r s (.attempt f) ({ s with resource := (r.attempt f s.resource).2 }.setStage f
        (match (r.attempt f s.resource).1 with
          | .retry => .pending ticket
          | _ => .finishing ticket))
  | finish {f : ι} {ticket : Ticket} {w : Waiters} {live : Bool} : s.stage f = .finishing ticket →
      s.waiters.cancel ticket = .ok (w, live) →
      Step r s (.finish f) ({ s with waiters := w }.setStage f .gone)
  | dropIdle {f : ι} : s.stage f = .idle → Step r s (.drop f) (s.setStage f .gone)
  | drop {f : ι} {ticket : Ticket} {w : Waiters} {live : Bool} : s.stage f = .pending ticket →
      s.waiters.cancel ticket = .ok (w, live) →
      Step r s (.drop f) ({ s with waiters := w }.setStage f (if live then .gone else .passing))
  | pass {f : ι} {w : Waiters} {woken : Option Waker} : s.stage f = .passing →
      s.waiters.wakeOne = .ok (w, woken) →
      Step r s (.pass f) (({ s with waiters := w }.wake woken.toList).setStage f .gone)
  | others {x : σ} : r.others s.resource x → Step r s .others { s with resource := x }
  | wakeOne {w : Waiters} {woken : Option Waker} : s.waiters.wakeOne = .ok (w, woken) →
      Step r s .wakeOne ({ s with waiters := w }.wake woken.toList)
  | close {w : Waiters} {woken : List Waker} : s.waiters.close = .ok (w, woken) →
      Step r s .close ({ s with waiters := w }.wake woken)

/-- A caller that waits is registered, or was woken since its last poll began. -/
def System.Remembers (s : System ι σ) (f : ι) : Prop :=
  ∀ ticket, s.stage f = .pending ticket → s.waiters.inner.live ticket = true ∨ s.woken f = true

/-- A poll that refreshed a registration that was over finds room, and generations do not
wrap. -/
def Meets (r : Resource ι σ) (s : System ι σ) : Event ι → Prop
  | .attempt f => ∀ ticket, s.stage f = .announced ticket true →
      (r.attempt f s.resource).1 ≠ .retry
  | .park _ => s.waiters.inner.nextGeneration + 1 < 2 ^ 64
  | _ => True

/-! ### What every step keeps -/

/-- Whether the future has announced itself and waits. -/
def Stage.waits : Stage → Option Ticket
  | announced ticket false => some ticket
  | pending ticket => some ticket
  | _ => none

/-- The tickets of the futures are their own, and a future that waits is registered with the
waker of its last poll, or has been woken. -/
structure Inv (s : System ι σ) : Prop where
  sound : s.waiters.inner.Sound
  issued : ∀ f t, (s.stage f).ticket = some t → t.generation < s.waiters.inner.nextGeneration
  own : ∀ f g t, (s.stage f).ticket = some t → (s.stage g).ticket = some t → f = g
  registered : ∀ f t, (s.stage f).waits = some t →
    s.waiters.inner.waker t = some (s.waker f) ∨ s.woken f = true

theorem Stage.ticket_of_waits {stage : Stage} {t : Ticket} (h : stage.waits = some t) :
  stage.ticket = some t
  := by
  cases stage with
  | announced ticket ended =>
    cases ended with
    | false => exact h
    | true => cases h
  | pending ticket => exact h
  | _ => cases h

variable {r : Resource ι σ} {s s' : System ι σ} {f : ι} {t : Ticket} {w : Waiters} {stage : Stage}

omit [DecidableEq ι] in
theorem inv_start (x : σ) :
  Inv (System.start x : System ι σ)
  := by
  refine ⟨⟨?_, List.nodup_nil⟩, ?_, ?_, ?_⟩
  · intro slot hslot
    cases hslot
  · intro f t ht
    cases ht
  · intro f g t ht
    cases ht
  · intro f t ht
    cases ht

omit [DecidableEq ι] in
/-- What is waited for does not matter to the registrations. -/
theorem Inv.setResource (h : Inv s) (x : σ) :
  Inv { s with resource := x }
  := ⟨h.sound, h.issued, h.own, h.registered⟩

omit [DecidableEq ι] in
/-- Ending registrations and waking their wakers forgets nobody. -/
theorem Inv.wake {woken : List Waker} (h : Inv s) (hwakes : Wakes s.waiters.inner w.inner woken) :
  Inv ({ s with waiters := w }.wake woken)
  := by
  refine ⟨hwakes.sound, ?_, h.own, ?_⟩
  · intro f t ht
    apply lt_of_lt_of_eq (h.issued f t ht)
    exact hwakes.generation.symm
  · intro f t ht
    have hlate : ∀ b : Bool, s.woken f = true → (s.woken f || b) = true := by
      intro b hb
      rw [hb, Bool.true_or]
    rcases h.registered f t ht with hwaker | hdone
    · rcases hwakes.ends t with heq | ⟨-, v, hv, hwaker'⟩
      · exact Or.inl (heq.trans hwaker)
      · right
        rw [hwaker, Option.some_inj] at hwaker'
        have hcontains : woken.contains (s.waker f) = true := by
          rw [List.contains_iff_mem, hwaker']
          exact hv
        show (s.woken f || woken.contains (s.waker f)) = true
        rw [hcontains, Bool.or_true]
    · exact Or.inr (hlate _ hdone)

/-- A step of one future leaves the registrations of the others alone. -/
theorem Inv.move (h : Inv s) (hsound : s'.waiters.inner.Sound)
    (hnext : s.waiters.inner.nextGeneration ≤ s'.waiters.inner.nextGeneration)
    (hothers : ∀ g, g ≠ f → s'.stage g = s.stage g ∧ s'.waker g = s.waker g ∧
      s'.woken g = s.woken g)
    (hkeep : ∀ g t, g ≠ f → (s.stage g).ticket = some t →
      s'.waiters.inner.waker t = s.waiters.inner.waker t)
    (hticket : ∀ t, (s'.stage f).ticket = some t → (s.stage f).ticket = some t ∨
      (t.generation = s.waiters.inner.nextGeneration ∧
        s.waiters.inner.nextGeneration < s'.waiters.inner.nextGeneration))
    (hself : ∀ t, (s'.stage f).waits = some t →
      s'.waiters.inner.waker t = some (s'.waker f) ∨ s'.woken f = true) :
  Inv s'
  := by
  have hfresh : ∀ g t, g ≠ f → (s'.stage f).ticket = some t → (s'.stage g).ticket ≠ some t := by
    intro g t hg hf ht
    rw [(hothers g hg).1] at ht
    rcases hticket t hf with hold | ⟨hgeneration, -⟩
    · apply hg (h.own g f t ht hold)
    · have hissued := h.issued g t ht
      omega
  refine ⟨hsound, ?_, ?_, ?_⟩
  · intro g t ht
    by_cases hg : g = f
    · subst hg
      rcases hticket t ht with hold | ⟨hgeneration, hlt⟩
      · exact lt_of_lt_of_le (h.issued g t hold) hnext
      · omega
    · rw [(hothers g hg).1] at ht
      exact lt_of_lt_of_le (h.issued g t ht) hnext
  · intro g k t hg hk
    by_cases hgf : g = f
    · subst hgf
      by_contra hne
      apply hfresh k t (Ne.symm hne) hg hk
    · by_cases hkf : k = f
      · subst hkf
        exact (hfresh g t hgf hk hg).elim
      · rw [(hothers g hgf).1] at hg
        rw [(hothers k hkf).1] at hk
        apply h.own g k t hg hk
  · intro g t ht
    by_cases hg : g = f
    · subst hg
      apply hself t ht
    · obtain ⟨hstage, hwaker, hwoken⟩ := hothers g hg
      rw [hstage] at ht
      rw [hwaker, hwoken, hkeep g t hg (Stage.ticket_of_waits ht)]
      apply h.registered g t ht

/-- A future that moves on without touching the queue. -/
theorem Inv.setStage (h : Inv s)
    (hticket : ∀ t, stage.ticket = some t → (s.stage f).ticket = some t)
    (hself : ∀ t, stage.waits = some t →
      s.waiters.inner.waker t = some (s.waker f) ∨ s.woken f = true) :
  Inv (s.setStage f stage)
  := by
  have hstage : (s.setStage f stage).stage f = stage := Function.update_self _ _ _
  refine h.move (f := f) h.sound le_rfl ?_ (fun _ _ _ _ => rfl) ?_ ?_
  · intro g hg
    exact ⟨Function.update_of_ne hg _ _, rfl, rfl⟩
  · intro t ht
    rw [hstage] at ht
    exact Or.inl (hticket t ht)
  · intro t ht
    rw [hstage] at ht
    apply hself t ht

/-- A future gives up its registration. -/
theorem Inv.cancel {live : Bool} (h : Inv s) (hticket : (s.stage f).ticket = some t)
    (hcancel : s.waiters.cancel t = .ok (w, live)) (hstage : stage.ticket = none) :
  Inv ({ s with waiters := w }.setStage f stage)
  := by
  obtain ⟨hsound, hnext, hwaker⟩ := cancel_spec h.sound hcancel
  have hself : ({ s with waiters := w }.setStage f stage).stage f = stage :=
    Function.update_self _ _ _
  refine h.move (f := f) hsound hnext.ge ?_ ?_ ?_ ?_
  · intro g hg
    exact ⟨Function.update_of_ne hg _ _, rfl, rfl⟩
  · intro g t' hg ht'
    apply hwaker
    rintro rfl
    apply hg (h.own g f _ ht' hticket)
  · intro t' ht'
    rw [hself, hstage] at ht'
    cases ht'
  · intro t' ht'
    rw [hself] at ht'
    rw [Stage.ticket_of_waits ht'] at hstage
    cases hstage

/-- A poll starts over what is known of the wakes of its future. -/
theorem Inv.polled {v : Waker} (h : Inv s) (hwaits : stage.waits = none)
    (hticket : ∀ t, stage.ticket = some t → (s.stage f).ticket = some t) :
  Inv ((s.polled f v).setStage f stage)
  := by
  have hself : ((s.polled f v).setStage f stage).stage f = stage := Function.update_self _ _ _
  refine h.move (f := f) h.sound le_rfl ?_ (fun _ _ _ _ => rfl) ?_ ?_
  · intro g hg
    exact ⟨Function.update_of_ne hg _ _, Function.update_of_ne hg _ _, Function.update_of_ne hg _ _⟩
  · intro t ht
    rw [hself] at ht
    exact Or.inl (hticket t ht)
  · intro t ht
    rw [hself, hwaits] at ht
    cases ht

/-- Every step that meets the condition keeps the registrations. -/
theorem Inv.step {e : Event ι} (h : Inv s) (hmeets : Meets r s e) (hstep : Step r s e s') :
  Inv s'
  := by
  cases hstep with
  | begin hstage =>
    apply h.polled rfl
    intro t ht
    cases ht
  | resume hstage =>
    apply h.polled rfl
    intro t ht
    rw [hstage]
    exact ht
  | attemptFirst hstage =>
    apply (h.setResource _).setStage
    · intro t ht
      split at ht <;> cases ht
    · intro t ht
      split at ht <;> cases ht
  | @park f w ticket hstage hpark =>
    obtain ⟨hsound, hspec⟩ := park_spec h.sound hmeets hpark
    obtain ⟨ticket', hresult, hgeneration, hnext, hwaker⟩ : ∃ ticket', _ :=
      hspec.resolve_left (by rintro ⟨e, he, -⟩; cases he)
    cases hresult
    have hself : ({ s with waiters := w }.setStage f (.announced ticket false)).stage f =
        .announced ticket false := Function.update_self _ _ _
    have hlt : s.waiters.inner.nextGeneration < w.inner.nextGeneration := by omega
    refine h.move (f := f) hsound hlt.le ?_ ?_ ?_ ?_
    · intro g hg
      exact ⟨Function.update_of_ne hg _ _, rfl, rfl⟩
    · intro g t hg ht
      apply (congrFun hwaker t).trans
      apply Function.update_of_ne
      rintro rfl
      have hissued := h.issued g _ ht
      omega
    · intro t ht
      rw [hself] at ht
      cases ht
      exact Or.inr ⟨hgeneration, hlt⟩
    · intro t ht
      rw [hself] at ht
      cases ht
      left
      apply (congrFun hwaker ticket).trans
      apply Function.update_self
  | @parkClosed f w e hstage hpark =>
    obtain ⟨-, hspec⟩ := park_spec h.sound hmeets hpark
    obtain ⟨-, -, rfl⟩ := hspec.resolve_right (by rintro ⟨_, he, -⟩; cases he)
    apply h.setStage
    · intro t ht
      cases ht
    · intro t ht
      cases ht
  | @refresh f ticket hstage =>
    obtain ⟨hsound, hnext, hwaker⟩ := refresh_spec ticket (s.waker f) h.sound
    have hself : ({ s with waiters := s.waiters.refresh ticket (s.waker f) }.setStage f
        (.announced ticket (!s.waiters.inner.live ticket))).stage f =
        .announced ticket (!s.waiters.inner.live ticket) := Function.update_self _ _ _
    have hticket : (s.stage f).ticket = some ticket := by
      rw [hstage]
      rfl
    refine h.move (f := f) hsound hnext.ge ?_ ?_ ?_ ?_
    · intro g hg
      exact ⟨Function.update_of_ne hg _ _, rfl, rfl⟩
    · intro g t hg ht
      apply (congrFun hwaker t).trans
      split
      · apply Function.update_of_ne
        rintro rfl
        apply hg (h.own g f _ ht hticket)
      · rfl
    · intro t ht
      rw [hself] at ht
      exact Or.inl (hticket.trans ht)
    · intro t ht
      rw [hself] at ht
      cases hlive : s.waiters.inner.live ticket with
      | false =>
        rw [hlive] at ht
        cases ht
      | true =>
        rw [hlive] at ht hwaker
        cases ht
        left
        apply (congrFun hwaker ticket).trans
        rw [if_pos rfl]
        apply Function.update_self
  | @attemptAgain f ticket ended hstage =>
    apply (h.setResource _).setStage
    · intro t ht
      rw [show ({ s with resource := (r.attempt f s.resource).2 } : System ι σ).stage f =
        .announced ticket ended from hstage]
      split at ht <;> exact ht
    · intro t ht
      split at ht
      · rename_i hretry
        cases ended with
        | false =>
          apply h.registered f t
          rw [hstage]
          exact ht
        | true => exact (hmeets ticket hstage hretry).elim
      · cases ht
  | finish hstage hcancel =>
    apply h.cancel _ hcancel rfl
    rw [hstage]
    rfl
  | dropIdle hstage =>
    apply h.setStage
    · intro t ht
      cases ht
    · intro t ht
      cases ht
  | drop hstage hcancel =>
    apply h.cancel _ hcancel
    · split <;> rfl
    · rw [hstage]
      rfl
  | pass hstage hwake =>
    apply (h.wake (wakeOne_wakes h.sound hwake)).setStage
    · intro t ht
      cases ht
    · intro t ht
      cases ht
  | others _ => apply h.setResource
  | wakeOne hwake => apply h.wake (wakeOne_wakes h.sound hwake)
  | close hclose => apply h.wake (close_wakes h.sound hclose)

/-! ### Runs -/

/-- In every run in which the polls of ended registrations find room, no waiting caller is
forgotten. -/
theorem no_waiter_is_forgotten {trace : List (Event ι)} (x : σ)
    (hrun : Trail (fun s e s' => Step r s e s' ∧ Meets r s e) (System.start x) trace s) (f : ι) :
  s.Remembers f
  := by
  have hinv : Inv s := by
    apply hrun.invariant (fun _ s => Inv s) (inv_start x)
    intro _ s₁ e s₂ _ hinv hstep
    apply hinv.step hstep.2 hstep.1
  intro ticket hstage
  have hwaits : (s.stage f).waits = some ticket := by
    rw [hstage]
    rfl
  apply (hinv.registered f ticket hwaits).imp_left
  intro hwaker
  exact live_iff.mpr ⟨_, hwaker⟩

/-- A sender that waits for a full mailbox is woken when an item is taken. -/
theorem no_waiter_is_forgotten_woken :
  ∃ (trace : List (Event Unit)) (s : System Unit (Ring ℕ)) (ticket : Ticket),
    Trail (fun s e s' => Step (Ring.resource fun _ => 5) s e s' ∧
      Meets (Ring.resource fun _ => 5) s e) (System.start ⟨[1], 1, false⟩) trace s ∧
    s.stage () = .pending ticket ∧ s.waiters.inner.live ticket = false ∧ s.Remembers ()
  := by
  have hpoll : Trail (fun s e s' => Step (Ring.resource fun _ : Unit => 5) s e s' ∧
      Meets (Ring.resource fun _ : Unit => 5) s e) (System.start ⟨[1], 1, false⟩) _ _ :=
    Trail.nil.snoc ⟨Step.begin (f := ()) (v := 7) rfl, trivial⟩
  have hfull := hpoll.snoc ⟨Step.attemptFirst (f := ()) rfl, by rintro ticket ⟨⟩⟩
  have hpark := hfull.snoc ⟨Step.park (f := ()) rfl rfl, show 0 + 1 < 2 ^ 64 by decide⟩
  have hpending := hpark.snoc ⟨Step.attemptAgain (f := ()) rfl, by rintro ticket ⟨⟩⟩
  have hpop := hpending.snoc ⟨Step.others .pop, trivial⟩
  have hwake := hpop.snoc ⟨Step.wakeOne rfl, trivial⟩
  exact ⟨_, _, _, hwake, rfl, rfl, no_waiter_is_forgotten _ hwake ()⟩

/-- The permit that a caller was woken for is taken by another one before the caller is polled
again: its poll returns with no registration and no wake to come. -/
theorem stolen_permit_forgets_waiter :
  ¬ ∀ (trace : List (Event Unit)) (s : System Unit Semaphore),
    Trail (Step (Semaphore.resource Unit)) (System.start ⟨1, false⟩) trace s →
      ∀ f, s.Remembers f
  := by
  intro h
  have htaken : Trail (Step (Semaphore.resource Unit)) (System.start ⟨1, false⟩) _ _ :=
    Trail.nil.snoc (Step.others .tryAcquire)
  have hpoll := htaken.snoc (Step.begin (f := ()) (v := 7) rfl)
  have hnone := hpoll.snoc (Step.attemptFirst (f := ()) rfl)
  have hpark := hnone.snoc (Step.park (f := ()) rfl rfl)
  have hpending := hpark.snoc (Step.attemptAgain (f := ()) rfl)
  have hrelease := hpending.snoc (Step.others .release)
  have hwake := hrelease.snoc (Step.wakeOne rfl)
  have hstolen := hwake.snoc (Step.others .tryAcquire)
  have hagain := hstolen.snoc (Step.resume (f := ()) (v := 7) rfl)
  have hrefresh := hagain.snoc (Step.refresh (f := ()) rfl)
  have hasleep := hrefresh.snoc (Step.attemptAgain (f := ()) rfl)
  rcases h _ _ hasleep () _ rfl with hlive | hwoken
  · cases hlive
  · cases hwoken

end Waiters

end Grommet
