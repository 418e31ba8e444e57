import Grommet.Core.Scheduler.Simulation
import Grommet.Library.Trail

/-!
# Runs of the scheduler

A caller makes calls and is told what came of them.  What it owes is in its ledger: it
completes a dispatch that it was given and has not completed yet, and it finishes a flush
of a key whose state it was handed and has not finished yet.

`Account` is the book with the ledger and their invariant, and every trail of the scheduler
is a trail of accounts with the same events.
-/

open Checked

namespace Grommet

open Queue

/-- A call of the scheduler. -/
inductive Call (K P S : Type) where
  | admitItem (item : Admit K P)
  | next (classId : ClassId) (now : Duration)
  | popExpired
  | complete (completion : Completion K S) (now : Duration)
  | evict (now : Duration) (out : List (K × S))
  | evictAll (out : List (K × S))
  | finishEvict (key : K) (now : Duration)
  deriving DecidableEq

/-- A call that returned, with what it returned.  The event of `next` names the items that
the call discarded as well. -/
inductive Event (K P S : Type) where
  | admitItem (item : Admit K P)
  | next (classId : ClassId) (now : Duration) (discarded : List (K × ClassId × P))
      (dispatch : Option (Dispatch K P S))
  | popExpired (item : Option (K × ClassId × P))
  | complete (completion : Completion K S) (now : Duration)
  | evict (now : Duration) (pushed : List (K × S))
  | evictAll (pushed : List (K × S))
  | finishEvict (key : K) (now : Duration)
  deriving DecidableEq

namespace Event

variable {K P S : Type}

/-- The item that an event dispatched. -/
def dispatched : Event K P S → Option (Dispatch K P S)
  | .next _ _ _ dispatch => dispatch
  | _ => none

/-- The keys that an event handed out for flushing, with their states. -/
def pushed : Event K P S → List (K × S)
  | .evict _ pushed => pushed
  | .evictAll pushed => pushed
  | _ => []

/-- The items that an event discarded. -/
def discarded : Event K P S → List (K × ClassId × P)
  | .next _ _ discarded _ => discarded
  | _ => []

/-- The completion that an event made. -/
def completed : Event K P S → Option (Completion K S)
  | .complete completion _ => some completion
  | _ => none

end Event

namespace Ledger

variable {K P S : Type}

/-- What a well-formed caller may call. -/
def Allows (CLASSES : ℕ) (l : Ledger K) : Call K P S → Prop
  | .admitItem item => item.classId.toNat < CLASSES
  | .complete completion _ => (completion.key, completion.classId) ∈ l.running
  | .finishEvict key _ => key ∈ l.flushing
  | _ => True

instance [DecidableEq K] (CLASSES : ℕ) (l : Ledger K) (call : Call K P S) :
    Decidable (l.Allows CLASSES call) :=
  match call with
  | .admitItem item => inferInstanceAs (Decidable (item.classId.toNat < CLASSES))
  | .next _ _ => inferInstanceAs (Decidable True)
  | .popExpired => inferInstanceAs (Decidable True)
  | .complete completion _ =>
      inferInstanceAs (Decidable ((completion.key, completion.classId) ∈ l.running))
  | .evict _ _ => inferInstanceAs (Decidable True)
  | .evictAll _ => inferInstanceAs (Decidable True)
  | .finishEvict key _ => inferInstanceAs (Decidable (key ∈ l.flushing))

/-- What the caller owes after an event. -/
def record [DecidableEq K] (l : Ledger K) : Event K P S → Ledger K
  | .next _ _ _ dispatch =>
      { l with running := l.running ++ (dispatch.map fun d => (d.key, d.classId)).toList }
  | .complete completion _ =>
      { l with running := l.running.erase (completion.key, completion.classId) }
  | .evict _ pushed => { l with flushing := l.flushing ++ pushed.map Prod.fst }
  | .evictAll pushed => { l with flushing := l.flushing ++ pushed.map Prod.fst }
  | .finishEvict key _ => { l with flushing := l.flushing.erase key }
  | _ => l

end Ledger

variable {K P S : Type} {CLASSES : ℕ} [DecidableEq K]

namespace Scheduler

/-- Make a call. -/
def perform (s : Scheduler K P S CLASSES) :
    Call K P S → Checked (Scheduler K P S CLASSES × Event K P S)
  | .admitItem item => do
      let s ← s.admitItem item
      .ok (s, .admitItem item)
  | .next classId now => do
      let (s', dispatch) ← s.next classId now
      .ok (s', .next classId now (s'.expired.drop s.expired.length) dispatch)
  | .popExpired =>
      let (s, item) := s.popExpired
      .ok (s, .popExpired item)
  | .complete completion now => do
      let s ← s.complete completion now
      .ok (s, .complete completion now)
  | .evict now out => do
      let (s, out') ← s.evict now out
      .ok (s, .evict now (out'.drop out.length))
  | .evictAll out => do
      let (s, out') ← s.evictAll out
      .ok (s, .evictAll (out'.drop out.length))
  | .finishEvict key now => do
      let s ← s.finishEvict key now
      .ok (s, .finishEvict key now)

/-- A call of a well-formed caller that returned. -/
def Step (x : Scheduler K P S CLASSES × Ledger K) (e : Event K P S)
    (y : Scheduler K P S CLASSES × Ledger K) : Prop :=
  ∃ call, x.2.Allows CLASSES call ∧ x.1.perform call = .ok (y.1, e) ∧ y.2 = x.2.record e

/-- The calls of a well-formed caller of a fresh scheduler. -/
def Run (cfg : Config CLASSES) (t : List (Event K P S)) (s : Scheduler K P S CLASSES)
    (l : Ledger K) : Prop :=
  Trail Step (new cfg, ⟨[], []⟩) t (s, l)

/-- The run of no calls. -/
theorem Run.start (cfg : Config CLASSES) :
  Run cfg [] (new cfg : Scheduler K P S CLASSES) ⟨[], []⟩
  := Trail.nil

/-- A run with one more call. -/
theorem Run.call {cfg : Config CLASSES} {t : List (Event K P S)} {s s' : Scheduler K P S CLASSES}
    {l : Ledger K} {e : Event K P S} (h : Run cfg t s l) (call : Call K P S)
    (hallow : l.Allows CLASSES call) (hok : s.perform call = .ok (s', e)) :
  Run cfg (t ++ [e]) s' (l.record e)
  := h.snoc ⟨call, hallow, hok, rfl⟩

end Scheduler

/-! ### Accounts -/

/-- A book and the ledger of its caller. -/
structure Account (K P S : Type) (CLASSES : ℕ) where
  book : Book K P S
  ledger : Ledger K
  good : book.Good CLASSES ledger

namespace Account

/-- The account of a fresh scheduler. -/
def empty : Account K P S CLASSES where
  book := .empty
  ledger := ⟨[], []⟩
  good := .empty

/-- What an event of a well-formed caller does to an account. -/
def Moves (cfg : Config CLASSES) (x : Account K P S CLASSES) (e : Event K P S) (b' : Book K P S) :
    Prop :=
  match e with
  | .admitItem item => item.classId.toNat < CLASSES ∧ b' = x.book.admitItem item
  | .next c now discarded dispatch =>
      c.toNat < CLASSES ∧ b' = (x.book.turn cfg c now).book ∧
      discarded = (x.book.turn cfg c now).discarded.map
        (fun d => (d.1, d.2.classId, d.2.payload)) ∧
      dispatch = (x.book.turn cfg c now).dispatched.map (Scheduler.toDispatch c)
  | .popExpired item => b' = x.book.popExpired ∧ item = x.book.expired.head?
  | .complete completion _ =>
      (completion.key, completion.classId) ∈ x.ledger.running ∧ b' = x.book.complete completion
  | .evict _ pushed => ∃ m, b' = (x.book.evict m).1 ∧ pushed = (x.book.evict m).2
  | .evictAll pushed =>
      b' = (x.book.evict x.book.idle.length).1 ∧ pushed = (x.book.evict x.book.idle.length).2
  | .finishEvict key _ => key ∈ x.ledger.flushing ∧ b' = x.book.finishEvict key

/-- An event of a well-formed caller. -/
def Step (cfg : Config CLASSES) (x : Account K P S CLASSES) (e : Event K P S)
    (y : Account K P S CLASSES) : Prop :=
  x.Moves cfg e y.book ∧ y.ledger = x.ledger.record e

variable {cfg : Config CLASSES} {x : Account K P S CLASSES} {e : Event K P S} {b' : Book K P S}

omit [DecidableEq K] in
theorem toDispatch_running (c : ClassId) (d : Option (K × Option S × Item P)) :
  ((d.map (Scheduler.toDispatch c)).map fun d => (d.key, d.classId)) = d.map fun d => (d.1, c)
  := by
  cases d <;> rfl

/-- The book after an event and the ledger after it are an account. -/
theorem Moves.good (h : x.Moves cfg e b') :
  b'.Good CLASSES (x.ledger.record e)
  := by
  have hg := x.good
  cases e with
  | admitItem item =>
    obtain ⟨hc, rfl⟩ := h
    apply hg.admitItem hc
  | next c now discarded dispatch =>
    obtain ⟨hc, rfl, -, rfl⟩ := h
    rw [Ledger.record, toDispatch_running]
    apply hg.turn cfg hc
  | popExpired item =>
    obtain ⟨rfl, -⟩ := h
    apply hg.discarded
  | complete completion now =>
    obtain ⟨hk, rfl⟩ := h
    apply hg.complete hk
  | evict now pushed =>
    obtain ⟨m, rfl, rfl⟩ := h
    apply hg.evict
  | evictAll pushed =>
    obtain ⟨rfl, rfl⟩ := h
    apply hg.evict
  | finishEvict key now =>
    obtain ⟨hk, rfl⟩ := h
    apply hg.finishEvict hk

end Account

namespace Scheduler

/-- The scheduler and its caller hold an account. -/
def Holds (cfg : Config CLASSES) (x : Scheduler K P S CLASSES × Ledger K)
    (a : Account K P S CLASSES) : Prop :=
  (∃ own free, x.1.Represents cfg a.book own free) ∧ x.2 = a.ledger

/-- What a scheduler that holds an account makes of an allowed call: it stops because the
arena is full, or it returns and holds the account after the event. -/
theorem Holds.perform {cfg : Config CLASSES} {x : Scheduler K P S CLASSES × Ledger K}
    {a : Account K P S CLASSES} (h : Holds cfg x a) {call : Call K P S}
    (hallow : x.2.Allows CLASSES call)
    (hclass : ∀ c now, call = .next c now → c.toNat < CLASSES) :
  ((∃ item, call = .admitItem item) ∧
      x.1.perform call = .error (.assertion Slab.exceeded)) ∨
    ∃ s' e b', x.1.perform call = .ok (s', e) ∧ a.Moves cfg e b' ∧
      ∃ own free, s'.Represents cfg b' own free
  := by
  obtain ⟨⟨own, free, hr⟩, hl⟩ := h
  have hg := a.good
  rw [hl] at hallow
  cases call with
  | admitItem item =>
    rcases hr.admitItem hg hallow with ⟨-, -, he⟩ | ⟨s', own', free', hs', hr'⟩
    · left
      refine ⟨⟨item, rfl⟩, ?_⟩
      rw [Scheduler.perform, he, error_bind]
    · right
      refine ⟨s', .admitItem item, _, ?_, ⟨hallow, rfl⟩, own', free', hr'⟩
      rw [Scheduler.perform, hs', ok_bind]
  | next c now =>
    right
    have hc := hclass c now rfl
    obtain ⟨s', own', free', hs', hr'⟩ := hr.next hg hc now
    refine ⟨s', .next c now _ _, _, ?_, ⟨hc, rfl, rfl, rfl⟩, own', free', hr'⟩
    rw [Scheduler.perform, hs', ok_bind]
    simp only
    rw [hr'.expired, hr.expired, Book.turn_expired, List.drop_left]
  | popExpired =>
    right
    obtain ⟨hr', hitem⟩ := hr.popExpired
    exact ⟨x.1.popExpired.1, .popExpired _, _, rfl, ⟨rfl, hitem⟩, own, free, hr'⟩
  | complete completion now =>
    right
    obtain ⟨s', hs', hr'⟩ := hr.complete hg hallow now
    refine ⟨s', .complete completion now, _, ?_, ⟨hallow, rfl⟩, own, free, hr'⟩
    rw [Scheduler.perform, hs', ok_bind]
  | evict now out =>
    right
    obtain ⟨m, s', hs', hr'⟩ := hr.evictLoop hg now x.1.cfg.evictIters out
    refine ⟨s', .evict now _, _, ?_, ⟨m, rfl, rfl⟩, own, free, hr'⟩
    rw [Scheduler.perform, Scheduler.evict, hs', ok_bind]
    simp only [List.drop_left]
  | evictAll out =>
    right
    obtain ⟨s', hs', hr'⟩ := hr.evictAllLoop hg (x.1.idle + 1) (by rw [hr.idle.count]; omega) out
    refine ⟨s', .evictAll _, _, ?_, ⟨rfl, rfl⟩, own, free, hr'⟩
    rw [Scheduler.perform, Scheduler.evictAll, hs', ok_bind]
    simp only [List.drop_left]
  | finishEvict key now =>
    right
    obtain ⟨s', hs', hr'⟩ := hr.finishEvict hg hallow now
    refine ⟨s', .finishEvict key now, _, ?_, ⟨hallow, rfl⟩, own, free, hr'⟩
    rw [Scheduler.perform, hs', ok_bind]

/-- A call of `next` that returns is one of a class in range. -/
theorem perform_next_class {s s' : Scheduler K P S CLASSES} {c : ClassId} {now : Duration}
    {e : Event K P S} (h : s.perform (.next c now) = .ok (s', e)) :
  c.toNat < CLASSES
  := by
  rw [perform, bind_eq_ok] at h
  obtain ⟨r, hnext, -⟩ := h
  rw [Scheduler.next, bind_eq_ok] at hnext
  obtain ⟨⟨hc⟩, -, -⟩ := hnext
  apply hc

/-- An item that is admitted has a class in range. -/
theorem admitItem_class {s s' : Scheduler K P S CLASSES} {item : Admit K P}
    (h : s.admitItem item = .ok s') :
  item.classId.toNat < CLASSES
  := by
  rw [admitItem, bind_eq_ok] at h
  obtain ⟨u, hassert, -⟩ := h
  simpa using assert_eq_ok.mp hassert

/-- Every transition of the scheduler is one of the account that it holds. -/
theorem Holds.step {cfg : Config CLASSES} {x y : Scheduler K P S CLASSES × Ledger K}
    {a : Account K P S CLASSES} {e : Event K P S} (h : Holds cfg x a) (hstep : Step x e y) :
  ∃ a', a.Step cfg e a' ∧ Holds cfg y a'
  := by
  obtain ⟨call, hallow, hperform, hledger⟩ := hstep
  have hclass : ∀ c now, call = .next c now → c.toNat < CLASSES := by
    rintro c now rfl
    apply perform_next_class hperform
  rcases h.perform hallow hclass with ⟨-, herror⟩ | ⟨s', e', b', hok, hmoves, own, free, hr⟩
  · rw [herror] at hperform
    cases hperform
  · rw [hok] at hperform
    cases hperform
    refine ⟨⟨b', a.ledger.record e, hmoves.good⟩, ⟨hmoves, rfl⟩, ⟨own, free, hr⟩, ?_⟩
    rw [hledger, h.2]

/-- A fresh scheduler holds the empty account. -/
theorem Holds.new (cfg : Config CLASSES) :
  Holds cfg ((Scheduler.new cfg : Scheduler K P S CLASSES), ⟨[], []⟩) .empty
  := ⟨⟨_, _, Represents.new cfg⟩, rfl⟩

/-- Every trail of a scheduler is one of the account that it holds. -/
theorem Holds.trail {cfg : Config CLASSES} {x y : Scheduler K P S CLASSES × Ledger K}
    {a : Account K P S CLASSES} {t : List (Event K P S)} (h : Holds cfg x a)
    (htrail : Trail Step x t y) :
  ∃ a', Trail (Account.Step cfg) a t a' ∧ Holds cfg y a'
  := by
  apply htrail.simulate (Holds cfg) h
  intro x a e y hxa hstep
  apply hxa.step hstep

/-- Every run of a scheduler is a trail of accounts. -/
theorem Run.account {cfg : Config CLASSES} {t : List (Event K P S)} {s : Scheduler K P S CLASSES}
    {l : Ledger K} (h : Run cfg t s l) :
  ∃ a, Trail (Account.Step cfg) Account.empty t a ∧ Holds cfg (s, l) a
  := (Holds.new cfg).trail h

end Scheduler

end Grommet
