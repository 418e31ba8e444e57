import Grommet.Runtime.Waiters.Protocol

/-!
# First come, first served

The queue of parked callers wakes them in the order of their arrival.  Yet a send attempts to
push whenever it is polled: before it parks, and whether or not it has been woken.  So a
newcomer can take the room that a waiting send was woken for, and two sends that were woken
can be polled in the other order.

In the runs where no send finds room out of turn, the sends are served in the order of their
arrival.  A send is in turn when every other send that waits parked later, or is still queued
while this one has been woken.
-/

open Checked

namespace Grommet.Waiters

/-! ### The order of arrival -/

section Line

variable {inner inner' : Inner} {w w' : Waiters} {ticket t : Ticket} {v : Waker} {slot g : ℕ}
  {s : Slot}

/-- The live tickets stand in a line, in the order of their generations. -/
structure Inner.Lined (inner : Inner) : Prop where
  listed : ∀ t, inner.live t = true → t ∈ inner.order
  sorted : inner.order.Pairwise fun t t' => t.generation < t'.generation
  below : ∀ t ∈ inner.order, t.generation < inner.nextGeneration

theorem live_eq_isSome :
  inner.live t = (inner.waker t).isSome
  := by
  rw [Bool.eq_iff_iff, live_iff, Option.isSome_iff_exists]

theorem live_update {o : Option Waker} (h : inner'.waker = Function.update inner.waker ticket o)
    (t : Ticket) :
  inner'.live t = if t = ticket then o.isSome else inner.live t
  := by
  rw [live_eq_isSome, live_eq_isSome, h, Function.update_apply]
  split <;> rfl

/-- Compaction keeps the live tickets in line. -/
theorem Inner.Lined.compact (h : inner.Lined) (hcompact : inner.compact = .ok inner') :
  inner'.Lined
  := by
  rw [Inner.compact] at hcompact
  split at hcompact
  · cases hcompact
    exact h
  · split at hcompact
    · cases hcompact
      refine ⟨?_, h.sorted.filter _, ?_⟩
      · intro t hlive
        exact List.mem_filter.mpr ⟨h.listed t hlive, hlive⟩
      · intro t ht
        exact h.below t (List.mem_filter.mp ht).1
    · cases hcompact

/-- Ending registrations keeps the others in line. -/
theorem Inner.Lined.shrink (h : inner.Lined) (horder : inner'.order = inner.order)
    (hnext : inner'.nextGeneration = inner.nextGeneration)
    (hlive : ∀ t, inner'.live t = true → inner.live t = true) :
  inner'.Lined
  := by
  refine ⟨?_, horder ▸ h.sorted, ?_⟩
  · intro t ht
    rw [horder]
    exact h.listed t (hlive t ht)
  · intro t ht
    rw [horder] at ht
    rw [hnext]
    exact h.below t ht

/-- A ticket that was issued goes to the end of the line. -/
theorem park_lined (h : w.inner.Lined) (hsound : w.inner.Sound)
    (hroom : w.inner.nextGeneration + 1 < 2 ^ 64) (hpark : w.park v = .ok (w', .ok ticket)) :
  w'.inner.Lined
  := by
  rcases park_eq_ok hpark with ⟨hclosed, -⟩ | ⟨inner₁, slot, hregister, hcompact, hticket⟩
  · cases hclosed
  · cases hticket
    have hsound₀ : Inner.Sound { w.inner with
        nextGeneration := wrappingSucc w.inner.nextGeneration } := ⟨hsound.idle, hsound.nodup⟩
    obtain ⟨-, hnext₁, horder₁, hwaker₁⟩ := hsound₀.register hregister
    have hnext : inner₁.nextGeneration = w.inner.nextGeneration + 1 := by
      rw [hnext₁]
      exact Nat.mod_eq_of_lt hroom
    refine Inner.Lined.compact ⟨?_, ?_, ?_⟩ hcompact
    · intro t ht
      show t ∈ inner₁.order ++ [_]
      rw [horder₁, List.mem_append, List.mem_singleton]
      have hlive := live_update hwaker₁ t
      by_cases heq : t = ⟨slot, w.inner.nextGeneration⟩
      · exact Or.inr heq
      · rw [if_neg heq] at hlive
        exact Or.inl (h.listed t (hlive.symm.trans ht))
    · show (inner₁.order ++ [_]).Pairwise _
      rw [horder₁, List.pairwise_append]
      refine ⟨h.sorted, List.pairwise_singleton _ _, ?_⟩
      intro t ht t' ht'
      rw [List.mem_singleton] at ht'
      rw [ht']
      exact h.below t ht
    · intro t ht
      rw [show inner₁.order ++ [_] = w.inner.order ++ [_] by rw [horder₁], List.mem_append,
        List.mem_singleton] at ht
      show t.generation < inner₁.nextGeneration
      rw [hnext]
      rcases ht with ht | rfl
      · exact (h.below t ht).trans (Nat.lt_succ_self _)
      · exact Nat.lt_succ_self _

theorem refresh_live (hsound : w.inner.Sound) (ticket t : Ticket) (v : Waker) :
  (w.refresh ticket v).inner.live t = w.inner.live t
  := by
  obtain ⟨-, -, hwaker⟩ := refresh_spec ticket v hsound
  cases hlive : w.inner.live ticket with
  | false =>
    rw [hlive, if_neg Bool.false_ne_true] at hwaker
    rw [live_eq_isSome, hwaker, live_eq_isSome]
  | true =>
    rw [hlive, if_pos rfl] at hwaker
    rw [live_update hwaker]
    split
    · rename_i heq
      rw [heq, hlive]
      rfl
    · rfl

theorem refresh_lined (h : w.inner.Lined) (hsound : w.inner.Sound) (ticket : Ticket) (v : Waker) :
  (w.refresh ticket v).inner.Lined
  := by
  refine h.shrink ?_ (refresh_spec ticket v hsound).2.1 ?_
  · rw [refresh]
    split <;> rfl
  · intro t ht
    rwa [refresh_live hsound] at ht

/-- A retired slot has no live ticket, and the other slots keep theirs. -/
theorem retire_lined {waker : Option Waker} (h : inner.Lined) (hsound : inner.Sound)
    (hretire : inner.retire slot = .ok (inner', waker)) :
  inner'.Lined ∧ (waker = none → inner' = inner) ∧ inner'.order = inner.order
  := by
  have hwakes := Wakes.retire hsound hretire
  have horder : (waker = none → inner' = inner) ∧ inner'.order = inner.order := by
    rw [Inner.retire, bind_eq_ok] at hretire
    obtain ⟨entry, -, hretire⟩ := hretire
    split at hretire
    · cases hretire
      refine ⟨?_, rfl⟩
      intro hnone
      cases hnone
    · cases hretire
      exact ⟨fun _ => rfl, rfl⟩
  refine ⟨h.shrink horder.2 hwakes.generation ?_, horder⟩
  intro t ht
  rw [live_eq_isSome] at ht ⊢
  rcases hwakes.ends t with heq | ⟨hnone, -⟩
  · rwa [heq] at ht
  · rw [hnone] at ht
    cases ht

theorem cancel_lined {b : Bool} (h : w.inner.Lined) (hsound : w.inner.Sound)
    (hcancel : w.cancel ticket = .ok (w', b)) :
  w'.inner.Lined
  := by
  rcases cancel_eq_ok hcancel with rfl | ⟨-, inner, waker, hretire, hcompact⟩
  · exact h
  · exact (retire_lined h hsound hretire).1.compact hcompact

/-- The order that remains when entries have been taken off the front: what ended stood before
all that remains. -/
structure Served (inner inner' : Inner) : Prop where
  lined : inner'.Lined
  first : ∀ t t', inner.live t' = true → inner'.live t' = false → inner'.live t = true →
    t'.generation < t.generation

/-- A wake ends the first live registration of the line. -/
theorem wakeLoop_served {woken : Option Waker} (order : List Ticket) (h : inner.Lined)
    (hsound : inner.Sound) (horder : ∀ t, inner.live t = true → t ∈ order)
    (hsub : order.Sublist inner.order) (hloop : inner.wakeLoop order = .ok (inner', woken)) :
  Served inner inner'
  := by
  induction order generalizing inner with
  | nil =>
    rw [Inner.wakeLoop] at hloop
    cases hloop
    refine ⟨⟨horder, List.Pairwise.nil, ?_⟩, ?_⟩
    · intro t ht
      cases ht
    · intro t t' hlive hover
      rw [show inner.live t' = false from hover] at hlive
      cases hlive
  | cons ticket order ih =>
    rw [Inner.wakeLoop, bind_eq_ok] at hloop
    obtain ⟨entry, hentry, hloop⟩ := hloop
    have hs := slot_eq_ok hentry
    have hskip : inner.live ticket = false → ∀ t, inner.live t = true → t ∈ order := by
      intro hover t ht
      rcases List.mem_cons.mp (horder t ht) with rfl | hmem
      · rw [hover] at ht
        cases ht
      · exact hmem
    have hrest : order.Sublist inner.order := (List.sublist_cons_self _ _).trans hsub
    split at hloop
    · rename_i hgeneration
      apply ih h hsound (hskip _) hrest hloop
      rw [live_eq_isSome, waker_of_slot hs, if_neg hgeneration]
      rfl
    · rename_i hgeneration
      rw [bind_eq_ok] at hloop
      obtain ⟨⟨inner₁, waker⟩, hretire, hloop⟩ := hloop
      obtain ⟨hlined₁, hsame, horder₁⟩ := retire_lined h hsound hretire
      cases waker with
      | none =>
        obtain rfl := hsame rfl
        apply ih h hsound (hskip _) hrest hloop
        have hnone : entry.waker = none := by
          cases hv : entry.waker with
          | none => rfl
          | some v =>
            obtain ⟨_, hretire', -⟩ := hsound.retire hs hv
            rw [hretire] at hretire'
            cases hretire'
        rw [live_eq_isSome, waker_of_slot hs, hnone, ite_self]
        rfl
      | some v =>
        cases hloop
        obtain ⟨_, hv⟩ : ∃ v, entry.waker = some v := by
          cases hv : entry.waker with
          | some v => exact ⟨v, rfl⟩
          | none =>
            rw [Inner.retire, Inner.slot, hs] at hretire
            simp only [ok_bind, hv] at hretire
            cases hretire
        obtain ⟨inner₂, hretire', -, -, -, hwaker⟩ := hsound.retire hs hv
        rw [hretire] at hretire'
        cases hretire'
        have hticket : (⟨ticket.slot, entry.generation⟩ : Ticket) = ticket := by
          rw [Decidable.not_not.mp hgeneration]
        rw [hticket] at hwaker
        have hlive := live_update hwaker
        have hlisted : ∀ t, inner₁.live t = true → t ∈ order := by
          intro t ht
          rw [hlive] at ht
          split at ht
          · cases ht
          · rename_i hne
            exact (List.mem_cons.mp (horder t ht)).resolve_left hne
        refine ⟨⟨hlisted, h.sorted.sublist hrest, ?_⟩, ?_⟩
        · intro t ht
          have hnext := (Wakes.retire hsound hretire).generation
          show t.generation < inner₁.nextGeneration
          rw [hnext]
          exact h.below t (hrest.subset ht)
        · intro t t' ht' hover ht
          have hended : inner₁.live t' = false := hover
          have hkept : inner₁.live t = true := ht
          rw [hlive] at hended
          split at hended
          · rename_i heq
            subst heq
            exact List.rel_of_pairwise_cons (h.sorted.sublist hsub) (hlisted t hkept)
          · rw [hended] at ht'
            cases ht'

theorem wakeOne_served {woken : Option Waker} (h : w.inner.Lined) (hsound : w.inner.Sound)
    (hwake : w.wakeOne = .ok (w', woken)) :
  Served w.inner w'.inner
  := wakeLoop_served _ h hsound h.listed (List.Sublist.refl _) (wakeOne_eq_ok hwake)

/-- Closing leaves nobody in the line. -/
theorem closeLoop_empty {woken : List Waker} (order : List Ticket) (hsound : inner.Sound)
    (horder : ∀ t, inner.live t = true → t ∈ order)
    (hloop : inner.closeLoop order = .ok (inner', woken)) :
  inner'.order = [] ∧ ∀ t, inner'.live t = false
  := by
  induction order generalizing inner woken with
  | nil =>
    rw [Inner.closeLoop] at hloop
    cases hloop
    refine ⟨rfl, ?_⟩
    intro t
    rw [← Bool.not_eq_true]
    intro ht
    cases horder t ht
  | cons ticket order ih =>
    rw [Inner.closeLoop, bind_eq_ok] at hloop
    obtain ⟨entry, hentry, hloop⟩ := hloop
    have hs := slot_eq_ok hentry
    split at hloop
    · rename_i hgeneration
      apply ih hsound _ hloop
      intro t ht
      apply (List.mem_cons.mp (horder t ht)).resolve_left
      rintro rfl
      rw [live_eq_isSome, waker_of_slot hs, if_neg hgeneration] at ht
      cases ht
    · rename_i hgeneration
      rw [bind_eq_ok] at hloop
      obtain ⟨⟨inner₁, waker⟩, hretire, hloop⟩ := hloop
      simp only at hloop
      rw [bind_eq_ok] at hloop
      obtain ⟨⟨inner₂, rest⟩, hrest, hloop⟩ := hloop
      cases hloop
      have hwakes := Wakes.retire hsound hretire
      apply ih hwakes.sound _ hrest
      intro t ht
      have hold : inner.live t = true := by
        rw [live_eq_isSome] at ht ⊢
        rcases hwakes.ends t with heq | ⟨hnone, -⟩
        · rwa [heq] at ht
        · rw [hnone] at ht
          cases ht
      apply (List.mem_cons.mp (horder t hold)).resolve_left
      rintro rfl
      obtain ⟨v, hv⟩ := live_iff.mp hold
      rw [waker_of_slot hs, Option.ite_none_right_eq_some] at hv
      obtain ⟨inner₃, hretire', -, -, -, hwaker⟩ := hsound.retire hs hv.2
      rw [hretire] at hretire'
      cases hretire'
      rw [hv.1] at hwaker
      rw [live_update hwaker, if_pos rfl] at ht
      cases ht

theorem close_served {woken : List Waker} (h : w.inner.Lined) (hsound : w.inner.Sound)
    (hclose : w.close = .ok (w', woken)) :
  Served w.inner w'.inner
  := by
  have hsound' : Inner.Sound { w.inner with closed := true } := ⟨hsound.idle, hsound.nodup⟩
  obtain ⟨horder, hover⟩ := closeLoop_empty w.inner.order hsound' h.listed
    (close_eq_ok hclose)
  refine ⟨⟨?_, ?_, ?_⟩, ?_⟩
  · intro t ht
    rw [hover] at ht
    cases ht
  · rw [horder]
    exact List.Pairwise.nil
  · intro t ht
    rw [horder] at ht
    cases ht
  · intro t t' _ _ ht
    rw [hover] at ht
    cases ht

end Line

/-! ### What a run shows of its sends -/

/-- The ticket of a future that has parked and has not got what it waits for. -/
def Stage.waiting : Stage → Option Ticket
  | refreshing ticket => some ticket
  | announced ticket _ => some ticket
  | pending ticket => some ticket
  | _ => none

/-- Whether the future has yet to park. -/
def Stage.early : Stage → Bool
  | idle => true
  | trying => true
  | parking => true
  | _ => false

/-- What a run shows: which futures have parked, whose items have been pushed, in order, which
futures were dropped, and which futures had parked when another one was first polled. -/
structure Record (ι : Type) where
  parked : List ι
  pushed : List ι
  dropped : List ι
  ahead : List (ι × ι)

namespace Record

variable {ι W : Type}

/-- Nothing has happened yet. -/
def start : Record ι := ⟨[], [], [], []⟩

/-- What a step of a send adds to the record. -/
def note (item : ι → W) (s s' : System ι (Ring W)) (h : Record ι) : Event ι → Record ι
  | .poll f _ =>
      if s.stage f = .idle then
        { h with ahead := h.ahead ++ h.parked.map fun g => (g, f) }
      else
        h
  | .attempt f =>
      if (s.resource.send (item f)).1 = .ready then
        { h with pushed := h.pushed ++ [f] }
      else
        h
  | .park f => if (s'.stage f).ticket.isSome then { h with parked := h.parked ++ [f] } else h
  | .drop f => { h with dropped := h.dropped ++ [f] }
  | _ => h

/-- No send overtakes another: when a send had parked before another one was first polled and
is not dropped, its item is pushed before the item of the other. -/
def InOrder (h : Record ι) : Prop :=
  ∀ a b, (a, b) ∈ h.ahead → a ∉ h.dropped →
    ∀ before after, h.pushed = before ++ b :: after → a ∈ before

end Record

variable {ι W : Type} [DecidableEq ι]

/-- A step of the protocol, and what it adds to the record. -/
def Recorded (item : ι → W) (p : System ι (Ring W) × Record ι) (e : Event ι)
    (q : System ι (Ring W) × Record ι) : Prop :=
  Step (Ring.resource item) p.1 e q.1 ∧ q.2 = p.2.note item p.1 q.1 e

/-- Every other send that waits parked later, or is still queued while this one was woken. -/
def System.InTurn (s : System ι (Ring W)) (f : ι) : Prop :=
  ∀ g t', g ≠ f → (s.stage g).waiting = some t' →
    ∃ t, (s.stage f).waiting = some t ∧ (t.generation < t'.generation ∨
      (s.waiters.inner.live t = false ∧ s.waiters.inner.live t' = true))

/-- A send that finds room is in turn, and generations do not wrap. -/
def Orderly (s : System ι (Ring W)) : Event ι → Prop
  | .attempt f => s.resource.departed = false → s.resource.items.length < s.resource.capacity →
      s.InTurn f
  | .park _ => s.waiters.inner.nextGeneration + 1 < 2 ^ 64
  | _ => True

/-! ### What every step keeps of the queue -/

variable {item : ι → W} {s s' : System ι (Ring W)} {h h' : Record ι} {f : ι} {t : Ticket}
  {w : Waiters} {stage : Stage}

/-- The tickets of the futures are their own, and those of an ended registration were issued
before those of a live one. -/
structure Queued (s : System ι (Ring W)) : Prop where
  sound : s.waiters.inner.Sound
  lined : s.waiters.inner.Lined
  issued : ∀ f t, (s.stage f).ticket = some t → t.generation < s.waiters.inner.nextGeneration
  own : ∀ f g t, (s.stage f).ticket = some t → (s.stage g).ticket = some t → f = g
  fifo : ∀ f g t t', (s.stage f).ticket = some t → (s.stage g).ticket = some t' →
    t.generation < t'.generation → s.waiters.inner.live t = true → s.waiters.inner.live t' = true

omit [DecidableEq ι] in
theorem queued_start (r : Ring W) :
  Queued (System.start r : System ι (Ring W))
  := by
  refine ⟨(inv_start r).sound, ⟨?_, List.Pairwise.nil, ?_⟩, ?_, ?_, ?_⟩
  · intro t ht
    cases ht
  · intro t ht
    cases ht
  · intro f t ht
    cases ht
  · intro f g t ht
    cases ht
  · intro f g t t' ht
    cases ht

omit [DecidableEq ι] in
theorem Queued.setResource (hq : Queued s) (r : Ring W) :
  Queued { s with resource := r }
  := ⟨hq.sound, hq.lined, hq.issued, hq.own, hq.fifo⟩

/-- A step of one future leaves the registrations of the others alone. -/
theorem Queued.move (hq : Queued s) (hsound : s'.waiters.inner.Sound)
    (hlined : s'.waiters.inner.Lined)
    (hnext : s.waiters.inner.nextGeneration ≤ s'.waiters.inner.nextGeneration)
    (hothers : ∀ g, g ≠ f → s'.stage g = s.stage g)
    (hlive : ∀ g t, g ≠ f → (s.stage g).ticket = some t →
      s'.waiters.inner.live t = s.waiters.inner.live t)
    (hticket : ∀ t, (s'.stage f).ticket = some t →
      ((s.stage f).ticket = some t ∧ s'.waiters.inner.live t = s.waiters.inner.live t) ∨
      (t.generation = s.waiters.inner.nextGeneration ∧
        s.waiters.inner.nextGeneration < s'.waiters.inner.nextGeneration ∧
        s'.waiters.inner.live t = true)) :
  Queued s'
  := by
  have hcases : ∀ g t, (s'.stage g).ticket = some t →
      ((s.stage g).ticket = some t ∧ s'.waiters.inner.live t = s.waiters.inner.live t) ∨
      (g = f ∧ t.generation = s.waiters.inner.nextGeneration ∧
        s.waiters.inner.nextGeneration < s'.waiters.inner.nextGeneration ∧
        s'.waiters.inner.live t = true) := by
    intro g t ht
    by_cases hg : g = f
    · subst hg
      exact (hticket t ht).imp_right fun hnew => ⟨rfl, hnew⟩
    · rw [hothers g hg] at ht
      exact Or.inl ⟨ht, hlive g t hg ht⟩
  refine ⟨hsound, hlined, ?_, ?_, ?_⟩
  · intro g t ht
    rcases hcases g t ht with ⟨hold, -⟩ | ⟨-, hgeneration, hlt, -⟩
    · exact lt_of_lt_of_le (hq.issued g t hold) hnext
    · omega
  · intro g k t hg hk
    rcases hcases g t hg with ⟨hold, -⟩ | ⟨rfl, hgeneration, -⟩ <;>
      rcases hcases k t hk with ⟨hold', -⟩ | ⟨rfl, hgeneration', -⟩
    · exact hq.own g k t hold hold'
    · have hissued := hq.issued g t hold
      omega
    · have hissued := hq.issued k t hold'
      omega
    · rfl
  · intro g k t t' hg hk hlt hlive'
    rcases hcases k t' hk with ⟨hold', heq'⟩ | ⟨-, -, -, hnew⟩
    · rcases hcases g t hg with ⟨hold, heq⟩ | ⟨-, hgeneration, -, -⟩
      · rw [heq] at hlive'
        rw [heq']
        exact hq.fifo g k t t' hold hold' hlt hlive'
      · have hissued := hq.issued k t' hold'
        omega
    · exact hnew

/-- A future that moves on without touching the queue. -/
theorem Queued.setStage (hq : Queued s)
    (hticket : stage.ticket = none ∨ stage.ticket = (s.stage f).ticket) :
  Queued (s.setStage f stage)
  := by
  refine hq.move (f := f) hq.sound hq.lined le_rfl ?_ (fun _ _ _ _ => rfl) ?_
  · intro g hg
    exact Function.update_of_ne hg _ _
  · intro t ht
    rw [show (s.setStage f stage).stage f = stage from Function.update_self _ _ _] at ht
    rcases hticket with hnone | hsame
    · rw [hnone] at ht
      cases ht
    · exact Or.inl ⟨hsame.symm.trans ht, rfl⟩

omit [DecidableEq ι] in
/-- Taking wakers off the front of the line keeps it in order. -/
theorem Queued.wake {woken : List Waker} (hq : Queued s)
    (hwakes : Wakes s.waiters.inner w.inner woken) (hserved : Served s.waiters.inner w.inner) :
  Queued ({ s with waiters := w }.wake woken)
  := by
  refine ⟨hwakes.sound, hserved.lined, ?_, hq.own, ?_⟩
  · intro f t ht
    apply lt_of_lt_of_eq (hq.issued f t ht)
    exact hwakes.generation.symm
  · intro f g t t' hf hg hlt hlive
    have hlive' : w.inner.live t = true := hlive
    have hold : s.waiters.inner.live t = true := by
      rw [live_eq_isSome] at hlive' ⊢
      rcases hwakes.ends t with heq | ⟨hnone, -⟩
      · rwa [heq] at hlive'
      · rw [hnone] at hlive'
        cases hlive'
    have hold' := hq.fifo f g t t' hf hg hlt hold
    show w.inner.live t' = true
    by_contra hover
    rw [Bool.not_eq_true] at hover
    have hfirst := hserved.first t t' hold' hover hlive'
    omega

/-- A future gives up its registration. -/
theorem Queued.cancel {live : Bool} (hq : Queued s) (hticket : (s.stage f).ticket = some t)
    (hcancel : s.waiters.cancel t = .ok (w, live)) (hstage : stage.ticket = none) :
  Queued ({ s with waiters := w }.setStage f stage)
  := by
  obtain ⟨hsound, hnext, hwaker⟩ := cancel_spec hq.sound hcancel
  have hself : ({ s with waiters := w }.setStage f stage).stage f = stage :=
    Function.update_self _ _ _
  refine hq.move (f := f) hsound (cancel_lined hq.lined hq.sound hcancel) hnext.ge ?_ ?_ ?_
  · intro g hg
    exact Function.update_of_ne hg _ _
  · intro g t' hg ht'
    show w.inner.live t' = s.waiters.inner.live t'
    rw [live_eq_isSome, live_eq_isSome, hwaker]
    rintro rfl
    apply hg (hq.own g f _ ht' hticket)
  · intro t' ht'
    rw [hself, hstage] at ht'
    cases ht'

/-- Every orderly step keeps the queue in order. -/
theorem Queued.step {e : Event ι} (hq : Queued s) (horderly : Orderly s e)
    (hstep : Step (Ring.resource item) s e s') :
  Queued s'
  := by
  cases hstep with
  | @begin f v hstage =>
    have hpolled : Queued (s.polled f v) := ⟨hq.sound, hq.lined, hq.issued, hq.own, hq.fifo⟩
    exact hpolled.setStage (Or.inl rfl)
  | @resume f v ticket hstage =>
    have hpolled : Queued (s.polled f v) := ⟨hq.sound, hq.lined, hq.issued, hq.own, hq.fifo⟩
    apply hpolled.setStage
    right
    rw [show (s.polled f v).stage f = .pending ticket from hstage]
    rfl
  | attemptFirst hstage =>
    apply (hq.setResource _).setStage
    left
    split <;> rfl
  | @park f w ticket hstage hpark =>
    obtain ⟨hsound, hspec⟩ := park_spec hq.sound horderly hpark
    obtain ⟨ticket', hresult, hgeneration, hnext, hwaker⟩ : ∃ ticket', _ :=
      hspec.resolve_left (by rintro ⟨e, he, -⟩; cases he)
    cases hresult
    have hlive := live_update hwaker
    have hlt : s.waiters.inner.nextGeneration < w.inner.nextGeneration := by omega
    have hself : ({ s with waiters := w }.setStage f (.announced ticket false)).stage f =
        .announced ticket false := Function.update_self _ _ _
    refine hq.move (f := f) hsound (park_lined hq.lined hq.sound horderly hpark) hlt.le ?_ ?_ ?_
    · intro g hg
      exact Function.update_of_ne hg _ _
    · intro g t hg ht
      apply (hlive t).trans
      apply if_neg
      rintro rfl
      have hissued := hq.issued g _ ht
      omega
    · intro t ht
      rw [hself] at ht
      cases ht
      refine Or.inr ⟨hgeneration, hlt, ?_⟩
      show w.inner.live ticket = true
      rw [hlive, if_pos rfl]
      rfl
  | @parkClosed f w e hstage hpark =>
    obtain ⟨-, hspec⟩ := park_spec hq.sound horderly hpark
    obtain ⟨-, -, rfl⟩ := hspec.resolve_right (by rintro ⟨_, he, -⟩; cases he)
    exact hq.setStage (Or.inl rfl)
  | @refresh f ticket hstage =>
    obtain ⟨hsound, hnext, -⟩ := refresh_spec ticket (s.waker f) hq.sound
    have hlined := refresh_lined hq.lined hq.sound ticket (s.waker f)
    have hself : ({ s with waiters := s.waiters.refresh ticket (s.waker f) }.setStage f
        (.announced ticket (!s.waiters.inner.live ticket))).stage f =
        .announced ticket (!s.waiters.inner.live ticket) := Function.update_self _ _ _
    refine hq.move (f := f) hsound hlined hnext.ge ?_ ?_ ?_
    · intro g hg
      exact Function.update_of_ne hg _ _
    · intro g t hg ht
      apply refresh_live hq.sound
    · intro t ht
      rw [hself] at ht
      cases ht
      rw [hstage]
      exact Or.inl ⟨rfl, refresh_live hq.sound _ _ _⟩
  | @attemptAgain f ticket ended hstage =>
    apply (hq.setResource _).setStage
    right
    rw [show ({ s with resource := ((Ring.resource item).attempt f s.resource).2 } :
      System ι (Ring W)).stage f = .announced ticket ended from hstage]
    split <;> rfl
  | finish hstage hcancel =>
    apply hq.cancel _ hcancel rfl
    rw [hstage]
    rfl
  | dropIdle hstage => exact hq.setStage (Or.inl rfl)
  | drop hstage hcancel =>
    apply hq.cancel _ hcancel
    · split <;> rfl
    · rw [hstage]
      rfl
  | pass hstage hwake =>
    apply (hq.wake (wakeOne_wakes hq.sound hwake) (wakeOne_served hq.lined hq.sound hwake)).setStage
    exact Or.inl rfl
  | others _ => apply hq.setResource
  | wakeOne hwake =>
    exact hq.wake (wakeOne_wakes hq.sound hwake) (wakeOne_served hq.lined hq.sound hwake)
  | close hclose =>
    exact hq.wake (close_wakes hq.sound hclose) (close_served hq.lined hq.sound hclose)

/-! ### What every step keeps of the record -/

/-- What is remembered of the sends agrees with where they stand. -/
structure Told (s : System ι (Ring W)) (h : Record ι) : Prop where
  known : ∀ a b, (a, b) ∈ h.ahead → a ∈ h.parked
  later : ∀ a b t t', (a, b) ∈ h.ahead → (s.stage a).ticket = some t →
    (s.stage b).ticket = some t' → t.generation < t'.generation
  parked : ∀ f ∈ h.parked, (s.stage f).early = false
  pushed : ∀ f ∈ h.pushed, (s.stage f).early = false
  accounted : ∀ f ∈ h.parked, (s.stage f).waiting.isSome ∨ f ∈ h.pushed ∨ f ∈ h.dropped ∨
    s.resource.departed = true
  inOrder : h.InOrder

omit [DecidableEq ι] in
theorem told_start (r : Ring W) :
  Told (System.start r : System ι (Ring W)) Record.start
  := by
  refine ⟨?_, ?_, ?_, ?_, ?_, ?_⟩
  · intro a b hab
    cases hab
  · intro a b t t' hab
    cases hab
  · intro f hf
    cases hf
  · intro f hf
    cases hf
  · intro f hf
    cases hf
  · intro a b hab
    cases hab

section Ring

variable {r r' : Ring W} {x : W}

theorem send_ready :
  (r.send x).1 = .ready ↔ r.departed = false ∧ r.items.length < r.capacity
  := by
  rw [Ring.send]
  cases r.departed with
  | true => simp
  | false =>
    rw [if_neg Bool.false_ne_true]
    split <;> simp_all

theorem send_retry (h : (r.send x).1 ≠ .ready) (hopen : r.departed = false) :
  (r.send x).1 = .retry
  := by
  have hfull : ¬ r.items.length < r.capacity := fun hroom => h (send_ready.mpr ⟨hopen, hroom⟩)
  rw [Ring.send, hopen, if_neg Bool.false_ne_true, if_neg hfull]

theorem send_departed :
  (r.send x).2.departed = r.departed
  := by
  rw [Ring.send]
  split
  · rfl
  · split <;> rfl

theorem others_departed (h : Ring.Others r r') (hdeparted : r.departed = true) :
  r'.departed = true
  := by
  cases h with
  | trySend item => rw [send_departed, hdeparted]
  | pop => exact hdeparted
  | depart => rfl

end Ring

/-- A step of a future that has parked, or does not park. -/
theorem Told.move (ht : Told s h) (hothers : ∀ g, g ≠ f → s'.stage g = s.stage g)
    (hticket : ∀ t, (s'.stage f).ticket = some t → (s.stage f).ticket = some t)
    (hearly : (s.stage f).early = false → (s'.stage f).early = false)
    (hdeparted : s.resource.departed = true → s'.resource.departed = true)
    (hparked : h'.parked = h.parked) (hahead : h'.ahead = h.ahead)
    (hpushed : ∀ g ∈ h.pushed, g ∈ h'.pushed) (hdropped : ∀ g ∈ h.dropped, g ∈ h'.dropped)
    (hpush : ∀ g ∈ h'.pushed, g ∈ h.pushed ∨ (g = f ∧ (s'.stage f).early = false))
    (hself : (s.stage f).waiting.isSome → (s'.stage f).waiting.isSome ∨ f ∈ h'.pushed ∨
      f ∈ h'.dropped ∨ s'.resource.departed = true)
    (horder : h'.InOrder) :
  Told s' h'
  := by
  have hkeep : ∀ g t, (s'.stage g).ticket = some t → (s.stage g).ticket = some t := by
    intro g t hg
    by_cases heq : g = f
    · subst heq
      exact hticket t hg
    · rwa [hothers g heq] at hg
  have hlate : ∀ g, (s.stage g).early = false → (s'.stage g).early = false := by
    intro g hg
    by_cases heq : g = f
    · subst heq
      exact hearly hg
    · rwa [hothers g heq]
  refine ⟨?_, ?_, ?_, ?_, ?_, horder⟩
  · intro a b hab
    rw [hahead] at hab
    rw [hparked]
    exact ht.known a b hab
  · intro a b t t' hab ha hb
    rw [hahead] at hab
    exact ht.later a b t t' hab (hkeep a t ha) (hkeep b t' hb)
  · intro g hg
    rw [hparked] at hg
    exact hlate g (ht.parked g hg)
  · intro g hg
    rcases hpush g hg with hold | ⟨rfl, hnew⟩
    · exact hlate g (ht.pushed g hold)
    · exact hnew
  · intro g hg
    rw [hparked] at hg
    rcases ht.accounted g hg with hwaiting | hold | hold | hold
    · by_cases heq : g = f
      · subst heq
        exact hself hwaiting
      · left
        rwa [hothers g heq]
    · exact Or.inr (Or.inl (hpushed g hold))
    · exact Or.inr (Or.inr (Or.inl (hdropped g hold)))
    · exact Or.inr (Or.inr (Or.inr (hdeparted hold)))

omit [DecidableEq ι] in
theorem Stage.ticket_of_waiting {stage : Stage} (hwaiting : stage.waiting = some t) :
  stage.ticket = some t
  := by
  cases stage with
  | refreshing ticket => exact hwaiting
  | announced ticket ended => exact hwaiting
  | pending ticket => exact hwaiting
  | _ => cases hwaiting

omit [DecidableEq ι] in
/-- A send that finds room in its turn overtakes nobody. -/
theorem Told.push (ht : Told s h) (hq : Queued s) (hturn : s.InTurn f)
    (hopen : s.resource.departed = false) :
  Record.InOrder { h with pushed := h.pushed ++ [f] }
  := by
  intro a b hab hdropped before after heq
  rcases List.eq_nil_or_concat after with rfl | ⟨after, x, rfl⟩
  · obtain ⟨hbefore, hlast⟩ := List.append_inj' heq rfl
    rw [List.cons_eq_cons] at hlast
    obtain ⟨rfl, -⟩ := hlast
    rw [← hbefore]
    rcases ht.accounted a (ht.known a f hab) with hwaiting | hpushed | hdrop | hdeparted
    · exfalso
      obtain ⟨t', hwaiting⟩ := Option.isSome_iff_exists.mp hwaiting
      have hticket' := Stage.ticket_of_waiting hwaiting
      have hne : a ≠ f := by
        rintro rfl
        exact lt_irrefl _ (ht.later a a t' t' hab hticket' hticket')
      obtain ⟨t, hself, hahead⟩ := hturn a t' hne hwaiting
      have hticket := Stage.ticket_of_waiting hself
      have hlater := ht.later a f t' t hab hticket' hticket
      rcases hahead with hlt | ⟨hover, hlive⟩
      · omega
      · have hlive' := hq.fifo a f t' t hticket' hticket hlater hlive
        rw [hover] at hlive'
        cases hlive'
    · exact hpushed
    · exact absurd hdrop hdropped
    · rw [hopen] at hdeparted
      cases hdeparted
  · rw [List.concat_eq_append, ← List.cons_append, ← List.append_assoc] at heq
    obtain ⟨hpushed, -⟩ := List.append_inj' heq rfl
    exact ht.inOrder a b hab hdropped before after hpushed

/-- A step that leaves the record as it is. -/
theorem Told.same (ht : Told s h) (hothers : ∀ g, g ≠ f → s'.stage g = s.stage g)
    (hticket : ∀ t, (s'.stage f).ticket = some t → (s.stage f).ticket = some t)
    (hearly : (s.stage f).early = false → (s'.stage f).early = false)
    (hdeparted : s.resource.departed = true → s'.resource.departed = true)
    (hself : (s.stage f).waiting.isSome → (s'.stage f).waiting.isSome ∨
      s'.resource.departed = true) :
  Told s' h
  := by
  refine ht.move hothers hticket hearly hdeparted rfl rfl (fun _ hg => hg) (fun _ hg => hg)
    (fun _ hg => Or.inl hg) ?_ ht.inOrder
  intro hwaiting
  rcases hself hwaiting with hwaits | hgone
  · exact Or.inl hwaits
  · exact Or.inr (Or.inr (Or.inr hgone))

omit [DecidableEq ι] in
/-- A future that has not parked is unknown. -/
theorem Told.not_parked (ht : Told s h) (hearly : (s.stage f).early = true) :
  f ∉ h.parked ∧ f ∉ h.pushed
  := by
  constructor
  · intro hmem
    rw [ht.parked f hmem] at hearly
    cases hearly
  · intro hmem
    rw [ht.pushed f hmem] at hearly
    cases hearly

/-- A first poll is later than everyone who has parked. -/
theorem Told.first {v : Waker} (ht : Told s h) (hstage : s.stage f = .idle) :
  Told ((s.polled f v).setStage f .trying)
    { h with ahead := h.ahead ++ h.parked.map fun g => (g, f) }
  := by
  have hself : ((s.polled f v).setStage f .trying).stage f = .trying := Function.update_self _ _ _
  obtain ⟨hparked, hpushed⟩ := ht.not_parked (f := f) (by rw [hstage]; rfl)
  have hmoved : Told ((s.polled f v).setStage f .trying) h := by
    refine ht.same (f := f) ?_ ?_ ?_ (fun hdeparted => hdeparted) ?_
    · intro g hg
      exact Function.update_of_ne hg _ _
    · intro t ht
      rw [hself] at ht
      cases ht
    · intro hlate
      rw [hstage] at hlate
      cases hlate
    · intro hwaiting
      rw [hstage] at hwaiting
      cases hwaiting
  have hahead : ∀ a b, (a, b) ∈ h.ahead ++ h.parked.map (fun g => (g, f)) →
      (a, b) ∈ h.ahead ∨ (a ∈ h.parked ∧ b = f) := by
    intro a b hab
    rcases List.mem_append.mp hab with hold | hnew
    · exact Or.inl hold
    · obtain ⟨g, hg, heq⟩ := List.mem_map.mp hnew
      cases heq
      exact Or.inr ⟨hg, rfl⟩
  refine ⟨?_, ?_, hmoved.parked, hmoved.pushed, hmoved.accounted, ?_⟩
  · intro a b hab
    rcases hahead a b hab with hold | ⟨ha, -⟩
    · exact ht.known a b hold
    · exact ha
  · intro a b t t' hab ha hb
    rcases hahead a b hab with hold | ⟨-, rfl⟩
    · exact hmoved.later a b t t' hold ha hb
    · rw [hself] at hb
      cases hb
  · intro a b hab hdropped before after heq
    rcases hahead a b hab with hold | ⟨-, rfl⟩
    · exact ht.inOrder a b hold hdropped before after heq
    · have hmem : b ∈ h.pushed := by
        rw [show h.pushed = before ++ b :: after from heq]
        exact List.mem_append_right _ (List.mem_cons_self ..)
      exact absurd hmem hpushed

/-- A future that parks has the last ticket. -/
theorem Told.park (ht : Told s h) (hq : Queued s) (hstage : s.stage f = .parking)
    (hgeneration : t.generation = s.waiters.inner.nextGeneration) :
  Told ({ s with waiters := w }.setStage f (.announced t false)) { h with parked := h.parked ++ [f] }
  := by
  have hself : ({ s with waiters := w }.setStage f (.announced t false)).stage f =
      .announced t false := Function.update_self _ _ _
  have hother : ∀ g, g ≠ f →
      ({ s with waiters := w }.setStage f (.announced t false)).stage g = s.stage g := by
    intro g hg
    exact Function.update_of_ne hg _ _
  obtain ⟨hparked, hpushed⟩ := ht.not_parked (f := f) (by rw [hstage]; rfl)
  refine ⟨?_, ?_, ?_, ?_, ?_, ht.inOrder⟩
  · intro a b hab
    exact List.mem_append_left _ (ht.known a b hab)
  · intro a b t₁ t₂ hab ha hb
    have hne : a ≠ f := by
      rintro rfl
      exact hparked (ht.known a b hab)
    rw [hother a hne] at ha
    by_cases heq : b = f
    · subst heq
      rw [hself] at hb
      cases hb
      rw [hgeneration]
      exact hq.issued a t₁ ha
    · rw [hother b heq] at hb
      exact ht.later a b t₁ t₂ hab ha hb
  · intro g hg
    by_cases heq : g = f
    · rw [heq, hself]
      rfl
    · rw [hother g heq]
      rcases List.mem_append.mp hg with hold | hnew
      · exact ht.parked g hold
      · exact absurd (List.mem_singleton.mp hnew) heq
  · intro g hg
    by_cases heq : g = f
    · rw [heq, hself]
      rfl
    · rw [hother g heq]
      exact ht.pushed g hg
  · intro g hg
    by_cases heq : g = f
    · rw [heq, hself]
      exact Or.inl rfl
    · rw [hother g heq]
      rcases List.mem_append.mp hg with hold | hnew
      · exact ht.accounted g hold
      · exact absurd (List.mem_singleton.mp hnew) heq

/-- An attempt in turn overtakes nobody. -/
theorem Told.attempt {ok : Stage} (ht : Told s h) (hq : Queued s) (horderly : Orderly s (.attempt f))
    (hlate : ok.early = false) (hticket : ok.ticket = none ∨ ok.ticket = (s.stage f).ticket)
    (hretry : stage.ticket = none ∨ stage.ticket = (s.stage f).ticket)
    (hearly : (s.stage f).early = stage.early)
    (hwaiting : (s.stage f).waiting.isSome → stage.waiting.isSome) :
  Told ({ s with resource := (s.resource.send (item f)).2 }.setStage f
      (match (s.resource.send (item f)).1 with
        | .retry => stage
        | _ => ok))
    (h.note item s s' (.attempt f))
  := by
  have hother : ∀ (x : Stage) g, g ≠ f →
      ({ s with resource := (s.resource.send (item f)).2 }.setStage f x).stage g = s.stage g := by
    intro x g hg
    exact Function.update_of_ne hg _ _
  have hself : ∀ x : Stage,
      ({ s with resource := (s.resource.send (item f)).2 }.setStage f x).stage f = x :=
    fun x => Function.update_self _ _ _
  have hdeparted : ∀ x : Stage, s.resource.departed = true →
      ({ s with resource := (s.resource.send (item f)).2 }.setStage f x).resource.departed = true :=
    fun x hgone => send_departed.trans hgone
  have hkeep : ∀ x : Stage, (x.ticket = none ∨ x.ticket = (s.stage f).ticket) →
      ∀ t, x.ticket = some t → (s.stage f).ticket = some t := by
    intro x hx t hxt
    rcases hx with hnone | hsame
    · rw [hnone] at hxt
      cases hxt
    · exact hsame.symm.trans hxt
  rw [Record.note]
  by_cases hready : (s.resource.send (item f)).1 = .ready
  · obtain ⟨hopen, hroom⟩ := send_ready.mp hready
    rw [if_pos hready, hready]
    refine ht.move (f := f) (hother ok) ?_ ?_ (hdeparted ok) rfl rfl ?_ (fun _ hg => hg) ?_ ?_
      (ht.push hq (horderly hopen hroom) hopen)
    · rw [hself]
      exact hkeep ok hticket
    · rw [hself]
      exact fun _ => hlate
    · intro g hg
      exact List.mem_append_left _ hg
    · intro g hg
      rcases List.mem_append.mp hg with hold | hnew
      · exact Or.inl hold
      · rw [hself]
        exact Or.inr ⟨List.mem_singleton.mp hnew, hlate⟩
    · intro _
      exact Or.inr (Or.inl (List.mem_append_right _ (List.mem_singleton_self f)))
  · rw [if_neg hready]
    cases hopen : s.resource.departed with
    | false =>
      rw [send_retry hready hopen]
      refine ht.same (f := f) (hother stage) ?_ ?_ (hdeparted stage) ?_
      · rw [hself]
        exact hkeep stage hretry
      · rw [hself, hearly]
        exact fun hlate => hlate
      · rw [hself]
        exact fun hold => Or.inl (hwaiting hold)
    | true =>
      have hclosed : (s.resource.send (item f)).1 = .closed := by
        rw [Ring.send, if_pos hopen]
      rw [hclosed]
      refine ht.same (f := f) (hother ok) ?_ ?_ (hdeparted ok) ?_
      · rw [hself]
        exact hkeep ok hticket
      · rw [hself]
        exact fun _ => hlate
      · exact fun _ => Or.inr (hdeparted ok hopen)

/-- Every orderly step keeps what is remembered of the sends. -/
theorem Told.step {e : Event ι} (ht : Told s h) (hq : Queued s) (horderly : Orderly s e)
    (hstep : Step (Ring.resource item) s e s') :
  Told s' (h.note item s s' e)
  := by
  have hother : ∀ {s₁ : System ι (Ring W)} {f : ι} {x : Stage} (g : ι), s₁.stage = s.stage → g ≠ f →
      (s₁.setStage f x).stage g = s.stage g := by
    intro s₁ f x g hsame hg
    rw [← hsame]
    exact Function.update_of_ne hg _ _
  have hself : ∀ {s₁ : System ι (Ring W)} {f : ι} {x : Stage}, (s₁.setStage f x).stage f = x :=
    fun {_ _ _} => Function.update_self _ _ _
  cases hstep with
  | @begin f v hstage =>
    rw [Record.note, if_pos hstage]
    exact ht.first hstage
  | @resume f v ticket hstage =>
    rw [Record.note, if_neg (by rw [hstage]; exact Stage.noConfusion)]
    refine ht.same (f := f) (fun g => hother g rfl) ?_ ?_ (fun hgone => hgone) ?_ <;>
      rw [hself, hstage]
    · exact fun t hticket => hticket
    · exact fun _ => rfl
    · exact fun _ => Or.inl rfl
  | @attemptFirst f hstage =>
    apply ht.attempt hq horderly rfl (Or.inl rfl) (Or.inl rfl)
    · rw [hstage]
      rfl
    · rw [hstage]
      exact fun hnone => by cases hnone
  | @park f w ticket hstage hpark =>
    obtain ⟨-, hspec⟩ := park_spec hq.sound horderly hpark
    obtain ⟨ticket', hresult, hgeneration, -⟩ : ∃ ticket', _ :=
      hspec.resolve_left (by rintro ⟨e, he, -⟩; cases he)
    cases hresult
    rw [Record.note, if_pos (by rw [hself]; rfl)]
    exact ht.park hq hstage hgeneration
  | @parkClosed f w e hstage hpark =>
    rw [Record.note, if_neg (by rw [hself]; exact Bool.false_ne_true)]
    refine ht.same (f := f) (fun g => hother g rfl) ?_ ?_ (fun hgone => hgone) ?_ <;>
      rw [hself, hstage]
    · exact fun t hticket => by cases hticket
    · exact fun _ => rfl
    · exact fun hnone => by cases hnone
  | @refresh f ticket hstage =>
    refine ht.same (f := f) (fun g => hother g rfl) ?_ ?_ (fun hgone => hgone) ?_ <;>
      rw [hself, hstage]
    · exact fun t hticket => hticket
    · exact fun _ => rfl
    · exact fun _ => Or.inl rfl
  | @attemptAgain f ticket ended hstage =>
    apply ht.attempt hq horderly rfl
    · rw [hstage]
      exact Or.inr rfl
    · rw [hstage]
      exact Or.inr rfl
    · rw [hstage]
      rfl
    · exact fun _ => rfl
  | @finish f ticket w live hstage hcancel =>
    refine ht.same (f := f) (fun g => hother g rfl) ?_ ?_ (fun hgone => hgone) ?_ <;>
      rw [hself, hstage]
    · exact fun t hticket => by cases hticket
    · exact fun _ => rfl
    · exact fun hnone => by cases hnone
  | @dropIdle f hstage =>
    refine ht.move (f := f) (fun g => hother g rfl) ?_ ?_ (fun hgone => hgone) rfl rfl
      (fun _ hg => hg) (fun _ hg => List.mem_append_left _ hg) (fun _ hg => Or.inl hg) ?_ ?_
    · rw [hself]
      exact fun t hticket => by cases hticket
    · rw [hself]
      exact fun _ => rfl
    · exact fun _ => Or.inr (Or.inr (Or.inl (List.mem_append_right _ (List.mem_singleton_self f))))
    · intro a b hab hdropped
      exact ht.inOrder a b hab (fun hmem => hdropped (List.mem_append_left _ hmem))
  | @drop f ticket w live hstage hcancel =>
    refine ht.move (f := f) (fun g => hother g rfl) ?_ ?_ (fun hgone => hgone) rfl rfl
      (fun _ hg => hg) (fun _ hg => List.mem_append_left _ hg) (fun _ hg => Or.inl hg) ?_ ?_
    · rw [hself]
      split <;> exact fun t hticket => by cases hticket
    · rw [hself]
      split <;> exact fun _ => rfl
    · exact fun _ => Or.inr (Or.inr (Or.inl (List.mem_append_right _ (List.mem_singleton_self f))))
    · intro a b hab hdropped
      exact ht.inOrder a b hab (fun hmem => hdropped (List.mem_append_left _ hmem))
  | @pass f w woken hstage hwake =>
    refine ht.same (f := f) (fun g => hother g rfl) ?_ ?_ (fun hgone => hgone) ?_ <;>
      rw [hself, hstage]
    · exact fun t hticket => by cases hticket
    · exact fun _ => rfl
    · exact fun hnone => by cases hnone
  | @others r hothers =>
    refine ⟨ht.known, ht.later, ht.parked, ht.pushed, ?_, ht.inOrder⟩
    intro f hf
    rcases ht.accounted f hf with hold | hold | hold | hold
    · exact Or.inl hold
    · exact Or.inr (Or.inl hold)
    · exact Or.inr (Or.inr (Or.inl hold))
    · exact Or.inr (Or.inr (Or.inr (others_departed hothers hold)))
  | wakeOne _ => exact ⟨ht.known, ht.later, ht.parked, ht.pushed, ht.accounted, ht.inOrder⟩
  | close _ => exact ⟨ht.known, ht.later, ht.parked, ht.pushed, ht.accounted, ht.inOrder⟩

/-! ### Runs -/

/-- In every run in which the sends find room in turn, no send overtakes another. -/
theorem sends_are_served_in_order {trace : List (Event ι)} (r : Ring W)
    (hrun : Trail (fun p e q => Recorded item p e q ∧ Orderly p.1 e) (System.start r, Record.start)
      trace (s, h)) :
  h.InOrder
  := by
  have hinv : Queued s ∧ Told s h := by
    apply hrun.invariant (fun _ p => Queued p.1 ∧ Told p.1 p.2) ⟨queued_start r, told_start r⟩
    rintro _ ⟨s₁, h₁⟩ e ⟨s₂, h₂⟩ _ ⟨hq, ht⟩ ⟨⟨hstep, hnote⟩, horderly⟩
    have hnote' : h₂ = h₁.note item s₁ s₂ e := hnote
    rw [hnote']
    exact ⟨hq.step horderly hstep, ht.step hq horderly hstep⟩
  exact hinv.2.inOrder

theorem recorded_snoc {p : System ι (Ring W) × Record ι} {trace : List (Event ι)} {e : Event ι}
    (hrun : Trail (Recorded item) p trace (s, h)) (hstep : Step (Ring.resource item) s e s') :
  Trail (Recorded item) p (trace ++ [e]) (s', h.note item s s' e)
  := hrun.snoc ⟨hstep, rfl⟩

theorem orderly_snoc {p : System ι (Ring W) × Record ι} {trace : List (Event ι)} {e : Event ι}
    (hrun : Trail (fun p e q => Recorded item p e q ∧ Orderly p.1 e) p trace (s, h))
    (hstep : Step (Ring.resource item) s e s') (horderly : Orderly s e) :
  Trail (fun p e q => Recorded item p e q ∧ Orderly p.1 e) p (trace ++ [e])
    (s', h.note item s s' e)
  := hrun.snoc ⟨⟨hstep, rfl⟩, horderly⟩

omit [DecidableEq ι] in
/-- An attempt at a full ring is orderly. -/
theorem orderly_full (hfull : ¬ s.resource.items.length < s.resource.capacity) :
  Orderly s (.attempt f)
  := fun _ hroom => absurd hroom hfull

/-- One send waits, a second one is polled after it, and both are served. -/
theorem sends_are_served_in_order_both :
  ∃ (trace : List (Event Bool)) (s : System Bool (Ring ℕ)) (h : Record Bool),
    Trail (fun p e q => Recorded (fun _ => 5) p e q ∧ Orderly p.1 e)
      (System.start ⟨[1], 1, false⟩, Record.start) trace (s, h) ∧
    h.ahead = [(false, true)] ∧ h.pushed = [false, true] ∧ h.InOrder
  := by
  have hpoll : Trail (fun p e q => Recorded (fun _ : Bool => 5) p e q ∧ Orderly p.1 e)
      (System.start (⟨[1], 1, false⟩ : Ring ℕ), Record.start) _ (_, _) :=
    orderly_snoc Trail.nil (Step.begin (f := false) (v := 7) rfl) trivial
  have hfull := orderly_snoc hpoll (Step.attemptFirst (f := false) rfl) (orderly_full (by decide))
  have hpark := orderly_snoc hfull (Step.park (f := false) rfl rfl) (show 0 + 1 < 2 ^ 64 by decide)
  have hpending := orderly_snoc hpark (Step.attemptAgain (f := false) rfl)
    (orderly_full (by decide))
  have hsecond := orderly_snoc hpending (Step.begin (f := true) (v := 8) rfl) trivial
  have hfull' := orderly_snoc hsecond (Step.attemptFirst (f := true) rfl)
    (orderly_full (by decide))
  have hpop := orderly_snoc hfull' (Step.others .pop) trivial
  have hwake := orderly_snoc hpop (Step.wakeOne rfl) trivial
  have hagain := orderly_snoc hwake (Step.resume (f := false) (v := 7) rfl) trivial
  have hrefresh := orderly_snoc hagain (Step.refresh (f := false) rfl) trivial
  have hserved := orderly_snoc hrefresh (Step.attemptAgain (f := false) rfl) (by
    intro _ _ g t' hg hwaits
    cases g with
    | false => exact absurd rfl hg
    | true => cases hwaits)
  have hpop' := orderly_snoc hserved (Step.others .pop) trivial
  have hpark' := orderly_snoc hpop' (Step.park (f := true) rfl rfl) (show 1 + 1 < 2 ^ 64 by decide)
  have hboth := orderly_snoc hpark' (Step.attemptAgain (f := true) rfl) (by
    intro _ _ g t' hg hwaits
    cases g with
    | true => exact absurd rfl hg
    | false => cases hwaits)
  exact ⟨_, _, _, hboth, rfl, rfl, sends_are_served_in_order _ hboth⟩

/-- A newcomer takes the room that a waiting send was woken for. -/
theorem newcomer_overtakes_waiting_send :
  ¬ ∀ (trace : List (Event Bool)) (s : System Bool (Ring ℕ)) (h : Record Bool),
    Trail (Recorded fun _ => 5) (System.start ⟨[1], 1, false⟩, Record.start) trace (s, h) →
      h.InOrder
  := by
  intro hall
  have hpoll : Trail (Recorded fun _ : Bool => 5)
      (System.start (⟨[1], 1, false⟩ : Ring ℕ), Record.start) _ (_, _) :=
    recorded_snoc Trail.nil (Step.begin (f := false) (v := 7) rfl)
  have hfull := recorded_snoc hpoll (Step.attemptFirst (f := false) rfl)
  have hpark := recorded_snoc hfull (Step.park (f := false) rfl rfl)
  have hpending := recorded_snoc hpark (Step.attemptAgain (f := false) rfl)
  have hpop := recorded_snoc hpending (Step.others .pop)
  have hwake := recorded_snoc hpop (Step.wakeOne rfl)
  have hsecond := recorded_snoc hwake (Step.begin (f := true) (v := 8) rfl)
  have hstolen := recorded_snoc hsecond (Step.attemptFirst (f := true) rfl)
  have horder := hall _ _ _ hstolen false true (by decide) (by decide) [] [] rfl
  cases horder

end Grommet.Waiters
