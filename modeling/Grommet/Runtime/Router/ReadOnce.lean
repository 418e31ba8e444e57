import Grommet.Runtime.Router.Traces
import Mathlib.Algebra.Order.Group.Nat

/-!
# Scheduling metadata is read once

A call of the router reads the methods of a work item when it stamps it, and the envelope that
it pushes carries what they answered.  Every call reads each of them once for an item, except
`submitBatch` where a mailbox is full: the item is handed back without its envelope and stamped
again before it waits for room, so that its methods are called a second time and the envelope
that the shard receives carries the second answers.
-/

open Checked Program

namespace Grommet.Router

open Waiters (Ticket Closed)

variable {K I W : Type}

/-- The methods of a work item. -/
inductive Method where
  | key
  | requestId
  | classOf
  | timeToLive
  deriving DecidableEq

/-- The method that an event calls, with the item that it calls it on. -/
def called : Event K I W → Option (Method × W)
  | ⟨.classOf work, _⟩ => some (.classOf, work)
  | ⟨.keyOf work, _⟩ => some (.key, work)
  | ⟨.timeToLive work, _⟩ => some (.timeToLive, work)
  | ⟨.requestId work, _⟩ => some (.requestId, work)
  | _ => none

/-- The envelope that an event offers to a mailbox. -/
def offer : Event K I W → Option (Envelope K I W)
  | ⟨.trySendDeferred _ envelope, _⟩ => some envelope
  | _ => none

/-- The methods that are called along a trace. -/
def calls (t : List (Event K I W)) : List (Method × W) := t.filterMap called

/-- An envelope carries the answers of the readings in a trace. -/
structure Carries (r : Router) (item : W) (t : List (Event K I W)) (envelope : Envelope K I W) :
    Prop where
  work : envelope.work = item
  classId : ⟨.classOf item, envelope.classId⟩ ∈ t
  key : ⟨.keyOf item, envelope.key⟩ ∈ t
  requestId : ⟨.requestId item, envelope.requestId⟩ ∈ t
  expiresAt : if r.stampArrival then ∃ timeToLive, ⟨.timeToLive item, timeToLive⟩ ∈ t ∧
      envelope.expiresAt = timeToLive.map (saturatingAdd envelope.enqueued)
    else envelope.expiresAt = none

/-- In the part of a trace that belongs to an item its methods are called, each at most once, and
what is offered to a mailbox carries their answers. -/
structure Once (r : Router) (item : W) (t : List (Event K I W)) : Prop where
  own : ∀ call ∈ calls t, call.2 = item
  once : ((calls t).map Prod.fst).Nodup
  carries : ∀ envelope ∈ t.filterMap offer, Carries r item t envelope

/-- Each item has its own part of the trace, and nothing is read or offered outside of them. -/
def ReadOnce (r : Router) (items : List W) (t : List (Event K I W)) : Prop :=
  ∃ t₁ ts t₂, t = t₁ ++ (ts.flatten ++ t₂) ∧ (∀ e ∈ t₁ ++ t₂, called e = none ∧ offer e = none) ∧
    ∃ n, List.Forall₂ (Once r) (items.take n) ts

/-! ### Calls -/

inductive Call (W : Type) where
  | submit (work : W)
  | trySubmit (work : W)
  | submitBatch (items : List W)
  | trySubmitBatch (items : List W)

def Call.items : Call W → List W
  | submit work => [work]
  | trySubmit work => [work]
  | submitBatch items => items
  | trySubmitBatch items => items

/-- The call can meet these operations and answers; `returned` tells whether it returned. -/
def Call.Runs [ShardKey K] (r : Router) (returned : Bool) (t : List (Event K I W)) : Call W → Prop
  | submit work => ∃ x, Run Op.halts (r.submit work) t x ∧ returned = x.isSome
  | trySubmit work => ∃ x, Run Op.halts (r.trySubmit work) t x ∧ returned = x.isSome
  | submitBatch items => ∃ x, Run Op.halts (r.submitBatch items) t x ∧ returned = x.isSome
  | trySubmitBatch items => ∃ x, Run Op.halts (r.trySubmitBatch items) t x ∧ returned = x.isSome

/-- No item of a `submitBatch` meets a full mailbox. -/
def Call.Meets (t : List (Event K I W)) : Call W → Prop
  | submitBatch _ => ∀ shard envelope, ⟨.trySendDeferred shard envelope, .error .full⟩ ∉ t
  | _ => True

variable {r : Router} {arrival : Option Duration} {item work : W} {shard : ℕ}
  {envelope : Envelope K I W} {t t' : List (Event K I W)} {d : Deferred}

/-! ### One item -/

/-- A trace that calls no method, and offers nothing but one envelope. -/
structure Bare (envelope : Envelope K I W) (t : List (Event K I W)) : Prop where
  calls : calls t = []
  offers : ∀ envelope' ∈ t.filterMap offer, envelope' = envelope

theorem Bare.skip {e : Event K I W} (h : Bare envelope t) (hcalled : called e = none)
    (hoffer : offer e = none) :
  Bare envelope (e :: t)
  := by
  constructor
  · rw [Router.calls, List.filterMap_cons_none hcalled]
    exact h.calls
  · rw [List.filterMap_cons_none hoffer]
    exact h.offers

theorem Bare.push {answer : Except TrySendError Unit} (h : Bare envelope t) :
  Bare envelope (⟨.trySendDeferred shard envelope, answer⟩ :: t)
  := by
  constructor
  · exact h.calls
  · intro envelope' hmem
    rcases List.mem_cons.mp hmem with rfl | hmem
    · rfl
    · exact h.offers envelope' hmem

theorem Bare.nil :
  Bare envelope ([] : List (Event K I W))
  := ⟨rfl, fun _ hmem => (List.not_mem_nil hmem).elim⟩

theorem Waiting.bare {ticket : Ticket} {x : Option (Except Closed Unit)}
    (h : Waiting shard envelope ticket t x) :
  Bare envelope t
  := by
  induction h with
  | sent => exact ((Bare.nil.skip rfl rfl).skip rfl rfl).push
  | closed => exact (Bare.nil.skip rfl rfl).push
  | dropped => exact (Bare.nil.skip rfl rfl).push
  | again _ ih => exact ((ih.skip rfl rfl).skip rfl rfl).push

theorem Sending.bare {x : Option (Except Closed Unit)} (h : Sending shard envelope t x) :
  Bare envelope t
  := by
  cases h with
  | sent => exact (Bare.nil.skip rfl rfl).push
  | closed => exact Bare.nil.push
  | gone => exact (Bare.nil.skip rfl rfl).push
  | waiting hwait => exact ((hwait.bare.skip rfl rfl).skip rfl rfl).push

theorem Trying.bare {sent : Except TrySendError Unit} (h : Trying shard envelope t sent) :
  Bare envelope t
  := by
  cases h with
  | ok => exact (Bare.nil.skip rfl rfl).push
  | error => exact Bare.nil.push

theorem Reading.offers {s : Except (SubmitError W) (Envelope K I W)}
    (h : Reading r work arrival t s) :
  t.filterMap offer = []
  := by
  cases h <;> rfl

/-- Stamping calls some methods, each once, and `class` first. -/
theorem Reading.calls {s : Except (SubmitError W) (Envelope K I W)}
    (h : Reading r work arrival t s) :
  ∃ methods : List Method, methods.Nodup ∧ methods.count .classOf = 1 ∧
    calls t = methods.map fun method => (method, work)
  := by
  cases h with
  | invalid => exact ⟨[.classOf], by decide, by decide, rfl⟩
  | stamped =>
    exact ⟨[.classOf, .key, .timeToLive, .requestId], by decide, by decide, rfl⟩
  | timeless => exact ⟨[.classOf, .key, .requestId], by decide, by decide, rfl⟩

theorem Reading.carries (h : Reading r work arrival t (.ok envelope))
    (harrival : arrival.isSome = r.stampArrival) :
  Carries r work t envelope
  := by
  cases h with
  | @stamped classId key now timeToLive requestId _ hsome =>
    subst hsome
    refine ⟨rfl, ?_, ?_, ?_, ?_⟩
    · exact List.mem_cons_self
    · exact List.mem_cons_of_mem _ List.mem_cons_self
    · apply List.mem_cons_of_mem
      apply List.mem_cons_of_mem
      exact List.mem_cons_of_mem _ List.mem_cons_self
    · rw [← harrival]
      exact ⟨timeToLive, List.mem_cons_of_mem _ (List.mem_cons_of_mem _ List.mem_cons_self), rfl⟩
  | timeless _ hnone =>
    subst hnone
    refine ⟨rfl, ?_, ?_, ?_, ?_⟩
    · exact List.mem_cons_self
    · exact List.mem_cons_of_mem _ List.mem_cons_self
    · exact List.mem_cons_of_mem _ (List.mem_cons_of_mem _ List.mem_cons_self)
    · rw [← harrival]
      rfl

theorem Carries.append (h : Carries r item t envelope) :
  Carries r item (t ++ t') envelope
  := by
  refine ⟨h.work, List.mem_append_left _ h.classId, List.mem_append_left _ h.key,
    List.mem_append_left _ h.requestId, ?_⟩
  have hexpires := h.expiresAt
  split at hexpires
  · rename_i hstamp
    obtain ⟨timeToLive, hread, heq⟩ := hexpires
    rw [if_pos hstamp]
    exact ⟨timeToLive, List.mem_append_left _ hread, heq⟩
  · rename_i hstamp
    rw [if_neg hstamp]
    exact hexpires

/-- A refused item. -/
theorem Reading.once {error : SubmitError W}
    (h : Reading (K := K) (I := I) r item arrival t (.error error)) :
  Once r item t
  := by
  obtain ⟨methods, hnodup, -, hcalls⟩ := h.calls
  constructor
  · rw [hcalls]
    intro call hcall
    obtain ⟨method, -, rfl⟩ := List.mem_map.mp hcall
    rfl
  · rw [hcalls, List.map_map]
    exact (List.map_id' methods).symm ▸ hnodup
  · rw [h.offers]
    exact fun envelope hmem => (List.not_mem_nil hmem).elim

/-- An item that is stamped once, and whose envelope is all that is offered. -/
theorem Reading.once_append (h : Reading r item arrival t (.ok envelope))
    (harrival : arrival.isSome = r.stampArrival) (hbare : Bare envelope t') :
  Once r item (t ++ t')
  := by
  obtain ⟨methods, hnodup, -, hcalls⟩ := h.calls
  have happend : Router.calls (t ++ t') = methods.map fun method => (method, item) := by
    rw [Router.calls, List.filterMap_append]
    exact (congrArg₂ (· ++ ·) hcalls hbare.calls).trans (List.append_nil _)
  constructor
  · rw [happend]
    intro call hcall
    obtain ⟨method, -, rfl⟩ := List.mem_map.mp hcall
    rfl
  · rw [happend, List.map_map]
    exact (List.map_id' methods).symm ▸ hnodup
  · rw [List.filterMap_append, h.offers, List.nil_append]
    intro envelope' hmem
    rw [hbare.offers envelope' hmem]
    exact (h.carries harrival).append

variable [ShardKey K]

theorem Submitting.once {x : Option (Verdict W)} (h : Submitting (K := K) r item arrival t x)
    (harrival : arrival.isSome = r.stampArrival) :
  Once r item t
  := by
  cases h with
  | refused hread => exact hread.once
  | sent hread _ hsend => exact hread.once_append harrival hsend.bare

theorem Offering.once {verdict : Verdict W} (h : Offering (K := K) r item arrival t verdict)
    (harrival : arrival.isSome = r.stampArrival) :
  Once r item t
  := by
  cases h with
  | refused hread => exact hread.once
  | sent hread _ htry => exact hread.once_append harrival htry.bare

theorem Deferring.bare {y : Verdict W × Deferred} (h : Deferring r envelope d t y) :
  Bare envelope t
  := by
  cases h with
  | pushed => exact Bare.nil.push
  | announced => exact (Bare.nil.skip rfl rfl).push
  | closed => exact Bare.nil.push

theorem Passing.once
    {full : W → Deferred → List (Event K I W) → Option (Verdict W × Deferred) → Prop}
    {x : Option (Verdict W × Deferred)} (h : Passing r arrival full item d t x)
    (harrival : arrival.isSome = r.stampArrival)
    (hfull : ∀ t' shard envelope, ⟨.trySendDeferred shard envelope, .error .full⟩ ∈ t →
      full item d t' x → t' = []) :
  Once r item t
  := by
  cases h with
  | refused hread => exact hread.once
  | settled hread hdeferring => exact hread.once_append harrival hdeferring.bare
  | full hread _ h =>
    rw [hfull _ _ _ (List.mem_append_right _ List.mem_cons_self) h]
    exact hread.once_append harrival Bare.nil.push

/-! ### Batches -/

omit [ShardKey K] in
theorem Course.once
    {step : W → Deferred → List (Event K I W) → Option (Verdict W × Deferred) → Prop}
    {items : List W} {ts : List (List (Event K I W))} {x : Option (List (Verdict W) × Deferred)}
    (h : Course step items d ts x)
    (hstep : ∀ item d t x, t ∈ ts → step item d t x → Once r item t) :
  ∃ n, List.Forall₂ (Once r) (items.take n) ts
  := by
  induction h with
  | done => exact ⟨0, .nil⟩
  | stopped h => exact ⟨1, .cons (hstep _ _ _ _ List.mem_cons_self h) .nil⟩
  | next h _ ih =>
    obtain ⟨n, hrest⟩ := ih fun item d t x ht => hstep item d t x (List.mem_cons_of_mem _ ht)
    exact ⟨n + 1, .cons (hstep _ _ _ _ List.mem_cons_self h) hrest⟩

omit [ShardKey K] in
theorem Arriving.outside (h : Arriving r t arrival) :
  (∀ e ∈ t, called e = none ∧ offer e = none) ∧ arrival.isSome = r.stampArrival
  := by
  cases h with
  | stamped hstamp =>
    refine ⟨?_, hstamp.symm⟩
    intro e he
    rw [List.mem_singleton.mp he]
    exact ⟨rfl, rfl⟩
  | unstamped hstamp => exact ⟨fun e he => (List.not_mem_nil he).elim, hstamp.symm⟩

omit [ShardKey K] in
theorem Deferred.Announces.outside {p : ℕ → Prop} (h : Announces p t) :
  ∀ e ∈ t, called e = none ∧ offer e = none
  := by
  intro e he
  obtain ⟨shard, -, rfl⟩ := h.only e he
  exact ⟨rfl, rfl⟩

omit [ShardKey K] in
theorem Batching.readOnce
    {step : Option Duration → W → Deferred → List (Event K I W) →
      Option (Verdict W × Deferred) → Prop}
    {items : List W} {x : Option (Except (BatchError W) Unit)} (h : Batching r step items t x)
    (hstep : ∀ arrival item d t' x, (∀ e ∈ t', e ∈ t) → arrival.isSome = r.stampArrival →
      step arrival item d t' x → Once r item t') :
  ReadOnce r items t
  := by
  cases h with
  | @stopped t₁ ts arrival harrival hcourse =>
    obtain ⟨houtside, hstamp⟩ := harrival.outside
    refine ⟨t₁, ts, [], by rw [List.append_nil], ?_, ?_⟩
    · rw [List.append_nil]
      exact houtside
    · apply hcourse.once
      intro item d t' x ht' h
      refine hstep arrival item d t' x (fun e he => ?_) hstamp h
      exact List.mem_append_right _ (List.mem_flatten_of_mem ht' he)
  | @returned t₁ t₂ ts arrival verdicts d harrival hcourse hannounced =>
    obtain ⟨houtside, hstamp⟩ := harrival.outside
    refine ⟨t₁, ts, t₂, rfl, ?_, ?_⟩
    · intro e he
      rcases List.mem_append.mp he with he | he
      · exact houtside e he
      · exact hannounced.outside e he
    · apply hcourse.once
      intro item d t' x ht' h
      refine hstep arrival item d t' x (fun e he => ?_) hstamp h
      exact List.mem_append_right _ (List.mem_append_left _ (List.mem_flatten_of_mem ht' he))

omit [ShardKey K] in
theorem readOnce_single (harrival : Arriving r t arrival) (honce : Once r item t') :
  ReadOnce r [item] (t ++ t')
  := by
  refine ⟨t, [t'], [], ?_, ?_, 1, .cons honce .nil⟩
  · rw [List.flatten_singleton, List.append_nil]
  · rw [List.append_nil]
    exact harrival.outside.1

/-- In a call where no item of a `submitBatch` meets a full mailbox every method is read once. -/
theorem Call.readOnce {call : Call W} {returned : Bool} (h : call.Runs r returned t)
    (hmeets : call.Meets t) :
  ReadOnce r call.items t
  := by
  cases call with
  | submit work =>
    obtain ⟨x, hrun, -⟩ := h
    obtain ⟨arrival, t₁, t₂, rfl, harrival, hsubmit⟩ := submit_run hrun
    exact readOnce_single harrival (hsubmit.once harrival.outside.2)
  | trySubmit work =>
    obtain ⟨x, hrun, -⟩ := h
    obtain ⟨arrival, t₁, t₂, verdict, rfl, harrival, hoffer, -⟩ := trySubmit_run hrun
    exact readOnce_single harrival (hoffer.once harrival.outside.2)
  | submitBatch items =>
    obtain ⟨x, hrun, -⟩ := h
    apply (submitBatch_run hrun).readOnce
    intro arrival item d t' x ht' hstamp hstep
    apply hstep.once hstamp
    intro t'' shard envelope hfull
    exact (hmeets shard envelope (ht' _ hfull)).elim
  | trySubmitBatch items =>
    obtain ⟨x, hrun, -⟩ := h
    apply (trySubmitBatch_run hrun).readOnce
    intro arrival item d t' x ht' hstamp hstep
    apply hstep.once hstamp
    rintro t'' shard envelope - ⟨⟩
    rfl

/-! ### A full mailbox -/

/-- How often `class` is called. -/
def reads (t : List (Event K I W)) : ℕ := ((calls t).map Prod.fst).count .classOf

omit [ShardKey K] in
theorem reads_append :
  reads (t ++ t') = reads t + reads t'
  := by
  rw [reads, calls, List.filterMap_append, List.map_append, List.count_append]
  rfl

omit [ShardKey K] in
theorem reads_outside (h : ∀ e ∈ t, called e = none ∧ offer e = none) :
  reads t = 0
  := by
  have hcalls : calls t = [] := List.filterMap_eq_nil_iff.mpr fun e he => (h e he).1
  rw [reads, hcalls]
  rfl

omit [ShardKey K] in
theorem reads_parts {items : List W} {ts : List (List (Event K I W))}
    (h : List.Forall₂ (Once r) items ts) :
  reads ts.flatten ≤ items.length
  := by
  induction h with
  | nil => exact Nat.le_refl 0
  | cons honce _ ih =>
    have hone := List.nodup_iff_count_le_one.mp honce.once .classOf
    rw [List.flatten_cons, reads_append, List.length_cons, Nat.add_comm]
    exact Nat.add_le_add ih hone

omit [ShardKey K] in
theorem ReadOnce.reads_le {items : List W} (h : ReadOnce r items t) :
  reads t ≤ items.length
  := by
  obtain ⟨t₁, ts, t₂, rfl, houtside, n, hparts⟩ := h
  have hlength := List.length_take_le' n items
  have hparts' := reads_parts hparts
  rw [reads_append, reads_append, reads_outside fun e he => houtside e (List.mem_append_left _ he),
    reads_outside fun e he => houtside e (List.mem_append_right _ he)]
  omega

/-- The mailbox of an item is full. -/
def MeetsFull (t : List (Event K I W)) : Prop :=
  ∃ shard envelope, ⟨.trySendDeferred shard envelope, .error .full⟩ ∈ t

omit [ShardKey K] in
theorem MeetsFull.append (h : MeetsFull (t ++ t')) :
  MeetsFull t ∨ MeetsFull t'
  := by
  obtain ⟨shard, envelope, hmem⟩ := h
  rcases List.mem_append.mp hmem with hmem | hmem
  · exact Or.inl ⟨shard, envelope, hmem⟩
  · exact Or.inr ⟨shard, envelope, hmem⟩

omit [ShardKey K] in
theorem not_meetsFull (h : t.filterMap offer = []) :
  ¬ MeetsFull t
  := by
  rintro ⟨shard, envelope, hmem⟩
  have hnone := List.filterMap_eq_nil_iff.mp h _ hmem
  cases hnone

omit [ShardKey K] in
theorem Reading.reads {s : Except (SubmitError W) (Envelope K I W)}
    (h : Reading r work arrival t s) :
  reads t = 1
  := by
  obtain ⟨methods, -, hcount, hcalls⟩ := h.calls
  rw [Router.reads, hcalls, List.map_map]
  exact (List.map_id' methods).symm ▸ hcount

theorem Submitting.reads {x : Option (Verdict W)}
    (h : Submitting (K := K) r item arrival t x) :
  1 ≤ reads t
  := by
  cases h with
  | refused hread => exact Nat.le_of_eq hread.reads.symm
  | sent hread =>
    rw [reads_append, hread.reads]
    exact Nat.le_add_right 1 _

/-- An item is read once, and twice when its mailbox is full. -/
theorem Passing.reads {x : Option (Verdict W × Deferred)}
    (h : Passing (K := K) r arrival (Yielding r arrival) item d t x) :
  1 ≤ reads t ∧ (MeetsFull t → 2 ≤ reads t)
  := by
  cases h with
  | refused hread =>
    exact ⟨Nat.le_of_eq hread.reads.symm, fun hfull => (not_meetsFull hread.offers hfull).elim⟩
  | settled hread hdeferring =>
    rw [reads_append, hread.reads]
    refine ⟨Nat.le_add_right 1 _, fun hfull => ?_⟩
    rcases hfull.append with hfull | ⟨shard, envelope, hmem⟩
    · exact (not_meetsFull hread.offers hfull).elim
    · cases hdeferring with
      | pushed => simp at hmem
      | announced => simp at hmem
      | closed => simp at hmem
  | @full t t' envelope shard x hread _ hyield =>
    cases hyield with
    | yielded hannounced _ hsubmit =>
      have hagain := hsubmit.reads
      rw [reads_append, hread.reads, ← List.cons_append, reads_append]
      omega

theorem Course.reads {items : List W} {ts : List (List (Event K I W))} {verdicts : List (Verdict W)}
    {d' : Deferred}
    (h : Course (Passing (K := K) r arrival (Yielding r arrival)) items d ts (some (verdicts, d'))) :
  items.length ≤ reads ts.flatten ∧ (MeetsFull ts.flatten → items.length < reads ts.flatten)
  := by
  generalize hx : some (verdicts, d') = x at h
  induction h generalizing verdicts with
  | done => exact ⟨Nat.le_refl 0, fun hfull => (not_meetsFull rfl hfull).elim⟩
  | stopped => cases hx
  | @next item items d d'' t ts verdict x h _ ih =>
    cases x with
    | none => cases hx
    | some y =>
      cases hx
      obtain ⟨hone, htwo⟩ := h.reads
      obtain ⟨hle, hlt⟩ := ih rfl
      rw [List.flatten_cons, reads_append, List.length_cons]
      refine ⟨by omega, fun hfull => ?_⟩
      rcases hfull.append with hfull | hfull
      · have hfirst := htwo hfull
        omega
      · have hrest := hlt hfull
        omega

/-- A call that returned and read every method once met no full mailbox in a `submitBatch`. -/
theorem Call.meets {call : Call W} (h : call.Runs r true t) (honce : ReadOnce r call.items t) :
  call.Meets t
  := by
  cases call with
  | submitBatch items =>
    intro shard envelope hmem
    obtain ⟨x, hrun, hreturned⟩ := h
    have hle : reads t ≤ items.length := honce.reads_le
    cases submitBatch_run hrun with
    | stopped => cases hreturned
    | @returned t₁ t₂ ts arrival verdicts d harrival hcourse hannounced =>
      have hnone {t : List (Event K I W)} (h : ∀ e ∈ t, called e = none ∧ offer e = none) :
          t.filterMap offer = [] :=
        List.filterMap_eq_nil_iff.mpr fun e he => (h e he).2
      have hfull : MeetsFull (t₁ ++ (ts.flatten ++ t₂)) := ⟨shard, envelope, hmem⟩
      rw [reads_append, reads_append] at hle
      rcases hfull.append with hfull | hfull
      · exact not_meetsFull (hnone harrival.outside.1) hfull
      · rcases hfull.append with hfull | hfull
        · have hlt := hcourse.reads.2 hfull
          omega
        · exact not_meetsFull (hnone hannounced.outside) hfull
  | _ => trivial

/-- In every session of calls where no item of a `submitBatch` meets a full mailbox, every method
is read once at most for each item, and what is offered to the mailboxes carries the answers.  For
calls that return there are no others. -/
theorem metadata_read_once_iff (r : Router)
    (session : List (Call W × Bool × List (Event K I W)))
    (hruns : ∀ s ∈ session, s.1.Runs r s.2.1 s.2.2) :
  ((∀ s ∈ session, s.1.Meets s.2.2) → ∀ s ∈ session, ReadOnce r s.1.items s.2.2) ∧
    ∀ s ∈ session, s.2.1 = true → (ReadOnce r s.1.items s.2.2 ↔ s.1.Meets s.2.2)
  := by
  constructor
  · intro hmeets s hs
    exact Call.readOnce (hruns s hs) (hmeets s hs)
  · intro s hs hreturned
    have hrun := hruns s hs
    constructor
    · rw [hreturned] at hrun
      exact Call.meets hrun
    · exact Call.readOnce hrun

/-- A batch of two items that are pushed to two shards. -/
theorem metadata_read_once_iff_offered :
  ∃ t : List (Event (BitVec 64) ℕ ℕ),
    Run Op.halts (double.submitBatch [7, 8]) t (some (.ok ())) ∧ ReadOnce double [7, 8] t
  := by
  obtain ⟨t, hannounced, hrun⟩ := landed_run
  have hmeets : (Call.submitBatch [7, 8]).Meets (landed t) := by
    intro shard envelope hmem
    have hmem : (⟨.trySendDeferred shard envelope, .error .full⟩ : Event (BitVec 64) ℕ ℕ) ∈ t := by
      simpa [landed, readings] using hmem
    obtain ⟨shard', -, heq⟩ := hannounced.only _ hmem
    cases heq
  have honce := metadata_read_once_iff double [(.submitBatch [7, 8], true, landed t)] (by
    intro s hs
    rw [List.mem_singleton.mp hs]
    exact ⟨_, hrun, rfl⟩)
  exact ⟨landed t, hrun, ((honce.2 _ List.mem_cons_self rfl).mpr hmeets)⟩

/-- Other answers of the same work item. -/
def second : Envelope (BitVec 64) ℕ ℕ := ⟨2, 1, some 5, none, 0, 7⟩

/-- A batch of one item whose mailbox is full at first: its methods are called twice, and the
shard receives the second answers. -/
theorem full_mailbox_reads_twice :
  ∃ t : List (Event (BitVec 64) ℕ ℕ),
    Run Op.halts (single.submitBatch [7]) t (some (.ok ())) ∧ ¬ ReadOnce single [7] t
  := by
  refine ⟨⟨.now, 0⟩ :: (readings first ++ ⟨.trySendDeferred 0 first, .error .full⟩ ::
    (readings second ++ [⟨.trySendDeferred 0 second, .ok ()⟩, ⟨.announce 0, ()⟩])), ?_, ?_⟩
  · obtain ⟨hindex, hmailbox⟩ := route_single (I := ℕ) (W := ℕ) first.key
    obtain ⟨hindex', -⟩ := route_single (I := ℕ) (W := ℕ) second.key
    have hfirst : Reading single 7 (some 0) (readings first) (.ok first) :=
      .stamped (by decide) rfl
    have hsecond : Reading single 7 (some 0) (readings second) (.ok second) :=
      .stamped (by decide) rfl
    have hsend : Run Op.halts (single.send second)
        [⟨.trySendDeferred 0 second, .ok ()⟩, ⟨.announce 0, ()⟩] (some (.ok ())) := by
      rw [Router.send, hindex', pure_bind', hmailbox, pure_bind']
      exact .act _ (.act _ (.ret _))
    have hwork : Run Op.halts (single.sendWork 7 (some 0) : Submission (BitVec 64) ℕ ℕ _)
        (readings second ++ [⟨.trySendDeferred 0 second, .ok ()⟩, ⟨.announce 0, ()⟩])
        (some (.ok ())) :=
      hsecond.run.bind hsend
    have hdefer : Run Op.halts (single.trySendDeferred first default)
        [⟨.trySendDeferred 0 first, .error .full⟩] (some (.error (.full 7), default)) := by
      rw [Router.trySendDeferred, hindex, pure_bind', hmailbox, pure_bind']
      exact .act _ (.ret _)
    have hitem : Run Op.halts (single.submitItem (some 0) (default, default) 7)
        (readings first ++ ([⟨.trySendDeferred 0 first, .error .full⟩] ++ (readings second ++
          [⟨.trySendDeferred 0 second, .ok ()⟩, ⟨.announce 0, ()⟩] ++ [])))
        (some (⟨1, []⟩, default)) :=
      hfirst.run.bind (hdefer.bind (hwork.bind (.ret _)))
    have hloop := hitem.bind (f := pure) (.ret _)
    exact .act _ (hloop.bind (.ret _))
  · intro honce
    have hle := honce.reads_le
    revert hle
    decide

end Grommet.Router
