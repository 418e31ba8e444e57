import Grommet.Runtime.Shard.Contract

/-!
# Repeated requests

An item that is tracked carries its request id from its admission until it leaves: through the
queue of its key, into a future, or to the items that were discarded.  The index of a shard has
the ids of the items that are somewhere on this way, and no id is twice on the way of one key.

Each step either moves ids along, or lets one in that is not there yet, or lets one out.
-/

open Checked

namespace Grommet

namespace Shard

variable {K I W S : Type} [DecidableEq K] {CLASSES : ℕ}

/-- The request id of a key that a future holds. -/
def Job.requests (k : K) : Job K I W S → List I
  | .runOne _ d => if d.key = k then d.payload.requestId.toList else []
  | .runFlush _ _ _ => []

@[simp]
theorem Job.requests_polled (k : K) (job : Job K I W S) :
  job.polled.requests k = job.requests k
  := by
  cases job <;> rfl

/-- The request ids of the items of a key that are queued, or discarded and not shed. -/
def bookRequests (book : Scheduler K (Stamped I W) S CLASSES) (k : K) : List I :=
  (book.expired.filter (·.1 = k)).filterMap (·.2.2.requestId) ++
    (book.contents k).filterMap (·.payload.requestId)

/-- The request ids of the items of a key that are queued, in flight, or discarded and not
shed. -/
def requests (s : Shard K I W S CLASSES) (k : K) : List I :=
  bookRequests s.book k ++ s.outstanding.flatMap (Job.requests k)

/-- The index has the ids of the items that are on their way, and each is there once. -/
def Indexed [DecidableEq I] (s : Shard K I W S CLASSES) : Prop :=
  ∀ k, (s.requests k).Nodup ∧ ∀ id, id ∈ s.requests k ↔ (k, id) ∈ s.live

variable {s s' : Shard K I W S CLASSES} {x : Desk K I W S CLASSES} {deeds : List (Deed K I W S)}

/-! ### Calls of the scheduler -/

/-- Ids that are in a book before a call, or are admitted by it, are there after it, or were
popped or dispatched. -/
theorem Sits.bookRequests_call (h : s.Sits x) (call : Call K (Stamped I W) S)
    {e : Event K (Stamped I W) S} {book : Scheduler K (Stamped I W) S CLASSES}
    (hallow : x.account.ledger.Allows CLASSES call) (hperform : s.book.perform call = .ok (book, e))
    (k : K) :
  (bookRequests s.book k ++ (e.admitted k).filterMap (·.payload.requestId)).Perm
    ((e.popped.filter (·.1 = k)).filterMap (·.2.2.requestId) ++
      ((e.dispatched.filter (·.key = k)).toList.filterMap (·.payload.requestId) ++
        bookRequests book k))
  := by
  obtain ⟨a, hstep, ⟨own, free, hr⟩, -⟩ := h.call call hallow hperform
  obtain ⟨own₀, free₀, hr₀⟩ := h.represents
  obtain ⟨left, hleft, hdepartures⟩ := hstep.items k
  have hexpired := congrArg (fun l => (l.filter (·.1 = k)).filterMap (·.2.2.requestId)) hstep.expired
  have hqueue := congrArg (List.filterMap (·.payload.requestId)) hleft
  -- What left the queue was discarded or dispatched.
  have hgone : left.filterMap (·.payload.requestId) =
      (e.discarded.filter (·.1 = k)).filterMap (·.2.2.requestId) ++
        (e.dispatched.filter (·.key = k)).toList.filterMap (·.payload.requestId) := by
    have hpayload := congrArg (List.filterMap Stamped.requestId)
      (Desk.map_payload_of_departures hdepartures)
    rw [List.filterMap_map, List.filterMap_map] at hpayload
    rw [show left.filterMap (·.payload.requestId) =
      left.filterMap (Stamped.requestId ∘ Item.payload) from rfl, hpayload]
    cases e with
    | next c now discarded dispatch =>
      simp only [Event.departures, Event.discarded, Event.dispatched, List.filterMap_append,
        List.filterMap_map]
      rfl
    | _ => rfl
  simp only [List.filter_append, List.filterMap_append] at hexpired hqueue
  rw [hgone] at hqueue
  rw [bookRequests, bookRequests, hr.contents, hr.expired, h.contents, hr₀.expired, List.append_assoc,
    hqueue, List.append_assoc, ← List.append_assoc, hexpired]
  simp only [List.append_assoc]
  apply List.Perm.append_left
  rw [← List.append_assoc, ← List.append_assoc]
  apply List.perm_append_comm.append_right

/-- A call that hands nothing over leaves the ids where they are. -/
theorem Sits.bookRequests_still (h : s.Sits x) (call : Call K (Stamped I W) S)
    {e : Event K (Stamped I W) S} {book : Scheduler K (Stamped I W) S CLASSES}
    (hallow : x.account.ledger.Allows CLASSES call) (hperform : s.book.perform call = .ok (book, e))
    (hadmitted : ∀ k, e.admitted k = []) (hpopped : e.popped = []) (hdispatched : e.dispatched = none)
    (k : K) :
  (bookRequests book k).Perm (bookRequests s.book k)
  := by
  have hperm := h.bookRequests_call call hallow hperform k
  rw [hadmitted, hpopped, hdispatched] at hperm
  simpa using hperm.symm

/-- A sweep leaves the ids where they are. -/
theorem Sits.requests_serviceTimer (h : s.Sits x) {timer : Timer}
    (hservice : s.serviceTimer timer = .ok s') :
  s'.live = s.live ∧ ∀ k, (s'.requests k).Perm (s.requests k)
  := by
  obtain ⟨book, staged, timers, hsweep, rfl⟩ := serviceTimer_eq_ok hservice
  refine ⟨rfl, fun k => ?_⟩
  rw [requests, requests]
  apply List.Perm.append_right
  rw [sweep] at hsweep
  split at hsweep
  · apply h.bookRequests_still (.evict s.now s.staged) True.intro
      (by rw [Scheduler.perform, hsweep, ok_bind]) (fun _ => rfl) rfl rfl
  · cases hsweep
    exact .refl _

theorem Sits.requests_serviceTimers (h : s.Sits x) (hsheds : s.phase.sheds = false) {fired : Bool}
    (hservice : s.serviceTimers = .ok (s', fired)) :
  s'.live = s.live ∧ ∀ k, (s'.requests k).Perm (s.requests k)
  := by
  have hkept : (∃ x, s'.Sits x) ∧ s'.phase.sheds = false ∧ s'.live = s.live ∧
      ∀ k, (s'.requests k).Perm (s.requests k) := by
    apply serviceTimers_induction (motive := fun s₁ : Shard K I W S CLASSES =>
      (∃ x, s₁.Sits x) ∧ s₁.phase.sheds = false ∧ s₁.live = s.live ∧
        ∀ k, (s₁.requests k).Perm (s.requests k)) ?_ ?_ hservice
      ⟨⟨x, h⟩, hsheds, rfl, fun _ => .refl _⟩
    · rintro s₁ timers ⟨⟨y, h₁⟩, hsheds₁, hlive, hperm⟩
      exact ⟨⟨y, h₁.same rfl rfl rfl rfl rfl id⟩, hsheds₁, hlive, hperm⟩
    · rintro s₁ timer s₂ ⟨⟨y, h₁⟩, hsheds₁, hlive, hperm⟩ hfirst
      obtain ⟨z, hsheds₂, h₂⟩ := h₁.serviceTimer_sits hsheds₁ hfirst
      obtain ⟨hlive₂, hperm₂⟩ := h₁.requests_serviceTimer hfirst
      exact ⟨⟨z, h₂⟩, hsheds₂, hlive₂.trans hlive, fun k => (hperm₂ k).trans (hperm k)⟩
  exact hkept.2.2

/-! ### The index -/

section

variable [DecidableEq I]

theorem Indexed.kept (h : s.Indexed) (hlive : s'.live = s.live)
    (hperm : ∀ k, (s'.requests k).Perm (s.requests k)) :
  s'.Indexed
  := by
  intro k
  obtain ⟨hnodup, hmem⟩ := h k
  refine ⟨(hperm k).nodup_iff.mpr hnodup, ?_⟩
  intro id
  rw [(hperm k).mem_iff, hlive, hmem]

/-- An id enters the index with its item. -/
theorem Indexed.entered (h : s.Indexed) {key : K} {id : I} (hfresh : (key, id) ∉ s.live)
    (hlive : s'.live = insert (key, id) s.live)
    (hperm : ∀ k, (s'.requests k).Perm ((if key = k then [id] else []) ++ s.requests k)) :
  s'.Indexed
  := by
  intro k
  obtain ⟨hnodup, hmem⟩ := h k
  rw [(hperm k).nodup_iff]
  by_cases hk : key = k
  · subst hk
    rw [if_pos rfl, List.singleton_append, List.nodup_cons, hmem]
    refine ⟨⟨hfresh, hnodup⟩, ?_⟩
    intro id'
    rw [(hperm key).mem_iff, if_pos rfl, hlive, Finset.mem_insert, List.singleton_append,
      List.mem_cons, hmem, Prod.mk.injEq]
    simp
  · rw [if_neg hk, List.nil_append]
    refine ⟨hnodup, ?_⟩
    intro id'
    rw [(hperm k).mem_iff, if_neg hk, hlive, Finset.mem_insert, List.nil_append, hmem, Prod.mk.injEq]
    simp [Ne.symm hk]

/-- An id leaves the index with its item. -/
theorem Indexed.left (h : s.Indexed) (key : K) (requestId : Option I)
    (hlive : s'.live = forget s.live key requestId)
    (hperm : ∀ k, (s.requests k).Perm ((if key = k then requestId.toList else []) ++ s'.requests k)) :
  s'.Indexed
  := by
  cases requestId with
  | none =>
    apply h.kept hlive
    intro k
    have hk := hperm k
    simp only [Option.toList_none, ite_self, List.nil_append] at hk
    apply hk.symm
  | some id =>
    intro k
    obtain ⟨hnodup, hmem⟩ := h k
    have hk := hperm k
    rw [hk.nodup_iff, List.nodup_append] at hnodup
    obtain ⟨-, hnodup, hdisjoint⟩ := hnodup
    refine ⟨hnodup, ?_⟩
    intro id'
    rw [hlive, forget, Finset.mem_erase, ← hmem, hk.mem_iff, List.mem_append, ne_eq, Prod.mk.injEq]
    by_cases hkey : key = k
    · subst hkey
      rw [if_pos rfl] at hdisjoint ⊢
      constructor
      · intro hleft
        refine ⟨?_, .inr hleft⟩
        rintro ⟨-, rfl⟩
        apply hdisjoint id' (by simp) id' hleft rfl
      · rintro ⟨hne, hout | hleft⟩
        · exfalso
          apply hne
          simpa using hout
        · apply hleft
    · simp [hkey, Ne.symm hkey]

/-- An item that leaves takes its id out of the index. -/
theorem not_mem_forget (live : Finset (K × I)) (key : K) {requestId : Option I} {id : I}
    (hid : requestId = some id) :
  (key, id) ∉ forget live key requestId
  := by
  rw [hid, forget]
  apply Finset.notMem_erase

/-- A dispatch moves the id of its item from the book to a future. -/
theorem Sits.requests_dispatch (h : s.Sits x) {c : ClassId} {now : Duration}
    {book : Scheduler K (Stamped I W) S CLASSES} {d : Dispatch K (Stamped I W) S}
    (hnext : s.book.next c now = .ok (book, some d)) (k : K) :
  (bookRequests book k ++ (s.outstanding ++ [Job.runOne false d]).flatMap (Job.requests k)).Perm
    (s.requests k)
  := by
  have hperm := h.bookRequests_call (.next c now) True.intro
    (by rw [Scheduler.perform, hnext, ok_bind]) k
  have hmoved : (((some d).filter (·.key = k)).toList.filterMap (·.payload.requestId)) =
      (Job.runOne false d).requests k := by
    by_cases hk : d.key = k
    · cases hid : d.payload.requestId <;> simp [Job.requests, Option.filter_some, hk, hid]
    · simp [Job.requests, Option.filter_some, hk]
  simp only [Event.admitted, Event.popped, Event.dispatched, List.filterMap_nil, List.append_nil,
    List.filter_nil, List.nil_append, hmoved] at hperm
  rw [requests, List.flatMap_append, List.flatMap_singleton, List.perm_iff_count]
  intro id
  have hcount := hperm.count_eq id
  simp only [List.count_append] at hcount ⊢
  omega

/-- A future that finishes takes its id along. -/
theorem Sits.requests_ran (h : s.Sits x) {before after : List (Job K I W S)} {started : Bool}
    {d : Dispatch K (Stamped I W) S} {disposition : Disposition S} {time : Duration}
    {book : Scheduler K (Stamped I W) S CLASSES}
    (hjobs : s.outstanding = before ++ .runOne started d :: after)
    (hcomplete : s.book.complete ⟨d.key, d.classId, disposition⟩ time = .ok book) (k : K) :
  (s.requests k).Perm ((if d.key = k then d.payload.requestId.toList else []) ++
    (bookRequests book k ++ (before ++ after).flatMap (Job.requests k)))
  := by
  have hbook := h.bookRequests_still (.complete ⟨d.key, d.classId, disposition⟩ time)
    (h.allows_complete hjobs) (by rw [Scheduler.perform, hcomplete, ok_bind]) (fun _ => rfl) rfl rfl k
  rw [requests, hjobs, List.flatMap_append, List.flatMap_cons, List.flatMap_append,
    List.perm_iff_count]
  intro id
  have hcount := hbook.count_eq id
  simp only [List.count_append, Job.requests] at hcount ⊢
  omega

omit [DecidableEq I] in
/-- A flush that finishes has no id. -/
theorem Sits.requests_flushed (h : s.Sits x) {before after : List (Job K I W S)} {started : Bool}
    {key : K} {state : S} {time : Duration} {book : Scheduler K (Stamped I W) S CLASSES}
    (hjobs : s.outstanding = before ++ .runFlush started key state :: after)
    (hevict : s.book.finishEvict key time = .ok book) (k : K) :
  (bookRequests book k ++ (before ++ after).flatMap (Job.requests k)).Perm (s.requests k)
  := by
  have hbook := h.bookRequests_still (.finishEvict key time) (h.allows_finishEvict hjobs)
    (by rw [Scheduler.perform, hevict, ok_bind]) (fun _ => rfl) rfl rfl k
  rw [requests, hjobs, List.flatMap_append, List.flatMap_append, List.flatMap_cons]
  apply hbook.append_right

/-- An envelope is suppressed for an id that is in the index, or it is queued, with its id when
repeated requests are suppressed. -/
theorem admitOne_cases {envelope : Envelope K I W} (h : s.admitOne envelope = .ok (s', deeds)) :
  (∃ id, envelope.requestId = some id ∧ s.cfg.coalesceDuplicates = true ∧
      (envelope.key, id) ∈ s.live ∧ s' = s ∧ deeds = [.onCoalesced envelope.key envelope.work]) ∨
    ∃ tracked live book, deeds = [] ∧
      s.book.admitItem ⟨envelope.key, envelope.classId, envelope.expiresAt,
        ⟨envelope.enqueued, tracked, envelope.work⟩⟩ = .ok book ∧
      s' = { s with book := book, live := live } ∧
      ((tracked = none ∧ live = s.live ∧
          (s.cfg.coalesceDuplicates = true → envelope.requestId = none)) ∨
        ∃ id, tracked = some id ∧ envelope.requestId = some id ∧ s.cfg.coalesceDuplicates = true ∧
          (envelope.key, id) ∉ s.live ∧ live = insert (envelope.key, id) s.live)
  := by
  rw [admitOne.eq_def] at h
  split at h
  · rename_i id hid hcoalesce
    split at h
    · rename_i hmem
      cases h
      left
      exact ⟨id, hid, hcoalesce, hmem, rfl, rfl⟩
    · rename_i hfresh
      simp only [admitEnvelope, bind_eq_ok] at h
      obtain ⟨s₁, ⟨book, hbook, hs₁⟩, h⟩ := h
      cases hs₁
      cases h
      right
      exact ⟨some id, _, book, rfl, hbook, rfl, .inr ⟨id, rfl, hid, hcoalesce, hfresh, rfl⟩⟩
  · rename_i hnot
    simp only [admitEnvelope, bind_eq_ok] at h
    obtain ⟨s₁, ⟨book, hbook, hs₁⟩, h⟩ := h
    cases hs₁
    cases h
    right
    refine ⟨none, s.live, book, rfl, hbook, rfl, .inl ⟨rfl, rfl, ?_⟩⟩
    intro hcoalesce
    cases hid : envelope.requestId with
    | none => rfl
    | some id =>
      exfalso
      apply hnot id hid hcoalesce

/-- The shard takes an item: it is suppressed when its id is in the index, and otherwise queued
with it. -/
theorem Sits.indexed_receive (h : s.Sits x) (hindexed : s.Indexed) {envelope : Envelope K I W}
    {rest : List (Envelope K I W)}
    (hadmitted : admitOne { s with inbox := rest } envelope = .ok (s', deeds)) :
  s'.Indexed
  := by
  have hcall : ∀ {tracked : Option I} {book : Scheduler K (Stamped I W) S CLASSES},
      s.book.admitItem ⟨envelope.key, envelope.classId, envelope.expiresAt,
        ⟨envelope.enqueued, tracked, envelope.work⟩⟩ = .ok book → ∀ k,
      (bookRequests book k ++ s.outstanding.flatMap (Job.requests k)).Perm
        ((if envelope.key = k then tracked.toList else []) ++ s.requests k) := by
    intro tracked book hbook k
    have hclass : envelope.classId.toNat < CLASSES := Scheduler.admitItem_class hbook
    have hperm := h.bookRequests_call (.admitItem ⟨envelope.key, envelope.classId,
      envelope.expiresAt, ⟨envelope.enqueued, tracked, envelope.work⟩⟩) hclass
      (by rw [Scheduler.perform, hbook, ok_bind]) k
    have hnew : ((.admitItem ⟨envelope.key, envelope.classId, envelope.expiresAt,
        ⟨envelope.enqueued, tracked, envelope.work⟩⟩ : Event K (Stamped I W) S).admitted k).filterMap
          (·.payload.requestId) = if envelope.key = k then tracked.toList else [] := by
      by_cases hk : envelope.key = k
      · cases tracked <;> simp [Event.admitted, hk]
      · simp [Event.admitted, hk]
    rw [hnew] at hperm
    rw [requests, List.perm_iff_count]
    intro id
    have hcount := hperm.count_eq id
    simp only [Event.popped, Event.dispatched, List.filter_nil, List.filterMap_nil,
      Option.filter_none, Option.toList_none, List.nil_append, List.count_append] at hcount ⊢
    omega
  rcases admitOne_cases hadmitted with ⟨id, -, -, -, rfl, -⟩ |
    ⟨tracked, live, book, -, hbook, rfl, ⟨rfl, rfl, -⟩ | ⟨id, rfl, -, -, hfresh, rfl⟩⟩
  · exact hindexed
  · refine hindexed.kept rfl fun k => ?_
    have hperm := hcall hbook k
    simp only [Option.toList_none, ite_self, List.nil_append] at hperm
    exact hperm
  · exact hindexed.entered hfresh rfl (hcall hbook)

/-- Every step keeps the index. -/
theorem Sits.indexed_step (h : s.Sits x) (hindexed : s.Indexed) (hstep : Step s deeds s') :
  s'.Indexed
  := by
  have hsame : s'.live = s.live → s'.book = s.book → s'.outstanding = s.outstanding →
      s'.Indexed := by
    intro hlive hbook hjobs
    apply hindexed.kept hlive
    intro k
    rw [requests, requests, hbook, hjobs]
  cases hstep with
  | send envelope _ => exact hsame rfl rfl rfl
  | disconnect => exact hsame rfl rfl rfl
  | wake now _ => exact hsame rfl rfl rfl
  | dispatch _ _ hnext hpush =>
    rw [push_eq_ok hpush]
    exact hindexed.kept rfl (h.requests_dispatch hnext)
  | @nextClass c book _ _ hnext =>
    have hperm := h.bookRequests_still (.next (UInt8.ofNat c) s.now) True.intro
      (by rw [Scheduler.perform, hnext, ok_bind]) (fun _ => rfl) rfl rfl
    exact hindexed.kept rfl fun k => (hperm k).append_right _
  | dispatched _ _ => exact hsame rfl rfl rfl
  | @shed key c stamped _ hpop =>
    apply hindexed.left key stamped.requestId rfl
    intro k
    have hperm := h.bookRequests_call .popExpired True.intro rfl k
    have hout : ((.popExpired s.book.popExpired.2 : Event K (Stamped I W) S).popped.filter
        (·.1 = k)).filterMap (·.2.2.requestId) =
          if key = k then stamped.requestId.toList else [] := by
      rw [hpop]
      by_cases hk : key = k
      · cases hid : stamped.requestId <;> simp [Event.popped, hk, hid]
      · simp [Event.popped, hk]
    simp only [Scheduler.popExpired] at hperm hout ⊢
    rw [requests, requests, List.perm_iff_count]
    intro id
    have hcount := hperm.count_eq id
    rw [hout] at hcount
    simp only [Event.admitted, Event.dispatched, List.filterMap_nil, Option.filter_none,
      Option.toList_none, List.nil_append, List.append_nil, List.count_append] at hcount ⊢
    omega
  | shedAll _ hpop =>
    have hperm := h.bookRequests_still .popExpired True.intro rfl (fun _ => rfl)
      (by rw [show s.book.expired.head? = none from hpop]; rfl) rfl
    exact hindexed.kept rfl fun k => (hperm k).append_right _
  | flush _ hbegin _ =>
    rw [beginFlushes_eq_ok hbegin]
    refine hindexed.kept rfl fun k => ?_
    have hnone : ∀ candidates : List (K × S),
        (flushJobs candidates : List (Job K I W S)).flatMap (Job.requests k) = [] := by
      intro candidates
      rw [List.flatMap_eq_nil_iff]
      intro job hjob
      obtain ⟨p, -, rfl⟩ := List.mem_map.mp hjob
      rfl
    rw [requests, requests]
    simp only [List.flatMap_append, hnone, List.append_nil]
    exact .refl _
  | evictAll _ _ _ hevict =>
    have hperm := h.bookRequests_still (.evictAll s.staged) True.intro
      (by rw [Scheduler.perform, hevict, ok_bind]) (fun _ => rfl) rfl rfl
    exact hindexed.kept rfl fun k => (hperm k).append_right _
  | exit _ _ _ => exact hsame rfl rfl rfl
  | drain _ _ _ => exact hsame rfl rfl rfl
  | skipDrain time _ _ _ => exact hsame rfl rfl rfl
  | receive _ _ _ hadmitted =>
    have hafter := h.indexed_receive hindexed hadmitted
    exact hafter
  | closed now time _ _ _ _ => exact hsame rfl rfl rfl
  | pending now time _ _ => exact hsame rfl rfl rfl
  | full now time _ _ => exact hsame rfl rfl rfl
  | poll before _ _ hjobs =>
    refine hindexed.kept rfl fun k => ?_
    rw [requests, requests, hjobs]
    simp only [List.flatMap_append, List.flatMap_cons, Job.requests_polled]
    exact .refl _
  | ran before outcome _ _ hjobs hfinish =>
    obtain ⟨book, hcomplete, rfl⟩ := finishRun_eq_ok hfinish
    exact hindexed.left _ _ rfl (h.requests_ran hjobs hcomplete)
  | flushed before _ _ hjobs hfinish =>
    obtain ⟨book, hevict, rfl⟩ := finishFlush_eq_ok hfinish
    exact hindexed.kept rfl (h.requests_flushed hjobs hevict)
  | harvested moreReady now _ => exact hsame rfl rfl rfl
  | abort _ => exact hsame rfl rfl rfl
  | service hphase hservice =>
    obtain ⟨hlive, hperm⟩ := h.requests_serviceTimers (by rw [hphase]; rfl) hservice
    exact hindexed.kept hlive hperm
  | suspend _ => exact hsame rfl rfl rfl
  | resume now _ => exact hsame rfl rfl rfl

omit [DecidableEq I] in
/-- An item that is not suppressed is queued last. -/
theorem Sits.contents_receive (h : s.Sits x) {envelope : Envelope K I W} {tracked : Option I}
    {book : Scheduler K (Stamped I W) S CLASSES}
    (hbook : s.book.admitItem ⟨envelope.key, envelope.classId, envelope.expiresAt,
      ⟨envelope.enqueued, tracked, envelope.work⟩⟩ = .ok book) :
  book.contents envelope.key = s.book.contents envelope.key ++
    [⟨envelope.classId, envelope.expiresAt, ⟨envelope.enqueued, tracked, envelope.work⟩⟩]
  := by
  have hclass : envelope.classId.toNat < CLASSES := Scheduler.admitItem_class hbook
  obtain ⟨a, hstep, ⟨own, free, hr⟩, -⟩ := h.call (.admitItem ⟨envelope.key, envelope.classId,
    envelope.expiresAt, ⟨envelope.enqueued, tracked, envelope.work⟩⟩) hclass
    (by rw [Scheduler.perform, hbook, ok_bind])
  obtain ⟨left, hleft, hdepartures⟩ := hstep.items envelope.key
  cases hdepartures
  rw [hr.contents, h.contents]
  simpa [Event.admitted] using hleft.symm

/-- A shard starts with an empty index. -/
theorem Indexed.start {cfg : ShardConfig CLASSES} {now : Duration} {wheelId : ℕ}
    (h : Shard.start cfg now wheelId = .ok s) :
  s.Indexed
  := by
  simp only [Shard.start, bind_eq_ok] at h
  obtain ⟨-, -, w, -, timers, -, h⟩ := h
  cases h
  intro k
  have hnil : bookRequests (Scheduler.new cfg.scheduler : Scheduler K (Stamped I W) S CLASSES) k =
      [] := rfl
  simp [requests, hnil]

/-- What a shard that suppresses repeated requests does with them. -/
structure Coalesces (log : List (Deed K I W S)) (s : Shard K I W S CLASSES) : Prop where
  /-- The index has the ids of the items that are queued, in flight, or discarded and not
  shed. -/
  live : ∀ k id, (k, id) ∈ s.live ↔ id ∈ s.requests k
  /-- There is never more than one item for an id. -/
  once : ∀ k, (s.requests k).Nodup
  /-- An item whose id is there is handed to `on_coalesced`, and nothing else becomes of it. -/
  suppressed : ∀ (envelope : Envelope K I W) (rest : List (Envelope K I W)) (id : I),
    envelope.requestId = some id → id ∈ s.requests envelope.key →
    admitOne { s with inbox := rest } envelope =
      .ok ({ s with inbox := rest }, [.onCoalesced envelope.key envelope.work])
  /-- Any other is queued with its id. -/
  queued : ∀ (envelope : Envelope K I W) (rest : List (Envelope K I W))
    (s' : Shard K I W S CLASSES) (deeds : List (Deed K I W S)),
    (∀ id, envelope.requestId = some id → id ∉ s.requests envelope.key) →
    admitOne { s with inbox := rest } envelope = .ok (s', deeds) → deeds = [] ∧
      s'.book.contents envelope.key = s.book.contents envelope.key ++ [⟨envelope.classId,
        envelope.expiresAt, ⟨envelope.enqueued, envelope.requestId, envelope.work⟩⟩]
  /-- A future that finishes, in whatever way, releases its id. -/
  processed : ∀ (s' : Shard K I W S CLASSES) (deeds : List (Deed K I W S)) (key : K)
    (outcome : Outcome S), Step s deeds s' → .processed key outcome ∈ deeds →
    ∃ before after started d, s.outstanding = before ++ .runOne started d :: after ∧ d.key = key ∧
      ∀ id, d.payload.requestId = some id → (key, id) ∉ s'.live
  /-- An item that is shed releases its id. -/
  expired : ∀ (s' : Shard K I W S CLASSES) (deeds : List (Deed K I W S)) (key : K) (work : W),
    Step s deeds s' → .onExpired key work ∈ deeds →
    ∃ c stamped, s.book.expired.head? = some (key, c, stamped) ∧ stamped.work = work ∧
      ∀ id, stamped.requestId = some id → (key, id) ∉ s'.live
  /-- What is handed to `on_coalesced` is not served as well. -/
  served : ∀ k, (log.flatMap (Deed.coalesces k) ++ log.flatMap (Deed.serves k)).Subperm
    (log.flatMap (Deed.receives k))

omit [DecidableEq K] [DecidableEq I] in
theorem Job.not_processed_calls (job : Job K I W S) (key : K) (outcome : Outcome S) :
  .processed key outcome ∉ job.calls
  := by
  rcases job with ⟨_ | _, d⟩ | ⟨_ | _, key', state⟩ <;> simp [calls]

omit [DecidableEq K] [DecidableEq I] in
theorem Job.not_onExpired_calls (job : Job K I W S) (key : K) (work : W) :
  .onExpired key work ∉ job.calls
  := by
  rcases job with ⟨_ | _, d⟩ | ⟨_ | _, key', state⟩ <;> simp [calls]

/-- A future finishes in a step of a harvest. -/
theorem Step.of_processed (hstep : Step s deeds s') {key : K} {outcome : Outcome S}
    (hmem : .processed key outcome ∈ deeds) :
  ∃ before after started d, s.outstanding = before ++ .runOne started d :: after ∧ d.key = key ∧
    s'.live = forget s.live key d.payload.requestId
  := by
  cases hstep with
  | @ran time admitted report abort started before after d outcome' s' _ _ hjobs hfinish =>
    obtain ⟨book, -, rfl⟩ := finishRun_eq_ok hfinish
    rcases List.mem_append.mp hmem with hcall | hdone
    · exfalso
      apply Job.not_processed_calls _ _ _ hcall
    · rw [List.mem_singleton] at hdone
      cases hdone
      exact ⟨before, after, started, d, hjobs, rfl, rfl⟩
  | @flushed time admitted report abort started before after key' state s' _ _ hjobs hfinish =>
    rcases List.mem_append.mp hmem with hcall | hdone
    · exfalso
      apply Job.not_processed_calls _ _ _ hcall
    · rw [List.mem_singleton] at hdone
      cases hdone
  | poll before _ _ _ =>
    exfalso
    apply Job.not_processed_calls _ _ _ hmem
  | receive _ _ _ hadmitted =>
    rcases admitOne_eq_ok hadmitted with ⟨rfl, rfl⟩ | ⟨tracked, live, book, rfl, -, rfl⟩
    · simp at hmem
    · simp at hmem
  | _ => simp at hmem

/-- An item is shed before the flushes begin. -/
theorem Step.of_expired (hstep : Step s deeds s') {key : K} {work : W}
    (hmem : .onExpired key work ∈ deeds) :
  ∃ c stamped, s.book.expired.head? = some (key, c, stamped) ∧ stamped.work = work ∧
    s'.live = forget s.live key stamped.requestId
  := by
  cases hstep with
  | @shed key' c stamped _ hpop =>
    rw [List.mem_singleton] at hmem
    cases hmem
    exact ⟨c, stamped, hpop, rfl, rfl⟩
  | ran before outcome _ _ _ _ =>
    rcases List.mem_append.mp hmem with hcall | hdone
    · exfalso
      apply Job.not_onExpired_calls _ _ _ hcall
    · rw [List.mem_singleton] at hdone
      cases hdone
  | flushed before _ _ _ _ =>
    rcases List.mem_append.mp hmem with hcall | hdone
    · exfalso
      apply Job.not_onExpired_calls _ _ _ hcall
    · rw [List.mem_singleton] at hdone
      cases hdone
  | poll before _ _ _ =>
    exfalso
    apply Job.not_onExpired_calls _ _ _ hmem
  | receive _ _ _ hadmitted =>
    rcases admitOne_eq_ok hadmitted with ⟨rfl, rfl⟩ | ⟨tracked, live, book, rfl, -, rfl⟩
    · simp at hmem
    · simp at hmem
  | _ => simp at hmem

/-- In every state of a shard that suppresses repeated requests, the index has the ids of the
items on their way, so that a repeated request is suppressed exactly while its original is on its
way. -/
theorem repeated_requests_coalesce {cfg : ShardConfig CLASSES}
    {trace : List (List (Deed K I W S))} (hcoalesce : cfg.coalesceDuplicates = true)
    (hrun : Run cfg trace s) :
  Coalesces trace.flatten s
  := by
  obtain ⟨now, wheelId, s₀, hstart, htrail⟩ := hrun
  obtain ⟨trace', x, htrail', hdeeds, hsits, hcfg⟩ := sits_of_trail htrail (Sits.start hstart)
  rw [← (start_eq_ok hstart).1, ← hcfg] at hcoalesce
  have hindexed : s.Indexed := by
    have hboth : (∃ x, s.Sits x) ∧ s.Indexed := by
      apply htrail.invariant fun _ (s : Shard K I W S CLASSES) => (∃ x, s.Sits x) ∧ s.Indexed
      · exact ⟨⟨_, Sits.start hstart⟩, Indexed.start hstart⟩
      · rintro _ s₁ deeds s₂ - ⟨⟨y, hsits₁⟩, hindexed₁⟩ hstep
        obtain ⟨trace₂, z, -, -, hsits₂⟩ := hsits₁.step hstep
        exact ⟨⟨z, hsits₂⟩, hsits₁.indexed_step hindexed₁ hstep⟩
    apply hboth.2
  constructor
  · intro k id
    rw [(hindexed k).2]
  · intro k
    apply (hindexed k).1
  · intro envelope rest id hid hmem
    rw [(hindexed _).2] at hmem
    rw [admitOne.eq_def]
    simp only [hid, hcoalesce]
    rw [if_pos hmem]
  · intro envelope rest s' deeds hfresh hadmitted
    rcases admitOne_cases hadmitted with ⟨id, hid, -, hmem, -⟩ |
      ⟨tracked, live, book, rfl, hbook, rfl, hcase⟩
    · exfalso
      apply hfresh id hid
      rw [(hindexed _).2]
      apply hmem
    · have htracked : tracked = envelope.requestId := by
        rcases hcase with ⟨rfl, -, hnone⟩ | ⟨id, rfl, hid, -⟩
        · rw [hnone hcoalesce]
        · rw [hid]
      subst htracked
      exact ⟨rfl, hsits.contents_receive hbook⟩
  · intro s' deeds key outcome hstep hmem
    obtain ⟨before, after, started, d, hjobs, hkey, hlive⟩ := hstep.of_processed hmem
    refine ⟨before, after, started, d, hjobs, hkey, ?_⟩
    intro id hid
    rw [hlive]
    apply not_mem_forget _ _ hid
  · intro s' deeds key work hstep hmem
    obtain ⟨c, stamped, hhead, hwork, hlive⟩ := hstep.of_expired hmem
    refine ⟨c, stamped, hhead, hwork, ?_⟩
    intro id hid
    rw [hlive]
    apply not_mem_forget _ _ hid
  · intro k
    obtain ⟨-, hperm⟩ := Desk.works_of_trail htrail' k
    rw [hdeeds] at hperm
    refine List.Subperm.trans ?_ hperm.subperm
    rw [← List.append_assoc]
    apply (List.sublist_append_left _ _).subperm

end

/-- A request that is received while its original is queued is suppressed. -/
theorem repeated_requests_coalesce_queued :
  ∃ (s : Shard ℕ ℕ ℕ ℕ 1) (trace : List (List (Deed ℕ ℕ ℕ ℕ))),
    Run { ShardConfig.new fun _ => 1 with coalesceDuplicates := true } trace s ∧
    trace.flatten = [.accepted ⟨7, 0, some 3, none, 0, 40⟩, .accepted ⟨7, 0, some 3, none, 0, 41⟩,
      .received ⟨7, 0, some 3, none, 0, 40⟩, .received ⟨7, 0, some 3, none, 0, 41⟩,
      .onCoalesced 7 41] ∧
    s.requests 7 = [3] ∧ Coalesces trace.flatten s
  := by
  have h₀ : Trail Step ((start { ShardConfig.new fun _ => 1 with coalesceDuplicates := true } 0 1 :
      Checked (Shard ℕ ℕ ℕ ℕ 1)).toOption.get rfl) [] _ := .nil
  have h₁ := h₀.snoc (.send ⟨7, 0, some 3, none, 0, 40⟩ rfl)
  have h₂ := h₁.snoc (.send ⟨7, 0, some 3, none, 0, 41⟩ rfl)
  have h₃ := h₂.snoc (.wake 1 rfl)
  have h₄ := h₃.snoc (.nextClass rfl (by decide) rfl)
  have h₅ := h₄.snoc (.dispatched rfl (by decide))
  have h₆ := h₅.snoc (.shedAll rfl rfl)
  have h₇ := h₆.snoc (.flush rfl rfl rfl)
  have h₈ := h₇.snoc (.drain rfl rfl rfl)
  have h₉ := h₈.snoc (.receive rfl rfl rfl rfl)
  have h₁₀ := h₉.snoc (.receive rfl rfl rfl rfl)
  have hstart : start { ShardConfig.new fun _ => 1 with coalesceDuplicates := true } 0 1 =
      .ok ((start { ShardConfig.new fun _ => 1 with coalesceDuplicates := true } 0 1 :
        Checked (Shard ℕ ℕ ℕ ℕ 1)).toOption.get rfl) := rfl
  exact ⟨_, _, ⟨0, 1, _, hstart, h₁₀⟩, rfl, rfl,
    repeated_requests_coalesce rfl ⟨0, 1, _, hstart, h₁₀⟩⟩

end Shard

end Grommet
