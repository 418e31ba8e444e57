import Grommet.Core.Scheduler.Load

/-!
# A key has one owner, and its state is handed on

Between two events that hand a key out stands the event that gave it back: the completion
of a dispatch, or the end of a flush.  The state of a key moves from the completion that
kept it to the one event that hands it out next.
-/

namespace Grommet

variable {K P S : Type} [DecidableEq K] {CLASSES : ℕ}

/-! ### Owners -/

namespace Event

/-- The event dispatches the key. -/
def Dispatches (e : Event K P S) (k : K) : Prop :=
  ∃ d ∈ e.dispatched, d.key = k

/-- The event hands out the state of the key for flushing. -/
def Flushes (e : Event K P S) (k : K) : Prop :=
  k ∈ e.pushed.map Prod.fst

/-- The event gives the key an owner. -/
def HandsOut (e : Event K P S) (k : K) : Prop :=
  e.Dispatches k ∨ e.Flushes k

/-- The event completes the key. -/
def Completes (e : Event K P S) (k : K) : Prop :=
  ∃ completion ∈ e.completed, completion.key = k

/-- The event ends the flush of the key. -/
def Finishes (e : Event K P S) (k : K) : Prop :=
  ∃ now, e = .finishEvict k now

/-- The keys that an event gives an owner. -/
def handedOut (e : Event K P S) : List K :=
  (e.dispatched.map Dispatch.key).toList ++ e.pushed.map Prod.fst

omit [DecidableEq K] in
theorem mem_handedOut {e : Event K P S} {k : K} :
  k ∈ e.handedOut ↔ e.HandsOut k
  := by
  simp [handedOut, HandsOut, Dispatches, Flushes]

omit [DecidableEq K] in
/-- An event that dispatches completes nothing. -/
theorem not_completes_of_dispatches {e : Event K P S} {k j : K} (h : e.Dispatches k) :
  ¬ e.Completes j
  := by
  rintro ⟨completion, hc, -⟩
  obtain ⟨d, hd, -⟩ := h
  cases e with
  | next c now discarded dispatch => cases hc
  | complete completion now => cases hd
  | admitItem item => cases hc
  | popExpired item => cases hc
  | evict now pushed => cases hc
  | evictAll pushed => cases hc
  | finishEvict key now => cases hc

end Event

namespace Ledger

/-- The keys that the caller owns. -/
def owned (l : Ledger K) : List K :=
  l.running.map Prod.fst ++ l.flushing

/-- The caller comes to own what an event hands out. -/
theorem owned_record {l : Ledger K} {e : Event K P S} (h : e.handedOut ≠ []) :
  (l.record e).owned.Perm (l.owned ++ e.handedOut)
  := by
  cases e with
  | next c now discarded dispatch =>
    cases dispatch with
    | none => simp [Event.handedOut, Event.dispatched, Event.pushed] at h
    | some d =>
      simp only [record, owned, Event.handedOut, Event.dispatched, Event.pushed, Option.map_some,
        Option.toList_some, List.map_append, List.map_cons, List.map_nil, List.append_nil,
        List.append_assoc]
      apply List.Perm.append_left
      apply List.perm_append_comm
  | evict now pushed =>
    simp [record, owned, Event.handedOut, Event.dispatched, Event.pushed]
  | evictAll pushed =>
    simp [record, owned, Event.handedOut, Event.dispatched, Event.pushed]
  | admitItem item => simp [Event.handedOut, Event.dispatched, Event.pushed] at h
  | popExpired item => simp [Event.handedOut, Event.dispatched, Event.pushed] at h
  | complete completion now => simp [Event.handedOut, Event.dispatched, Event.pushed] at h
  | finishEvict key now => simp [Event.handedOut, Event.dispatched, Event.pushed] at h

variable {l : Ledger K} {e : Event K P S} {k : K}

/-- A dispatched key is owned until it is completed. -/
theorem mem_running_record (h : e.Dispatches k ∨ k ∈ l.running.map Prod.fst)
    (hnot : ¬ e.Completes k) :
  k ∈ (l.record e).running.map Prod.fst
  := by
  cases e with
  | next c now discarded dispatch =>
    rcases h with ⟨d, hd, rfl⟩ | h
    · simp only [Event.dispatched, Option.mem_def] at hd
      subst hd
      simp [record]
    · simp only [record, List.map_append, List.mem_append]
      left
      apply h
  | complete completion now =>
    rcases h with ⟨d, hd, -⟩ | h
    · cases hd
    · obtain ⟨⟨k', c⟩, hmem, rfl⟩ := List.mem_map.mp h
      have hne : completion.key ≠ k' := by
        intro heq
        apply hnot
        exact ⟨completion, rfl, heq⟩
      apply List.mem_map.mpr
      refine ⟨(k', c), ?_, rfl⟩
      rw [record, List.mem_erase_of_ne]
      · apply hmem
      · intro heq
        apply hne (congrArg Prod.fst heq).symm
  | evict now pushed => simpa [record, Event.Dispatches, Event.dispatched] using h
  | evictAll pushed => simpa [record, Event.Dispatches, Event.dispatched] using h
  | admitItem item => simpa [record, Event.Dispatches, Event.dispatched] using h
  | popExpired item => simpa [record, Event.Dispatches, Event.dispatched] using h
  | finishEvict key now => simpa [record, Event.Dispatches, Event.dispatched] using h

/-- A key handed out for flushing is owned until its flush ends. -/
theorem mem_flushing_record (h : e.Flushes k ∨ k ∈ l.flushing) (hnot : ¬ e.Finishes k) :
  k ∈ (l.record e).flushing
  := by
  cases e with
  | finishEvict key now =>
    rcases h with h | h
    · simp [Event.Flushes, Event.pushed] at h
    · have hne : k ≠ key := by
        rintro rfl
        apply hnot
        exact ⟨now, rfl⟩
      rw [record, List.mem_erase_of_ne hne]
      apply h
  | evict now pushed =>
    simp only [record, List.mem_append]
    apply h.symm
  | evictAll pushed =>
    simp only [record, List.mem_append]
    apply h.symm
  | next c now discarded dispatch => simpa [record, Event.Flushes, Event.pushed] using h
  | complete completion now => simpa [record, Event.Flushes, Event.pushed] using h
  | admitItem item => simpa [record, Event.Flushes, Event.pushed] using h
  | popExpired item => simpa [record, Event.Flushes, Event.pushed] using h

end Ledger

namespace Account

variable {cfg : Config CLASSES} {x y : Account K P S CLASSES} {e : Event K P S} {k : K}
  {t : List (Event K P S)}

omit [DecidableEq K] in
/-- The caller owns a key once. -/
theorem owned_nodup (x : Account K P S CLASSES) :
  x.ledger.owned.Nodup
  := by
  rw [Ledger.owned, List.nodup_append]
  refine ⟨x.good.nodup .inFlight, x.good.nodup .evicting, ?_⟩
  rintro k hk j hj rfl
  have hrun := ((x.good.mem .inFlight k).mp hk).2
  have hflush := ((x.good.mem .evicting k).mp hj).2
  rw [hrun] at hflush
  cases hflush

/-- An event hands out keys that the caller does not own, once each. -/
theorem Step.nodup (h : x.Step cfg e y) :
  (x.ledger.owned ++ e.handedOut).Nodup
  := by
  by_cases hnil : e.handedOut = []
  · rw [hnil, List.append_nil]
    apply x.owned_nodup
  · have hperm := Ledger.owned_record (l := x.ledger) hnil
    rw [← h.2] at hperm
    apply hperm.nodup_iff.mp y.owned_nodup

/-- A key in flight stays owned up to its completion. -/
theorem running_of_trail (h : Trail (Step cfg) x t y) (hk : k ∈ x.ledger.running.map Prod.fst) :
  (∃ e ∈ t, e.Completes k) ∨ k ∈ y.ledger.running.map Prod.fst
  := by
  apply h.invariant fun t y => (∃ e ∈ t, e.Completes k) ∨ k ∈ y.ledger.running.map Prod.fst
  · right
    apply hk
  · intro t y e z _ hor hstep
    rcases hor with ⟨e', he', hc⟩ | hrun
    · left
      exact ⟨e', by simp [he'], hc⟩
    · by_cases hc : e.Completes k
      · left
        exact ⟨e, by simp, hc⟩
      · right
        rw [hstep.2]
        apply Ledger.mem_running_record (Or.inr hrun) hc

/-- A key being flushed stays owned up to the end of the flush. -/
theorem flushing_of_trail (h : Trail (Step cfg) x t y) (hk : k ∈ x.ledger.flushing) :
  (∃ e ∈ t, e.Finishes k) ∨ k ∈ y.ledger.flushing
  := by
  apply h.invariant fun t y => (∃ e ∈ t, e.Finishes k) ∨ k ∈ y.ledger.flushing
  · right
    apply hk
  · intro t y e z _ hor hstep
    rcases hor with ⟨e', he', hc⟩ | hflush
    · left
      exact ⟨e', by simp [he'], hc⟩
    · by_cases hc : e.Finishes k
      · left
        exact ⟨e, by simp, hc⟩
      · right
        rw [hstep.2]
        apply Ledger.mem_flushing_record (Or.inr hflush) hc

/-- An event does not give an owned key another owner. -/
theorem Step.not_handsOut (h : x.Step cfg e y) (hk : k ∈ x.ledger.owned) :
  ¬ e.HandsOut k
  := by
  intro hout
  obtain ⟨-, -, hdisj⟩ := List.nodup_append.mp h.nodup
  apply hdisj k hk k (Event.mem_handedOut.mpr hout) rfl

end Account

/-- Between an event that hands a key out and the one before it that did, the key was given
back: completed after a dispatch, or its flush ended after an eviction.  One eviction hands
out a key once. -/
theorem Scheduler.key_has_one_owner {cfg : Config CLASSES} {t : List (Event K P S)}
    {s : Scheduler K P S CLASSES} {l : Ledger K} (h : Run cfg t s l) :
  (∀ t₁ e₁ t₂ e₂ t₃ k, t = t₁ ++ e₁ :: (t₂ ++ e₂ :: t₃) → e₂.HandsOut k →
    (e₁.Dispatches k → ∃ e ∈ t₂, e.Completes k) ∧
    (e₁.Flushes k → ∃ e ∈ t₂, e.Finishes k)) ∧
  (∀ e ∈ t, (e.pushed.map Prod.fst).Nodup)
  := by
  obtain ⟨a, htrail, -⟩ := h.account
  constructor
  · rintro t₁ e₁ t₂ e₂ t₃ k rfl hout
    obtain ⟨x₁, -, htrail⟩ := htrail.split
    obtain ⟨x₂, hstep₁, htrail⟩ := htrail.first
    obtain ⟨x₃, htrail₂, htrail⟩ := htrail.split
    obtain ⟨x₄, hstep₂, -⟩ := htrail.first
    constructor
    · intro hd
      have hnot := Event.not_completes_of_dispatches (j := k) hd
      have hrun := Ledger.mem_running_record (l := x₁.ledger) (Or.inl hd) hnot
      rw [← hstep₁.2] at hrun
      rcases Account.running_of_trail htrail₂ hrun with hc | hrun
      · apply hc
      · apply (hstep₂.not_handsOut _ hout).elim
        rw [Ledger.owned, List.mem_append]
        left
        apply hrun
    · intro hf
      have hnot : ¬ e₁.Finishes k := by
        rintro ⟨now, rfl⟩
        simp [Event.Flushes, Event.pushed] at hf
      have hflush := Ledger.mem_flushing_record (l := x₁.ledger) (Or.inl hf) hnot
      rw [← hstep₁.2] at hflush
      rcases Account.flushing_of_trail htrail₂ hflush with hc | hflush
      · apply hc
      · apply (hstep₂.not_handsOut _ hout).elim
        rw [Ledger.owned, List.mem_append]
        right
        apply hflush
  · intro e he
    obtain ⟨t₁, t₂, rfl⟩ := List.append_of_mem he
    obtain ⟨x₁, -, htrail⟩ := htrail.split
    obtain ⟨x₂, hstep, -⟩ := htrail.first
    have hnodup := hstep.nodup
    rw [Event.handedOut, ← List.append_assoc] at hnodup
    apply (List.nodup_append.mp hnodup).2.1

/-- A key that was dispatched, completed and then handed out by an eviction. -/
theorem Scheduler.key_has_one_owner_evicted :
  ∃ (s : Scheduler ℕ ℕ ℕ 1) (l : Ledger ℕ),
    Run (.new fun _ => 1)
      [.admitItem ⟨7, 0, none, 40⟩, .next 0 1 [] (some ⟨7, 0, none, 40⟩),
        .complete ⟨7, 0, .keep 3⟩ 2, .evictAll [(7, 3)]] s l ∧
    ∃ e ∈ [(.complete ⟨7, 0, .keep 3⟩ 2 : Event ℕ ℕ ℕ)], e.Completes 7
  := by
  have h₁ := (Run.start (K := ℕ) (P := ℕ) (S := ℕ) (.new fun _ : Fin 1 => 1)).call
    (.admitItem ⟨7, 0, none, 40⟩) (by decide) rfl
  have h₂ := h₁.call (.next 0 1) (by decide) rfl
  have h₃ := h₂.call (.complete ⟨7, 0, .keep 3⟩ 2) (by decide) rfl
  have h₄ := h₃.call (.evictAll []) (by decide) rfl
  refine ⟨_, _, h₄, ?_⟩
  apply ((Scheduler.key_has_one_owner h₄).1 [.admitItem ⟨7, 0, none, 40⟩] _ _ _ [] 7 rfl _).1
  · exact ⟨⟨7, 0, none, 40⟩, rfl, rfl⟩
  · right
    simp [Event.Flushes, Event.pushed]

/-! ### States -/

namespace Event

/-- The event is a completion that keeps this state for the key. -/
def Keeps (e : Event K P S) (k : K) (state : S) : Prop :=
  ∃ completion ∈ e.completed, completion.key = k ∧ completion.state = .keep state

/-- The state that a completion keeps for the key. -/
def kept (e : Event K P S) (k : K) : List S :=
  ((e.completed.filter (·.key = k)).bind (·.state.intoOption)).toList

/-- The states that an event hands out with the key. -/
def statesOut (e : Event K P S) (k : K) : List S :=
  ((e.dispatched.filter (·.key = k)).bind Dispatch.state).toList ++
    (e.pushed.filter (·.1 = k)).map Prod.snd

end Event

/-- The most recent completion of the key in the trail kept this state, which was not handed
out since. -/
def LastKept (t : List (Event K P S)) (k : K) (state : S) : Prop :=
  ∃ u e v, t = u ++ e :: v ∧ e.Keeps k state ∧
    ∀ e' ∈ v, ¬ e'.Completes k ∧ ¬ e'.HandsOut k

omit [DecidableEq K] in
theorem lastKept_nil {k : K} {state : S} :
  ¬ LastKept ([] : List (Event K P S)) k state
  := by
  rintro ⟨u, e, v, h, -⟩
  simp at h

omit [DecidableEq K] in
/-- The most recent completion is the last event, or the one before it that no event undid. -/
theorem lastKept_snoc {t : List (Event K P S)} {e : Event K P S} {k : K} {state : S} :
  LastKept (t ++ [e]) k state ↔
    e.Keeps k state ∨ (LastKept t k state ∧ ¬ e.Completes k ∧ ¬ e.HandsOut k)
  := by
  constructor
  · rintro ⟨u, e', v, h, hkeep, hv⟩
    rcases List.eq_nil_or_concat v with rfl | ⟨w, e'', rfl⟩
    · obtain ⟨-, he⟩ := List.append_inj' h rfl
      cases he
      left
      apply hkeep
    · right
      rw [List.concat_eq_append, ← List.cons_append, ← List.append_assoc] at h
      obtain ⟨rfl, he⟩ := List.append_inj' h rfl
      cases he
      refine ⟨⟨u, e', w, rfl, hkeep, ?_⟩, hv e (by simp)⟩
      intro e'' he''
      apply hv e'' (by simp [he''])
  · rintro (hkeep | ⟨⟨u, e', v, rfl, hkeep, hv⟩, hlast⟩)
    · exact ⟨t, e, [], rfl, hkeep, by simp⟩
    · refine ⟨u, e', v ++ [e], by simp, hkeep, ?_⟩
      intro e'' he''
      rcases List.mem_append.mp he'' with hold | hnew
      · apply hv e'' hold
      · rw [List.mem_singleton.mp hnew]
        apply hlast

namespace Account

variable {cfg : Config CLASSES} {x y : Account K P S CLASSES} {e : Event K P S} {k : K}

/-- What one event does to the state of a key. -/
structure StateMoves (x : Account K P S CLASSES) (e : Event K P S) (y : Account K P S CLASSES)
    (k : K) : Prop where
  conserved : (x.book.resident k).toList ++ e.kept k =
    e.statesOut k ++ (y.book.resident k).toList
  dispatched : ∀ d ∈ e.dispatched, d.key = k →
    d.state = x.book.resident k ∧ y.book.resident k = none
  flushed : e.Flushes k → y.book.resident k = none
  completed : ∀ completion ∈ e.completed, completion.key = k →
    y.book.resident k = completion.state.intoOption
  kept : ¬ e.Completes k → ¬ e.HandsOut k → y.book.resident k = x.book.resident k

/-- An event that hands nothing out and completes nothing leaves the states alone. -/
theorem StateMoves.idle (hkept : e.kept k = []) (hout : e.statesOut k = [])
    (hdisp : e.dispatched = none) (hpush : e.pushed = []) (hcomp : e.completed = none)
    (h : y.book.resident k = x.book.resident k) :
  x.StateMoves e y k
  := by
  constructor
  · rw [hkept, hout, h, List.append_nil, List.nil_append]
  · simp [hdisp]
  · simp [Event.Flushes, hpush]
  · simp [hcomp]
  · intro _ _
    apply h

/-- An eviction hands out the states that it takes. -/
theorem StateMoves.evict {m : ℕ} (hbook : y.book = (x.book.evict m).1)
    (hpush : e.pushed = (x.book.evict m).2) (hdisp : e.dispatched = none)
    (hcomp : e.completed = none) :
  x.StateMoves e y k
  := by
  have hload := (Book.load_evict (m := m) x.good).2 k
  rw [← hbook, ← hpush] at hload
  simp only [Book.load] at hload
  constructor
  · simpa [Event.kept, Event.statesOut, hcomp, hdisp] using hload
  · simp [hdisp]
  · intro hf
    obtain ⟨⟨k', state⟩, hmem, rfl⟩ := List.mem_map.mp hf
    have hpos : 0 < ((e.pushed.filter (·.1 = k')).map Prod.snd).length := by
      apply List.length_pos_of_mem
      apply List.mem_map.mpr
      exact ⟨(k', state), by simp [hmem], rfl⟩
    have hlen := congrArg List.length hload
    rw [List.length_append] at hlen
    have hle : (x.book.resident k').toList.length ≤ 1 := by
      cases x.book.resident k' <;> simp
    cases hy : y.book.resident k' with
    | none => rfl
    | some state' =>
      rw [hy] at hlen
      simp only [Option.toList_some, List.length_singleton] at hlen
      omega
  · simp [hcomp]
  · intro _ hnot
    have hnil : e.pushed.filter (·.1 = k) = [] := by
      rw [List.filter_eq_nil_iff]
      intro d hd hk
      apply hnot
      right
      apply List.mem_map.mpr
      exact ⟨d, hd, by simpa using hk⟩
    rw [hnil, List.map_nil, List.nil_append] at hload
    cases hx : x.book.resident k with
    | none => simpa [hx] using hload.symm
    | some state => simpa [hx] using hload.symm

/-- Every event moves the states as its record says. -/
theorem Step.states (h : x.Step cfg e y) (k : K) :
  x.StateMoves e y k
  := by
  obtain ⟨hmoves, -⟩ := h
  cases e with
  | admitItem item =>
    obtain ⟨-, hbook⟩ := hmoves
    refine .idle rfl rfl rfl rfl rfl ?_
    have hload := congrFun (Book.load_admitItem x.book item) k
    rw [← hbook] at hload
    by_cases hk : k = item.key
    · subst hk
      rw [Function.update_self] at hload
      apply congrArg Prod.fst hload
    · rw [Function.update_of_ne hk] at hload
      apply congrArg Prod.fst hload
  | next c now discarded dispatch =>
    obtain ⟨-, hbook, -, hdisp⟩ := hmoves
    obtain ⟨-, htaken, hkept⟩ := Book.load_turn cfg c now x.book
    rw [← hbook] at htaken hkept
    cases hpass : (x.book.turn cfg c now).dispatched with
    | none =>
      rw [hpass] at hdisp hkept
      subst hdisp
      apply StateMoves.idle rfl rfl rfl rfl rfl
      apply hkept k
      simp
    | some d =>
      rw [hpass] at hdisp hkept htaken
      subst hdisp
      obtain ⟨hstate, hnone⟩ := htaken d rfl
      by_cases hk : d.1 = k
      · subst hk
        constructor
        · simp only [Book.load] at hstate hnone
          simp [Event.kept, Event.completed, Event.statesOut, Event.dispatched, Event.pushed,
            Scheduler.toDispatch, Option.filter_some, hstate, hnone]
        · intro d' hd' _
          cases hd'
          exact ⟨hstate, hnone⟩
        · intro _
          apply hnone
        · intro completion hc
          cases hc
        · intro _ hnot
          apply (hnot (Or.inl ⟨_, rfl, rfl⟩)).elim
      · have hsame : y.book.resident k = x.book.resident k := by
          apply hkept k
          intro d' hd'
          cases hd'
          apply hk
        constructor
        · simp [Event.kept, Event.completed, Event.statesOut, Event.dispatched, Event.pushed,
            Scheduler.toDispatch, Option.filter_some, hk, hsame]
        · intro d' hd' hkey
          cases hd'
          exact (hk hkey).elim
        · simp [Event.Flushes, Event.pushed]
        · intro completion hc
          cases hc
        · intro _ _
          apply hsame
  | popExpired item =>
    obtain ⟨hbook, -⟩ := hmoves
    apply StateMoves.idle rfl rfl rfl rfl rfl
    rw [hbook]
    rfl
  | complete completion now =>
    obtain ⟨hrun, hbook⟩ := hmoves
    have hpres := ((x.good.mem .inFlight completion.key).mp (List.mem_map_of_mem hrun)).2
    rw [Book.presence, Option.map_eq_some_iff] at hpres
    obtain ⟨page, hpage, hpres⟩ := hpres
    have hok := x.good.page _ page id hpage
    simp only [Book.PageOk, hpres] at hok
    have hload := congrFun (Book.load_complete hpage) k
    rw [← hbook] at hload
    by_cases hk : completion.key = k
    · subst hk
      rw [Function.update_self] at hload
      have hafter : y.book.resident completion.key = completion.state.intoOption :=
        congrArg Prod.fst hload
      have hbefore : x.book.resident completion.key = none := by
        rw [Book.resident, hpage, Option.bind_some, hok]
      constructor
      · simp [Event.kept, Event.completed, Event.statesOut, Event.dispatched, Event.pushed,
          Option.filter_some, hafter, hbefore]
      · intro d hd
        cases hd
      · simp [Event.Flushes, Event.pushed]
      · intro completion' hc _
        cases hc
        apply hafter
      · intro hnot
        exact (hnot ⟨completion, rfl, rfl⟩).elim
    · rw [Function.update_of_ne (Ne.symm hk)] at hload
      have hafter : y.book.resident k = x.book.resident k := congrArg Prod.fst hload
      constructor
      · simp [Event.kept, Event.completed, Event.statesOut, Event.dispatched, Event.pushed,
          Option.filter_some, hk, hafter]
      · intro d hd
        cases hd
      · simp [Event.Flushes, Event.pushed]
      · intro completion' hc hkey
        cases hc
        exact (hk hkey).elim
      · intro _ _
        apply hafter
  | evict now pushed =>
    obtain ⟨m, hbook, rfl⟩ := hmoves
    apply StateMoves.evict hbook rfl rfl rfl
  | evictAll pushed =>
    obtain ⟨hbook, rfl⟩ := hmoves
    apply StateMoves.evict hbook rfl rfl rfl
  | finishEvict key now =>
    obtain ⟨hkey, hbook⟩ := hmoves
    apply StateMoves.idle rfl rfl rfl rfl rfl
    have hload := congrFun (Book.load_finishEvict x.good hkey) k
    rw [← hbook] at hload
    apply congrArg Prod.fst hload

/-- A key holds the state that its most recent completion kept and no event handed out. -/
theorem resident_iff {t : List (Event K P S)} (h : Trail (Step cfg) empty t x) (k : K)
    (state : S) :
  x.book.resident k = some state ↔ LastKept t k state
  := by
  apply h.invariant fun t x => x.book.resident k = some state ↔ LastKept t k state
  · simp [lastKept_nil, empty, Book.empty, Book.resident]
  · intro t x e y _ ih hstep
    have hmoves := hstep.states k
    rw [lastKept_snoc]
    by_cases hc : e.Completes k
    · obtain ⟨completion, hmem, hkey⟩ := hc
      rw [hmoves.completed completion hmem hkey]
      constructor
      · intro hstate
        left
        refine ⟨completion, hmem, hkey, ?_⟩
        cases hs : completion.state with
        | keep state' =>
          rw [hs, Disposition.intoOption, Option.some.injEq] at hstate
          rw [hstate]
        | drop =>
          rw [hs] at hstate
          cases hstate
      · rintro (⟨completion', hmem', -, hs⟩ | ⟨-, hnot, -⟩)
        · rw [Option.mem_unique hmem hmem', hs]
          rfl
        · exact (hnot ⟨completion, hmem, hkey⟩).elim
    · have hkeep : ¬ e.Keeps k state := by
        rintro ⟨completion, hmem, hkey, -⟩
        apply hc ⟨completion, hmem, hkey⟩
      by_cases ho : e.HandsOut k
      · have hnone : y.book.resident k = none := by
          rcases ho with ⟨d, hd, hkey⟩ | hf
          · apply (hmoves.dispatched d hd hkey).2
          · apply hmoves.flushed hf
        simp [hnone, hkeep, ho]
      · rw [hmoves.kept hc ho, ih]
        simp [hkeep, hc, ho]

/-- The states kept for a key are those handed out with it and the one it holds. -/
theorem kept_eq {t : List (Event K P S)} (h : Trail (Step cfg) empty t x) (k : K) :
  t.flatMap (·.kept k) = t.flatMap (·.statesOut k) ++ (x.book.resident k).toList
  := by
  apply h.invariant fun t x =>
    t.flatMap (·.kept k) = t.flatMap (·.statesOut k) ++ (x.book.resident k).toList
  · simp [empty, Book.empty, Book.resident]
  · intro t x e y _ ih hstep
    simp only [List.flatMap_append, List.flatMap_singleton]
    rw [ih, List.append_assoc, (hstep.states k).conserved, List.append_assoc]

end Account

/-- A dispatch of a key carries the state that the most recent completion of the key kept and
that was not handed out since, or no state when there is none.  The states kept for a key
are, in order, those handed out with it and the one that is still resident. -/
theorem Scheduler.state_is_handed_on {cfg : Config CLASSES} {t : List (Event K P S)}
    {s : Scheduler K P S CLASSES} {l : Ledger K} (h : Run cfg t s l) :
  (∀ t₁ e t₂ d, t = t₁ ++ e :: t₂ → e.dispatched = some d →
    ∀ state, d.state = some state ↔ LastKept t₁ d.key state) ∧
  (∀ k, t.flatMap (·.kept k) = t.flatMap (·.statesOut k) ++ (s.resident k).toList)
  := by
  obtain ⟨a, htrail, ⟨own, free, hr⟩, -⟩ := h.account
  constructor
  · rintro t₁ e t₂ d rfl hd state
    obtain ⟨x₁, htrail₁, htrail⟩ := htrail.split
    obtain ⟨x₂, hstep, -⟩ := htrail.first
    rw [((hstep.states d.key).dispatched d hd rfl).1]
    apply Account.resident_iff htrail₁
  · intro k
    rw [hr.resident]
    apply Account.kept_eq htrail

/-- A state that was kept and handed on to the next dispatch of its key. -/
theorem Scheduler.state_is_handed_on_kept :
  ∃ (s : Scheduler ℕ ℕ ℕ 1) (l : Ledger ℕ),
    Run (.new fun _ => 1)
      [.admitItem ⟨7, 0, none, 40⟩, .admitItem ⟨7, 0, none, 41⟩,
        .next 0 1 [] (some ⟨7, 0, none, 40⟩), .complete ⟨7, 0, .keep 3⟩ 2,
        .next 0 4 [] (some ⟨7, 0, some 3, 41⟩)] s l ∧
    LastKept [.admitItem ⟨7, 0, none, 40⟩, .admitItem ⟨7, 0, none, 41⟩,
      .next 0 1 [] (some ⟨7, 0, none, 40⟩),
      (.complete ⟨7, 0, .keep 3⟩ 2 : Event ℕ ℕ ℕ)] 7 3
  := by
  have h₁ := (Run.start (K := ℕ) (P := ℕ) (S := ℕ) (.new fun _ : Fin 1 => 1)).call
    (.admitItem ⟨7, 0, none, 40⟩) (by decide) rfl
  have h₂ := h₁.call (.admitItem ⟨7, 0, none, 41⟩) (by decide) rfl
  have h₃ := h₂.call (.next 0 1) (by decide) rfl
  have h₄ := h₃.call (.complete ⟨7, 0, .keep 3⟩ 2) (by decide) rfl
  have h₅ := h₄.call (.next 0 4) (by decide) rfl
  refine ⟨_, _, h₅, ?_⟩
  apply ((Scheduler.state_is_handed_on h₅).1 _ _ [] ⟨7, 0, some 3, 41⟩ rfl rfl 3).mp rfl

end Grommet
