import Grommet.Core.Ring.Order

/-!
# A ring refuses only when it is full

A producer finds no room by one of two tests: the stamp of its slot is that of the value of the
lap before, or the stamp is not its own and the tail has not moved since it was read.  Both say
that all positions were claimed and none of them freed when the stamp was loaded.

The first test compares words.  A producer that was overtaken by all but one lap of the
positions takes the value of the lap that comes last before the words start over for the value
of the lap before its own, and reports a full ring that never was.
-/

open Checked

namespace Grommet.Ring

variable {ι T : Type}

/-! ### The tests -/

namespace Marks

variable {L : Laps} {ring : Inner T} {head : ℕ} {pop : Pop T} {push : ι → Push T}
  {claims : List T} {freed : ℕ} {place : ι → ℕ} {phase : ℕ → Phase} {i : ι} {v : T} {w : ℕ}
  {slot : Slot T}

/-- The slot that a producer looks at belongs to a position that is not freed. -/
theorem slotOf (h : Marks L ring head pop push claims freed place phase)
    (hi : push i = .inspecting v w) (hslot : ring.slot w = .ok slot) :
  ∃ m, freed ≤ m ∧ m < freed + L.capacity ∧ m % L.capacity = place i % L.capacity ∧
    slot = content L claims m (phase m)
  := by
  obtain ⟨hw, -⟩ := h.word i w (by rw [hi]; rfl)
  obtain ⟨m, hle, hlt, hindex⟩ := L.exists_index freed (Nat.mod_lt (place i) L.pos)
  refine ⟨m, hle, hlt, hindex, ?_⟩
  rw [hw, h.fits.slot, ← hindex, h.slots m hle hlt, Option.some_inj] at hslot
  exact hslot.symm

/-- The slot holds the value of the lap before. -/
theorem full_of_stamp (h : Marks L ring head pop push claims freed place phase)
    (hi : push i = .inspecting v w) (hslot : ring.slot w = .ok slot)
    (hstamp : (slot.stamp + ring.oneLap) % wordSize = (w + 1) % wordSize)
    (hprompt : claims.length + L.capacity ≤ place i + L.period) :
  claims.length = freed + L.capacity
  := by
  obtain ⟨hw, hplace⟩ := h.word i w (by rw [hi]; rfl)
  obtain ⟨m, hle, hlt, hindex, rfl⟩ := h.slotOf hi hslot
  have hroom := h.room
  rw [h.fits.oneLap, ← h.fits.size, hw, Nat.mod_eq_of_lt (L.position_add_one_lt _)] at hstamp
  by_cases hheld : phase m = .published ∨ phase m = .emptied
  · have hword : (content L claims m (phase m)).stamp = L.position m + 1 := by
      have hmod : (L.position m + 1) % wordSize = L.position m + 1 := by
        rw [← h.fits.size]
        exact Nat.mod_eq_of_lt (L.position_add_one_lt m)
      rcases hheld with hphase | hphase
      · rw [hphase, content, hmod]
      · rw [hphase, content, hmod]
    have hclaimed : m < claims.length := by
      by_contra hge
      have hfree := (h.free m hle hlt).mpr (Nat.le_of_not_lt hge)
      rw [hfree] at hheld
      rcases hheld with hheld | hheld <;> cases hheld
    rw [hword, L.position_add_one_add_lap] at hstamp
    have heq := L.position_inj (Nat.succ.inj hstamp).symm (by omega) (by omega)
    omega
  · have hword : (content L claims m (phase m)).stamp = L.position m := by
      cases hphase : phase m with
      | published => exact (hheld (Or.inl hphase)).elim
      | emptied => exact (hheld (Or.inr hphase)).elim
      | _ => rfl
    rw [hword, ← L.position_add_capacity] at hstamp
    refine (L.position_ne_add_one ?_ hstamp).elim
    rw [Nat.add_mod_right, hindex]

/-- The stamp is not that of the position at the tail. -/
theorem full_of_stale (h : Marks L ring head pop push claims freed place phase)
    (hi : push i = .inspecting v w) (hslot : ring.slot w = .ok slot) (hstamp : slot.stamp ≠ w)
    (htail : claims.length = place i) :
  claims.length = freed + L.capacity
  := by
  obtain ⟨hw, -⟩ := h.word i w (by rw [hi]; rfl)
  have hroom := h.room
  have hle := h.le
  by_contra hne
  have hlt : place i < freed + L.capacity := by omega
  rw [hw, h.fits.slot, h.slots (place i) (by omega) hlt,
    (h.free (place i) (by omega) hlt).mpr (by omega), Option.some_inj] at hslot
  rw [hw, ← hslot] at hstamp
  exact hstamp rfl

/-- The tail has not moved since it was read. -/
theorem place_of_tail (h : Marks L ring head pop push claims freed place phase)
    (hi : push i = .rereading v w) (htail : ring.tail = w)
    (hwrap : claims.length < place i + L.period) :
  claims.length = place i
  := by
  obtain ⟨hw, hle⟩ := h.word i w (by rw [hi]; rfl)
  symm
  apply L.position_inj _ hle hwrap
  rw [← hw, ← htail, h.tail]

end Marks

section Steps

variable {ring ring' : Inner T} {p p' : Push T} {v : T} {w : ℕ} {spurious : Bool}

theorem Push.eq_of_handedBack (h : p.handedBack = some v) :
  p = .refused v
  := by
  cases p with
  | refused v' =>
    cases h
    rfl
  | _ => cases h

/-- The two tests with which a call returns `Err`. -/
theorem Push.refused_cases (h : p.step ring spurious = .ok (ring', .refused v))
    (hrest : p.rest = some p) :
  (∃ w slot, p = .inspecting v w ∧ ring.slot w = .ok slot ∧
    (slot.stamp + ring.oneLap) % wordSize = (w + 1) % wordSize) ∨
  (∃ w, p = .rereading v w ∧ ring.tail = w)
  := by
  cases p with
  | inspecting v' w =>
    rw [Push.step, bind_eq_ok] at h
    obtain ⟨slot, hslot, h⟩ := h
    split at h
    · cases h
    · split at h
      · rename_i hstamp
        cases h
        exact Or.inl ⟨w, slot, rfl, hslot, hstamp⟩
      · cases h
  | claiming v' w =>
    rw [Push.step] at h
    split at h <;> cases h
  | rereading v' w =>
    rw [Push.step] at h
    split at h
    · rename_i htail
      cases h
      exact Or.inr ⟨w, rfl, htail⟩
    · cases h
  | refused v' => cases hrest
  | _ => cases h

/-- The test with which a call goes on to read the tail again. -/
theorem Push.rereading_inv (h : p.step ring spurious = .ok (ring', .rereading v w)) :
  ∃ slot, p = .inspecting v w ∧ ring.slot w = .ok slot ∧ slot.stamp ≠ w
  := by
  cases p with
  | inspecting v' w' =>
    rw [Push.step, bind_eq_ok] at h
    obtain ⟨slot, hslot, h⟩ := h
    split at h
    · cases h
    · rename_i hstale
      split at h
      · cases h
      · cases h
        exact ⟨slot, rfl, hslot, hstale⟩
  | claiming v' w' =>
    rw [Push.step] at h
    split at h <;> cases h
  | rereading v' w' =>
    rw [Push.step] at h
    split at h <;> cases h
  | _ => cases h

end Steps

/-! ### Runs -/

variable [DecidableEq ι]

/-- The call with this number is in progress. -/
def System.InCall (s : System ι T) (call : ℕ) : Prop :=
  ∃ i p, s.push i = some p ∧ s.call i = call

/-- The number of positions after which the words start over. -/
def Inner.period (ring : Inner T) : ℕ := ring.capacity * (wordSize / ring.oneLap)

/-- No producer takes a step after the tail went through all positions since it was read. -/
def System.Awake (s : System ι T) : Event ι T → Prop
  | .push i => ∀ p w, s.push i = some p → p.word = some w →
      s.claims.length < s.place i + s.ring.period
  | _ => True

/-- No producer takes a step after the tail went through all positions since it was read, or
loads a stamp after it went through more than all but one lap of them. -/
def System.Prompt (s : System ι T) : Event ι T → Prop
  | .push i => s.Awake (.push i) ∧ ∀ v w, s.push i = some (.inspecting v w) →
      s.claims.length + s.ring.capacity ≤ s.place i + s.ring.period
  | _ => True

/-- One step, which is labelled with the state that it leads to. -/
def Visits (admitted : System ι T → Event ι T → Prop) (s s₁ s₂ : System ι T) : Prop :=
  s₁ = s₂ ∧ ∃ e, Step s e s₂ ∧ admitted s e

/-- A state in which all positions are claimed and none is freed was visited while the call was
in progress. -/
def Within (capacity : ℕ) (t : List (System ι T)) (call : ℕ) : Prop :=
  ∃ s ∈ t, s.InCall call ∧ s.claims.length = s.pops.length + capacity

variable {s s' : System ι T} {L : Laps} {ring : Inner T} {t : List (System ι T)} {capacity call : ℕ}

omit [DecidableEq ι] in
theorem Within.append {t' : List (System ι T)} (h : Within capacity t call) :
  Within capacity (t ++ t') call
  := by
  obtain ⟨s, hs, hcall, hfull⟩ := h
  exact ⟨s, List.mem_append_left _ hs, hcall, hfull⟩

/-- What is known of the states that were visited: a refused call has seen the ring full, and so
has a call that finds the tail where it read it after it found its slot taken. -/
structure Watched (L : Laps) (t : List (System ι T)) (s : System ι T) : Prop where
  inv : Inv L s
  here : ∀ i, s.push i ≠ none → s ∈ t
  refused : ∀ c ∈ s.refused, Within L.capacity t c.1
  rereading : ∀ i v w, s.push i = some (.rereading v w) → s.claims.length = s.place i →
    Within L.capacity t (s.call i)

omit [DecidableEq ι] in
/-- The call of a producer sees the ring full. -/
theorem Watched.within (h : Watched L t s) {i : ι} {p : Push T} (hi : s.push i = some p)
    (hfull : s.claims.length = s.pops.length + L.capacity) :
  Within L.capacity t (s.call i)
  := by
  refine ⟨s, h.here i ?_, ⟨i, p, hi, rfl⟩, hfull⟩
  rw [hi]
  rintro ⟨⟩

omit [DecidableEq ι] in
/-- The step with which a call returns `Err`. -/
theorem Watched.refuses {i : ι} {p : Push T} {ring : Inner T} {spurious : Bool} {v : T}
    (h : Watched L t s) (hi : s.push i = some p)
    (hstep : p.step s.ring spurious = .ok (ring, .refused v)) (hprompt : s.Prompt (.push i)) :
  Within L.capacity t (s.call i)
  := by
  obtain ⟨phase, hmarks⟩ := h.inv.marked
  have hgetD : (s.push i).getD .pushed = p := by
    rw [hi]
    rfl
  have hlength : (s.claims.map Prod.snd).length = s.claims.length := List.length_map _
  have hperiod : s.ring.period = L.period := hmarks.fits.period
  rcases Push.refused_cases hstep (h.inv.tally.rest i p hi) with
    ⟨w, slot, rfl, hslot, hstamp⟩ | ⟨w, rfl, htail⟩
  · have hslack := hprompt.2 v w hi
    rw [hperiod, hmarks.fits.capacity, ← hlength] at hslack
    have hfull := hmarks.full_of_stamp hgetD hslot hstamp hslack
    rw [hlength] at hfull
    exact h.within hi hfull
  · have hwrap := hprompt.1 _ w hi rfl
    rw [hperiod, ← hlength] at hwrap
    have hplace := hmarks.place_of_tail hgetD htail hwrap
    rw [hlength] at hplace
    exact h.rereading i v w hi hplace

omit [DecidableEq ι] in
/-- The step with which a call goes on to read the tail again, if the tail has not moved. -/
theorem Watched.rereads {i : ι} {p : Push T} {ring : Inner T} {spurious : Bool} {v : T} {w : ℕ}
    (h : Watched L t s) (hi : s.push i = some p)
    (hstep : p.step s.ring spurious = .ok (ring, .rereading v w))
    (htail : s.claims.length = s.place i) :
  Within L.capacity t (s.call i)
  := by
  obtain ⟨phase, hmarks⟩ := h.inv.marked
  obtain ⟨slot, rfl, hslot, hstale⟩ := Push.rereading_inv hstep
  have hgetD : (s.push i).getD .pushed = .inspecting v w := by
    rw [hi]
    rfl
  have hlength : (s.claims.map Prod.snd).length = s.claims.length := List.length_map _
  rw [← hlength] at htail
  have hfull := hmarks.full_of_stale hgetD hslot hstale htail
  rw [hlength] at hfull
  exact h.within hi hfull

omit [DecidableEq ι] in
theorem fresh_of_awake [DecidableEq ι] {e : Event ι T} (h : s.Awake e) :
  s.Fresh e
  := by
  cases e with
  | push i =>
    intro v w hi
    exact h _ w hi rfl
  | _ => trivial

omit [DecidableEq ι] in
theorem awake_of_prompt {e : Event ι T} (h : s.Prompt e) :
  s.Awake e
  := by
  cases e with
  | push i => exact h.1
  | _ => trivial

/-- Every step keeps what is known of the states that were visited. -/
theorem Watched.step {e : Event ι T} (h : Watched L t s) (hstep : Step s e s')
    (hprompt : s.Prompt e) :
  Watched L (t ++ [s']) s'
  := by
  have hinv := h.inv.step hstep (fresh_of_awake (awake_of_prompt hprompt))
  have hhere : ∀ i, s'.push i ≠ none → s' ∈ t ++ [s'] := by
    intro i _
    exact List.mem_append_right _ (List.mem_singleton_self _)
  cases hstep with
  | @offer i v hi =>
    refine ⟨hinv, hhere, fun c hc => (h.refused c hc).append, ?_⟩
    intro j v' w hj htail
    have hne : j ≠ i := by
      rintro rfl
      simp only [Function.update_self] at hj
      cases hj
    simp only [Function.update_of_ne hne] at hj ⊢
    exact (h.rereading j v' w hj htail).append
  | @push i p p' ring spurious hi hpush =>
    refine ⟨hinv, hhere, ?_, ?_⟩
    · intro c hc
      rcases List.mem_append.mp hc with hc | hc
      · exact (h.refused c hc).append
      · obtain ⟨v, hv, rfl⟩ := List.mem_map.mp hc
        have hrefused := Push.eq_of_handedBack (Option.mem_toList.mp hv)
        subst hrefused
        exact (h.refuses hi hpush hprompt).append
    · intro j v w hj htail
      by_cases hne : j = i
      · subst hne
        simp only [Function.update_self] at hj htail
        obtain ⟨rfl, -, -⟩ := Push.rest_of_rest hj
        have hnone : p.claimed (.rereading v w) = [] := by
          cases p <;> rfl
        rw [hnone, List.map_nil, List.append_nil] at htail
        exact (h.rereads hi hpush htail).append
      · simp only [Function.update_of_ne hne] at hj htail ⊢
        rw [List.length_append] at htail
        obtain ⟨phase, hmarks⟩ := h.inv.marked
        have hword : ((s.push j).getD .pushed).word = some w := by
          rw [hj]
          rfl
        have hle := (hmarks.word j w hword).2
        rw [List.length_map] at hle
        exact (h.rereading j v w hj (by omega)).append
  | take hpop => exact ⟨hinv, hhere, fun c hc => (h.refused c hc).append,
      fun i v w hi htail => (h.rereading i v w hi htail).append⟩
  | pop hpop hstep => exact ⟨hinv, hhere, fun c hc => (h.refused c hc).append,
      fun i v w hi htail => (h.rereading i v w hi htail).append⟩

/-- In every run in which no producer is stalled for all of the positions, or for all but less
than a lap of them when it loads a stamp, no more positions are claimed and not freed than the
ring has, and a call that returns `Err` has seen as many. -/
theorem ring_refuses_when_full (hring : bounded capacity = .ok ring)
    (hrun : Trail (Visits System.Prompt) (System.start ring) t s) :
  s.claims.length ≤ s.pops.length + capacity ∧ ∀ c ∈ s.refused, Within capacity t c.1
  := by
  obtain ⟨L, rfl, hfits, htail, hslots⟩ := bounded_fits hring
  have hwatched : Watched L t s := by
    apply hrun.invariant (Watched L)
    · refine ⟨Recorded.start hfits htail hslots, ?_, ?_, ?_⟩
      · intro i hi
        exact (hi rfl).elim
      · intro c hc
        exact (List.not_mem_nil hc).elim
      · rintro i v w ⟨⟩
    · rintro t s₁ s₂ s₃ - hwatched ⟨rfl, e, hstep, hprompt⟩
      exact hwatched.step hstep hprompt
  obtain ⟨phase, hmarks⟩ := hwatched.inv.marked
  have hroom := hmarks.room
  rw [List.length_map] at hroom
  exact ⟨hroom, hwatched.refused⟩

/-- The second value that is offered to a ring of one is handed back. -/
theorem ring_refuses_when_full_second :
  ∃ (ring : Inner ℕ) (t : List (System Unit ℕ)) (s : System Unit ℕ),
    bounded 1 = .ok ring ∧ Trail (Visits System.Prompt) (System.start ring) t s ∧
    s.refused = [(1, 6)] ∧
    s.claims.length ≤ s.pops.length + 1 ∧ ∀ c ∈ s.refused, Within 1 t c.1
  := by
  have hring : bounded 1 = .ok (⟨0, [⟨0, none⟩], 1, 2⟩ : Inner ℕ) := rfl
  have hnear : ∀ n ≤ 1, n < 0 + 1 * (wordSize / 2) := by decide
  have hlap : 0 + 1 ≤ 0 + 1 * (wordSize / 2) := by decide
  have hoffer : Trail (Visits System.Prompt)
      (System.start (⟨0, [⟨0, none⟩], 1, 2⟩ : Inner ℕ) : System Unit ℕ) _ _ :=
    Trail.nil.snoc ⟨rfl, _, .offer (i := ()) (v := 5) rfl, trivial⟩
  have hread := hoffer.snoc ⟨rfl, _, .push (i := ()) false rfl rfl,
    by rintro p w ⟨⟩ ⟨⟩, by rintro v w ⟨⟩⟩
  have hinspect := hread.snoc ⟨rfl, _, .push (i := ()) false rfl rfl,
    fun _ _ _ _ => hnear 0 (by decide), fun _ _ _ => hlap⟩
  have hclaim := hinspect.snoc ⟨rfl, _, .push (i := ()) false rfl rfl,
    fun _ _ _ _ => hnear 0 (by decide), by rintro v w ⟨⟩⟩
  have hwrite := hclaim.snoc ⟨rfl, _, .push (i := ()) false rfl rfl,
    fun _ _ _ _ => hnear 1 (by decide), by rintro v w ⟨⟩⟩
  have hpublish := hwrite.snoc ⟨rfl, _, .push (i := ()) false rfl rfl,
    fun _ _ _ _ => hnear 1 (by decide), by rintro v w ⟨⟩⟩
  have hagain := hpublish.snoc ⟨rfl, _, .offer (i := ()) (v := 6) rfl, trivial⟩
  have hreread := hagain.snoc ⟨rfl, _, .push (i := ()) false rfl rfl,
    by rintro p w ⟨⟩ ⟨⟩, by rintro v w ⟨⟩⟩
  have hrefuse := hreread.snoc ⟨rfl, _, .push (i := ()) false rfl rfl,
    fun _ _ _ _ => show 1 < 1 + 1 * (wordSize / 2) by decide,
    fun _ _ _ => show 1 + 1 ≤ 1 + 1 * (wordSize / 2) by decide⟩
  exact ⟨_, _, _, hring, hrefuse, rfl, ring_refuses_when_full hring hrefuse⟩

end Grommet.Ring
