import Grommet.Core.Ring.Marks
import Mathlib.Data.List.Nodup

/-!
# What is recorded of the calls on a ring

The calls of `try_push` are numbered in the order they began.  What is recorded of them are
the calls that claimed a position, in that order, and what the calls returned; of the
consumer, the values that it has taken.  `Recorded` ties the record to the ring and to where
the calls in progress stand, and each kind of step keeps it.
-/

open Checked

namespace Grommet.Ring

variable {ι T : Type}

/-- What is left of a call of `try_push` after a step. -/
def Push.rest : Push T → Option (Push T)
  | pushed => none
  | refused _ => none
  | push => some push

/-- Whether the call has returned `Ok`. -/
def Push.isPushed : Push T → Bool
  | pushed => true
  | _ => false

/-- The value that the call has handed back. -/
def Push.handedBack : Push T → Option T
  | refused value => some value
  | _ => none

/-- What is left of a call of `pop` after a step. -/
def Pop.rest : Pop T → Option (Pop T)
  | popped _ => none
  | pop => some pop

/-- The value that the call has returned. -/
def Pop.result : Pop T → Option T
  | popped value => value
  | _ => none

/-- The value of a call of `try_push` that has not written it. -/
def Push.value : Push T → Option T
  | reading value => some value
  | inspecting value _ => some value
  | claiming value _ => some value
  | writing value _ => some value
  | rereading value _ => some value
  | refused value => some value
  | _ => none

/-- What is recorded of the calls agrees with where they stand. -/
structure Tally (push : ι → Option (Push T)) (call place : ι → ℕ) (offered : List T)
    (claims : List (ℕ × T)) (accepted : List ℕ) (refused : List (ℕ × T)) : Prop where
  rest : ∀ i p, push i = some p → p.rest = some p
  begun : ∀ i p, push i = some p → call i < offered.length ∧ call i ∉ accepted ∧
    call i ∉ refused.map Prod.fst
  value : ∀ i p v, push i = some p → p.value = some v → offered[call i]? = some v
  own : ∀ i j, push i ≠ none → push j ≠ none → call i = call j → i = j
  site : ∀ i p, push i = some p → p.site ≠ none →
    (claims.map Prod.fst)[place i]? = some (call i)
  outside : ∀ i p, push i = some p → p.site = none → call i ∉ claims.map Prod.fst
  offers : ∀ c ∈ claims, offered[c.1]? = some c.2
  nodup : (claims.map Prod.fst).Nodup
  claimed : ∀ c ∈ accepted, c ∈ claims.map Prod.fst
  handed : ∀ c ∈ refused, offered[c.1]? = some c.2 ∧ c.1 ∉ claims.map Prod.fst

/-- The ring and the calls in progress agree with the record of the calls. -/
structure Recorded (L : Laps) (ring : Inner T) (head : ℕ) (pop : Pop T)
    (push : ι → Option (Push T)) (call place : ι → ℕ) (offered : List T) (claims : List (ℕ × T))
    (accepted : List ℕ) (refused : List (ℕ × T)) (taken : List T) : Prop where
  tally : Tally push call place offered claims accepted refused
  marked : ∃ phase, Marks L ring head pop (fun i => (push i).getD .pushed) (claims.map Prod.snd)
    taken.length place phase
  inOrder : taken <+: claims.map Prod.snd
  idle : pop.result = none

variable [DecidableEq ι] {L : Laps} {i : ι} {p p' : Push T} {ring ring' : Inner T}

omit [DecidableEq ι] in
/-- What a step of a call in progress can do. -/
theorem Push.step_cases {spurious : Bool} (h : p.step ring spurious = .ok (ring', p'))
    (hrest : p.rest = some p) :
  (p'.value = p.value ∧ p.site = none ∧ p'.site = none ∧ p'.isPushed = false ∧ p.claimed p' = []) ∨
  (∃ v w, p = .claiming v w ∧ p' = .writing v w) ∨
  (∃ v w, p = .writing v w ∧ p' = .publishing w) ∨
  (∃ w, p = .publishing w ∧ p' = .pushed)
  := by
  cases p with
  | reading v =>
    left
    rw [Push.step] at h
    cases h
    exact ⟨rfl, rfl, rfl, rfl, rfl⟩
  | inspecting v w =>
    left
    rw [Push.step, bind_eq_ok] at h
    obtain ⟨slot, -, h⟩ := h
    split at h
    · cases h
      exact ⟨rfl, rfl, rfl, rfl, rfl⟩
    · split at h
      · cases h
        exact ⟨rfl, rfl, rfl, rfl, rfl⟩
      · cases h
        exact ⟨rfl, rfl, rfl, rfl, rfl⟩
  | claiming v w =>
    rw [Push.step] at h
    split at h
    · cases h
      exact Or.inr (Or.inl ⟨v, w, rfl, rfl⟩)
    · cases h
      exact Or.inl ⟨rfl, rfl, rfl, rfl, rfl⟩
  | writing v w =>
    rw [Push.step] at h
    cases h
    exact Or.inr (Or.inr (Or.inl ⟨v, w, rfl, rfl⟩))
  | publishing w =>
    rw [Push.step] at h
    cases h
    exact Or.inr (Or.inr (Or.inr ⟨w, rfl, rfl⟩))
  | rereading v w =>
    left
    rw [Push.step] at h
    split at h
    · cases h
      exact ⟨rfl, rfl, rfl, rfl, rfl⟩
    · cases h
      exact ⟨rfl, rfl, rfl, rfl, rfl⟩
  | pushed => cases hrest
  | refused v => cases hrest

omit [DecidableEq ι] in
theorem Push.rest_of_rest (h : p'.rest = some p) :
  p = p' ∧ p'.isPushed = false ∧ p'.handedBack = none
  := by
  cases p' with
  | pushed => cases h
  | refused _ => cases h
  | _ =>
    cases h
    exact ⟨rfl, rfl, rfl⟩

variable {push : ι → Option (Push T)} {call place : ι → ℕ} {offered : List T}
  {claims : List (ℕ × T)} {accepted : List ℕ} {refused : List (ℕ × T)} {taken : List T}
  {head head' : ℕ} {pop pop' : Pop T}

omit [DecidableEq ι] in
/-- The calls recorded so far have begun. -/
theorem Tally.lt_of_claims (h : Tally push call place offered claims accepted refused) {c : ℕ}
    (hc : c ∈ claims.map Prod.fst) :
  c < offered.length
  := by
  obtain ⟨⟨c', v⟩, hmem, rfl⟩ := List.mem_map.mp hc
  obtain ⟨hlt, -⟩ := List.getElem?_eq_some_iff.mp (h.offers _ hmem)
  exact hlt

/-- A call of `try_push` begins. -/
theorem Tally.offer (h : Tally push call place offered claims accepted refused) (v : T) :
  Tally (Function.update push i (some (.reading v))) (Function.update call i offered.length) place
    (offered ++ [v]) claims accepted refused
  := by
  have hself : ∀ {p : Push T}, Function.update push i (some (.reading v)) i = some p →
      p = .reading v := by
    intro p hp
    rw [Function.update_self] at hp
    cases hp
    rfl
  have hother : ∀ {j : ι}, j ≠ i → Function.update push i (some (.reading v)) j = push j ∧
      Function.update call i offered.length j = call j := by
    intro j hj
    exact ⟨Function.update_of_ne hj _ _, Function.update_of_ne hj _ _⟩
  have hcall : Function.update call i offered.length i = offered.length :=
    Function.update_self _ _ _
  have hget : ∀ {c : ℕ} {v' : T}, offered[c]? = some v' → (offered ++ [v])[c]? = some v' := by
    intro c v' hc
    obtain ⟨hlt, -⟩ := List.getElem?_eq_some_iff.mp hc
    rw [List.getElem?_append_left hlt]
    exact hc
  have hfresh : offered.length ∉ claims.map Prod.fst := by
    intro hmem
    exact Nat.lt_irrefl _ (h.lt_of_claims hmem)
  have hlength : (offered ++ [v]).length = offered.length + 1 := List.length_append
  refine ⟨?_, ?_, ?_, ?_, ?_, ?_, ?_, h.nodup, h.claimed, ?_⟩
  · intro j p hp
    by_cases hj : j = i
    · subst hj
      rw [hself hp]
      rfl
    · rw [(hother hj).1] at hp
      exact h.rest j p hp
  · intro j p hp
    rw [hlength]
    by_cases hj : j = i
    · subst hj
      rw [hcall]
      refine ⟨Nat.lt_succ_self _, ?_, ?_⟩
      · intro hmem
        exact hfresh (h.claimed _ hmem)
      · intro hmem
        obtain ⟨⟨c, v'⟩, hc, heq⟩ := List.mem_map.mp hmem
        obtain ⟨hlt, -⟩ := List.getElem?_eq_some_iff.mp (h.handed _ hc).1
        exact Nat.ne_of_lt hlt heq
    · rw [(hother hj).1] at hp
      rw [(hother hj).2]
      obtain ⟨hlt, haccepted, hrefused⟩ := h.begun j p hp
      exact ⟨by omega, haccepted, hrefused⟩
  · intro j p v' hp hv
    by_cases hj : j = i
    · subst hj
      rw [hself hp] at hv
      cases hv
      rw [hcall, List.getElem?_append_right (Nat.le_refl _), Nat.sub_self]
      rfl
    · rw [(hother hj).1] at hp
      rw [(hother hj).2]
      exact hget (h.value j p v' hp hv)
  · intro j k hj hk heq
    have hlt : ∀ {l : ι}, l ≠ i → push l ≠ none → call l < offered.length := by
      intro l _ hl'
      obtain ⟨p, hp⟩ := Option.ne_none_iff_exists'.mp hl'
      exact (h.begun l p hp).1
    by_cases hji : j = i
    · by_cases hki : k = i
      · rw [hji, hki]
      · rw [(hother hki).1] at hk
        rw [hji, hcall, (hother hki).2] at heq
        have := hlt hki hk
        omega
    · rw [(hother hji).1] at hj
      rw [(hother hji).2] at heq
      by_cases hki : k = i
      · rw [hki, hcall] at heq
        have := hlt hji hj
        omega
      · rw [(hother hki).1] at hk
        rw [(hother hki).2] at heq
        exact h.own j k hj hk heq
  · intro j p hp hsite
    by_cases hj : j = i
    · subst hj
      rw [hself hp] at hsite
      exact (hsite rfl).elim
    · rw [(hother hj).1] at hp
      rw [(hother hj).2]
      exact h.site j p hp hsite
  · intro j p hp hsite
    by_cases hj : j = i
    · subst hj
      rw [hcall]
      exact hfresh
    · rw [(hother hj).1] at hp
      rw [(hother hj).2]
      exact h.outside j p hp hsite
  · intro c hc
    exact hget (h.offers c hc)
  · intro c hc
    exact ⟨hget (h.handed c hc).1, (h.handed c hc).2⟩

/-- A call goes on without claiming a position. -/
theorem Tally.keep (h : Tally push call place offered claims accepted refused) {q : Push T} {m : ℕ}
    (hi : push i = some p) (hrest : q.rest = some q)
    (hvalue : ∀ v, q.value = some v → p.value = some v)
    (hsite : p.site = none ∧ q.site = none ∨ p.site ≠ none ∧ q.site ≠ none ∧ m = place i) :
  Tally (Function.update push i (some q)) call (Function.update place i m) offered claims accepted
    refused
  := by
  have hself : ∀ {p' : Push T}, Function.update push i (some q) i = some p' → p' = q := by
    intro p' hp'
    rw [Function.update_self] at hp'
    cases hp'
    rfl
  have hother : ∀ {j : ι}, j ≠ i → Function.update push i (some q) j = push j ∧
      Function.update place i m j = place j := by
    intro j hj
    exact ⟨Function.update_of_ne hj _ _, Function.update_of_ne hj _ _⟩
  have hbusy : ∀ {j : ι}, Function.update push i (some q) j ≠ none → push j ≠ none := by
    intro j hj
    by_cases hji : j = i
    · subst hji
      rw [hi]
      rintro ⟨⟩
    · rw [(hother hji).1] at hj
      exact hj
  refine ⟨?_, ?_, ?_, ?_, ?_, ?_, h.offers, h.nodup, h.claimed, h.handed⟩
  · intro j p' hp'
    by_cases hj : j = i
    · subst hj
      rw [hself hp']
      exact hrest
    · rw [(hother hj).1] at hp'
      exact h.rest j p' hp'
  · intro j p' hp'
    by_cases hj : j = i
    · subst hj
      exact h.begun j p hi
    · rw [(hother hj).1] at hp'
      exact h.begun j p' hp'
  · intro j p' v hp' hv
    by_cases hj : j = i
    · subst hj
      rw [hself hp'] at hv
      exact h.value j p v hi (hvalue v hv)
    · rw [(hother hj).1] at hp'
      exact h.value j p' v hp' hv
  · intro j k hj hk heq
    exact h.own j k (hbusy hj) (hbusy hk) heq
  · intro j p' hp' hsite'
    by_cases hj : j = i
    · subst hj
      rw [hself hp'] at hsite'
      rcases hsite with ⟨-, hnone⟩ | ⟨hsome, -, rfl⟩
      · exact (hsite' hnone).elim
      · rw [Function.update_self]
        exact h.site j p hi hsome
    · rw [(hother hj).1] at hp'
      rw [(hother hj).2]
      exact h.site j p' hp' hsite'
  · intro j p' hp' hsite'
    by_cases hj : j = i
    · subst hj
      rw [hself hp'] at hsite'
      rcases hsite with ⟨hnone, -⟩ | ⟨-, hsome, -⟩
      · exact h.outside j p hi hnone
      · exact (hsome hsite').elim
    · rw [(hother hj).1] at hp'
      exact h.outside j p' hp' hsite'

/-- A call claims the next position. -/
theorem Tally.claim (h : Tally push call place offered claims accepted refused) {v : T} {w : ℕ}
    (hi : push i = some (.claiming v w)) (hplace : place i = claims.length) :
  Tally (Function.update push i (some (.writing v w))) call place offered (claims ++ [(call i, v)])
    accepted refused
  := by
  have hself : ∀ {p' : Push T}, Function.update push i (some (.writing v w)) i = some p' →
      p' = .writing v w := by
    intro p' hp'
    rw [Function.update_self] at hp'
    cases hp'
    rfl
  have hother : ∀ {j : ι}, j ≠ i → Function.update push i (some (.writing v w)) j = push j := by
    intro j hj
    exact Function.update_of_ne hj _ _
  have hbusy : ∀ {j : ι}, Function.update push i (some (.writing v w)) j ≠ none →
      push j ≠ none := by
    intro j hj
    by_cases hji : j = i
    · subst hji
      rw [hi]
      rintro ⟨⟩
    · rw [hother hji] at hj
      exact hj
  have hmap : (claims ++ [(call i, v)]).map Prod.fst = claims.map Prod.fst ++ [call i] :=
    List.map_append
  have hlength : (claims.map Prod.fst).length = claims.length := List.length_map _
  obtain ⟨-, -, hrefused⟩ := h.begun i _ hi
  have hout := h.outside i _ hi rfl
  have hoffered := h.value i _ v hi rfl
  refine ⟨?_, ?_, ?_, ?_, ?_, ?_, ?_, ?_, ?_, ?_⟩
  · intro j p' hp'
    by_cases hj : j = i
    · subst hj
      rw [hself hp']
      rfl
    · rw [hother hj] at hp'
      exact h.rest j p' hp'
  · intro j p' hp'
    by_cases hj : j = i
    · subst hj
      exact h.begun j _ hi
    · rw [hother hj] at hp'
      exact h.begun j p' hp'
  · intro j p' v' hp' hv
    by_cases hj : j = i
    · subst hj
      rw [hself hp'] at hv
      cases hv
      exact hoffered
    · rw [hother hj] at hp'
      exact h.value j p' v' hp' hv
  · intro j k hj hk heq
    exact h.own j k (hbusy hj) (hbusy hk) heq
  · intro j p' hp' hsite'
    rw [hmap]
    by_cases hj : j = i
    · subst hj
      rw [hplace, ← hlength, List.getElem?_append_right (Nat.le_refl _), Nat.sub_self]
      rfl
    · rw [hother hj] at hp'
      have hsite := h.site j p' hp' hsite'
      obtain ⟨hlt, -⟩ := List.getElem?_eq_some_iff.mp hsite
      rw [List.getElem?_append_left hlt]
      exact hsite
  · intro j p' hp' hsite'
    rw [hmap]
    have hj : j ≠ i := by
      rintro rfl
      rw [hself hp'] at hsite'
      cases hsite'
    rw [hother hj] at hp'
    intro hmem
    rcases List.mem_append.mp hmem with hold | hnew
    · exact h.outside j p' hp' hsite' hold
    · apply hj
      apply h.own j i _ _ (List.mem_singleton.mp hnew)
      · rw [hp']
        rintro ⟨⟩
      · rw [hi]
        rintro ⟨⟩
  · intro c hc
    rcases List.mem_append.mp hc with hold | hnew
    · exact h.offers c hold
    · rw [List.mem_singleton.mp hnew]
      exact hoffered
  · rw [hmap, List.nodup_append]
    refine ⟨h.nodup, List.nodup_singleton _, ?_⟩
    intro c hc d hd
    rw [List.mem_singleton.mp hd]
    rintro rfl
    exact hout hc
  · intro c hc
    rw [hmap]
    exact List.mem_append_left _ (h.claimed c hc)
  · intro c hc
    refine ⟨(h.handed c hc).1, ?_⟩
    rw [hmap]
    intro hmem
    rcases List.mem_append.mp hmem with hold | hnew
    · exact (h.handed c hc).2 hold
    · apply hrefused
      rw [← List.mem_singleton.mp hnew]
      exact List.mem_map_of_mem hc

/-- A call returns. -/
theorem Tally.done (h : Tally push call place offered claims accepted refused) {more : List ℕ}
    {back : List (ℕ × T)} (m : ℕ) (hi : push i = some p)
    (hmore : ∀ c ∈ more, c = call i ∧ p.site ≠ none)
    (hback : ∀ c ∈ back, c.1 = call i ∧ p.site = none ∧ p.value = some c.2) :
  Tally (Function.update push i none) call (Function.update place i m) offered claims
    (accepted ++ more) (refused ++ back)
  := by
  have hne : ∀ {j : ι}, Function.update push i none j ≠ none → j ≠ i := by
    rintro j hj rfl
    rw [Function.update_self] at hj
    exact hj rfl
  have hother : ∀ {j : ι}, j ≠ i → Function.update push i none j = push j ∧
      Function.update place i m j = place j := by
    intro j hj
    exact ⟨Function.update_of_ne hj _ _, Function.update_of_ne hj _ _⟩
  have hold : ∀ {j : ι} {p' : Push T}, Function.update push i none j = some p' →
      j ≠ i ∧ push j = some p' := by
    intro j p' hp'
    have hj : j ≠ i := by
      apply hne
      rw [hp']
      rintro ⟨⟩
    rw [(hother hj).1] at hp'
    exact ⟨hj, hp'⟩
  have hcall : ∀ {j : ι} {p' : Push T}, j ≠ i → push j = some p' → call j ≠ call i := by
    intro j p' hj hp' heq
    apply hj
    apply h.own j i _ _ heq
    · rw [hp']
      rintro ⟨⟩
    · rw [hi]
      rintro ⟨⟩
  refine ⟨?_, ?_, ?_, ?_, ?_, ?_, h.offers, h.nodup, ?_, ?_⟩
  · intro j p' hp'
    exact h.rest j p' (hold hp').2
  · intro j p' hp'
    obtain ⟨hj, hp'⟩ := hold hp'
    obtain ⟨hlt, haccepted, hrefused⟩ := h.begun j p' hp'
    refine ⟨hlt, ?_, ?_⟩
    · intro hmem
      rcases List.mem_append.mp hmem with hmem | hmem
      · exact haccepted hmem
      · exact hcall hj hp' (hmore _ hmem).1
    · rw [List.map_append]
      intro hmem
      rcases List.mem_append.mp hmem with hmem | hmem
      · exact hrefused hmem
      · obtain ⟨c, hc, heq⟩ := List.mem_map.mp hmem
        exact hcall hj hp' (heq.symm.trans (hback c hc).1)
  · intro j p' v hp' hv
    exact h.value j p' v (hold hp').2 hv
  · intro j k hj hk heq
    have hji := hne hj
    have hki := hne hk
    rw [(hother hji).1] at hj
    rw [(hother hki).1] at hk
    exact h.own j k hj hk heq
  · intro j p' hp' hsite
    obtain ⟨hj, hp'⟩ := hold hp'
    rw [(hother hj).2]
    exact h.site j p' hp' hsite
  · intro j p' hp' hsite
    exact h.outside j p' (hold hp').2 hsite
  · intro c hc
    rcases List.mem_append.mp hc with hc | hc
    · exact h.claimed c hc
    · obtain ⟨rfl, hsite⟩ := hmore c hc
      exact List.mem_of_getElem? (h.site i p hi hsite)
  · intro c hc
    rcases List.mem_append.mp hc with hc | hc
    · exact h.handed c hc
    · obtain ⟨heq, hsite, hvalue⟩ := hback c hc
      rw [heq]
      exact ⟨h.value i p c.2 hi hvalue, h.outside i p hi hsite⟩

omit [DecidableEq ι] in
theorem Tally.start :
  Tally (fun _ : ι => none) (fun _ => 0) (fun _ => 0) ([] : List T) [] [] []
  := by
  refine ⟨?_, ?_, ?_, ?_, ?_, ?_, ?_, List.nodup_nil, ?_, ?_⟩
  · rintro i p ⟨⟩
  · rintro i p ⟨⟩
  · rintro i p v ⟨⟩
  · intro i j hi
    exact (hi rfl).elim
  · rintro i p ⟨⟩
  · rintro i p ⟨⟩
  · intro c hc
    cases hc
  · intro c hc
    cases hc
  · intro c hc
    cases hc

theorem getD_update (push : ι → Option (Push T)) (i : ι) (x : Option (Push T)) :
  (fun j => (Function.update push i x j).getD .pushed) =
    Function.update (fun j => (push j).getD .pushed) i (x.getD .pushed)
  := by
  ext j
  by_cases hj : j = i
  · subst hj
    rw [Function.update_self, Function.update_self]
  · rw [Function.update_of_ne hj, Function.update_of_ne hj]

omit [DecidableEq ι] in
/-- What a step of `pop` returns. -/
theorem Pop.step_result (hstep : pop.step ring head = .ok (ring', head', pop'))
    (hidle : pop.result = none) :
  (pop.frees = 0 ∧ pop'.result = none) ∨ ∃ value, pop = .freeing value ∧ pop' = .popped value
  := by
  cases pop with
  | looking =>
    left
    rw [Pop.step, bind_eq_ok] at hstep
    obtain ⟨slot, -, hstep⟩ := hstep
    split at hstep
    · cases hstep
      exact ⟨rfl, rfl⟩
    · cases hstep
      exact ⟨rfl, rfl⟩
  | emptying =>
    left
    rw [Pop.step, bind_eq_ok] at hstep
    obtain ⟨slot, -, hstep⟩ := hstep
    cases hstep
    exact ⟨rfl, rfl⟩
  | freeing value =>
    right
    rw [Pop.step] at hstep
    cases hstep
    exact ⟨value, rfl, rfl⟩
  | popped value =>
    left
    rw [Pop.step] at hstep
    cases hstep
    exact ⟨rfl, hidle⟩

/-- What a step of a call in progress does to the record of the calls. -/
theorem Tally.pushStep {spurious : Bool}
    (h : Tally push call place offered claims accepted refused) (hi : push i = some p)
    (hstep : p.step ring spurious = .ok (ring', p'))
    (hclaim : ∀ v w, p = .claiming v w → p' = .writing v w → place i = claims.length) :
  Tally (Function.update push i p'.rest) call
    (Function.update place i (p'.place claims.length (place i))) offered
    (claims ++ (p.claimed p').map fun value => (call i, value))
    (accepted ++ if p'.isPushed then [call i] else [])
    (refused ++ p'.handedBack.toList.map fun value => (call i, value))
  := by
  rcases Push.step_cases hstep (h.rest i p hi) with
    ⟨hvalue, hsite, hsite', hpushed, hclaimed⟩ | ⟨v, w, rfl, rfl⟩ | ⟨v, w, rfl, rfl⟩ | ⟨w, rfl, rfl⟩
  · rw [hclaimed, hpushed, List.map_nil, List.append_nil]
    cases hrest : p'.rest with
    | some q =>
      obtain ⟨rfl, -, hback⟩ := Push.rest_of_rest hrest
      rw [hback]
      show Tally _ _ _ _ _ (accepted ++ []) (refused ++ [])
      rw [List.append_nil, List.append_nil]
      apply h.keep hi hrest _ (Or.inl ⟨hsite, hsite'⟩)
      intro v hv
      rw [← hvalue]
      exact hv
    | none =>
      apply h.done _ hi
      · intro c hc
        cases hc
      · intro c hc
        obtain ⟨v, hv, rfl⟩ := List.mem_map.mp hc
        refine ⟨rfl, hsite, ?_⟩
        cases p' with
        | refused v' =>
          rw [List.mem_singleton.mp hv]
          exact hvalue.symm
        | _ => cases hv
  · show Tally _ _ (Function.update place i (place i)) _ _ (accepted ++ []) (refused ++ [])
    rw [List.append_nil, List.append_nil, Function.update_eq_self]
    exact h.claim hi (hclaim v w rfl rfl)
  · show Tally _ _ _ _ (claims ++ []) (accepted ++ []) (refused ++ [])
    rw [List.append_nil, List.append_nil, List.append_nil]
    apply h.keep hi rfl
    · rintro v' ⟨⟩
    · refine Or.inr ⟨?_, ?_, rfl⟩ <;> rintro ⟨⟩
  · show Tally _ _ _ _ (claims ++ []) _ _
    rw [List.append_nil]
    apply h.done _ hi
    · intro c hc
      refine ⟨List.mem_singleton.mp hc, ?_⟩
      rintro ⟨⟩
    · intro c hc
      cases hc

namespace Recorded

omit [DecidableEq ι] in
/-- The record of a new ring. -/
theorem start (hfits : ring.Fits L) (htail : ring.tail = 0)
    (hslots : ring.slots = (List.range L.capacity).map fun index => ⟨index, none⟩) :
  Recorded L ring 0 (.popped none) (fun _ : ι => none) (fun _ => 0) (fun _ => 0) [] [] [] [] []
  := ⟨Tally.start, ⟨_, Marks.start hfits htail hslots⟩, List.prefix_rfl, rfl⟩

/-- A call of `try_push` begins. -/
theorem offer
    (h : Recorded L ring head pop push call place offered claims accepted refused taken) (v : T)
    (hi : push i = none) :
  Recorded L ring head pop (Function.update push i (some (.reading v)))
    (Function.update call i offered.length) place (offered ++ [v]) claims accepted refused taken
  := by
  obtain ⟨phase, hmarks⟩ := h.marked
  refine ⟨h.tally.offer v, ⟨phase, ?_⟩, h.inOrder, h.idle⟩
  rw [getD_update]
  have hstay := hmarks.stay (i := i) (x := .reading v) (by rw [hi]; rfl) rfl (Or.inl rfl)
    (by rintro _ _ ⟨⟩)
  rw [Function.update_eq_self] at hstay
  exact hstay

/-- A call of `try_push` that is in progress takes a step. -/
theorem pushStep {spurious : Bool}
    (h : Recorded L ring head pop push call place offered claims accepted refused taken)
    (hi : push i = some p) (hstep : p.step ring spurious = .ok (ring', p'))
    (hfresh : ∀ v w, p = .claiming v w → claims.length < place i + L.period) :
  Recorded L ring' head pop (Function.update push i p'.rest) call
    (Function.update place i (p'.place claims.length (place i))) offered
    (claims ++ (p.claimed p').map fun value => (call i, value))
    (accepted ++ if p'.isPushed then [call i] else [])
    (refused ++ p'.handedBack.toList.map fun value => (call i, value)) taken
  := by
  obtain ⟨phase, hmarks⟩ := h.marked
  have hgetD : (push i).getD .pushed = p := by
    rw [hi]
    rfl
  have hlength : (claims.map Prod.snd).length = claims.length := List.length_map _
  have hwrap : ∀ v w, (push i).getD .pushed = .claiming v w →
      (claims.map Prod.snd).length < place i + L.period := by
    intro v w hclaiming
    rw [hgetD] at hclaiming
    rw [hlength]
    exact hfresh v w hclaiming
  have hclaim : ∀ v w, p = .claiming v w → p' = .writing v w → place i = claims.length := by
    rintro v w rfl rfl
    rw [← hlength]
    exact hmarks.place_of_claim hgetD hstep (hwrap v w hgetD)
  have hpush := hmarks.pushStep (i := i) (by rw [hgetD]; exact hstep) hwrap
  obtain ⟨phase', hmarks'⟩ := hpush
  rw [hgetD, hlength] at hmarks'
  have hvalues : (claims ++ (p.claimed p').map fun value => (call i, value)).map Prod.snd =
      claims.map Prod.snd ++ p.claimed p' := by
    rw [List.map_append, List.map_map]
    congr 1
    exact List.map_id _
  refine ⟨h.tally.pushStep hi hstep hclaim, ⟨phase', ?_⟩, ?_, h.idle⟩
  · rw [hvalues, getD_update]
    cases hrest : p'.rest with
    | some q =>
      obtain ⟨rfl, -, -⟩ := Push.rest_of_rest hrest
      exact hmarks'
    | none =>
      have hsite : p'.site = none := by
        cases p' with
        | pushed => rfl
        | refused _ => rfl
        | _ => cases hrest
      have hstay := hmarks'.stay (i := i) (x := .pushed) (by rw [Function.update_self]; exact hsite)
        rfl (Or.inl rfl) (by rintro _ _ ⟨⟩)
      rw [Function.update_eq_self, Function.update_idem] at hstay
      exact hstay
  · rw [hvalues]
    exact h.inOrder.trans (List.prefix_append _ _)

omit [DecidableEq ι] in
/-- A call of `pop` begins. -/
theorem look
    (h : Recorded L ring head (.popped none) push call place offered claims accepted refused taken) :
  Recorded L ring head .looking push call place offered claims accepted refused taken
  := by
  obtain ⟨phase, hmarks⟩ := h.marked
  exact ⟨h.tally, ⟨phase, hmarks.look hmarks.pop⟩, h.inOrder, rfl⟩

omit [DecidableEq ι] in
/-- A call of `pop` takes a step. -/
theorem popStep
    (h : Recorded L ring head pop push call place offered claims accepted refused taken)
    (hstep : pop.step ring head = .ok (ring', head', pop')) :
  Recorded L ring' head' (pop'.rest.getD (.popped none)) push call place offered claims accepted
    refused (taken ++ pop'.result.toList)
  := by
  obtain ⟨phase, hmarks⟩ := h.marked
  obtain ⟨phase', hmarks'⟩ := hmarks.popStep hstep
  have htaken : taken ++ pop'.result.toList <+: claims.map Prod.snd ∧
      (taken ++ pop'.result.toList).length = taken.length + pop.frees := by
    rcases Pop.step_result hstep h.idle with ⟨hfrees, hnone⟩ | ⟨value, rfl, rfl⟩
    · rw [hfrees, hnone, Option.toList_none, List.append_nil]
      exact ⟨h.inOrder, rfl⟩
    · obtain ⟨hlt, -, hvalue⟩ := hmarks.pop
      rw [List.getElem?_eq_getElem hlt] at hvalue
      cases hvalue
      refine ⟨?_, List.length_append⟩
      obtain ⟨rest, hrest⟩ := h.inOrder
      cases rest with
      | nil =>
        rw [List.append_nil] at hrest
        rw [← hrest] at hlt
        exact (Nat.lt_irrefl _ hlt).elim
      | cons x rest =>
        refine ⟨rest, ?_⟩
        simp only [← hrest, Pop.result, Option.toList_some, List.append_assoc,
          List.singleton_append, List.getElem_append_right (Nat.le_refl _), Nat.sub_self,
          List.getElem_cons_zero]
  refine ⟨h.tally, ⟨phase', ?_⟩, htaken.1, ?_⟩
  · rw [htaken.2]
    cases pop' with
    | popped value => exact hmarks'.look hmarks'.pop
    | _ => exact hmarks'
  · cases pop' <;> rfl

end Recorded

end Grommet.Ring
